import GbaStation.Cheats.BlockSemantics

/-!
# Runs of well-nested cheats

By induction on the blocks: lines that are skipped have no effect, those that are executed have the
effect of their blocks with one turn of each loop too many, and both end at the same line.
-/

namespace GbaStation.Cheats

open List (length_append)
open Function (update_eq_self update)

variable {M : Type} {mem : BytewiseMemory M} {padState : Word} {lines cs ds : List CheatLine}
  {line close : CheatLine} {b : Bool} {n : Nat} {flag : Word} {l l' : LoopState} {e : Effect M}

theorem length_line : n + (line :: cs).length = n + 1 + cs.length := by
  rw [List.length_cons]
  omega

theorem length_block :
    n + (line :: (cs ++ close :: ds)).length = n + 1 + cs.length + 1 + ds.length := by
  rw [List.length_cons, length_append, List.length_cons]
  omega

theorem Placed.block (h : Placed lines n (line :: (cs ++ close :: ds))) :
    lineAt lines n = .ok line ∧ Placed lines (n + 1) cs ∧
      lineAt lines (n + 1 + cs.length : Nat) = .ok close ∧
      Placed lines (n + 1 + cs.length + 1) ds := by
  obtain ⟨hline, hrest⟩ := h.cons
  obtain ⟨hbody, hclose⟩ := hrest.append
  exact ⟨hline, hbody, hclose.cons⟩

/-! ## Lines that are skipped -/

theorem succ_flag (h : flag.toNat + 1 < 2 ^ 32) :
    flag + 1 ≠ 0 ∧ (flag + 1).toNat = flag.toNat + 1 := ⟨by bv_omega, by bv_omega⟩

theorem turn_patch_skipped {data : List CheatLine} (hline : lineAt lines n = .ok line)
    (hflag : flag ≠ 0) (htype : line.type = .patch)
    (hdata : data.length = patchLines line.value.toNat) :
    Turn mem padState lines (machine e l flag n) (machine e l flag (n + 1 + data.length)) := by
  rw [Nat.add_right_comm, ← next_machine]
  refine turn_skipped hline hflag ?_
  rw [skipLine, if_neg (by rw [htype]; exact Bool.false_ne_true)]
  simp only [htype]
  rw [patchOp_skipped hflag, hdata]
  rfl

theorem turn_terminator_skipped (hline : lineAt lines n = .ok line) (hflag : flag + 1 ≠ 0)
    (htype : line.type = .terminator) :
    Turn mem padState lines (machine e l (flag + 1) n) (machine e l flag (n + 1)) := by
  have hclosed : terminateOp (machine e l (flag + 1) n).state = (machine e l flag n).state := by
    have hback : flag + 1 - 1 = flag := BitVec.add_sub_cancel ..
    rw [terminateOp,
      if_pos (show 0 < (machine e l (flag + 1) n).state.ifFlag from word_pos.mpr hflag)]
    show (machine e l (flag + 1 - 1) n).state = _
    rw [hback]
  rw [← next_machine]
  refine turn_skipped hline hflag ?_
  rw [skipLine, if_neg (by rw [htype]; exact Bool.false_ne_true)]
  simp only [htype, hclosed]
  rfl

/-- The lines of a loop are nothing special if they are skipped. -/
theorem turn_loop_skipped (hline : lineAt lines n = .ok line) (hflag : flag ≠ 0)
    (htype : line.type = .loop ∨ line.type = .loopExecuteVariant) :
    Turn mem padState lines (machine e l flag n) (machine e l flag (n + 1)) := by
  rw [← next_machine]
  refine turn_skipped hline hflag ?_
  rcases htype with htype | htype
  · rw [skipLine, if_neg (by rw [htype]; exact Bool.false_ne_true)]
    simp only [htype]
    rfl
  · rw [skipLine, if_neg (by rw [htype]; exact Bool.false_ne_true)]
    simp only [htype]
    rfl

theorem turn_condition_skipped (hline : lineAt lines n = .ok line) (hflag : flag ≠ 0)
    (htype : line.type.isCondition = true) :
    Turn mem padState lines (machine e l flag n) (machine e l (flag + 1) (n + 1)) := by
  rw [← next_machine]
  exact turn_skipped hline hflag (skipLine_of_condition htype)

/-- Conditions are counted, and counted back. -/
theorem Code.runs_skipped (code : Code b) (h : Placed lines n code.lines) (hflag : flag ≠ 0)
    (hdepth : flag.toNat + code.depth < 2 ^ 32) :
    Runs mem padState lines (machine e l flag n)
      (machine e l flag (n + code.lines.length)) := by
  induction code generalizing n flag with
  | nil => exact .refl
  | plain line htype rest ih =>
    obtain ⟨hline, hrest⟩ := h.cons
    rw [Code.lines, length_line]
    exact .head (turn_skipped hline hflag (skipLine_of_plain htype _)) (ih hrest hflag hdepth)
  | patch line data htype hdata rest ih =>
    obtain ⟨hline, hrest⟩ := h.cons
    rw [Code.lines, length_line, length_append, ← Nat.add_assoc]
    exact .head (turn_patch_skipped hline hflag htype hdata) (ih hrest.append.2 hflag hdepth)
  | condition line htype body close hclose rest ihBody ihRest =>
    obtain ⟨hline, hbody, hclosed, hrest⟩ := h.block
    rw [Code.depth] at hdepth
    obtain ⟨hflag', hsucc⟩ := (@succ_flag flag) (by omega)
    rw [Code.lines, length_block]
    exact .head (turn_condition_skipped hline hflag htype)
      ((ihBody hbody hflag' (by omega)).trans
        (.head (turn_terminator_skipped hclosed hflag' hclose) (ihRest hrest hflag (by omega))))
  | loop line htype body close hclose rest ihBody ihRest =>
    obtain ⟨hline, hbody, hclosed, hrest⟩ := h.block
    rw [Code.depth] at hdepth
    rw [Code.lines, length_block]
    exact .head (turn_loop_skipped hline hflag (.inl htype))
      ((ihBody hbody hflag (by omega)).trans
        (.head (turn_loop_skipped hclosed hflag (.inr hclose)) (ihRest hrest hflag (by omega))))

theorem Opened.runs_skipped (opened : Opened b) (h : Placed lines n opened.lines)
    (hflag : flag ≠ 0) (hdepth : flag.toNat + opened.depth < 2 ^ 32) :
    ∃ flag', flag' ≠ 0 ∧ Runs mem padState lines (machine e l flag n)
      (machine e l flag' (n + opened.lines.length)) := by
  induction opened generalizing n flag with
  | last code => exact ⟨flag, hflag, code.runs_skipped h hflag hdepth⟩
  | condition code line htype rest ih =>
    obtain ⟨hcode, hmore⟩ := h.append
    obtain ⟨hline, hrest⟩ := hmore.cons
    rw [Opened.depth] at hdepth
    obtain ⟨hflag', hsucc⟩ := (@succ_flag flag) (by omega)
    obtain ⟨flag', hlast, hruns⟩ := ih hrest hflag' (by omega)
    refine ⟨flag', hlast, ?_⟩
    rw [Opened.lines, length_append, ← Nat.add_assoc, length_line]
    exact (code.runs_skipped hcode hflag (by omega)).trans
      (.head (turn_condition_skipped hline hflag htype) hruns)
  | loop code line htype rest ih =>
    obtain ⟨hcode, hmore⟩ := h.append
    obtain ⟨hline, hrest⟩ := hmore.cons
    rw [Opened.depth] at hdepth
    obtain ⟨flag', hlast, hruns⟩ := ih hrest hflag (by omega)
    refine ⟨flag', hlast, ?_⟩
    rw [Opened.lines, length_append, ← Nat.add_assoc, length_line]
    exact (code.runs_skipped hcode hflag (by omega)).trans
      (.head (turn_loop_skipped hline hflag (.inl htype)) hruns)

/-! ## Lines that are executed -/

theorem turn_loop (hline : lineAt lines n = .ok line) (htype : line.type = .loop) :
    Turn mem padState lines (machine e l 0 n)
      (machine e ⟨decide (l.count < line.value), l.count + 1, n⟩ 0 (n + 1)) := by
  rw [← next_machine]
  exact turn_executed hline (executeLine_of_loop htype)

/-- A `D0` that closes a condition that holds. -/
theorem turn_terminator (hline : lineAt lines n = .ok line) (htype : line.type = .terminator) :
    Turn mem padState lines (machine e l 0 n) (machine e l 0 (n + 1)) := by
  rw [← next_machine]
  refine turn_executed hline ?_
  unfold executeLine
  simp only [htype]
  rfl

theorem turn_condition (hline : lineAt lines n = .ok line) (htype : line.type.isCondition = true) :
    Turn mem padState lines (machine e l 0 n)
      (machine e l (if holds mem padState line e then 0 else 1) (n + 1)) := by
  rw [← next_machine]
  exact turn_executed hline (executeLine_of_condition htype)

variable {body : Effect M → Effect M} {last : Nat}

/-- The count is compared before it is incremented, and a loop whose count has reached the bound is
still gone through. -/
theorem runs_loop (hline : lineAt lines n = .ok line) (htype : line.type = .loop)
    (hlast : lineAt lines last = .ok close) (hclose : close.type = .loopExecuteVariant)
    (hbody : ∀ l e, Runs mem padState lines (machine e l 0 (n + 1)) (machine (body e) l 0 last))
    {turns : Nat} (hturns : l.count.toNat + turns = line.value.toNat) :
    Runs mem padState lines (machine e l 0 n)
      (machine (body^[turns + 1] e) ⟨false, 0, n⟩ 0 (last + 1)) := by
  induction turns generalizing l e with
  | zero =>
    have hend : decide (l.count < line.value) = false := decide_eq_false (by bv_omega)
    have hturn := (@turn_loop _ mem padState _ _ _ l e) hline htype
    rw [hend] at hturn
    exact .head hturn ((hbody _ e).trans (.single (turn_end hlast rfl hclose)))
  | succ turns ih =>
    have hmore : decide (l.count < line.value) = true := decide_eq_true (by bv_omega)
    have hturn := (@turn_loop _ mem padState _ _ _ l e) hline htype
    rw [hmore] at hturn
    have hnext := (@ih ⟨true, l.count + 1, n⟩ (body e)) (by
      show (l.count + 1).toNat + turns = _
      bv_omega)
    exact .head hturn ((hbody _ e).trans (.head (turn_back hlast rfl rfl (.inl hclose)) hnext))

/-- The same for a loop that a `D2` closes. In all turns but the last one the `D2` is executed. -/
theorem runs_closed_loop {reached : Effect M → Prop} (hline : lineAt lines n = .ok line)
    (htype : line.type = .loop) (hlast : lineAt lines last = .ok close)
    (hclose : close.type = .fullTerminator)
    (hbody : ∀ l e, ∃ flag, (reached e → flag = 0) ∧
      Runs mem padState lines (machine e l 0 (n + 1)) (machine (body e) l flag last))
    {turns : Nat} (hturns : l.count.toNat + turns = line.value.toNat)
    (hrepeats : ∀ turn < turns, reached (body^[turn] e)) :
    Runs mem padState lines (machine e l 0 n)
      (machine { memory := (body^[turns + 1] e).memory } ⟨false, 0, n⟩ 0 (last + 1)) := by
  induction turns generalizing l e with
  | zero =>
    have hend : decide (l.count < line.value) = false := decide_eq_false (by bv_omega)
    have hturn := (@turn_loop _ mem padState _ _ _ l e) hline htype
    rw [hend] at hturn
    obtain ⟨flag, -, hruns⟩ := hbody ⟨false, l.count + 1, n⟩ e
    exact .head hturn (hruns.trans (.single (turn_reset hlast rfl hclose)))
  | succ turns ih =>
    have hmore : decide (l.count < line.value) = true := decide_eq_true (by bv_omega)
    have hturn := (@turn_loop _ mem padState _ _ _ l e) hline htype
    rw [hmore] at hturn
    obtain ⟨flag, hzero, hruns⟩ := hbody ⟨true, l.count + 1, n⟩ e
    obtain rfl := hzero (hrepeats 0 (Nat.succ_pos turns))
    have hnext := (@ih ⟨true, l.count + 1, n⟩ (body e)) (by
      show (l.count + 1).toNat + turns = _
      bv_omega) fun turn hturn => hrepeats (turn + 1) (Nat.succ_lt_succ hturn)
    exact .head hturn (hruns.trans (.head (turn_back hlast rfl rfl (.inr hclose)) hnext))

/-- Code has the effect of its blocks. In a loop it leaves the loop as it is, and elsewhere there is
no loop behind it. -/
theorem Code.runs_executed (code : Code b) (h : Placed lines n code.lines)
    (hdepth : code.depth < 2 ^ 32) (hidle : b = false → l.Idle) :
    ∃ l', (b = true → l' = l) ∧ (b = false → l'.Idle) ∧ Runs mem padState lines (machine e l 0 n)
      (machine (code.effect mem padState executedTurns e) l' 0 (n + code.lines.length)) := by
  induction code generalizing n l e with
  | nil => exact ⟨l, fun _ => rfl, hidle, .refl⟩
  | plain line htype rest ih =>
    obtain ⟨hline, hrest⟩ := h.cons
    obtain ⟨l', hsame, hidle', hruns⟩ := ih hrest hdepth hidle
    refine ⟨l', hsame, hidle', ?_⟩
    rw [Code.lines, length_line]
    exact .head (turn_executed hline (executeLine_of_plain htype)) hruns
  | patch line data htype hdata rest ih =>
    obtain ⟨hline, hrest⟩ := h.cons
    obtain ⟨l', hsame, hidle', hruns⟩ := ih hrest.append.2 hdepth hidle
    refine ⟨l', hsame, hidle', ?_⟩
    rw [Code.lines, length_line, length_append, ← Nat.add_assoc]
    refine .head (turn_executed hline (executeLine_of_patch htype hdata h)) ?_
    rw [next_machine, Nat.add_right_comm]
    exact hruns
  | condition line htype body close hclose rest ihBody ihRest =>
    obtain ⟨hline, hbody, hclosed, hrest⟩ := h.block
    rw [Code.depth] at hdepth
    have hturn := (@turn_condition _ mem padState _ _ _ l e) hline htype
    by_cases hholds : holds mem padState line e = true
    · rw [if_pos hholds] at hturn
      obtain ⟨l₁, hsame₁, hidle₁, hruns₁⟩ := ihBody hbody (by omega) hidle
      obtain ⟨l₂, hsame₂, hidle₂, hruns₂⟩ := ihRest hrest (by omega) hidle₁
      refine ⟨l₂, fun hb => (hsame₂ hb).trans (hsame₁ hb), hidle₂, ?_⟩
      rw [Code.lines, length_block, Code.effect, if_pos hholds]
      exact .head hturn (hruns₁.trans (.head (turn_terminator hclosed hclose) hruns₂))
    · rw [if_neg hholds] at hturn
      obtain ⟨l₂, hsame₂, hidle₂, hruns₂⟩ := ihRest hrest (by omega) hidle
      refine ⟨l₂, hsame₂, hidle₂, ?_⟩
      rw [Code.lines, length_block, Code.effect, if_neg hholds]
      have hskipped := (@Code.runs_skipped _ mem padState _ _ _ 1 l e) body hbody (by decide) (by
        show 1 + body.depth < 2 ^ 32
        omega)
      exact .head hturn (hskipped.trans
        (.head ((@turn_terminator_skipped _ _ _ _ _ _ 0) hclosed (by decide) hclose) hruns₂))
  | loop line htype body close hclose rest ihBody ihRest =>
    obtain ⟨hline, hbody, hclosed, hrest⟩ := h.block
    rw [Code.depth] at hdepth
    have hrun (l : LoopState) (e : Effect M) : Runs mem padState lines (machine e l 0 (n + 1))
        (machine (body.effect mem padState executedTurns e) l 0 (n + 1 + body.lines.length)) := by
      obtain ⟨l', hsame, -, hruns⟩ := (@ihBody _ l e) hbody (by omega) nofun
      exact hsame rfl ▸ hruns
    have hloop := (@runs_loop _ _ _ _ _ _ _ l e _ _) hline htype hclosed hclose hrun (by
      rw [(hidle rfl).2]
      exact Nat.zero_add _)
    obtain ⟨l', hsame, hidle', hruns⟩ := (@ihRest _ ⟨false, 0, n⟩ _) hrest (by omega)
      fun _ => ⟨rfl, rfl⟩
    refine ⟨l', nofun, hidle', ?_⟩
    rw [Code.lines, length_block]
    exact hloop.trans hruns

/-- The last line of a loop that a `D2` closes is reached, executed if all conditions hold. -/
theorem Opened.runs_executed (opened : Opened b) (hb : b = true) (h : Placed lines n opened.lines)
    (hdepth : opened.depth < 2 ^ 32) :
    ∃ flag, (opened.Reached mem padState e → flag = 0) ∧ Runs mem padState lines (machine e l 0 n)
      (machine (opened.effect mem padState executedTurns e) l flag (n + opened.lines.length)) := by
  induction opened generalizing n e with
  | last code =>
    obtain ⟨l', hsame, -, hruns⟩ := (@Code.runs_executed _ mem padState _ _ _ l e) code h hdepth
      fun hfalse => by
        rw [hb] at hfalse
        cases hfalse
    obtain rfl := hsame hb
    exact ⟨0, fun _ => rfl, hruns⟩
  | condition code line htype rest ih =>
    obtain ⟨hcode, hmore⟩ := h.append
    obtain ⟨hline, hrest⟩ := hmore.cons
    rw [Opened.depth] at hdepth
    obtain ⟨l', hsame, -, hruns⟩ := (@Code.runs_executed _ mem padState _ _ _ l e) code hcode
      (by omega) fun hfalse => by
        rw [hb] at hfalse
        cases hfalse
    obtain rfl := hsame hb
    have hturn := (@turn_condition _ mem padState _ _ _ l'
      (code.effect mem padState executedTurns e)) hline htype
    rw [Opened.lines, length_append, ← Nat.add_assoc, length_line, Opened.effect]
    by_cases hholds : holds mem padState line (code.effect mem padState executedTurns e) = true
    · rw [if_pos hholds] at hturn
      obtain ⟨flag, hzero, hmore⟩ := ih hb hrest (by omega)
      refine ⟨flag, fun hreached => hzero hreached.2, ?_⟩
      simp only [if_pos hholds]
      exact hruns.trans (.head hturn hmore)
    · rw [if_neg hholds] at hturn
      obtain ⟨flag, -, hmore⟩ := (@Opened.runs_skipped _ mem padState _ _ _ 1 _ _) rest hrest
        (by decide) (by
        show 1 + rest.depth < 2 ^ 32
        omega)
      refine ⟨flag, fun hreached => absurd hreached.1 hholds, ?_⟩
      simp only [if_neg hholds]
      exact hruns.trans (.head hturn hmore)
  | loop => cases hb

/-- Up to the `D2`, and behind it. -/
theorem Opened.runs_closed (opened : Opened b) (hb : b = false)
    (h : Placed lines n (opened.lines ++ [close])) (hclose : close.type = .fullTerminator)
    (hdepth : opened.depth < 2 ^ 32) (hidle : l.Idle)
    (hrepeats : opened.Repeats mem padState e) :
    ∃ l', l'.Idle ∧ Runs mem padState lines (machine e l 0 n)
      (machine { memory := (opened.effect mem padState executedTurns e).memory } l' 0
        (n + opened.lines.length + 1)) := by
  induction opened generalizing n e l with
  | last code =>
    obtain ⟨hcode, hlast⟩ := h.append
    obtain ⟨l', -, hidle', hruns⟩ := code.runs_executed hcode hdepth fun _ => hidle
    exact ⟨⟨false, 0, l'.back⟩, ⟨rfl, rfl⟩,
      hruns.trans (.single (turn_reset hlast.cons.1 (hidle' hb).1 hclose))⟩
  | condition code line htype rest ih =>
    rw [Opened.lines, List.append_assoc] at h
    obtain ⟨hcode, hmore⟩ := h.append
    obtain ⟨hline, hrest⟩ := hmore.cons
    rw [Opened.depth] at hdepth
    obtain ⟨l₁, -, hidle₁, hruns⟩ := (@Code.runs_executed _ mem padState _ _ _ l e) code hcode
      (by omega) fun _ => hidle
    have hturn := (@turn_condition _ mem padState _ _ _ l₁
      (code.effect mem padState executedTurns e)) hline htype
    rw [Opened.lines, length_append, ← Nat.add_assoc, length_line, Opened.effect]
    by_cases hholds : holds mem padState line (code.effect mem padState executedTurns e) = true
    · rw [if_pos hholds] at hturn
      obtain ⟨l₂, hidle₂, hmore⟩ := ih hb hrest (by omega) (hidle₁ hb) (hrepeats hholds)
      refine ⟨l₂, hidle₂, ?_⟩
      simp only [if_pos hholds]
      exact hruns.trans (.head hturn hmore)
    · rw [if_neg hholds] at hturn
      obtain ⟨hskipped, hlast⟩ := hrest.append
      obtain ⟨flag, -, hmore⟩ := (@Opened.runs_skipped _ mem padState _ _ _ 1 _ _) rest hskipped
        (by decide) (by
        show 1 + rest.depth < 2 ^ 32
        omega)
      refine ⟨⟨false, 0, l₁.back⟩, ⟨rfl, rfl⟩, ?_⟩
      simp only [if_neg hholds]
      exact hruns.trans (.head hturn
        (hmore.trans (.single (turn_reset hlast.cons.1 (hidle₁ hb).1 hclose))))
  | loop code line htype rest =>
    rw [Opened.lines, List.append_assoc] at h
    obtain ⟨hcode, hmore⟩ := h.append
    obtain ⟨hline, hbody⟩ := hmore.cons
    obtain ⟨hrest, hlast⟩ := hbody.append
    rw [Opened.depth] at hdepth
    obtain ⟨l₁, -, hidle₁, hruns⟩ := (@Code.runs_executed _ mem padState _ _ _ l e) code hcode
      (by omega) fun _ => hidle
    have hturns : l₁.count.toNat + line.value.toNat = line.value.toNat := by
      rw [(hidle₁ hb).2]
      exact Nat.zero_add _
    have hloop := runs_closed_loop hline htype hlast.cons.1 hclose
      (fun l e => (@Opened.runs_executed _ mem padState _ _ _ l e) rest rfl hrest (by omega))
      hturns hrepeats
    refine ⟨⟨false, 0, (n + code.lines.length : Nat)⟩, ⟨rfl, rfl⟩, ?_⟩
    rw [Opened.lines, length_append, ← Nat.add_assoc, length_line]
    exact hruns.trans hloop

/-! ## Whole cheats -/

/-- The blocks that are closed by a `D2`, one after the other. -/
theorem runs_closed (parts : List Closed)
    (h : Placed lines n (parts.flatMap fun part => part.1.lines ++ [part.2.1]))
    (hdepth : ∀ part ∈ parts, part.1.depth < 2 ^ 32) (hidle : l.Idle)
    (hrepeats : RepeatsAll mem padState parts e) :
    ∃ l', l'.Idle ∧ Runs mem padState lines (machine e l 0 n)
      (machine (parts.foldl (fun e part => closedEffect mem padState executedTurns part.1 e) e) l' 0
        (n + (parts.flatMap fun part => part.1.lines ++ [part.2.1]).length)) := by
  induction parts generalizing n e l with
  | nil => exact ⟨l, hidle, .refl⟩
  | cons part parts ih =>
    rw [List.flatMap_cons] at h ⊢
    obtain ⟨hpart, hparts⟩ := h.append
    obtain ⟨hdepth, hdepths⟩ := List.forall_mem_cons.mp hdepth
    obtain ⟨l₁, hidle₁, hruns⟩ := part.1.runs_closed rfl hpart part.2.2 hdepth hidle hrepeats.1
    rw [length_append, List.length_singleton] at hparts
    obtain ⟨l₂, hidle₂, hmore⟩ := ih hparts hdepths hidle₁ hrepeats.2
    refine ⟨l₂, hidle₂, ?_⟩
    rw [length_append, length_append, List.length_singleton, ← Nat.add_assoc]
    exact hruns.trans hmore

variable {cheat : Cheat} {m : M}

/-- `Execute` ends, with the effect of the blocks. -/
theorem Cheat.Regular.runs (h : cheat.Regular mem padState m) :
    ∃ r, Runs mem padState cheat.lines (start m) r ∧ Finished cheat.lines r ∧
      Effect.mk r.memory r.state.offset r.state.reg =
        cheat.effect mem padState executedTurns m := by
  have hplaced : Placed cheat.lines 0 cheat.lines := ⟨[], [], (List.append_nil _).symm, rfl⟩
  obtain ⟨hclosed, hlast⟩ := hplaced.append
  obtain ⟨l₁, hidle₁, hruns⟩ := (@runs_closed _ mem padState _ _ {} { memory := m }) cheat.closed
    hclosed h.depth.1 ⟨rfl, rfl⟩ h.repeats
  obtain ⟨l₂, -, -, hmore⟩ := cheat.last.runs_executed hlast h.depth.2 fun _ => hidle₁
  refine ⟨_, hruns.trans hmore, ?_, rfl⟩
  show (cheat.lines.length : Int) ≤ ((_ : Nat) : Int)
  rw [Cheat.lines, length_append, Nat.zero_add]

/-- All ends of `Execute` are the same. -/
theorem Cheat.Regular.effect_eq (h : cheat.Regular mem padState m) {r : Machine M}
    (hruns : Runs mem padState cheat.lines (start m) r) (hfinished : Finished cheat.lines r) :
    Effect.mk r.memory r.state.offset r.state.reg =
      cheat.effect mem padState executedTurns m := by
  obtain ⟨r', hruns', hfinished', heffect⟩ := h.runs
  rcases Relation.ReflTransGen.total_of_right_unique turn_unique hruns hruns' with hmore | hmore
  · rw [← heffect, runs_of_finished hfinished hmore]
  · rw [← heffect, runs_of_finished hfinished' hmore]

/-- As long as no `D2` goes back to a loop from a condition that does not hold, `Execute` does what
the comments say exactly if one more turn of each loop makes no difference. -/
theorem Cheat.follows_iff (mem : BytewiseMemory M) (padState : Word) (cheat : Cheat) (m : M)
    (h : cheat.Regular mem padState m) :
    cheat.Follows mem padState m ↔
      cheat.effect mem padState executedTurns m = cheat.effect mem padState documentedTurns m := by
  constructor
  · rintro ⟨r, hruns, hfinished, heffect⟩
    exact (h.effect_eq hruns hfinished).symm.trans heffect
  · intro hsame
    obtain ⟨r, hruns, hfinished, heffect⟩ := h.runs
    exact ⟨r, hruns, hfinished, heffect.trans hsame⟩

theorem write16_read16 (m : FlatMemory) (a : Word) : m.write16 a (m.read16 a) = m := by
  rw [FlatMemory.write16, FlatMemory.read16, BitVec.extractLsb'_append_eq_right,
    BitVec.extractLsb'_append_eq_left, update_eq_self, update_eq_self]

theorem write8_read8 (m : FlatMemory) (a : Word) : update m a (m a) = m :=
  update_eq_self a m

theorem write32_read32 (m : FlatMemory) (a : Word) : m.write32 a (m.read32 a) = m := by
  rw [FlatMemory.write32, FlatMemory.read32, BitVec.extractLsb'_append_eq_right,
    BitVec.extractLsb'_append_eq_left, write16_read16, write16_read16]

theorem write32_bytes (m : FlatMemory) (a v : Word) : m.write32 a v =
    update (update (update (update m a (v.extractLsb' 0 8))
      (a + 1) (v.extractLsb' 8 8)) (a + 2) (v.extractLsb' 16 8)) (a + 3) (v.extractLsb' 24 8) := by
  have h3 : a + 2 + 1 = a + 3 := by bv_omega
  have hbyte : ∀ i j, j + 8 ≤ 16 →
      (v.extractLsb' i 16).extractLsb' j 8 = v.extractLsb' (i + j) 8 := fun i j hj => by
    ext k hk
    simp [Nat.add_assoc, show j + k < 16 by omega]
  rw [FlatMemory.write32, FlatMemory.write16, FlatMemory.write16, h3, hbyte 0 0 (by decide),
    hbyte 0 8 (by decide), hbyte 16 0 (by decide), hbyte 16 8 (by decide)]

/-- It is bytewise. -/
def flatBytewise : BytewiseMemory FlatMemory where
  toCheatMemory := flatMemory
  write8_read8 := write8_read8
  write16_read16 := write16_read16
  write32_read32 := write32_read32
  write32_bytes := write32_bytes

/-- A word is written if it is zero, and a loop of three turns sets the register. -/
def settingCheat : Cheat where
  closed := []
  last := .condition ⟨.equalTo32, 16, 0, 0x50000010⟩ rfl
    (.plain ⟨.write32, 16, 5, 0x00000010⟩ rfl .nil) ⟨.terminator, 0, 0, 0xD0000000⟩ rfl
    (.loop ⟨.loop, 0, 3, 0xC0000000⟩ rfl (.plain ⟨.setValue, 0, 7, 0xD5000000⟩ rfl .nil)
      ⟨.loopExecuteVariant, 0, 0, 0xD1000000⟩ rfl .nil)

/-- The turn too many makes no difference. -/
theorem Cheat.follows_iff_setting : settingCheat.Follows flatMemory 0 fun _ => 0 := by
  have hregular : settingCheat.Regular flatBytewise.toCheatMemory 0 fun _ => 0 :=
    ⟨⟨nofun, by decide⟩, trivial⟩
  exact (Cheat.follows_iff flatBytewise 0 settingCheat _ hregular).mpr rfl

/-- A loop of one turn, which adds one to the register: it is added twice. -/
def countingCheat : Cheat where
  closed := []
  last := .loop ⟨.loop, 0, 1, 0xC0000000⟩ rfl
    (.plain ⟨.addValue, 0, 1, 0xD4000000⟩ rfl .nil) ⟨.loopExecuteVariant, 0, 0, 0xD1000000⟩ rfl .nil

theorem countingCheat_regular (m : M) : countingCheat.Regular mem padState m :=
  ⟨⟨nofun, by decide⟩, trivial⟩

theorem not_follows_countingCheat : ¬ countingCheat.Follows flatMemory 0 fun _ => 0 := by
  rintro ⟨r, hruns, hfinished, heffect⟩
  have hsame := ((@countingCheat_regular _ flatBytewise _ _).effect_eq hruns hfinished).symm.trans heffect
  have hreg : (2 : Word) = 1 := congrArg Effect.reg hsame
  exact absurd hreg (by decide)

end GbaStation.Cheats
