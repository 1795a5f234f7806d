import GbaStation.Cheats.Patch
import Mathlib.Data.Prod.Lex

/-!
# Termination of cheats

The line number goes back only at the end of a loop, to the line of the last `C0` that was executed.
-/

namespace GbaStation.Cheats

variable {M : Type} {mem : CheatMemory M} {padState : Word} {lines pre data post : List CheatLine}
  {line : CheatLine} {r r' : Machine M} {s s' : State}

/-! ## Turns -/

/-- The same line number, and the same loop. -/
structure SameControl (s s' : State) : Prop where
  current : s'.currentLineNr = s.currentLineNr
  back : s'.loopBackLine = s.loopBackLine
  flag : s'.loopFlag = s.loopFlag
  count : s.loopFlag = true → s'.loopCount = s.loopCount

theorem SameControl.refl (s : State) : SameControl s s := ⟨rfl, rfl, rfl, fun _ => rfl⟩

/-- What a turn at a line does to the line number and the loop. -/
inductive Moves (line : CheatLine) (s s' : State) : Prop where
  | forward (n : Nat) (hloop : s.ifFlag = 0 → line.type ≠ .loop)
      (hsame : SameControl { s with currentLineNr := s.currentLineNr + n + 1 } s')
  | loop (hexecuted : s.ifFlag = 0) (htype : line.type = .loop)
      (heq : s' = { loopOp line s with currentLineNr := s.currentLineNr + 1 })
  | back (hexecuted : s.ifFlag = 0) (htype : line.type ≠ .loop) (hflag : s.loopFlag = true)
      (heq : s' = { s with currentLineNr := s.loopBackLine })
  | skippedBack (hskipped : s.ifFlag ≠ 0) (htype : line.type = .fullTerminator)
      (hflag : s.loopFlag = true) (heq : s' = { s with currentLineNr := s.loopBackLine })

theorem Moves.of_sameControl (hloop : s.ifFlag = 0 → line.type ≠ .loop) (h : SameControl s s') :
    Moves line s { s' with currentLineNr := s'.currentLineNr + 1 } := by
  refine .forward 0 hloop ⟨?_, h.back, h.flag, h.count⟩
  show s'.currentLineNr + 1 = s.currentLineNr + 0 + 1
  rw [h.current, Int.add_zero]

/-- A jump to the line of the loop, and the increment. -/
theorem next_jump (s : State) (m : M) :
    ({ state := { s with currentLineNr := s.loopBackLine - 1 }, memory := m } :
      Machine M).next.state = { s with currentLineNr := s.loopBackLine } := by
  unfold Machine.next
  simp only [Int.sub_add_cancel]

/-- An end of a loop that does not go on. -/
theorem sameControl_loopExecuteVariantOp (hflag : ¬ s.loopFlag = true) :
    SameControl s (loopExecuteVariantOp s) := by
  rw [loopExecuteVariantOp, if_neg hflag]
  exact ⟨rfl, rfl, rfl, fun h => absurd h hflag⟩

theorem sameControl_fullTerminateOp (hflag : ¬ s.loopFlag = true) :
    SameControl s (fullTerminateOp s) := by
  rw [fullTerminateOp, if_neg hflag]
  exact ⟨rfl, rfl, (Bool.not_eq_true _ ▸ hflag).symm, fun h => absurd h hflag⟩

theorem sameControl_compOp {n : Nat} (read : M → Word → BitVec n) (comp : BitVec n → Bool)
    (line : CheatLine) (s : State) (m : M) : SameControl s (compOp read comp line s m) := by
  unfold compOp
  split_ifs <;> exact ⟨rfl, rfl, rfl, fun _ => rfl⟩

theorem sameControl_condition (mem : CheatMemory M) (padState : Word) (line : CheatLine)
    (s : State) (m : M) : SameControl s (condition mem padState line s m) := by
  unfold condition
  cases line.type with
  | joker =>
    show SameControl s (jokerOp padState line s)
    unfold jokerOp
    split_ifs <;> exact ⟨rfl, rfl, rfl, fun _ => rfl⟩
  | greaterThan32 | lessThan32 | equalTo32 | notEqualTo32 | greaterThan16WithMask
  | lessThan16WithMask | equalTo16WithMask | notEqualTo16WithMask =>
    exact sameControl_compOp ..
  | _ => exact .refl s

theorem sameControl_terminateOp (s : State) : SameControl s (terminateOp s) := by
  unfold terminateOp
  split_ifs <;> exact ⟨rfl, rfl, rfl, fun _ => rfl⟩

/-- A line that has to do with neither loops nor patches. -/
theorem sameControl_executeLine {r₁ : Machine M} (hloop : line.type ≠ .loop)
    (hvariant : line.type ≠ .loopExecuteVariant) (hfull : line.type ≠ .fullTerminator)
    (hpatch : line.type ≠ .patch) (h : executeLine mem padState lines line r = .ok r₁) :
    SameControl r.state r₁.state := by
  unfold executeLine at h
  cases htype : line.type with
  | loop => exact absurd htype hloop
  | loopExecuteVariant => exact absurd htype hvariant
  | fullTerminator => exact absurd htype hfull
  | patch => exact absurd htype hpatch
  | greaterThan32 | lessThan32 | equalTo32 | notEqualTo32 | greaterThan16WithMask
  | lessThan16WithMask | equalTo16WithMask | notEqualTo16WithMask | joker =>
    simp only [htype] at h
    cases h
    exact sameControl_condition ..
  | terminator =>
    simp only [htype] at h
    cases h
    exact sameControl_terminateOp _
  | _ =>
    simp only [htype] at h
    cases h
    exact ⟨rfl, rfl, rfl, fun _ => rfl⟩

theorem moves_executeLine {r₁ : Machine M} (hexecuted : r.state.ifFlag = 0)
    (hlines : lines = pre ++ line :: data) (hcurrent : r.state.currentLineNr = pre.length)
    (h : executeLine mem padState lines line r = .ok r₁) : Moves line r.state r₁.next.state := by
  by_cases hloop : line.type = .loop
  · simp only [executeLine, hloop] at h
    cases h
    exact .loop hexecuted hloop rfl
  by_cases hvariant : line.type = .loopExecuteVariant
  · simp only [executeLine, hvariant] at h
    cases h
    by_cases hflag : r.state.loopFlag = true
    · refine .back hexecuted hloop hflag ?_
      rw [loopExecuteVariantOp, if_pos hflag]
      exact next_jump ..
    · exact .of_sameControl (fun _ => hloop) (sameControl_loopExecuteVariantOp hflag)
  by_cases hfull : line.type = .fullTerminator
  · simp only [executeLine, hfull] at h
    cases h
    by_cases hflag : r.state.loopFlag = true
    · refine .back hexecuted hloop hflag ?_
      rw [fullTerminateOp, if_pos hflag]
      exact next_jump ..
    · exact .of_sameControl (fun _ => hloop) (sameControl_fullTerminateOp hflag)
  by_cases hpatch : line.type = .patch
  · simp only [executeLine, hpatch] at h
    rw [patchOp_executed hexecuted hlines hcurrent] at h
    split_ifs at h
    cases h
    refine .forward (patchLines line.value.toNat) (fun _ => hloop) ⟨?_, rfl, rfl, fun _ => rfl⟩
    show (pre.length : Int) + _ + 1 = _
    rw [hcurrent]
  · exact .of_sameControl (fun _ => hloop) (sameControl_executeLine hloop hvariant hfull hpatch h)

theorem moves_skipLine {r₁ : Machine M} (hskipped : r.state.ifFlag ≠ 0)
    (h : skipLine mem lines line r = .ok r₁) : Moves line r.state r₁.next.state := by
  have hloop : r.state.ifFlag = 0 → line.type ≠ .loop := fun hzero => absurd hzero hskipped
  unfold skipLine at h
  split_ifs at h with hcondition
  · cases h
    exact .of_sameControl hloop ⟨rfl, rfl, rfl, fun _ => rfl⟩
  split at h
  · rw [patchOp_skipped hskipped] at h
    cases h
    exact .forward (patchLines line.value.toNat) hloop ⟨rfl, rfl, rfl, fun _ => rfl⟩
  · cases h
    exact .of_sameControl hloop (sameControl_terminateOp _)
  · rename_i hfull
    cases h
    by_cases hflag : r.state.loopFlag = true
    · refine .skippedBack hskipped hfull hflag ?_
      rw [fullTerminateOp, if_pos hflag]
      exact next_jump ..
    · exact .of_sameControl hloop (sameControl_fullTerminateOp hflag)
  · cases h
    exact .of_sameControl hloop (.refl _)

/-- A turn is at a line, and does to the line number and the loop what the line says. -/
theorem moves_of_turn (h : Turn mem padState lines r r') :
    ∃ pre line post, lines = pre ++ line :: post ∧ r.state.currentLineNr = pre.length ∧
      Moves line r.state r'.state := by
  obtain ⟨-, hstep⟩ := h
  cases hat : lineAt lines r.state.currentLineNr with
  | error e =>
    rw [step, hat] at hstep
    cases hstep
  | ok line =>
    obtain ⟨pre, post, hlines, hcurrent⟩ := lineAt_ok_iff.mp hat
    refine ⟨pre, line, post, hlines, hcurrent, ?_⟩
    by_cases hflag : r.state.ifFlag = 0
    · rw [step_executed hat hflag] at hstep
      cases hline : executeLine mem padState lines line r with
      | error e =>
        rw [hline] at hstep
        cases hstep
      | ok r₁ =>
        rw [hline] at hstep
        cases hstep
        exact moves_executeLine hflag hlines hcurrent hline
    · rw [step_skipped hat hflag] at hstep
      cases hline : skipLine mem lines line r with
      | error e =>
        rw [hline] at hstep
        cases hstep
      | ok r₁ =>
        rw [hline] at hstep
        cases hstep
        exact moves_skipLine hflag hline

/-! ## The loop -/

/-- The line of the loop is behind, and a loop that goes on has not counted to its end. -/
structure InLoop (lines : List CheatLine) (s : State) : Prop where
  nonneg : 0 ≤ s.loopBackLine
  behind : s.loopBackLine ≤ s.currentLineNr
  counts : s.loopFlag = true → ∃ pre line post, lines = pre ++ line :: post ∧
    s.loopBackLine = pre.length ∧ line.type = .loop ∧ s.loopCount ≤ line.value

theorem inLoop_start (lines : List CheatLine) (m : M) : InLoop lines (start m).state :=
  ⟨le_rfl, le_rfl, nofun⟩

theorem InLoop.moves (h : InLoop lines s) (hlines : lines = pre ++ line :: post)
    (hcurrent : s.currentLineNr = pre.length) (hmoves : Moves line s s') : InLoop lines s' := by
  cases hmoves with
  | forward n _ hsame =>
    refine ⟨hsame.back ▸ h.nonneg, ?_, fun hflag => ?_⟩
    · rw [hsame.back, hsame.current]
      show s.loopBackLine ≤ s.currentLineNr + n + 1
      have := h.behind
      omega
    · have hflag : s.loopFlag = true := hsame.flag.symm.trans hflag
      rw [hsame.back, hsame.count hflag]
      exact h.counts hflag
  | loop _ htype heq =>
    subst heq
    refine ⟨?_, ?_, fun hflag => ⟨pre, line, post, hlines, hcurrent, htype, ?_⟩⟩
    · show 0 ≤ s.currentLineNr
      exact h.nonneg.trans h.behind
    · show s.currentLineNr ≤ s.currentLineNr + 1
      omega
    · have hlt : s.loopCount < line.value := of_decide_eq_true hflag
      show s.loopCount + 1 ≤ line.value
      bv_omega
  | back _ _ _ heq | skippedBack _ _ _ heq =>
    subst heq
    exact ⟨h.nonneg, le_rfl, h.counts⟩

/-- The bound of the loop. -/
def loopBound (lines : List CheatLine) (s : State) : Nat :=
  match lineAt lines s.loopBackLine with
  | .ok line => line.value.toNat
  | .error _ => 0

/-- The lines from the loop on. Before the first line there is no loop yet. -/
def linesFromLoop (lines : List CheatLine) (s : State) : Nat :=
  (lines.length - s.loopBackLine).toNat +
    if s.currentLineNr ≤ s.loopBackLine ∧ s.loopFlag = false then 1 else 0

/-- The turns that the loop has left, each counted twice: from the end of the loop to its line, and
from there on. -/
def turnsLeft (lines : List CheatLine) (s : State) : Nat :=
  if s.loopFlag then
    2 * (loopBound lines s - s.loopCount.toNat) +
      if s.currentLineNr ≤ s.loopBackLine ∧ s.ifFlag = 0 then 2 else 3
  else 0

theorem linesFromLoop_of_flag (hflag : s.loopFlag = true) :
    linesFromLoop lines s = (lines.length - s.loopBackLine).toNat := by
  rw [linesFromLoop, hflag, if_neg fun hle => Bool.noConfusion hle.2]
  rfl

theorem linesFromLoop_of_past (hpast : ¬ s.currentLineNr ≤ s.loopBackLine) :
    linesFromLoop lines s = (lines.length - s.loopBackLine).toNat := by
  rw [linesFromLoop, if_neg fun hle => hpast hle.1]
  rfl

theorem turnsLeft_of_past (hflag : s.loopFlag = true) (hpast : ¬ s.currentLineNr ≤ s.loopBackLine) :
    turnsLeft lines s = 2 * (loopBound lines s - s.loopCount.toNat) + 3 := by
  rw [turnsLeft, if_pos hflag, if_neg fun hle => hpast hle.1]

theorem turnsLeft_of_begin (hflag : s.loopFlag = true) (hle : s.currentLineNr ≤ s.loopBackLine)
    (hexecuted : s.ifFlag = 0) :
    turnsLeft lines s = 2 * (loopBound lines s - s.loopCount.toNat) + 2 := by
  rw [turnsLeft, if_pos hflag, if_pos ⟨hle, hexecuted⟩]

/-- What gets smaller. -/
def potential (lines : List CheatLine) (s : State) : Nat ×ₗ Nat ×ₗ Nat :=
  toLex (linesFromLoop lines s,
    toLex (turnsLeft lines s, (lines.length - s.currentLineNr).toNat))

/-- A `D2` that is not executed, in a loop that goes on. -/
def SkippedJump (lines : List CheatLine) (s : State) : Prop :=
  s.ifFlag ≠ 0 ∧ s.loopFlag = true ∧
    ∃ line, lineAt lines s.currentLineNr = .ok line ∧ line.type = .fullTerminator

theorem potential_lt_of_loop (h : linesFromLoop lines s' < linesFromLoop lines s) :
    potential lines s' < potential lines s :=
  Prod.Lex.toLex_lt_toLex.mpr (.inl h)

theorem potential_lt_of_turn (h : linesFromLoop lines s' = linesFromLoop lines s)
    (hturn : turnsLeft lines s' < turnsLeft lines s) : potential lines s' < potential lines s :=
  Prod.Lex.toLex_lt_toLex.mpr (.inr ⟨h, Prod.Lex.toLex_lt_toLex.mpr (.inl hturn)⟩)

theorem potential_lt_of_line (h : linesFromLoop lines s' ≤ linesFromLoop lines s)
    (hturn : turnsLeft lines s' = turnsLeft lines s)
    (hline : s.currentLineNr < s'.currentLineNr) (hlt : s.currentLineNr < lines.length) :
    potential lines s' < potential lines s := by
  rcases Nat.lt_or_eq_of_le h with h | h
  · exact potential_lt_of_loop h
  · refine Prod.Lex.toLex_lt_toLex.mpr (.inr ⟨h, Prod.Lex.toLex_lt_toLex.mpr (.inr ⟨hturn, ?_⟩)⟩)
    show (lines.length - s'.currentLineNr).toNat < (lines.length - s.currentLineNr).toNat
    omega

theorem InLoop.loopBound (h : InLoop lines s) (hflag : s.loopFlag = true) :
    ∃ line, lineAt lines s.loopBackLine = .ok line ∧ line.type = .loop ∧
      GbaStation.Cheats.loopBound lines s = line.value.toNat ∧
      s.loopCount.toNat ≤ line.value.toNat := by
  obtain ⟨pre, line, post, hlines, hback, htype, hcount⟩ := h.counts hflag
  have hline : lineAt lines s.loopBackLine = .ok line :=
    lineAt_ok_iff.mpr ⟨pre, post, hlines, hback⟩
  refine ⟨line, hline, htype, ?_, hcount⟩
  rw [GbaStation.Cheats.loopBound, hline]

/-- The line of a loop that goes on is one of a loop. -/
theorem InLoop.type_eq (h : InLoop lines s) (hflag : s.loopFlag = true)
    (hline : lineAt lines s.currentLineNr = .ok line)
    (hle : s.currentLineNr ≤ s.loopBackLine) : line.type = .loop := by
  obtain ⟨line', hline', htype, -⟩ := h.loopBound hflag
  rw [le_antisymm hle h.behind, hline'] at hline
  cases hline
  exact htype

theorem potential_lt (h : InLoop lines s) (hlines : lines = pre ++ line :: post)
    (hcurrent : s.currentLineNr = pre.length) (hmoves : Moves line s s')
    (hjump : ¬ SkippedJump lines s) : potential lines s' < potential lines s := by
  have hline : lineAt lines s.currentLineNr = .ok line :=
    lineAt_ok_iff.mpr ⟨pre, post, hlines, hcurrent⟩
  have hlt : s.currentLineNr < lines.length := by
    rw [hcurrent, hlines, List.length_append, List.length_cons]
    omega
  have hbehind := h.behind
  cases hmoves with
  | forward n hloop hsame =>
    have hnext : s'.currentLineNr = s.currentLineNr + n + 1 := hsame.current
    have hback : s'.loopBackLine = s.loopBackLine := hsame.back
    have hflag' : s'.loopFlag = s.loopFlag := hsame.flag
    have hpast : ¬ s'.currentLineNr ≤ s.loopBackLine := by omega
    have hpast' : ¬ s'.currentLineNr ≤ s'.loopBackLine := hback.symm ▸ hpast
    refine potential_lt_of_line ?_ ?_ (by omega) hlt
    · rw [linesFromLoop_of_past hpast', hback]
      exact Nat.le_add_right ..
    · by_cases hflag : s.loopFlag = true
      · have hbound : loopBound lines s' = loopBound lines s := by
          unfold GbaStation.Cheats.loopBound
          rw [hback]
        rw [turnsLeft_of_past (hflag'.trans hflag) hpast', hbound, hsame.count hflag]
        rw [turnsLeft, if_pos hflag, if_neg fun hbegin => ?_]
        exact absurd (h.type_eq hflag hline hbegin.1) (hloop hbegin.2)
      · rw [turnsLeft, turnsLeft, hflag', if_neg hflag, if_neg hflag]
  | loop hexecuted htype heq =>
    subst heq
    have hpast : ¬ s.currentLineNr + 1 ≤ s.currentLineNr := by omega
    have hfrom : linesFromLoop lines { loopOp line s with currentLineNr := s.currentLineNr + 1 } =
        (lines.length - s.currentLineNr).toNat := linesFromLoop_of_past hpast
    by_cases hbegin : s.currentLineNr ≤ s.loopBackLine
    · have hat : s.loopBackLine = s.currentLineNr := le_antisymm hbehind hbegin
      by_cases hflag : s.loopFlag = true
      · -- the next turn of the loop
        refine potential_lt_of_turn ?_ ?_
        · rw [hfrom, linesFromLoop_of_flag hflag, hat]
        · have hbound : loopBound lines s = line.value.toNat := by
            unfold GbaStation.Cheats.loopBound
            rw [hat, hline]
          rw [turnsLeft_of_begin hflag hbegin hexecuted, hbound]
          by_cases hmore : s.loopCount < line.value
          · have hbound' : loopBound lines
                { loopOp line s with currentLineNr := s.currentLineNr + 1 } =
                line.value.toNat := by
              show (match lineAt lines s.currentLineNr with
                | .ok line => line.value.toNat
                | .error _ => 0) = _
              rw [hline]
            rw [turnsLeft_of_past (decide_eq_true hmore) hpast, hbound']
            show 2 * (line.value.toNat - (s.loopCount + 1).toNat) + 3 < _
            bv_omega
          · have hend : turnsLeft lines
                { loopOp line s with currentLineNr := s.currentLineNr + 1 } = 0 :=
              if_neg fun hflag => hmore (of_decide_eq_true hflag)
            rw [hend]
            exact Nat.succ_pos _
      · -- the first line is one of a loop
        refine potential_lt_of_loop ?_
        rw [hfrom, linesFromLoop, if_pos ⟨hbegin, eq_false_of_ne_true hflag⟩, hat]
        exact Nat.lt_succ_self _
    · refine potential_lt_of_loop ?_
      rw [hfrom, linesFromLoop_of_past hbegin]
      omega
  | back hexecuted htype hflag heq =>
    subst heq
    have hpast : ¬ s.currentLineNr ≤ s.loopBackLine := fun hle =>
      htype (h.type_eq hflag hline hle)
    refine potential_lt_of_turn ?_ ?_
    · rw [linesFromLoop_of_flag hflag]
      exact linesFromLoop_of_flag hflag
    · have hbegin : turnsLeft lines { s with currentLineNr := s.loopBackLine } =
          2 * (loopBound lines s - s.loopCount.toNat) + 2 :=
        turnsLeft_of_begin hflag le_rfl hexecuted
      rw [turnsLeft_of_past hflag hpast, hbegin]
      exact Nat.lt_succ_self _
  | skippedBack hskipped htype hflag _ => exact absurd ⟨hskipped, hflag, line, hline, htype⟩ hjump

end GbaStation.Cheats
