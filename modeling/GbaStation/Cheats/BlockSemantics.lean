import GbaStation.Cheats.BlockStructure

/-!
# Blocks in the loop of `Execute`
-/

namespace GbaStation.Cheats

variable {M : Type} {mem : BytewiseMemory M} {padState : Word} {lines cs ds : List CheatLine}
  {line : CheatLine} {r : Machine M} {b : Bool} {n : Nat} {flag : Word}

/-! ## Lines of a list -/

/-- Lines that are found from a number on. -/
def Placed (lines : List CheatLine) (n : Nat) (cs : List CheatLine) : Prop :=
  ∃ pre post, lines = pre ++ (cs ++ post) ∧ pre.length = n

theorem Placed.append (h : Placed lines n (cs ++ ds)) :
    Placed lines n cs ∧ Placed lines (n + cs.length) ds := by
  obtain ⟨pre, post, rfl, rfl⟩ := h
  refine ⟨⟨pre, ds ++ post, by rw [List.append_assoc], rfl⟩, ⟨pre ++ cs, post, ?_, ?_⟩⟩
  · simp only [List.append_assoc]
  · exact List.length_append

theorem Placed.cons (h : Placed lines n (line :: cs)) :
    lineAt lines n = .ok line ∧ Placed lines (n + 1) cs := by
  obtain ⟨pre, post, hlines, rfl⟩ := h
  refine ⟨lineAt_append hlines, ⟨pre ++ [line], post, ?_, ?_⟩⟩
  · rw [hlines, List.append_assoc]
    rfl
  · exact List.length_append

/-! ## States -/

/-- The loop of a state. -/
structure LoopState where
  flag : Bool := false
  count : Word := 0
  back : Int := 0

variable {l l' : LoopState} {e : Effect M}

/-- There is no loop. -/
def LoopState.Idle (l : LoopState) : Prop := l.flag = false ∧ l.count = 0

def machine (e : Effect M) (l : LoopState) (flag : Word) (line : Nat) : Machine M :=
  { memory := e.memory
    state :=
      { reg := e.reg
        offset := e.offset
        ifFlag := flag
        loopCount := l.count
        loopBackLine := l.back
        currentLineNr := line
        loopFlag := l.flag } }

theorem next_machine : (machine e l flag n).next = machine e l flag (n + 1) := rfl

theorem not_finished (hline : lineAt lines n = .ok line) :
    ¬ Finished lines (machine e l flag n) := by
  obtain ⟨pre, post, rfl, hn⟩ := lineAt_ok_iff.mp hline
  show ¬ ((pre ++ line :: post).length : Int) ≤ (n : Int)
  rw [hn, List.length_append, List.length_cons]
  omega

theorem turn_executed {r₁ : Machine M} (hline : lineAt lines n = .ok line)
    (h : executeLine mem padState lines line (machine e l 0 n) = .ok r₁) :
    Turn mem padState lines (machine e l 0 n) r₁.next := by
  refine ⟨not_finished hline, ?_⟩
  rw [step_executed hline rfl, h]
  rfl

theorem turn_skipped {r₁ : Machine M} (hline : lineAt lines n = .ok line) (hflag : flag ≠ 0)
    (h : skipLine mem lines line (machine e l flag n) = .ok r₁) :
    Turn mem padState lines (machine e l flag n) r₁.next := by
  refine ⟨not_finished hline, ?_⟩
  rw [step_skipped hline hflag, h]
  rfl

/-! ## Single lines -/

theorem skipLine_of_plain (htype : line.type.isPlain = true) (r : Machine M) :
    skipLine mem lines line r = .ok r := by
  unfold skipLine
  cases hline : line.type with
  | loop | terminator | loopExecuteVariant | fullTerminator | patch | greaterThan32 | lessThan32
  | equalTo32 | notEqualTo32 | greaterThan16WithMask | lessThan16WithMask | equalTo16WithMask
  | notEqualTo16WithMask | joker =>
    rw [hline] at htype
    cases htype
  | _ => rfl

theorem skipLine_of_condition (htype : line.type.isCondition = true) :
    skipLine mem lines line (machine e l flag n) = .ok (machine e l (flag + 1) n) := by
  rw [skipLine, if_pos htype]
  rfl

/-- A value is written only if another one is there. -/
theorem writeOp_eq {w : Nat} {read : M → Word → BitVec w} {write : M → Word → BitVec w → M}
    (hsame : ∀ m a, write m a (read m a) = m) (s : State) (m : M) :
    writeOp read write line s m = write m (line.address + s.offset) (line.value.setWidth w) := by
  rw [writeOp]
  split_ifs with hother
  · rfl
  · rw [← not_not.mp hother, hsame]

theorem incrementiveWriteOp_eq {w : Nat} {read : M → Word → BitVec w}
    {write : M → Word → BitVec w → M} (hsame : ∀ m a, write m a (read m a) = m) :
    incrementiveWriteOp read write line (machine e l flag n) =
      machine { e with
        memory := write e.memory (line.value + e.offset) (e.reg.setWidth w)
        offset := e.offset + .ofNat 32 (w / 8) } l flag n := by
  have hwrite : (if read e.memory (line.value + e.offset) ≠ e.reg.setWidth w then
      write e.memory (line.value + e.offset) (e.reg.setWidth w) else e.memory) =
      write e.memory (line.value + e.offset) (e.reg.setWidth w) := by
    split_ifs with hother
    · rfl
    · rw [← not_not.mp hother, hsame]
  show Machine.mk _ _ = Machine.mk _ _
  rw [← hwrite]
  rfl

theorem executeLine_of_plain (htype : line.type.isPlain = true) :
    executeLine mem padState lines line (machine e l 0 n) =
      .ok (machine (plainEffect mem line e) l 0 n) := by
  unfold executeLine plainEffect
  cases hline : line.type with
  | loop | terminator | loopExecuteVariant | fullTerminator | patch | greaterThan32 | lessThan32
  | equalTo32 | notEqualTo32 | greaterThan16WithMask | lessThan16WithMask | equalTo16WithMask
  | notEqualTo16WithMask | joker =>
    rw [hline] at htype
    cases htype
  | write32 =>
    simp only [writeOp_eq mem.write32_read32, BitVec.setWidth_eq]
    rfl
  | write16 =>
    simp only [writeOp_eq mem.write16_read16]
    rfl
  | write8 =>
    simp only [writeOp_eq mem.write8_read8]
    rfl
  | incrementiveWrite32 =>
    simp only [incrementiveWriteOp_eq mem.write32_read32, BitVec.setWidth_eq]
    rfl
  | incrementiveWrite16 =>
    simp only [incrementiveWriteOp_eq mem.write16_read16]
    rfl
  | incrementiveWrite8 =>
    simp only [incrementiveWriteOp_eq mem.write8_read8]
    rfl
  | load32 =>
    simp only [loadOp, BitVec.setWidth_eq]
    rfl
  | _ => rfl

theorem compOp_machine {w : Nat} (read : M → Word → BitVec w) (comp : BitVec w → Bool) :
    compOp read comp line (machine e l 0 n).state e.memory =
      (machine e l (if comp (read e.memory (line.address + e.offset)) then 0 else 1) n).state := by
  unfold compOp
  split_ifs with hcomp hcomp' hcomp'
  · rfl
  · exact absurd hcomp hcomp'
  · exact absurd hcomp' hcomp
  · rfl

/-- A condition that does not hold is counted. -/
theorem executeLine_of_condition (htype : line.type.isCondition = true) :
    executeLine mem padState lines line (machine e l 0 n) =
      .ok (machine e l (if holds mem padState line e then 0 else 1) n) := by
  have hmask : (~~~line.value >>> 16).setWidth 16 = ~~~line.value.extractLsb' 16 16 := by
    ext i hi
    simp
    omega
  have hlow : line.value.setWidth 16 = line.value.extractLsb' 0 16 := by
    ext i hi
    simp
  have hcondition : condition mem padState line (machine e l 0 n).state e.memory =
      (machine e l (if holds mem padState line e then 0 else 1) n).state := by
    unfold condition holds
    cases hline : line.type with
    | greaterThan32 | lessThan32 | equalTo32 | notEqualTo32 => exact compOp_machine ..
    | greaterThan16WithMask | lessThan16WithMask | equalTo16WithMask | notEqualTo16WithMask =>
      simp only [hmask, hlow]
      exact compOp_machine ..
    | joker =>
      unfold jokerOp
      simp only [decide_eq_true_eq]
      split_ifs
      · rfl
      · rfl
    | _ =>
      rw [hline] at htype
      cases htype
  have hmachine : machine e l (if holds mem padState line e then 0 else 1) n =
      ⟨condition mem padState line (machine e l 0 n).state e.memory, e.memory⟩ := by
    rw [hcondition]
    rfl
  rw [hmachine]
  unfold executeLine
  cases hline : line.type with
  | greaterThan32 | lessThan32 | equalTo32 | notEqualTo32 | greaterThan16WithMask
  | lessThan16WithMask | equalTo16WithMask | notEqualTo16WithMask | joker => rfl
  | _ =>
    rw [hline] at htype
    cases htype

theorem length_flatMap_dataBytes (data : List CheatLine) :
    (data.flatMap dataBytes).length = 8 * data.length := by
  induction data with
  | nil => rfl
  | cons line data ih =>
    rw [List.flatMap_cons, List.length_append, length_dataBytes, ih, List.length_cons]
    omega

/-- The lines of a patch hold enough bytes. -/
theorem executeLine_of_patch {data rest : List CheatLine} (htype : line.type = .patch)
    (hdata : data.length = patchLines line.value.toNat)
    (h : Placed lines n (line :: (data ++ rest))) :
    executeLine mem padState lines line (machine e l 0 n) =
      .ok (machine (patchEffect mem line data e) l 0 (n + data.length)) := by
  obtain ⟨pre, post, hlines, rfl⟩ := h
  have hpatch : executeLine mem padState lines line (machine e l 0 pre.length) =
      patchOp mem lines line (machine e l 0 pre.length) := by
    unfold executeLine
    simp only [htype]
  have hlines : lines = pre ++ line :: (data ++ (rest ++ post)) := by
    rw [hlines, List.cons_append, List.append_assoc]
  have henough : patchLines line.value.toNat ≤ (data ++ (rest ++ post)).length := by
    rw [← hdata, List.length_append]
    exact Nat.le_add_right ..
  have hbytes : ((data ++ (rest ++ post)).flatMap dataBytes).take line.value.toNat =
      (data.flatMap dataBytes).take line.value.toNat := by
    rw [List.flatMap_append, List.take_append_of_le_length]
    rw [length_flatMap_dataBytes, hdata, patchLines]
    omega
  have hwords : (data ++ (rest ++ post)).flatMap dataBytes =
      ((data ++ (rest ++ post)).flatMap dataWords).flatMap wordBytes := by
    rw [List.flatMap_assoc]
    exact List.flatMap_congr fun line _ => congrArg (wordBytes line.first ++ ·)
      (List.append_nil _).symm
  rw [hpatch, patchOp_executed rfl hlines rfl, if_pos henough, writeData_eq, ← hwords, hbytes,
    ← hdata]
  rfl

/-! ## Ends of loops -/

theorem executeLine_of_loop (htype : line.type = .loop) :
    executeLine mem padState lines line (machine e l 0 n) =
      .ok (machine e ⟨decide (l.count < line.value), l.count + 1, n⟩ 0 n) := by
  unfold executeLine
  simp only [htype]
  rfl

/-- The end of a loop that goes on. -/
theorem turn_back (hline : lineAt lines n = .ok line) (hflag : l.flag = true) {back : Nat}
    (hback : l.back = back)
    (htype : line.type = .loopExecuteVariant ∨ line.type = .fullTerminator) :
    Turn mem padState lines (machine e l 0 n) (machine e l 0 back) := by
  have hjump : (machine e { l with back := back } 0 back) = Machine.next
      { machine e l 0 n with state :=
        { (machine e l 0 n).state with currentLineNr := l.back - 1 } } := by
    unfold Machine.next machine
    simp only [Int.sub_add_cancel, hback]
  have hl : { l with back := (back : Int) } = l := by rw [← hback]
  rw [hl] at hjump
  rw [hjump]
  refine turn_executed hline ?_
  unfold executeLine
  rcases htype with htype | htype
  · simp only [htype]
    rw [loopExecuteVariantOp, if_pos (show (machine e l 0 n).state.loopFlag = true from hflag)]
    rfl
  · simp only [htype]
    rw [fullTerminateOp, if_pos (show (machine e l 0 n).state.loopFlag = true from hflag)]
    rfl

/-- The end of a loop in its last turn. -/
theorem turn_end (hline : lineAt lines n = .ok line) (hflag : l.flag = false)
    (htype : line.type = .loopExecuteVariant) :
    Turn mem padState lines (machine e l 0 n) (machine e { l with count := 0 } 0 (n + 1)) := by
  rw [← next_machine]
  refine turn_executed hline ?_
  unfold executeLine
  simp only [htype]
  rw [loopExecuteVariantOp, if_neg (show ¬ (machine e l 0 n).state.loopFlag = true by
    rw [show (machine e l 0 n).state.loopFlag = false from hflag]; exact Bool.false_ne_true)]
  rfl

/-- A `D2` that does not go back to a loop, executed or not. -/
theorem turn_reset (hline : lineAt lines n = .ok line) (hflag : l.flag = false)
    (htype : line.type = .fullTerminator) :
    Turn mem padState lines (machine e l flag n)
      (machine { memory := e.memory } ⟨false, 0, l.back⟩ 0 (n + 1)) := by
  have hreset : fullTerminateOp (machine e l flag n).state =
      (machine { memory := e.memory } ⟨false, 0, l.back⟩ 0 n).state := by
    rw [fullTerminateOp, if_neg]
    · rfl
    · rw [show (machine e l flag n).state.loopFlag = false from hflag]
      exact Bool.false_ne_true
  rw [← next_machine]
  by_cases hzero : flag = 0
  · subst hzero
    refine turn_executed hline ?_
    unfold executeLine
    simp only [htype, hreset]
    rfl
  · refine turn_skipped hline hzero ?_
    rw [skipLine, if_neg (by rw [htype]; exact Bool.false_ne_true)]
    simp only [htype, hreset]
    rfl

end GbaStation.Cheats
