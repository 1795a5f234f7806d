import GbaStation.Cheats.Termination
import Mathlib.Tactic.FinCases

/-!
# Safety of cheats

- `executesSafely_iff`: `Execute` ends, without a read outside of the lines, exactly if its patches
  have their lines and one of the jumps of a `D2` that is not executed is the last.
-/

namespace GbaStation.Cheats

variable {M : Type} {mem : CheatMemory M} {padState : Word} {lines pre data post : List CheatLine}
  {line : CheatLine} {r r' r₁ r₂ : Machine M} {m : M}

/-- If the line is a patch that is executed, its lines are there. -/
def PatchInside (lines : List CheatLine) (s : State) : Prop :=
  s.ifFlag = 0 → ∀ line, lineAt lines s.currentLineNr = .ok line → line.type = .patch →
    s.currentLineNr + patchLines line.value.toNat < lines.length

/-- `Execute` ends, and all lines that it has read are there. -/
def ExecutesSafely (mem : CheatMemory M) (padState : Word) (lines : List CheatLine) (m : M) : Prop :=
  ∃ r, Runs mem padState lines (start m) r ∧ Finished lines r

instance : Decidable (Finished lines r) := inferInstanceAs (Decidable (_ ≤ _))

/-! ## One turn -/

theorem skipLine_ok (hskipped : r.state.ifFlag ≠ 0) :
    ∃ r₁, skipLine mem lines line r = .ok r₁ := by
  unfold skipLine
  split_ifs
  · exact ⟨_, rfl⟩
  · split
    · exact ⟨_, patchOp_skipped hskipped⟩
    · exact ⟨_, rfl⟩
    · exact ⟨_, rfl⟩
    · exact ⟨_, rfl⟩

theorem executeLine_ok (hpatch : line.type ≠ .patch) :
    ∃ r₁, executeLine mem padState lines line r = .ok r₁ := by
  unfold executeLine
  cases htype : line.type with
  | patch => exact absurd htype hpatch
  | _ => exact ⟨_, rfl⟩

/-- A turn at a line reads outside exactly if it is one of a patch without its lines. -/
theorem step_ok_iff (hlines : lines = pre ++ line :: post)
    (hcurrent : r.state.currentLineNr = pre.length) :
    (∃ r', step mem padState lines r = .ok r') ↔ PatchInside lines r.state := by
  have hline : lineAt lines r.state.currentLineNr = .ok line :=
    lineAt_ok_iff.mpr ⟨pre, post, hlines, hcurrent⟩
  by_cases hflag : r.state.ifFlag = 0
  · rw [step_executed hline hflag]
    by_cases hpatch : line.type = .patch
    · have hpatched : executeLine mem padState lines line r = patchOp mem lines line r := by
        unfold executeLine
        simp only [hpatch]
      have hlength : lines.length = pre.length + (post.length + 1) := by
        rw [hlines, List.length_append, List.length_cons]
      rw [hpatched, patchOp_executed hflag hlines hcurrent]
      constructor
      · rintro ⟨r', hr'⟩ - line' hline' -
        rw [hline] at hline'
        cases hline'
        split_ifs at hr' with hinside
        · omega
        · cases hr'
      · intro hinside
        have hlast := hinside hflag line hline hpatch
        rw [if_pos (by omega)]
        exact ⟨_, rfl⟩
    · obtain ⟨r₁, hr₁⟩ := (@executeLine_ok _ mem padState lines _ r) hpatch
      rw [hr₁]
      refine iff_of_true ⟨_, rfl⟩ fun _ line' hline' htype => ?_
      rw [hline] at hline'
      cases hline'
      exact absurd htype hpatch
  · rw [step_skipped hline hflag]
    obtain ⟨r₁, hr₁⟩ := (@skipLine_ok _ mem lines line _) hflag
    rw [hr₁]
    exact iff_of_true ⟨_, rfl⟩ fun hzero => absurd hzero hflag

theorem turn_unique : Relator.RightUnique (Turn mem padState lines) := by
  intro r r₁ r₂ h₁ h₂
  exact Except.ok.inj (h₁.2.symm.trans h₂.2)

/-- After the end there are no turns. -/
theorem runs_of_finished (hfinished : Finished lines r) (h : Runs mem padState lines r r') :
    r' = r := by
  rcases Relation.ReflTransGen.cases_head h with heq | ⟨r₁, hturn, -⟩
  · exact heq.symm
  · exact absurd hfinished hturn.1

/-- From a state that was reached, the end is reached. -/
theorem ExecutesSafely.of_runs {m : M} (h : ExecutesSafely mem padState lines m)
    (hruns : Runs mem padState lines (start m) r) :
    ∃ r', Runs mem padState lines r r' ∧ Finished lines r' := by
  obtain ⟨r', hruns', hfinished⟩ := h
  rcases Relation.ReflTransGen.total_of_right_unique turn_unique hruns hruns' with hmore | hless
  · exact ⟨r', hmore, hfinished⟩
  · obtain rfl := runs_of_finished hfinished hless
    exact ⟨_, .refl, hfinished⟩

/-! ## All turns -/

theorem inLoop_of_runs (h : Runs mem padState lines (start m) r) : InLoop lines r.state := by
  induction h with
  | refl => exact inLoop_start lines m
  | tail _ hturn ih =>
    obtain ⟨pre, line, post, hlines, hcurrent, hmoves⟩ := moves_of_turn hturn
    exact ih.moves hlines hcurrent hmoves

/-- In the loop there is a line for each turn. -/
theorem InLoop.exists_line (h : InLoop lines r.state) (hgoesOn : ¬ Finished lines r) :
    ∃ pre line post, lines = pre ++ line :: post ∧ r.state.currentLineNr = pre.length := by
  have hnonneg := h.nonneg.trans h.behind
  have hlt : r.state.currentLineNr < lines.length := Int.not_le.mp hgoesOn
  obtain ⟨i, hi⟩ := Int.eq_ofNat_of_zero_le hnonneg
  have hlt : i < lines.length := by omega
  refine ⟨lines.take i, lines[i], lines.drop (i + 1), ?_, ?_⟩
  · rw [List.getElem_cons_drop, List.take_append_drop]
  · rw [hi, List.length_take, Nat.min_eq_left (Nat.le_of_lt hlt)]

/-- By induction on the potential. Without jumps of a `D2` that is not executed, it gets smaller
with every turn. -/
theorem exists_finished (hinside : ∀ r', Runs mem padState lines r r' → PatchInside lines r'.state)
    (hjumps : ∀ r', Runs mem padState lines r r' → ¬ SkippedJump lines r'.state)
    (h : InLoop lines r.state) : ∃ r', Runs mem padState lines r r' ∧ Finished lines r' := by
  induction hpotential : potential lines r.state using WellFoundedLT.induction generalizing r with
  | ind p ih =>
    by_cases hfinished : Finished lines r
    · exact ⟨r, .refl, hfinished⟩
    obtain ⟨pre, line, post, hlines, hcurrent⟩ := h.exists_line hfinished
    obtain ⟨r₁, hstep⟩ := (step_ok_iff hlines hcurrent).mpr (hinside r .refl)
    have hturn : Turn mem padState lines r r₁ := ⟨hfinished, hstep⟩
    obtain ⟨pre', line', post', hlines', hcurrent', hmoves⟩ := moves_of_turn hturn
    have hless : potential lines r₁.state < p :=
      hpotential ▸ potential_lt h hlines' hcurrent' hmoves (hjumps r .refl)
    obtain ⟨r', hruns, hfinished'⟩ := ih _ hless (fun r' hr' => hinside r' (.head hturn hr'))
      (fun r' hr' => hjumps r' (.head hturn hr')) (h.moves hlines' hcurrent' hmoves) rfl
    exact ⟨r', .head hturn hruns, hfinished'⟩

/-- An execution ends inside of the lines exactly if every patch that it executes has its lines, and
from some turn on no `D2` that is not executed jumps back. -/
theorem executesSafely_iff (mem : CheatMemory M) (padState : Word) (lines : List CheatLine) (m : M) :
    ExecutesSafely mem padState lines m ↔
      (∀ r, Runs mem padState lines (start m) r → PatchInside lines r.state) ∧
        ∃ r, Runs mem padState lines (start m) r ∧
          ∀ r', Runs mem padState lines r r' → ¬ SkippedJump lines r'.state := by
  constructor
  · intro h
    constructor
    · intro r hruns
      obtain ⟨r', hruns', hfinished⟩ := h.of_runs hruns
      rcases Relation.ReflTransGen.cases_head hruns' with heq | ⟨r₁, hturn, -⟩
      · -- there is no line at the end
        subst heq
        intro _ line hline
        obtain ⟨pre, post, hlines, hcurrent⟩ := lineAt_ok_iff.mp hline
        have hlt : r.state.currentLineNr < lines.length := by
          rw [hcurrent, hlines, List.length_append, List.length_cons]
          omega
        exact absurd hfinished (Int.not_le.mpr hlt)
      · obtain ⟨pre, line, post, hlines, hcurrent, -⟩ := moves_of_turn hturn
        exact (step_ok_iff hlines hcurrent).mp ⟨r₁, hturn.2⟩
    · obtain ⟨r, hruns, hfinished⟩ := h
      refine ⟨r, hruns, fun r' hruns' => ?_⟩
      obtain rfl := runs_of_finished hfinished hruns'
      rintro ⟨-, -, line, hline, -⟩
      obtain ⟨pre, post, hlines, hcurrent⟩ := lineAt_ok_iff.mp hline
      have hlt : r'.state.currentLineNr < lines.length := by
        rw [hcurrent, hlines, List.length_append, List.length_cons]
        omega
      exact absurd hfinished (Int.not_le.mpr hlt)
  · rintro ⟨hinside, r, hruns, hjumps⟩
    obtain ⟨r', hruns', hfinished⟩ := exists_finished
      (fun r' hr' => hinside r' (hruns.trans hr')) hjumps (inLoop_of_runs hruns)
    exact ⟨r', hruns.trans hruns', hfinished⟩

/-! ## Cheats that are not safe -/

/-- A memory in which all addresses are mapped. -/
def flatMemory : CheatMemory FlatMemory where
  read8 m a := m a
  read16 := FlatMemory.read16
  read32 := FlatMemory.read32
  write8 := Function.update
  write16 := FlatMemory.write16
  write32 := FlatMemory.write32

/-- A patch of four bytes is the last line. -/
def patchAtEnd : List CheatLine := [⟨.patch, 0, 4, 0xE0000000⟩]

/-- A loop of two turns, in which a condition that does not hold is left open before the `D2`. The
`D0` closes it only in the next turn. -/
def openCondition : List CheatLine :=
  [⟨.loop, 0, 2, 0xC0000000⟩, ⟨.terminator, 0, 0, 0xD0000000⟩, ⟨.equalTo32, 0, 1, 0x50000000⟩,
    ⟨.fullTerminator, 0, 0, 0xD2000000⟩]

theorem not_executesSafely_patchAtEnd (m : M) : ¬ ExecutesSafely mem padState patchAtEnd m := by
  intro h
  have hend : ¬ (0 : Int) + patchLines 4 < patchAtEnd.length := by decide
  obtain ⟨r, hruns, hfinished⟩ := h
  rcases Relation.ReflTransGen.cases_head hruns with rfl | ⟨r₁, hturn, -⟩
  · exact absurd hfinished (by show ¬ (1 : Int) ≤ 0; decide)
  · have hinside : PatchInside patchAtEnd (start m).state :=
      (@step_ok_iff _ _ _ _ [] _ _ _ rfl rfl).mp ⟨r₁, hturn.2⟩
    exact hend (hinside rfl _ rfl rfl)

/-- The state of the loop before a line: the condition is closed from the line with the `D0` to the
one with the condition. -/
def openState (line : Fin 4) : State :=
  { ifFlag := if line.val = 2 then 0 else 1
    loopCount := 1
    loopFlag := true
    currentLineNr := line }

theorem openState_turn {r : Machine FlatMemory} (line : Fin 4) (h : Turn flatMemory 0 openCondition
    { state := openState line, memory := fun _ => 0 } r) :
    r = { state := openState (line + 1), memory := fun _ => 0 } := by
  have hstep : step flatMemory 0 openCondition { state := openState line, memory := fun _ => 0 } =
      .ok { state := openState (line + 1), memory := fun _ => 0 } := by
    fin_cases line <;> rfl
  exact Except.ok.inj (h.2.symm.trans hstep)

theorem not_executesSafely_openCondition : ¬ ExecutesSafely flatMemory 0 openCondition fun _ => 0 := by
  intro h
  have hfirst : Runs flatMemory 0 openCondition (start fun _ => 0)
      { state := openState 2, memory := fun _ => 0 } := by
    have hloop : Turn flatMemory 0 openCondition (start fun _ => 0)
        { state := { openState 2 with currentLineNr := 1 }, memory := fun _ => 0 } :=
      ⟨by decide, rfl⟩
    exact .head hloop (.single ⟨by decide, rfl⟩)
  obtain ⟨r, hruns, hfinished⟩ := h.of_runs hfirst
  have hstays : ∃ line, r = { state := openState line, memory := fun _ => 0 } := by
    clear hfinished
    induction hruns with
    | refl => exact ⟨2, rfl⟩
    | tail _ hturn ih =>
      obtain ⟨line, rfl⟩ := ih
      exact ⟨line + 1, openState_turn line hturn⟩
  obtain ⟨line, rfl⟩ := hstays
  have hline : (4 : Int) ≤ (line : Nat) := hfinished
  omega

/-- Neither the reads nor the end are certain. -/
theorem not_executesSafely : ¬ ExecutesSafely flatMemory 0 patchAtEnd (fun _ => 0) ∧
    ¬ ExecutesSafely flatMemory 0 openCondition fun _ => 0 :=
  ⟨not_executesSafely_patchAtEnd _, not_executesSafely_openCondition⟩

end GbaStation.Cheats
