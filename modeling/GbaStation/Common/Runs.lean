import Mathlib.Logic.Relation

/-!
# Machines that step until they stop

A machine is a function from a configuration to the next one and a flag that says whether it stops
there. `run` takes a bound on the steps; `Steps` is a stretch without a stop and `Halts` a run that
ends. Simulations are put together from stretches with `Steps.trans` and `Halts.of_steps`.
-/

namespace GbaStation

variable {C : Type*}

/-- The configuration the machine stops in, when it stops within `fuel` steps. -/
def runMachine (step : C → C × Bool) : Nat → C → Option C
  | 0, _ => none
  | fuel + 1, c => if (step c).2 then some (step c).1 else runMachine step fuel (step c).1

/-- Any number of steps, none of which stops. -/
def Steps (step : C → C × Bool) : C → C → Prop :=
  Relation.ReflTransGen fun c c' => step c = (c', false)

/-- The machine stops in `r`. -/
def Halts (step : C → C × Bool) (c r : C) : Prop :=
  ∃ fuel, runMachine step fuel c = some r

variable {step : C → C × Bool}

theorem Steps.refl (c : C) : Steps step c c := Relation.ReflTransGen.refl

theorem Steps.single {c c' : C} (h : step c = (c', false)) : Steps step c c' :=
  Relation.ReflTransGen.single h

theorem Steps.trans {c c' c'' : C} (h : Steps step c c') (h' : Steps step c' c'') :
    Steps step c c'' :=
  Relation.ReflTransGen.trans h h'

theorem Halts.of_step {c r : C} (h : step c = (r, true)) : Halts step c r :=
  ⟨1, by simp [runMachine, h]⟩

theorem Halts.of_steps {c c' r : C} (h : Steps step c c') (hr : Halts step c' r) :
    Halts step c r := by
  induction h using Relation.ReflTransGen.head_induction_on with
  | refl => exact hr
  | head hstep _ ih =>
    obtain ⟨fuel, hfuel⟩ := ih
    exact ⟨fuel + 1, by simpa [runMachine, hstep] using hfuel⟩

/-- A machine stops in one configuration at most. -/
theorem runMachine_unique {fuel fuel' : Nat} {c r r' : C}
    (h : runMachine step fuel c = some r) (h' : runMachine step fuel' c = some r') : r = r' := by
  induction fuel generalizing fuel' c with
  | zero => exact absurd h (by simp [runMachine])
  | succ fuel ih =>
    cases fuel' with
    | zero => exact absurd h' (by simp [runMachine])
    | succ fuel' =>
      simp only [runMachine] at h h'
      split at h
      · rename_i hstop
        rw [if_pos hstop] at h'
        exact Option.some.inj (h.symm.trans h')
      · rename_i hgo
        rw [if_neg hgo] at h'
        exact ih h h'

end GbaStation
