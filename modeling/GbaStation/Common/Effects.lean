import Mathlib.Control.Monad.Basic

/-!
# Computations on a state that may fail

A computation changes a state and ends with a value or an error. The changes that were made before
an error stay.

- `Keeps P x`: where `P` holds before `x`, it holds after it, at an error too.
- `keeps_bind`, `keeps_ite`, `keeps_foldlM` are the rules for a sequence, a branch and a loop.
-/

namespace GbaStation

variable {σ ε α β : Type}

abbrev Effect (σ ε α : Type) := ExceptT ε (StateM σ) α

namespace Effect

/-- The value or the error, and the state that is left. -/
def runOn (x : Effect σ ε α) (s : σ) : Except ε α × σ := x.run.run s

def Keeps (P : σ → Prop) (x : Effect σ ε α) : Prop := ∀ s, P s → P (x.runOn s).2

theorem runOn_get_bind (f : σ → Effect σ ε α) (s : σ) : (get >>= f).runOn s = (f s).runOn s := rfl

theorem runOn_modify_bind (f : σ → σ) (x : PUnit → Effect σ ε α) (s : σ) :
    (modify f >>= x).runOn s = (x ⟨⟩).runOn (f s) := rfl

variable {P : σ → Prop}

theorem keeps_pure (a : α) : Keeps P (pure a : Effect σ ε α) := fun _ h => h

theorem keeps_throw (e : ε) : Keeps P (throw e : Effect σ ε α) := fun _ h => h

theorem keeps_get : Keeps P (get : Effect σ ε σ) := fun _ h => h

theorem keeps_modify {f : σ → σ} (hf : ∀ s, P s → P (f s)) :
    Keeps P (modify f : Effect σ ε PUnit) := hf

theorem keeps_bind {x : Effect σ ε α} {f : α → Effect σ ε β} (hx : Keeps P x)
    (hf : ∀ a, Keeps P (f a)) : Keeps P (x >>= f) := by
  intro s hs
  have hleft := hx s hs
  rw [runOn, ExceptT.run_bind, StateT.run_bind]
  obtain ⟨r, s', hr⟩ : ∃ r s', x.run.run s = (r, s') := ⟨_, _, rfl⟩
  rw [runOn, hr] at hleft
  rw [hr]
  cases r with
  | ok a => exact hf a s' hleft
  | error e => exact hleft

theorem keeps_ite {c : Prop} [Decidable c] {x y : Effect σ ε α} (hx : Keeps P x) (hy : Keeps P y) :
    Keeps P (if c then x else y) := by
  split_ifs
  · exact hx
  · exact hy

theorem keeps_foldlM {f : β → α → Effect σ ε β} (hf : ∀ b a, Keeps P (f b a)) (l : List α) (b : β) :
    Keeps P (l.foldlM f b) := by
  induction l generalizing b with
  | nil => exact keeps_pure b
  | cons a l ih =>
    rw [List.foldlM_cons]
    exact keeps_bind (hf b a) ih

end Effect

end GbaStation
