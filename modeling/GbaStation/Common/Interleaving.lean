import Mathlib.Logic.Relation

/-!
# Interleavings of steps

A system of several parties is a function that takes one step of one of them, where it has one.
What the parties do in some order is a sequence of such steps.
-/

namespace GbaStation

variable {σ α : Type}

/-- What every turn of a loop preserves holds behind it. -/
theorem foldlM_induction {step : σ → α → Option σ} {I : σ → Prop} {as : List α} {s s' : σ}
    (hstep : ∀ a ∈ as, ∀ s s', I s → step s a = some s' → I s') (hs : I s)
    (h : as.foldlM step s = some s') : I s' := by
  induction as generalizing s with
  | nil => exact Option.some.inj h ▸ hs
  | cons a as ih =>
    rw [List.foldlM_cons] at h
    obtain ⟨s₁, h₁, h⟩ := Option.bind_eq_some_iff.mp h
    obtain ⟨hfirst, hrest⟩ := List.forall_mem_cons.mp hstep
    exact ih hrest (hfirst s s₁ hs h₁) h

/-- A sequence of steps that all have a result, by what each of them does. -/
theorem reflTransGen_of_foldlM {step : σ → α → Option σ} {r : σ → σ → Prop} {as : List α}
    {s s' : σ} (hstep : ∀ a ∈ as, ∀ s s', step s a = some s' → r s s')
    (h : as.foldlM step s = some s') : Relation.ReflTransGen r s s' := by
  induction as generalizing s with
  | nil => exact Option.some.inj h ▸ .refl
  | cons a as ih =>
    rw [List.foldlM_cons] at h
    obtain ⟨s₁, h₁, h⟩ := Option.bind_eq_some_iff.mp h
    obtain ⟨hfirst, hrest⟩ := List.forall_mem_cons.mp hstep
    exact .head (hfirst s s₁ h₁) (ih hrest h)

/-- The states that steps in any order reach. -/
def Reaches (step : σ → α → Option σ) : σ → σ → Prop :=
  Relation.ReflTransGen fun s s' => ∃ a, step s a = some s'

namespace Reaches

variable {step : σ → α → Option σ} {s s' s'' : σ}

theorem refl (s : σ) : Reaches step s s := Relation.ReflTransGen.refl

/-- What every step preserves holds in every state that is reached. -/
theorem invariant {I : σ → Prop} (h : Reaches step s s') (hs : I s)
    (hstep : ∀ {s a s'}, I s → step s a = some s' → I s') : I s' := by
  induction h with
  | refl => exact hs
  | tail _ ha ih =>
    obtain ⟨a, ha⟩ := ha
    exact hstep ih ha

/-- A sequence of steps that all have a result reaches the last one. -/
theorem of_foldlM {as : List α} (h : as.foldlM step s = some s') : Reaches step s s' :=
  reflTransGen_of_foldlM (fun a _ _ _ ha => ⟨a, ha⟩) h

end Reaches

/-- The same for steps that meet a condition on the state before them. -/
def ReachesIf (step : σ → α → Option σ) (ok : σ → α → Prop) : σ → σ → Prop :=
  Relation.ReflTransGen fun s s' => ∃ a, ok s a ∧ step s a = some s'

/-- A step that has no result where it does not meet the condition. -/
def stepIf (step : σ → α → Option σ) (ok : σ → α → Prop) [∀ s a, Decidable (ok s a)] (s : σ)
    (a : α) : Option σ := if ok s a then step s a else none

namespace ReachesIf

variable {step : σ → α → Option σ} {ok : σ → α → Prop} {s s' s'' : σ} {as : List α}

theorem refl (s : σ) : ReachesIf step ok s s := Relation.ReflTransGen.refl

theorem tail {a : α} (h : ReachesIf step ok s s') (hok : ok s' a) (ha : step s' a = some s'') :
    ReachesIf step ok s s'' := Relation.ReflTransGen.tail h ⟨a, hok, ha⟩

theorem reaches (h : ReachesIf step ok s s') : Reaches step s s' :=
  Relation.ReflTransGen.mono (fun _ _ ⟨a, _, ha⟩ => ⟨a, ha⟩) _ _ h

/-- What every step with the condition preserves holds in every state that is reached. -/
theorem invariant {I : σ → Prop} (h : ReachesIf step ok s s') (hs : I s)
    (hstep : ∀ {s a s'}, I s → ok s a → step s a = some s' → I s') : I s' := by
  induction h with
  | refl => exact hs
  | tail _ ha ih =>
    obtain ⟨a, hok, ha⟩ := ha
    exact hstep ih hok ha

/-- A sequence of steps that meet the condition in every state reaches the last one. -/
theorem of_foldlM (hok : ∀ a ∈ as, ∀ s, ok s a) (h : as.foldlM step s = some s') :
    ReachesIf step ok s s' :=
  reflTransGen_of_foldlM (fun a ha s _ hstep => ⟨a, hok a ha s, hstep⟩) h

/-- So does one whose steps are checked on the way. -/
theorem of_stepIf [∀ s a, Decidable (ok s a)] (h : as.foldlM (stepIf step ok) s = some s') :
    ReachesIf step ok s s' :=
  reflTransGen_of_foldlM (fun a _ _ _ hstep => ⟨a, Option.ite_none_right_eq_some.mp hstep⟩) h

end ReachesIf

end GbaStation
