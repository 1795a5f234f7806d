import Mathlib.Data.Fintype.Card
import Mathlib.Order.WellFounded
import Mathlib.Logic.Relation
import Mathlib.Data.Fintype.EquivFin

/-!
# Walks in finite relations

In a relation on a finite type, all walks from a place are finite exactly when no place on them
leads back to itself.
-/

namespace GbaStation.FiniteWalks

open Relation

variable {α : Type} (r : α → α → Prop)

/-- Every walk from a place ends. -/
def Ends (a : α) : Prop := Acc (fun b a => r a b) a

variable {r} {a b : α}

theorem Ends.next (h : Ends r a) (hab : r a b) : Ends r b := h.inv hab

theorem Ends.reach (h : Ends r a) (hab : ReflTransGen r a b) : Ends r b := by
  induction hab with
  | refl => exact h
  | tail _ hbc ih => exact ih.next hbc

/-- Where there is always a way on, no walk ends. -/
theorem not_ends_of_next {p : α → Prop} (hnext : ∀ a, p a → ∃ b, r a b ∧ p b) (ha : p a) :
    ¬Ends r a := by
  intro h
  induction h with
  | intro a _ ih =>
    obtain ⟨b, hab, hb⟩ := hnext a ha
    exact ih b hab hb

/-- On a walk that ends there is no way back. -/
theorem Ends.not_back (h : Ends r a) : ¬TransGen r a a := by
  induction h with
  | intro a _ ih =>
    intro hback
    obtain ⟨b, hab, hba⟩ := TransGen.head'_iff.mp hback
    exact ih b hab (TransGen.tail' hba hab)

/-- Where nothing leads back to itself, the walks of a finite relation end. -/
theorem ends_of_not_back [Finite α] (h : ∀ b, ReflTransGen r a b → ¬TransGen r b b) : Ends r a := by
  let further (x y : { b // ReflTransGen r a b }) : Prop := TransGen r y.1 x.1
  have hirrefl : Std.Irrefl further := ⟨fun x => h x.1 x.2⟩
  have hwf : WellFounded further := Finite.wellFounded_of_trans_of_irrefl further
  have hends : ∀ x : { b // ReflTransGen r a b }, Ends r x.1 := by
    intro x
    induction x using hwf.induction with
    | h x ih =>
      constructor
      exact fun c hc => ih ⟨c, x.2.tail hc⟩ (TransGen.single hc)
  exact hends ⟨a, ReflTransGen.refl⟩

theorem ends_iff [Finite α] : Ends r a ↔ ∀ b, ReflTransGen r a b → ¬TransGen r b b :=
  ⟨fun h _ hab => (h.reach hab).not_back, ends_of_not_back⟩

end GbaStation.FiniteWalks
