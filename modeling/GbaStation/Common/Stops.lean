import Mathlib.Logic.Basic
import Mathlib.Data.List.Forall2

/-!
# Computations that may stop

`Stops Q E x` says what a computation in `Except` leaves: a result with `Q`, or a reason to stop
with `E`. It is a postcondition with an exceptional part, and has the usual rules: `Stops.bind` for
a sequence, `Stops.foldlM` for a loop over a list, `Stops.mapM` for a loop that changes every
element.
-/

namespace GbaStation

universe u

variable {α β ε : Type u} {Q R : α → Prop} {E : ε → Prop}

/-- The result of `x` has `Q`, or `x` stops for a reason with `E`. -/
def Stops (Q : α → Prop) (E : ε → Prop) : Except ε α → Prop
  | .ok a => Q a
  | .error e => E e

@[simp] theorem stops_ok {a : α} : Stops Q E (.ok a) ↔ Q a := Iff.rfl

@[simp] theorem stops_error {e : ε} : Stops Q E (.error e) ↔ E e := Iff.rfl

theorem Stops.mono {x : Except ε α} (h : Stops Q E x) (hle : ∀ a, Q a → R a) : Stops R E x := by
  cases x with
  | ok a => exact hle a h
  | error e => exact h

theorem Stops.bind {S : β → Prop} {x : Except ε α} {f : α → Except ε β} (hx : Stops Q E x)
    (hf : ∀ a, Q a → Stops S E (f a)) : Stops S E (x >>= f) := by
  cases x with
  | ok a => exact hf a hx
  | error e => exact hx

/-- The loop rule: `I` holds of what is still to come and of the value so far. -/
theorem Stops.foldlM {I : List β → α → Prop} {f : α → β → Except ε α}
    (hstep : ∀ b l a, I (b :: l) a → Stops (I l) E (f a b)) :
    ∀ (l : List β) (a : α), I l a → Stops (I []) E (l.foldlM f a)
  | [], _, h => h
  | b :: l, a, h => by
    rw [List.foldlM_cons]
    exact (hstep b l a h).bind fun a' ha' => Stops.foldlM hstep l a' ha'

/-- A loop over the elements of a list, each of which is replaced. -/
theorem Stops.mapM {Q' : β → Prop} {f : α → Except ε β} :
    ∀ {l : List α}, (∀ a ∈ l, Stops Q' E (f a)) → Stops (fun l' => ∀ b ∈ l', Q' b) E (l.mapM f)
  | [], _ => by simp [Stops, pure, Except.pure]
  | a :: l, h => by
    rw [List.mapM_cons]
    refine (h a List.mem_cons_self).bind fun b hb => ?_
    refine (Stops.mapM fun a' ha' => h a' (List.mem_cons_of_mem _ ha')).bind fun l' hl' => ?_
    intro b' hb'
    cases hb' with
    | head => exact hb
    | tail _ hb' => exact hl' b' hb'

theorem forall₂_trans {r : α → α → Prop} (htrans : ∀ a b c, r a b → r b c → r a c)
    {l l' l'' : List α} (h : List.Forall₂ r l l') (h' : List.Forall₂ r l' l'') :
    List.Forall₂ r l l'' := by
  induction h generalizing l'' with
  | nil => exact h'
  | cons hab _ ih =>
    cases h' with
    | cons hbc h' => exact .cons (htrans _ _ _ hab hbc) (ih h')

end GbaStation
