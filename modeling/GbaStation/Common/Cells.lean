import Mathlib.Logic.Basic
import Mathlib.Data.List.Basic

/-!
# Cells of a state

A state whose cells are read and written one by one, where a write leaves the other cells alone.
-/

namespace GbaStation

universe u v w x y

/-- Reading and writing the cells of a state. -/
structure Cells (σ : Type u) (κ : Type v) (β : Type w) where
  get : σ → κ → β
  set : σ → κ → β → σ
  get_set_self : ∀ s k b, get (set s k b) k = b
  get_set_of_ne : ∀ s k b k', k' ≠ k → get (set s k b) k' = get s k'

variable {σ : Type u} {κ : Type v} {β : Type w} {ι : Type x} {υ : Type y}

/-- The pairs of a loop in a loop. -/
theorem mem_pairs {rows : List υ} {l : List ι} {p : υ × ι} :
    p ∈ rows.flatMap (fun r => l.map (Prod.mk r)) ↔ p.1 ∈ rows ∧ p.2 ∈ l := by
  rw [List.mem_flatMap]
  constructor
  · rintro ⟨r, hr, hp⟩
    obtain ⟨i, hi, rfl⟩ := List.mem_map.mp hp
    exact ⟨hr, hi⟩
  · rintro ⟨hr, hi⟩
    exact ⟨p.1, hr, List.mem_map_of_mem hi⟩

namespace Cells

variable (C : Cells σ κ β) {place : ι → κ} {value : ι → β} {l : List ι} {s : σ} {k : κ} {b : β}

/-- Writes in a row. -/
def scatter (place : ι → κ) (value : ι → β) (l : List ι) (s : σ) : σ :=
  l.foldl (fun s i => C.set s (place i) (value i)) s

@[simp] theorem scatter_nil (s : σ) : C.scatter place value [] s = s := rfl

@[simp] theorem scatter_cons (i : ι) (l : List ι) (s : σ) :
    C.scatter place value (i :: l) s = C.scatter place value l (C.set s (place i) (value i)) := rfl

/-- A cell that is not written. -/
theorem get_scatter_of_not_mem (h : ∀ i ∈ l, place i ≠ k) :
    C.get (C.scatter place value l s) k = C.get s k := by
  induction l generalizing s with
  | nil => rfl
  | cons i l ih =>
    rw [List.forall_mem_cons] at h
    rw [scatter_cons, ih h.2, C.get_set_of_ne _ _ _ _ (Ne.symm h.1)]

/-- A cell that is written, where all writes to it agree. -/
theorem get_scatter_of_mem (hmem : ∃ i ∈ l, place i = k)
    (hagree : ∀ i ∈ l, place i = k → value i = b) :
    C.get (C.scatter place value l s) k = b := by
  induction l generalizing s with
  | nil =>
    obtain ⟨i, hi, -⟩ := hmem
    cases hi
  | cons i l ih =>
    rw [List.forall_mem_cons] at hagree
    rw [scatter_cons]
    by_cases hlater : ∃ j ∈ l, place j = k
    · exact ih hlater hagree.2
    · -- the first write is the last one to the cell
      have hplace : place i = k := by
        obtain ⟨j, hj, hjk⟩ := hmem
        rcases List.mem_cons.mp hj with rfl | hj
        · exact hjk
        · exact absurd ⟨j, hj, hjk⟩ hlater
      rw [C.get_scatter_of_not_mem fun j hj hjk => hlater ⟨j, hj, hjk⟩, ← hplace, C.get_set_self]
      exact hagree.1 hplace

/-- A write that no other one of the row meets. -/
theorem get_scatter_of_injOn {i : ι} (hi : i ∈ l)
    (hinj : ∀ j ∈ l, place j = place i → j = i) :
    C.get (C.scatter place value l s) (place i) = value i :=
  C.get_scatter_of_mem ⟨i, hi, rfl⟩ fun j hj hji => congrArg value (hinj j hj hji)

/-- Rows of writes in a row. -/
theorem foldl_scatter (place : υ → ι → κ) (value : υ → ι → β) (rows : List υ) (l : List ι) (s : σ) :
    rows.foldl (fun s r => C.scatter (place r) (value r) l s) s =
      C.scatter (fun p => place p.1 p.2) (fun p => value p.1 p.2)
        (rows.flatMap fun r => l.map (Prod.mk r)) s := by
  induction rows generalizing s with
  | nil => rfl
  | cons r rows ih =>
    rw [List.foldl_cons, ih, List.flatMap_cons]
    unfold scatter
    rw [List.foldl_append, List.foldl_map]

end Cells

/-- The cells of a function. -/
def functionCells [DecidableEq κ] : Cells (κ → β) κ β where
  get s := s
  set := Function.update
  get_set_self s k b := Function.update_self k b s
  get_set_of_ne s _ b _ h := Function.update_of_ne h b s

/-- A loop of which no turn stops. -/
theorem foldlM_eq_foldl {ε : Type y} {body : σ → ι → Except ε σ} {next : σ → ι → σ} {l : List ι}
    (h : ∀ i ∈ l, ∀ s, body s i = .ok (next s i)) (s : σ) :
    l.foldlM body s = .ok (l.foldl next s) := by
  induction l generalizing s with
  | nil => rfl
  | cons i l ih =>
    rw [List.forall_mem_cons] at h
    rw [List.foldlM_cons, h.1]
    exact ih h.2 (next s i)

/-- A loop over a range, whose invariant is indexed by the counter. -/
theorem foldlM_range_ok {ε : Type y} {body : σ → Nat → Except ε σ} {I : Nat → σ → Prop} {n : Nat}
    {s : σ} (hstart : I 0 s)
    (hbody : ∀ i s, i < n → I i s → ∃ s', body s i = .ok s' ∧ I (i + 1) s') :
    ∃ s', (List.range n).foldlM body s = .ok s' ∧ I n s' := by
  induction n with
  | zero => exact ⟨s, rfl, hstart⟩
  | succ n ih =>
    obtain ⟨s', hs', hI⟩ := ih fun i s hi => hbody i s (Nat.lt_succ_of_lt hi)
    obtain ⟨s'', hs'', hI'⟩ := hbody n s' (Nat.lt_succ_self n) hI
    refine ⟨s'', ?_, hI'⟩
    rw [List.range_succ, List.foldlM_append, hs']
    exact (congrArg (· >>= pure) hs'').trans (bind_pure _)

end GbaStation
