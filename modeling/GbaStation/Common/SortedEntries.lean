import Mathlib.Order.Lattice
import Mathlib.Data.List.Basic

/-!
# Maps as sorted entries

A `std::map` with keys of any linear order, kept as the list of its entries in key order.
-/

namespace GbaStation.SortedEntries

variable {K V : Type*} [LinearOrder K]

/-- The keys go up. -/
def Sorted (m : List (K × V)) : Prop := m.Pairwise fun e e' => e.1 < e'.1

/-- Write the value of a key, or add the key. -/
def insertOrAssign (k : K) (v : V) : List (K × V) → List (K × V)
  | [] => [(k, v)]
  | e :: m =>
    if e.1 < k then e :: insertOrAssign k v m
    else if e.1 = k then (k, v) :: m
    else (k, v) :: e :: m

variable {k : K} {v : V} {m es : List (K × V)} {e : K × V}

theorem mem_insertOrAssign (h : e ∈ insertOrAssign k v m) : e = (k, v) ∨ e ∈ m := by
  induction m with
  | nil => exact .inl (List.mem_singleton.mp h)
  | cons e' m ih =>
    rw [insertOrAssign] at h
    split_ifs at h with hlt heq
    · rcases List.mem_cons.mp h with rfl | h
      · exact .inr List.mem_cons_self
      · exact (ih h).imp_right (List.mem_cons_of_mem _)
    · exact (List.mem_cons.mp h).imp_right (List.mem_cons_of_mem _)
    · exact List.mem_cons.mp h

theorem Sorted.insertOrAssign (h : Sorted m) (k : K) (v : V) :
    Sorted (insertOrAssign k v m) := by
  induction m with
  | nil => exact List.pairwise_singleton _ _
  | cons e m ih =>
    obtain ⟨hhead, htail⟩ := List.pairwise_cons.mp h
    rw [SortedEntries.insertOrAssign]
    split_ifs with hlt heq
    · refine List.pairwise_cons.mpr ⟨fun e' he' => ?_, ih htail⟩
      rcases mem_insertOrAssign he' with rfl | he'
      · exact hlt
      · exact hhead e' he'
    · exact List.pairwise_cons.mpr ⟨fun e' he' => heq ▸ hhead e' he', htail⟩
    · have hgt : k < e.1 := lt_of_le_of_ne (not_lt.mp hlt) (Ne.symm heq)
      refine List.pairwise_cons.mpr ⟨fun e' he' => ?_, h⟩
      rcases List.mem_cons.mp he' with rfl | he'
      · exact hgt
      · exact lt_trans hgt (hhead e' he')

/-- A key above the others comes last. -/
theorem insertOrAssign_last (h : ∀ e ∈ m, e.1 < k) : insertOrAssign k v m = m ++ [(k, v)] := by
  induction m with
  | nil => rfl
  | cons e m ih =>
    obtain ⟨hhead, htail⟩ := List.forall_mem_cons.mp h
    rw [insertOrAssign, if_pos hhead, ih htail, List.cons_append]

/-- Entries in key order, one after the other. -/
theorem foldl_insertOrAssign (h : Sorted (m ++ es)) :
    es.foldl (fun m e => insertOrAssign e.1 e.2 m) m = m ++ es := by
  induction es generalizing m with
  | nil => simp
  | cons e es ih =>
    have hlast : ∀ e' ∈ m, e'.1 < e.1 := fun e' he' =>
      (List.pairwise_append.mp h).2.2 e' he' e List.mem_cons_self
    rw [List.foldl_cons, insertOrAssign_last hlast, ih (by simpa using h)]
    simp

end GbaStation.SortedEntries
