import GbaStation.Common.IntervalSet

/-!
# Merging sorted intervals

Intervals that are sorted by their lower ends are merged in one pass: the interval so far grows
while the next one begins in it or at its end. The result covers the same numbers (`cover_merge`),
in blocks with gaps between them (`normal_merge`).
-/

namespace GbaStation.Interval

/-- The order of pairs. -/
def le (i j : Interval) : Bool := i.lower < j.lower || (i.lower = j.lower && i.upper ≤ j.upper)

/-- The interval so far, and those that follow. -/
def merge : Interval → List Interval → List Interval
  | i, [] => [i]
  | i, j :: js =>
    if j.lower ≤ i.upper then merge ⟨i.lower, max i.upper j.upper⟩ js else i :: merge j js

variable {i j : Interval} {is js : List Interval}

/-- Sorted by their lower ends, and none is empty. -/
structure Ascending (is : List Interval) : Prop where
  nonempty : ∀ i ∈ is, i.lower < i.upper
  lower : is.Pairwise fun i j => i.lower ≤ j.lower

theorem Ascending.tail (h : Ascending (i :: is)) : Ascending is :=
  ⟨fun j hj => h.nonempty j (List.mem_cons_of_mem _ hj), (List.pairwise_cons.mp h.lower).2⟩

/-- The interval so far, grown by the next one. -/
theorem Ascending.grow (h : Ascending (i :: j :: js)) :
    Ascending (⟨i.lower, max i.upper j.upper⟩ :: js) := by
  obtain ⟨hi, hlower⟩ := List.pairwise_cons.mp h.lower
  constructor
  · intro k hk
    rcases List.mem_cons.mp hk with rfl | hk
    · exact lt_of_lt_of_le (h.nonempty i List.mem_cons_self) (le_max_left _ _)
    · exact h.tail.tail.nonempty k hk
  · exact List.pairwise_cons.mpr
      ⟨fun k hk => hi k (List.mem_cons_of_mem _ hk), (List.pairwise_cons.mp hlower).2⟩

theorem cover_merge (h : Ascending (i :: js)) : cover (merge i js) = cover (i :: js) := by
  induction js generalizing i with
  | nil => rfl
  | cons j js ih =>
    rw [merge]
    split_ifs with htouch
    · rw [ih h.grow, cover_cons, cover_cons, cover_cons, ← Finset.union_assoc]
      have hle : i.lower ≤ j.lower := (List.pairwise_cons.mp h.lower).1 j List.mem_cons_self
      congr 1
      ext x
      simp only [mem_toFinset, Finset.mem_union]
      omega
    · rw [cover_cons, cover_cons, ih h.tail]

theorem lower_merge (h : Ascending (i :: js)) : ∀ k ∈ merge i js, i.lower ≤ k.lower := by
  induction js generalizing i with
  | nil => simp [merge]
  | cons j js ih =>
    rw [merge]
    split_ifs with htouch
    · exact ih h.grow
    · have hle : i.lower ≤ j.lower := (List.pairwise_cons.mp h.lower).1 j List.mem_cons_self
      refine List.forall_mem_cons.mpr ⟨le_refl _, fun k hk => ?_⟩
      exact Nat.le_trans hle (ih h.tail k hk)

theorem normal_merge (h : Ascending (i :: js)) : Normal (merge i js) := by
  induction js generalizing i with
  | nil => exact normal_cons.mpr ⟨h.nonempty i List.mem_cons_self, by simp, Normal.nil⟩
  | cons j js ih =>
    rw [merge]
    split_ifs with htouch
    · exact ih h.grow
    · refine normal_cons.mpr ⟨h.nonempty i List.mem_cons_self, fun k hk => ?_, ih h.tail⟩
      exact lt_of_lt_of_le (not_le.mp htouch) (lower_merge h.tail k hk)

/-- Intervals in the order of pairs. -/
theorem ascending_mergeSort (h : ∀ i ∈ is, i.lower < i.upper) : Ascending (is.mergeSort le) := by
  have htrans : ∀ a b c : Interval, le a b = true → le b c = true → le a c = true := by
    intro a b c
    simp only [le, Bool.or_eq_true, Bool.and_eq_true, decide_eq_true_eq]
    omega
  have htotal : ∀ a b : Interval, (le a b || le b a) = true := by
    intro a b
    simp only [le, Bool.or_eq_true, Bool.and_eq_true, decide_eq_true_eq]
    omega
  constructor
  · exact fun i hi => h i (List.mem_mergeSort.mp hi)
  · refine (List.pairwise_mergeSort htrans htotal is).imp fun {a b} hab => ?_
    simp only [le, Bool.or_eq_true, Bool.and_eq_true, decide_eq_true_eq] at hab
    omega

theorem cover_mergeSort (is : List Interval) : cover (is.mergeSort le) = cover is := by
  ext x
  simp only [mem_cover, List.mem_mergeSort]

end GbaStation.Interval
