import Mathlib.Algebra.Order.Ring.Int
import Mathlib.Order.Interval.Finset.Nat
import Mathlib.Data.Finset.Union

/-!
# Sets of numbers kept as blocks

`boost::icl::interval_set`: a set of natural numbers kept as its maximal blocks, right-open
intervals in ascending order with a gap between any two of them. An `IntervalSet` carries
that form as a field; what an operation does is said about the set of its numbers
(`toFinset`), and `total`, the sum of the block lengths, is its cardinality.
-/

namespace GbaStation

open Finset (mem_Ico disjoint_left mem_union mem_sdiff)

/-- The interval `[lower, upper)`. -/
structure Interval where
  lower : Nat
  upper : Nat
deriving DecidableEq, Repr

namespace Interval

/-- The numbers of an interval. -/
def toFinset (i : Interval) : Finset Nat := Finset.Ico i.lower i.upper

variable {hi lo x : Nat} {bs : List Interval}

@[simp] theorem mem_toFinset {i : Interval} :
    x ∈ i.toFinset ↔ i.lower ≤ x ∧ x < i.upper := mem_Ico

theorem card_toFinset (i : Interval) : i.toFinset.card = i.upper - i.lower := Nat.card_Ico _ _

/-- The numbers of a list of intervals. -/
def cover (bs : List Interval) : Finset Nat := bs.foldr (fun i s => i.toFinset ∪ s) ∅

@[simp] theorem cover_nil : cover [] = ∅ := rfl

@[simp] theorem cover_cons (i : Interval) (bs : List Interval) :
    cover (i :: bs) = i.toFinset ∪ cover bs := rfl

theorem mem_cover : x ∈ cover bs ↔ ∃ i ∈ bs, i.lower ≤ x ∧ x < i.upper := by
  induction bs with
  | nil => simp
  | cons i bs ih => simp [ih]

theorem cover_reverse (bs : List Interval) : cover bs.reverse = cover bs := by
  ext x
  simp [mem_cover]

/-- No block is empty, and there is a gap between any two. -/
structure Normal (bs : List Interval) : Prop where
  nonempty : ∀ i ∈ bs, i.lower < i.upper
  gaps : bs.Pairwise fun i j => i.upper < j.lower

theorem Normal.nil : Normal [] := ⟨by simp, List.Pairwise.nil⟩

theorem normal_cons {i : Interval} :
    Normal (i :: bs) ↔ i.lower < i.upper ∧ (∀ j ∈ bs, i.upper < j.lower) ∧ Normal bs := by
  constructor
  · rintro ⟨hne, hg⟩
    obtain ⟨hi, hbs⟩ := List.pairwise_cons.mp hg
    exact ⟨hne i (by simp), hi, fun j hj => hne j (List.mem_cons_of_mem _ hj), hbs⟩
  · rintro ⟨hi, hgap, hne, hbs⟩
    refine ⟨fun j hj => ?_, List.pairwise_cons.mpr ⟨hgap, hbs⟩⟩
    rcases List.mem_cons.mp hj with rfl | hj
    · exact hi
    · exact hne j hj

/-- Two blocks of a normal list have no number in common. -/
theorem Normal.pairwise_disjoint (h : Normal bs) :
    bs.Pairwise fun i j => Disjoint i.toFinset j.toFinset := by
  refine h.gaps.imp fun {i j} hij => disjoint_left.mpr fun x hi hj => ?_
  rw [mem_toFinset] at hi hj
  omega

theorem disjoint_cover {i : Interval} (h : ∀ j ∈ bs, Disjoint i.toFinset j.toFinset) :
    Disjoint i.toFinset (cover bs) := by
  refine disjoint_left.mpr fun x hi hx => ?_
  obtain ⟨j, hj, hxj⟩ := mem_cover.mp hx
  exact disjoint_left.mp (h j hj) hi (mem_toFinset.mpr hxj)

/-- The sum of the lengths. -/
def total (bs : List Interval) : Nat := (bs.map fun i => i.upper - i.lower).sum

theorem Normal.total_eq (h : Normal bs) : total bs = (cover bs).card := by
  induction bs with
  | nil => rfl
  | cons i bs ih =>
    obtain ⟨-, -, hbs⟩ := normal_cons.mp h
    have hd := disjoint_cover (List.pairwise_cons.mp h.pairwise_disjoint).1
    rw [cover_cons, Finset.card_union_of_disjoint hd, ← ih hbs, card_toFinset]
    rfl

/-! ## Adding an interval -/

/-- Add `[lo, hi)`, joined with every block that it overlaps or touches. -/
def add (lo hi : Nat) : List Interval → List Interval
  | [] => [⟨lo, hi⟩]
  | i :: bs =>
    if i.upper < lo then i :: add lo hi bs
    else if hi < i.lower then ⟨lo, hi⟩ :: i :: bs
    else add (min lo i.lower) (max hi i.upper) bs

theorem lt_of_mem_add {c : Nat} (hlo : c < lo) (hbs : ∀ i ∈ bs, c < i.lower) :
    ∀ i ∈ add lo hi bs, c < i.lower := by
  induction bs generalizing lo hi with
  | nil => simpa [add] using hlo
  | cons j bs ih =>
    obtain ⟨hj, hbs⟩ := List.forall_mem_cons.mp hbs
    rw [add]
    split_ifs
    · exact List.forall_mem_cons.mpr ⟨hj, ih hlo hbs⟩
    · exact List.forall_mem_cons.mpr ⟨hlo, List.forall_mem_cons.mpr ⟨hj, hbs⟩⟩
    · exact ih (lt_min hlo hj) hbs

theorem Normal.add (h : Normal bs) (hlt : lo < hi) : Normal (add lo hi bs) := by
  induction bs generalizing lo hi with
  | nil => exact normal_cons.mpr ⟨hlt, by simp, Normal.nil⟩
  | cons j bs ih =>
    obtain ⟨hj, hgap, hbs⟩ := normal_cons.mp h
    rw [Interval.add]
    split_ifs with hl hr
    · exact normal_cons.mpr ⟨hj, lt_of_mem_add hl hgap, ih hbs hlt⟩
    · refine normal_cons.mpr ⟨hlt, fun i hi => ?_, h⟩
      rcases List.mem_cons.mp hi with rfl | hi
      · exact hr
      · exact Nat.lt_trans hr (Nat.lt_trans hj (hgap i hi))
    · exact ih hbs (by omega)

theorem cover_add (h : Normal bs) (hlt : lo < hi) :
    cover (add lo hi bs) = Finset.Ico lo hi ∪ cover bs := by
  induction bs generalizing lo hi with
  | nil => rfl
  | cons j bs ih =>
    obtain ⟨hj, -, hbs⟩ := normal_cons.mp h
    rw [add]
    split_ifs with hl hr
    · rw [cover_cons, ih hbs hlt, cover_cons, Finset.union_left_comm]
    · rfl
    · rw [ih hbs (by omega), cover_cons, ← Finset.union_assoc]
      congr 1
      ext x
      simp only [mem_Ico, mem_union, mem_toFinset]
      omega

/-! ## Removing an interval -/

/-- What is left of a block without `[lo, hi)`. -/
def cutOut (lo hi : Nat) (i : Interval) : List Interval :=
  (if i.lower < min i.upper lo then [⟨i.lower, min i.upper lo⟩] else []) ++
    if max i.lower hi < i.upper then [⟨max i.lower hi, i.upper⟩] else []

/-- Remove `[lo, hi)`. -/
def remove (lo hi : Nat) (bs : List Interval) : List Interval := bs.flatMap (cutOut lo hi)

theorem mem_cutOut {i j : Interval} (hj : j ∈ cutOut lo hi i) :
    i.lower ≤ j.lower ∧ j.lower < j.upper ∧ j.upper ≤ i.upper ∧
      (j.upper ≤ lo ∨ hi ≤ j.lower) := by
  rcases List.mem_append.mp hj with hj | hj
  · split_ifs at hj
    · obtain rfl := List.mem_singleton.mp hj
      simp only
      omega
    · cases hj
  · split_ifs at hj
    · obtain rfl := List.mem_singleton.mp hj
      simp only
      omega
    · cases hj

theorem cutOut_gaps (hlt : lo < hi) (i : Interval) :
    (cutOut lo hi i).Pairwise fun j k => j.upper < k.lower := by
  unfold cutOut
  split_ifs
  · refine List.pairwise_pair.mpr ?_
    exact Nat.lt_of_le_of_lt (min_le_right _ _) (Nat.lt_of_lt_of_le hlt (le_max_right _ _))
  all_goals simp

theorem Normal.remove (h : Normal bs) (hlt : lo < hi) : Normal (remove lo hi bs) := by
  refine ⟨fun j hj => ?_, ?_⟩
  · obtain ⟨i, -, hj⟩ := List.mem_flatMap.mp hj
    exact (mem_cutOut hj).2.1
  · refine List.pairwise_flatMap.mpr ⟨fun i _ => cutOut_gaps hlt i, h.gaps.imp ?_⟩
    intro i j hij k hk l hl
    have hki := mem_cutOut hk
    have hlj := mem_cutOut hl
    omega

theorem cover_remove (bs : List Interval) :
    cover (remove lo hi bs) ⊆ cover bs \ Finset.Ico lo hi := by
  intro x hx
  obtain ⟨j, hj, hxj⟩ := mem_cover.mp hx
  obtain ⟨i, hi, hj⟩ := List.mem_flatMap.mp hj
  have hji := mem_cutOut hj
  rw [mem_sdiff, mem_cover, mem_Ico]
  exact ⟨⟨i, hi, by omega⟩, by omega⟩

theorem cover_remove_eq (bs : List Interval) :
    cover (remove lo hi bs) = cover bs \ Finset.Ico lo hi := by
  refine Finset.Subset.antisymm (cover_remove bs) fun x hx => ?_
  rw [mem_sdiff, mem_cover, mem_Ico] at hx
  obtain ⟨⟨i, hmem, hxi⟩, hout⟩ := hx
  have hpart : ∃ j ∈ cutOut lo hi i, j.lower ≤ x ∧ x < j.upper := by
    unfold cutOut
    by_cases hlo : x < lo
    · refine ⟨⟨i.lower, min i.upper lo⟩, ?_, by simp only; omega⟩
      rw [if_pos (by omega)]
      simp
    · refine ⟨⟨max i.lower hi, i.upper⟩, ?_, by simp only; omega⟩
      rw [if_pos (c := max i.lower hi < i.upper) (by omega)]
      simp
  obtain ⟨j, hj, hxj⟩ := hpart
  exact mem_cover.mpr ⟨j, List.mem_flatMap.mpr ⟨i, hmem, hj⟩, hxj⟩

/-! ### Runs of numbers -/

/-- A run of numbers of the set lies in one block: between blocks there are gaps. -/
theorem Normal.run_in_block (h : Normal bs) {o n : Nat} (hn : 0 < n)
    (hrun : Finset.Ico o (o + n) ⊆ cover bs) : ∃ i ∈ bs, i.lower ≤ o ∧ o + n ≤ i.upper := by
  induction bs with
  | nil =>
    have ho : o ∈ cover [] := hrun (mem_Ico.mpr (by omega))
    simp at ho
  | cons i bs ih =>
    obtain ⟨-, hgap, hbs⟩ := normal_cons.mp h
    have hlater : ∀ x ∈ cover bs, i.upper < x := by
      intro x hx
      obtain ⟨j, hj, hxj⟩ := mem_cover.mp hx
      have := hgap j hj
      omega
    by_cases ho : o < i.upper
    · -- the number after the block is in no block
      have hup : ¬ i.upper < o + n := by
        intro hlt
        have hmem := hrun (mem_Ico.mpr ⟨Nat.le_of_lt ho, hlt⟩)
        rw [cover_cons, mem_union, mem_toFinset] at hmem
        rcases hmem with hmem | hmem
        · omega
        · exact absurd (hlater _ hmem) (Nat.lt_irrefl _)
      have hmem := hrun (mem_Ico.mpr ⟨Nat.le_refl o, by omega⟩)
      rw [cover_cons, mem_union, mem_toFinset] at hmem
      rcases hmem with hmem | hmem
      · exact ⟨i, List.mem_cons_self .., hmem.1, by omega⟩
      · have := hlater _ hmem
        omega
    · obtain ⟨j, hj, hoj⟩ := ih hbs fun x hx => by
        have hmem := hrun hx
        rw [mem_Ico] at hx
        rw [cover_cons, mem_union, mem_toFinset] at hmem
        exact hmem.resolve_left (by omega)
      exact ⟨j, List.mem_cons_of_mem _ hj, hoj⟩

theorem cover_cons_sdiff {i : Interval} (h : Normal (i :: bs)) :
    cover (i :: bs) \ i.toFinset = cover bs := by
  have hdisj : Disjoint (cover bs) i.toFinset :=
    (disjoint_cover (List.pairwise_cons.mp h.pairwise_disjoint).1).symm
  rw [cover_cons, Finset.union_sdiff_left, Finset.sdiff_eq_self_of_disjoint hdisj]

/-- The first block of a set starts at its first number and ends before the next gap. -/
theorem Normal.head_le {i j : Interval} {cs : List Interval} (hi : Normal (i :: bs))
    (hj : Normal (j :: cs)) (heq : cover (i :: bs) = cover (j :: cs)) :
    j.lower ≤ i.lower ∧ (i.lower = j.lower → j.upper ≤ i.upper) := by
  obtain ⟨hne, hgap, -⟩ := normal_cons.mp hi
  obtain ⟨hne', hgap', -⟩ := normal_cons.mp hj
  have hmem : ∀ x, x ∈ cover (i :: bs) ↔ x ∈ cover (j :: cs) := fun x => by rw [heq]
  simp only [cover_cons, mem_union, mem_toFinset, mem_cover] at hmem
  constructor
  · rcases (hmem i.lower).mp (Or.inl ⟨Nat.le_refl _, hne⟩) with h | ⟨k, hk, h⟩
    · exact h.1
    · have := hgap' k hk
      omega
  · intro hlow
    by_contra hlt
    rcases (hmem i.upper).mpr (Or.inl (by omega)) with h | ⟨k, hk, h⟩
    · omega
    · have := hgap k hk
      omega

/-- A set has one list of maximal blocks. -/
theorem Normal.ext {cs : List Interval} (hb : Normal bs) (hc : Normal cs)
    (heq : cover bs = cover cs) : bs = cs := by
  have hempty : ∀ {j : Interval} {ds : List Interval}, Normal (j :: ds) → cover (j :: ds) ≠ ∅ := by
    intro j ds h hd
    have hmem : j.lower ∈ cover (j :: ds) :=
      mem_cover.mpr ⟨j, List.mem_cons_self .., Nat.le_refl _, (normal_cons.mp h).1⟩
    simp [hd] at hmem
  induction bs generalizing cs with
  | nil =>
    cases cs with
    | nil => rfl
    | cons j cs => exact absurd heq.symm (hempty hc)
  | cons i bs ih =>
    cases cs with
    | nil => exact absurd heq (hempty hb)
    | cons j cs =>
      obtain ⟨hlo, hup⟩ := hb.head_le hc heq
      obtain ⟨hlo', hup'⟩ := hc.head_le hb heq.symm
      have hlower : i.lower = j.lower := Nat.le_antisymm hlo' hlo
      have hij : i = j := by
        cases i
        cases j
        simp only [Interval.mk.injEq]
        exact ⟨hlower, Nat.le_antisymm (hup' hlower.symm) (hup hlower)⟩
      subst hij
      have htail : cover bs = cover cs := by
        rw [← cover_cons_sdiff hb, ← cover_cons_sdiff hc, heq]
      rw [ih (normal_cons.mp hb).2.2 (normal_cons.mp hc).2.2 htail]

/-! ## Sets of whole units -/

/-- A set that has a unit of `u` numbers whole or not at all. -/
def InUnits (u : Nat) (s : Finset Nat) : Prop := ∀ ⦃x y⦄, x / u = y / u → x ∈ s → y ∈ s

namespace InUnits

variable {u : Nat} {s t : Finset Nat}

theorem empty (u : Nat) : InUnits u ∅ := fun _ _ _ hx => absurd hx (Finset.notMem_empty _)

theorem union (hs : InUnits u s) (ht : InUnits u t) : InUnits u (s ∪ t) := fun _ _ hxy hx =>
  mem_union.mpr ((mem_union.mp hx).imp (hs hxy) (ht hxy))

theorem sdiff (hs : InUnits u s) (ht : InUnits u t) : InUnits u (s \ t) := fun x y hxy hx => by
  obtain ⟨hx, hno⟩ := mem_sdiff.mp hx
  exact mem_sdiff.mpr ⟨hs hxy hx, fun hy => hno (ht hxy.symm hy)⟩

/-- An interval between two multiples. -/
theorem ico {a b : Nat} (ha : a % u = 0) (hb : b % u = 0) : InUnits u (Finset.Ico a b) := by
  intro x y hxy hx
  rcases Nat.eq_zero_or_pos u with rfl | hu
  · obtain rfl : a = 0 := by simpa using ha
    obtain rfl : b = 0 := by simpa using hb
    simp at hx
  obtain ⟨i, rfl⟩ := Nat.dvd_of_mod_eq_zero ha
  obtain ⟨j, rfl⟩ := Nat.dvd_of_mod_eq_zero hb
  rw [mem_Ico] at hx ⊢
  rw [Nat.mul_comm, ← Nat.le_div_iff_mul_le hu, Nat.mul_comm, ← Nat.div_lt_iff_lt_mul hu] at hx ⊢
  omega

/-- The number before a multiple is in another unit. -/
theorem mod_eq_zero_of_lower (hs : InUnits u s) {a : Nat} (ha : a ∈ s)
    (hno : ∀ x, x + 1 = a → x ∉ s) : a % u = 0 := by
  by_contra hmod
  cases a with
  | zero => exact hmod (Nat.zero_mod u)
  | succ x => exact hno x rfl (hs (Nat.succ_div_of_mod_ne_zero hmod) ha)

theorem mod_eq_zero_of_upper (hs : InUnits u s) (hx : x ∈ s) (hno : x + 1 ∉ s) :
    (x + 1) % u = 0 := by
  by_contra hmod
  exact hno (hs (Nat.succ_div_of_mod_ne_zero hmod).symm hx)

end InUnits

/-- The blocks of a set of whole units start and end at multiples. -/
theorem Normal.mod_eq_zero {u : Nat} (h : Normal bs) (hu : InUnits u (cover bs)) {i : Interval}
    (hi : i ∈ bs) : i.lower % u = 0 ∧ i.upper % u = 0 := by
  have hne := h.nonempty i hi
  have hin : ∀ {x}, i.lower ≤ x → x < i.upper → x ∈ cover bs := fun hlo hhi =>
    mem_cover.mpr ⟨i, hi, hlo, hhi⟩
  -- a number next to the block would be in a block without a gap to it
  have hgap : ∀ j ∈ bs, j = i ∨ j.upper < i.lower ∨ i.upper < j.lower := by
    intro j hj
    obtain ⟨xs, ys, rfl⟩ := List.append_of_mem hi
    obtain ⟨-, hys, hxs⟩ := List.pairwise_append.mp h.gaps
    rcases List.mem_append.mp hj with hj | hj
    · exact Or.inr (Or.inl (hxs j hj i List.mem_cons_self))
    · rcases List.mem_cons.mp hj with rfl | hj
      · exact Or.inl rfl
      · exact Or.inr (Or.inr ((List.pairwise_cons.mp hys).1 j hj))
  refine ⟨hu.mod_eq_zero_of_lower (hin (Nat.le_refl _) hne) fun x hx hmem => ?_, ?_⟩
  · obtain ⟨j, hj, hlo, hhi⟩ := mem_cover.mp hmem
    rcases hgap j hj with rfl | hlt | hlt <;> omega
  · obtain ⟨x, hx⟩ : ∃ x, x + 1 = i.upper := ⟨i.upper - 1, by omega⟩
    rw [← hx]
    refine hu.mod_eq_zero_of_upper (hin (by omega) (by omega)) fun hmem => ?_
    obtain ⟨j, hj, hlo, hhi⟩ := mem_cover.mp hmem
    rcases hgap j hj with rfl | hlt | hlt <;> omega

end Interval

/-! ## Interval sets -/

/-- A set of numbers as its maximal blocks. -/
structure IntervalSet where
  blocks : List Interval
  normal : Interval.Normal blocks

namespace IntervalSet

instance : DecidableEq IntervalSet := fun s t =>
  decidable_of_iff (s.blocks = t.blocks) (by cases s; cases t; simp)

def empty : IntervalSet := ⟨[], Interval.Normal.nil⟩

/-- The numbers of the set. -/
def toFinset (s : IntervalSet) : Finset Nat := Interval.cover s.blocks

/-- The sum of the block lengths. -/
def total (s : IntervalSet) : Nat := Interval.total s.blocks

/-- `s += i`; an empty interval adds nothing. -/
def add (s : IntervalSet) (i : Interval) : IntervalSet :=
  if h : i.lower < i.upper then ⟨Interval.add i.lower i.upper s.blocks, s.normal.add h⟩ else s

/-- `s -= i`. -/
def sub (s : IntervalSet) (i : Interval) : IntervalSet :=
  if h : i.lower < i.upper then ⟨Interval.remove i.lower i.upper s.blocks, s.normal.remove h⟩
  else s

/-- `s += t`. -/
def addSet (s t : IntervalSet) : IntervalSet := t.blocks.foldl add s

/-- `s -= t`. -/
def subSet (s t : IntervalSet) : IntervalSet := t.blocks.foldl sub s

/-- `contains(s, i)`: one block holds the whole interval. -/
def contains (s : IntervalSet) (i : Interval) : Bool :=
  decide (i.upper ≤ i.lower) ||
    s.blocks.any fun b => decide (b.lower ≤ i.lower ∧ i.upper ≤ b.upper)

/-- `intersects(s, i)`. -/
def intersects (s : IntervalSet) (i : Interval) : Bool :=
  s.blocks.any fun b => decide (max b.lower i.lower < min b.upper i.upper)

variable (s t : IntervalSet) (i : Interval)

@[simp] theorem toFinset_empty : empty.toFinset = ∅ := rfl

theorem total_eq : s.total = s.toFinset.card := s.normal.total_eq

theorem Ico_eq_empty (h : ¬ i.lower < i.upper) : i.toFinset = ∅ :=
  Finset.Ico_eq_empty h

@[simp] theorem toFinset_add : (s.add i).toFinset = s.toFinset ∪ i.toFinset := by
  unfold add
  split_ifs with h
  · exact (Interval.cover_add s.normal h).trans (Finset.union_comm _ _)
  · rw [Ico_eq_empty i h, Finset.union_empty]

@[simp] theorem toFinset_sub : (s.sub i).toFinset = s.toFinset \ i.toFinset := by
  unfold sub
  split_ifs with h
  · exact Interval.cover_remove_eq s.blocks
  · rw [Ico_eq_empty i h, Finset.sdiff_empty]

theorem toFinset_foldl_add (bs : List Interval) :
    (bs.foldl add s).toFinset = s.toFinset ∪ Interval.cover bs := by
  induction bs generalizing s with
  | nil => simp
  | cons b bs ih =>
    rw [List.foldl_cons, ih, toFinset_add, Interval.cover_cons, Finset.union_assoc]

theorem toFinset_foldl_sub (bs : List Interval) :
    (bs.foldl sub s).toFinset = s.toFinset \ Interval.cover bs := by
  induction bs generalizing s with
  | nil => simp
  | cons b bs ih =>
    rw [List.foldl_cons, ih, toFinset_sub, Interval.cover_cons, sdiff_sdiff_left]
    rfl

@[simp] theorem toFinset_addSet : (s.addSet t).toFinset = s.toFinset ∪ t.toFinset :=
  toFinset_foldl_add s t.blocks

@[simp] theorem toFinset_subSet : (s.subSet t).toFinset = s.toFinset \ t.toFinset :=
  toFinset_foldl_sub s t.blocks

variable {s i}

theorem subset_of_contains (h : s.contains i = true) : i.toFinset ⊆ s.toFinset := by
  intro x hx
  rw [Interval.mem_toFinset] at hx
  unfold contains at h
  rw [Bool.or_eq_true, decide_eq_true_eq] at h
  rcases h with h | h
  · omega
  · obtain ⟨b, hb, hi⟩ := List.any_eq_true.mp h
    rw [decide_eq_true_eq] at hi
    exact Interval.mem_cover.mpr ⟨b, hb, by omega⟩

theorem disjoint_of_not_intersects (h : s.intersects i = false) :
    Disjoint s.toFinset i.toFinset := by
  refine disjoint_left.mpr fun x hs hi => ?_
  obtain ⟨b, hb, hx⟩ := Interval.mem_cover.mp hs
  rw [Interval.mem_toFinset] at hi
  have hnot := List.any_eq_false.mp h b hb
  rw [decide_eq_true_eq] at hnot
  omega

/-- One block holds an interval if the set holds all its numbers. -/
theorem contains_iff : s.contains i = true ↔ i.toFinset ⊆ s.toFinset := by
  refine ⟨subset_of_contains, fun h => ?_⟩
  unfold contains
  rw [Bool.or_eq_true, decide_eq_true_eq]
  by_cases hi : i.upper ≤ i.lower
  · exact Or.inl hi
  · have hlen : i.lower + (i.upper - i.lower) = i.upper := by omega
    obtain ⟨b, hb, hlo, hup⟩ := s.normal.run_in_block (o := i.lower) (n := i.upper - i.lower)
      (by omega) (by rw [hlen]; exact h)
    rw [hlen] at hup
    exact Or.inr (List.any_eq_true.mpr ⟨b, hb, decide_eq_true ⟨hlo, hup⟩⟩)

theorem intersects_iff : s.intersects i = false ↔ Disjoint s.toFinset i.toFinset := by
  refine ⟨disjoint_of_not_intersects, fun h => List.any_eq_false.mpr fun b hb => ?_⟩
  rw [decide_eq_true_eq]
  intro hlt
  have hs : max b.lower i.lower ∈ s.toFinset := Interval.mem_cover.mpr ⟨b, hb, by omega⟩
  exact disjoint_left.mp h hs (Interval.mem_toFinset.mpr (by omega))

/-- Two sets with the same numbers are kept as the same blocks. -/
theorem ext_toFinset {s t : IntervalSet} (h : s.toFinset = t.toFinset) : s = t := by
  have hblocks := s.normal.ext t.normal h
  cases s
  cases t
  simp only [IntervalSet.mk.injEq]
  exact hblocks

end IntervalSet

end GbaStation
