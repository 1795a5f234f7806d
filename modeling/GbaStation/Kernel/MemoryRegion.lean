import GbaStation.Common.IntervalSet
import GbaStation.Common.Word
import Mathlib.Algebra.Order.Group.Nat

/-!
# Memory regions (`core/hle/kernel/memory.cpp`)

FCRAM is divided into three regions, each with the set of its free blocks as offsets from
the start of FCRAM. The functions follow `MemoryRegionInfo`; `none` is a failed `ASSERT`.

`Accounted` says that the books of a region balance: what is used and what is free make up
the region. Allocating takes free numbers and no others (`heapAllocate_spec`,
`linearAllocateAt_spec`, `linearAllocate_spec`), `Free` gives back numbers that were not
free (`free_spec`).
-/

namespace GbaStation.Kernel

open IntervalSet (toFinset_add toFinset_empty toFinset_subSet toFinset_sub total_eq empty)
open GbaStation.Interval (cover cover_cons mem_toFinset)

inductive MemoryRegion
  | application
  | system
  | base
deriving DecidableEq, Repr

structure MemoryRegionInfo where
  base : Nat := 0
  size : Nat := 0
  used : Nat := 0
  freeBlocks : IntervalSet := empty
  isLocked : Bool := false
deriving DecidableEq

/-- Size of the APPLICATION, SYSTEM and BASE memory regions for each memory configuration. -/
def memoryRegionSizes : Fin 8 → MemoryRegion → Nat
  | 0, .application => 0x04000000 | 0, .system => 0x02C00000 | 0, .base => 0x01400000
  | 1, _ => 0
  | 2, .application => 0x06000000 | 2, .system => 0x00C00000 | 2, .base => 0x01400000
  | 3, .application => 0x05000000 | 3, .system => 0x01C00000 | 3, .base => 0x01400000
  | 4, .application => 0x04800000 | 4, .system => 0x02400000 | 4, .base => 0x01400000
  | 5, .application => 0x02000000 | 5, .system => 0x04C00000 | 5, .base => 0x01400000
  | 6, .application => 0x07C00000 | 6, .system => 0x06400000 | 6, .base => 0x02000000
  | 7, .application => 0x0B200000 | 7, .system => 0x02E00000 | 7, .base => 0x02000000

def fcramSize : Nat := 0x08000000

def fcramN3DSSize : Nat := 0x10000000

namespace MemoryRegionInfo

/-- `Reset`. -/
def reset (base size : Nat) (r : MemoryRegionInfo) : Option MemoryRegionInfo :=
  if r.isLocked then none else
  some { r with
    base, size
    used := 0
    freeBlocks := empty.add ⟨base, add32 base size⟩ }

/-- The loop of `HeapAllocate` over the free blocks from the highest down: the blocks taken
and the size still missing. -/
def heapTake : List Interval → Nat → IntervalSet → IntervalSet × Nat
  | [], rest, result => (result, rest)
  | i :: is, rest, result =>
    if rest ≤ i.upper - i.lower then (result.add ⟨i.upper - rest, i.upper⟩, 0)
    else heapTake is (rest - (i.upper - i.lower)) (result.add i)

/-- `HeapAllocate`: blocks of the given size in all, or the empty set. -/
def heapAllocate (size : Nat) (r : MemoryRegionInfo) : Option (IntervalSet × MemoryRegionInfo) :=
  if r.isLocked then none else
  let (result, rest) := heapTake r.freeBlocks.blocks.reverse size empty
  if rest ≠ 0 then some (empty, r) else
  some (result, { r with
    freeBlocks := r.freeBlocks.subSet result
    used := add32 r.used size })

/-- `LinearAllocate(offset, size)`. -/
def linearAllocateAt (offset size : Nat) (r : MemoryRegionInfo) :
    Option (Bool × MemoryRegionInfo) :=
  if r.isLocked then none else
  let interval : Interval := ⟨offset, add32 offset size⟩
  if ¬ r.freeBlocks.contains interval then some (false, r) else
  some (true, { r with
    freeBlocks := r.freeBlocks.sub interval
    used := add32 r.used size })

/-- `LinearAllocate(size)`: the first block from the lower end that is large enough. -/
def linearAllocate (size : Nat) (r : MemoryRegionInfo) :
    Option (Option Nat × MemoryRegionInfo) :=
  if r.isLocked then none else
  match r.freeBlocks.blocks.find? fun i => decide (size ≤ i.upper - i.lower) with
  | some interval =>
    some (some interval.lower, { r with
      freeBlocks := r.freeBlocks.sub ⟨interval.lower, add32 interval.lower size⟩
      used := add32 r.used size })
  | none => some (none, r)

/-- `RLinearAllocate`: the first block from the upper end that is large enough. -/
def rLinearAllocate (size : Nat) (r : MemoryRegionInfo) :
    Option (Option Nat × MemoryRegionInfo) :=
  if r.isLocked then none else
  match r.freeBlocks.blocks.reverse.find? fun i => decide (size ≤ i.upper - i.lower) with
  | some interval =>
    some (some (interval.upper - size), { r with
      freeBlocks := r.freeBlocks.sub ⟨interval.upper - size, interval.upper⟩
      used := add32 r.used size })
  | none => some (none, r)

/-- `Free`. -/
def free (offset size : Nat) (r : MemoryRegionInfo) : Option MemoryRegionInfo :=
  if r.isLocked then some r else
  let interval : Interval := ⟨offset, add32 offset size⟩
  if r.freeBlocks.intersects interval then none else
  some { r with
    freeBlocks := r.freeBlocks.add interval
    used := sub32 r.used size }

/-- The offsets that belong to the region. -/
def bounds (r : MemoryRegionInfo) : Finset Nat := Finset.Ico r.base (r.base + r.size)

/-- The free offsets. -/
def freeSet (r : MemoryRegionInfo) : Finset Nat := r.freeBlocks.toFinset

/-- The books of the region balance. -/
structure Accounted (r : MemoryRegionInfo) : Prop where
  isLocked : r.isLocked = false
  inFCRAM : r.base + r.size ≤ fcramN3DSSize
  used : r.used + r.freeBlocks.total = r.size
  free : r.freeSet ⊆ r.bounds

variable {r r' : MemoryRegionInfo}

theorem Accounted.used_eq (h : r.Accounted) : r.used + r.freeSet.card = r.size := by
  rw [← h.used, r.freeBlocks.total_eq]
  rfl

theorem Accounted.lt_fcram (h : r.Accounted) {o : Nat} (ho : o ∈ r.freeSet) :
    o < fcramN3DSSize := by
  have hb := Finset.mem_Ico.mp (h.free ho)
  have := h.inFCRAM
  omega

/-- `r'` is `r` with the numbers `x` taken out of the free ones. -/
structure Takes (r r' : MemoryRegionInfo) (x : Finset Nat) : Prop where
  accounted : r'.Accounted
  bounds : r'.bounds = r.bounds
  subset : x ⊆ r.freeSet
  freeSet : r'.freeSet = r.freeSet \ x

theorem Accounted.take (h : r.Accounted) {x : IntervalSet} {size : Nat}
    (hsub : x.toFinset ⊆ r.freeSet) (hcard : x.toFinset.card = size)
    {free' : IntervalSet} (hfree : free'.toFinset = r.freeSet \ x.toFinset) :
    Takes r { r with freeBlocks := free', used := add32 r.used size } x.toFinset := by
  have hlim : fcramN3DSSize = 0x10000000 := rfl
  have hused := h.used_eq
  have hin := h.inFCRAM
  have hle : size ≤ r.freeSet.card := hcard ▸ Finset.card_le_card hsub
  refine ⟨⟨h.isLocked, h.inFCRAM, ?_, ?_⟩, rfl, hsub, hfree⟩
  · show add32 r.used size + free'.total = r.size
    rw [free'.total_eq, hfree, Finset.card_sdiff_of_subset hsub, hcard, add32_eq (by omega)]
    omega
  · show free'.toFinset ⊆ r.bounds
    rw [hfree]
    exact Finset.sdiff_subset.trans h.free

/-! ## What the allocators take -/

theorem heapTake_spec {is : List Interval} {rest : Nat} {result : IntervalSet}
    (his : is.Pairwise fun i j => Disjoint i.toFinset j.toFinset)
    (hd : Disjoint result.toFinset (cover is)) :
    (heapTake is rest result).1.toFinset ⊆ result.toFinset ∪ cover is ∧
      (heapTake is rest result).1.toFinset.card + (heapTake is rest result).2 =
        result.toFinset.card + rest := by
  induction is generalizing rest result with
  | nil => exact ⟨Finset.subset_union_left, rfl⟩
  | cons i is ih =>
    obtain ⟨hi, his⟩ := List.pairwise_cons.mp his
    rw [cover_cons, Finset.disjoint_union_right] at hd
    rw [heapTake]
    split_ifs with hle
    · have hpart : (⟨i.upper - rest, i.upper⟩ : Interval).toFinset ⊆ i.toFinset := by
        intro x hx
        rw [mem_toFinset] at hx ⊢
        simp only at hx
        omega
      rw [toFinset_add, cover_cons,
        Finset.card_union_of_disjoint (hd.1.mono_right hpart), Interval.card_toFinset]
      refine ⟨?_, by simp only; omega⟩
      rw [← Finset.union_assoc]
      exact (Finset.union_subset_union_right hpart).trans Finset.subset_union_left
    · have hd' : Disjoint (result.add i).toFinset (cover is) := by
        rw [toFinset_add, Finset.disjoint_union_left]
        exact ⟨hd.2, Interval.disjoint_cover hi⟩
      obtain ⟨hsub, hcard⟩ := @ih (rest - (i.upper - i.lower)) (result.add i) his hd'
      rw [toFinset_add] at hsub hcard
      rw [Finset.card_union_of_disjoint hd.1, Interval.card_toFinset] at hcard
      refine ⟨?_, by omega⟩
      rwa [cover_cons, ← Finset.union_assoc]

variable {offset size : Nat}

/-- What `HeapAllocate` hands out, whether or not the books balance. -/
theorem heapAllocate_cases {result : IntervalSet} (ha : heapAllocate size r = some (result, r')) :
    (result = empty ∧ r' = r) ∨
      result.toFinset.card = size ∧ result.toFinset ⊆ r.freeSet ∧ r' = { r with
        freeBlocks := r.freeBlocks.subSet result
        used := add32 r.used size } := by
  unfold heapAllocate at ha
  split at ha
  · cases ha
  have hdisj : r.freeBlocks.blocks.reverse.Pairwise
      fun i j => Disjoint i.toFinset j.toFinset :=
    List.pairwise_reverse.mpr (r.freeBlocks.normal.pairwise_disjoint.imp fun h => h.symm)
  obtain ⟨hsub, hcard⟩ := @heapTake_spec _ size empty hdisj (by simp)
  rw [toFinset_empty, Finset.empty_union, Interval.cover_reverse] at hsub
  simp only at ha
  split_ifs at ha with hrest
  · obtain ⟨rfl, rfl⟩ := Prod.mk.inj (Option.some.inj ha)
    exact Or.inl ⟨rfl, rfl⟩
  · obtain ⟨rfl, rfl⟩ := Prod.mk.inj (Option.some.inj ha)
    rw [toFinset_empty, Finset.card_empty, Nat.zero_add] at hcard
    exact Or.inr ⟨by omega, hsub, rfl⟩

theorem heapAllocate_spec (h : r.Accounted) {result : IntervalSet}
    (ha : heapAllocate size r = some (result, r')) :
    (result = empty ∧ r' = r) ∨
      result.toFinset.card = size ∧ Takes r r' result.toFinset := by
  rcases heapAllocate_cases ha with hnone | ⟨hcard, hsub, rfl⟩
  · exact Or.inl hnone
  · exact Or.inr ⟨hcard, h.take hsub hcard (toFinset_subSet _ _)⟩

/-- Taking one interval. -/
theorem Accounted.takeInterval (h : r.Accounted)
    (hsub : Finset.Ico offset (offset + size) ⊆ r.freeSet) :
    Takes r { r with
      freeBlocks := r.freeBlocks.sub ⟨offset, offset + size⟩
      used := add32 r.used size } (Finset.Ico offset (offset + size)) := by
  have hx : (empty.add ⟨offset, offset + size⟩).toFinset =
      Finset.Ico offset (offset + size) := by
    rw [toFinset_add, toFinset_empty, Finset.empty_union]
    rfl
  have hsub' : (r.freeBlocks.sub ⟨offset, offset + size⟩).toFinset =
      r.freeSet \ (empty.add ⟨offset, offset + size⟩).toFinset := by
    rw [hx]
    exact toFinset_sub _ _
  have := h.take (hx ▸ hsub) rfl hsub'
  rwa [hx, Nat.card_Ico, Nat.add_sub_cancel_left] at this

theorem linearAllocateAt_spec (h : r.Accounted) {b : Bool} (hlt : offset + size < 2 ^ 32)
    (ha : linearAllocateAt offset size r = some (b, r')) :
    (b = false ∧ r' = r) ∨ b = true ∧ Takes r r' (Finset.Ico offset (offset + size)) := by
  unfold linearAllocateAt at ha
  rw [if_neg (by simp [h.isLocked]), add32_eq hlt] at ha
  rw [ite_not] at ha
  split_ifs at ha with hc
  · obtain ⟨rfl, rfl⟩ := Prod.mk.inj (Option.some.inj ha)
    exact Or.inr ⟨rfl, h.takeInterval (IntervalSet.subset_of_contains hc)⟩
  · obtain ⟨rfl, rfl⟩ := Prod.mk.inj (Option.some.inj ha)
    exact Or.inl ⟨rfl, rfl⟩

theorem linearAllocate_spec (h : r.Accounted) {offset : Option Nat}
    (ha : linearAllocate size r = some (offset, r')) :
    (offset = none ∧ r' = r) ∨
      ∃ o, offset = some o ∧ o + size ≤ fcramN3DSSize ∧ Takes r r' (Finset.Ico o (o + size)) := by
  have hlim : fcramN3DSSize = 0x10000000 := rfl
  unfold linearAllocate at ha
  rw [if_neg (by simp [h.isLocked])] at ha
  split at ha
  · next i hfind =>
    obtain ⟨rfl, rfl⟩ := Prod.mk.inj (Option.some.inj ha)
    have hmem := List.mem_of_find?_eq_some hfind
    have hsize : size ≤ i.upper - i.lower := by simpa using List.find?_some hfind
    have hne := r.freeBlocks.normal.nonempty i hmem
    have hi : i.toFinset ⊆ r.freeSet := fun x hx =>
      Interval.mem_cover.mpr ⟨i, hmem, mem_toFinset.mp hx⟩
    have hup : i.upper ≤ fcramN3DSSize := by
      have hlast : i.upper - 1 ∈ i.toFinset := mem_toFinset.mpr (by omega)
      have := h.lt_fcram (hi hlast)
      omega
    have hadd : add32 i.lower size = i.lower + size := add32_eq (by omega)
    rw [hadd]
    refine Or.inr ⟨i.lower, rfl, by omega, h.takeInterval fun x hx => hi ?_⟩
    rw [Finset.mem_Ico] at hx
    rw [mem_toFinset]
    omega
  · obtain ⟨rfl, rfl⟩ := Prod.mk.inj (Option.some.inj ha)
    exact Or.inl ⟨rfl, rfl⟩

/-- `r'` is `r` with the numbers `x` given back. -/
structure Returns (r r' : MemoryRegionInfo) (x : Finset Nat) : Prop where
  accounted : r'.Accounted
  bounds : r'.bounds = r.bounds
  freeSet : r'.freeSet = r.freeSet ∪ x

/-- `Free` of offsets that belong to the region keeps its books. -/
theorem free_spec (h : r.Accounted) (hin : Finset.Ico offset (offset + size) ⊆ r.bounds)
    (hlt : offset + size < 2 ^ 32) (ha : free offset size r = some r') :
    Returns r r' (Finset.Ico offset (offset + size)) := by
  have hlim : fcramN3DSSize = 0x10000000 := rfl
  have hused := h.used_eq
  have hbase := h.inFCRAM
  unfold free at ha
  rw [if_neg (by simp [h.isLocked]), add32_eq hlt] at ha
  simp only at ha
  split_ifs at ha with hc
  obtain rfl := Option.some.inj ha
  have hdisj : Disjoint r.freeSet (Finset.Ico offset (offset + size)) :=
    IntervalSet.disjoint_of_not_intersects (i := ⟨offset, offset + size⟩) (by simpa using hc)
  have hfree : (r.freeBlocks.add ⟨offset, offset + size⟩).toFinset =
      r.freeSet ∪ Finset.Ico offset (offset + size) := toFinset_add _ _
  have hunion : r.freeSet ∪ Finset.Ico offset (offset + size) ⊆ r.bounds :=
    Finset.union_subset h.free hin
  have hcard := Finset.card_le_card hunion
  rw [Finset.card_union_of_disjoint hdisj, Nat.card_Ico, bounds, Nat.card_Ico] at hcard
  refine ⟨⟨h.isLocked, h.inFCRAM, ?_, ?_⟩, rfl, hfree⟩
  · show sub32 r.used size + (r.freeBlocks.add ⟨offset, offset + size⟩).total = r.size
    rw [total_eq, hfree, Finset.card_union_of_disjoint hdisj, Nat.card_Ico,
      sub32_eq (by omega) (by omega)]
    omega
  · show (r.freeBlocks.add ⟨offset, offset + size⟩).toFinset ⊆ r.bounds
    rw [hfree]
    exact hunion

/-- A region after `Reset` is free as a whole. -/
theorem reset_spec {base : Nat} (hin : base + size ≤ fcramN3DSSize)
    (ha : reset base size r = some r') : r'.Accounted ∧ r'.base = base ∧ r'.size = size := by
  have hlim : fcramN3DSSize = 0x10000000 := rfl
  unfold reset at ha
  split_ifs at ha with hl
  obtain rfl := Option.some.inj ha
  rw [add32_eq (by omega)]
  have hfree : (empty.add ⟨base, base + size⟩).toFinset =
      Finset.Ico base (base + size) := by
    rw [toFinset_add, toFinset_empty, Finset.empty_union]
    rfl
  refine ⟨⟨by simpa using hl, hin, ?_, ?_⟩, rfl, rfl⟩
  · show 0 + (empty.add ⟨base, base + size⟩).total = size
    rw [total_eq, hfree, Nat.card_Ico]
    omega
  · exact hfree.subset

end MemoryRegionInfo

end GbaStation.Kernel
