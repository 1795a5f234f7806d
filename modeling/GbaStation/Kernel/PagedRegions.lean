import GbaStation.Kernel.MappingFrame

/-!
# Regions of whole pages

The free memory of a region is made of whole pages, and stays so as long as pages are asked for and
given back. Nothing of the books has to balance for that: a region that is `Paged` serves every
request for pages (`heapAllocate_paged`, `linearAllocate_paged`, `linearAllocateAt_paged`), and
takes back whatever is not free (`free_paged`).
-/

namespace GbaStation.Kernel

open Memory
open GbaStation.Interval (InUnits)
open IntervalSet (toFinset_add toFinset_empty toFinset_subSet toFinset_sub)
open VirtualMemoryArea (mod_sub)

namespace MemoryRegionInfo

variable {r : MemoryRegionInfo} {offset size : Nat}

/-- The free memory is made of pages of FCRAM. -/
structure Paged (r : MemoryRegionInfo) : Prop where
  isLocked : r.isLocked = false
  inFCRAM : r.base + r.size ≤ fcramN3DSSize
  pages : InUnits pageSize r.freeSet
  free : ∀ o ∈ r.freeSet, o < fcramN3DSSize

/-- What is left of the free memory, or what it grows to. -/
theorem Paged.withFree (h : r.Paged) {free' : IntervalSet} (used' : Nat)
    (hpages : InUnits pageSize free'.toFinset) (hfree : ∀ o ∈ free'.toFinset, o < fcramN3DSSize) :
    ({ r with freeBlocks := free', used := used' } : MemoryRegionInfo).Paged :=
  ⟨h.isLocked, h.inFCRAM, hpages, hfree⟩

/-- The free blocks start and end at page boundaries. -/
theorem Paged.block (h : r.Paged) {i : Interval} (hi : i ∈ r.freeBlocks.blocks) :
    i.lower % pageSize = 0 ∧ i.upper % pageSize = 0 ∧ i.lower < i.upper ∧
      i.upper ≤ fcramN3DSSize := by
  have hne := r.freeBlocks.normal.nonempty i hi
  obtain ⟨hlo, hup⟩ := r.freeBlocks.normal.mod_eq_zero h.pages hi
  have hlast := h.free (i.upper - 1) (Interval.mem_cover.mpr ⟨i, hi, by omega, by omega⟩)
  exact ⟨hlo, hup, hne, by omega⟩

/-- `HeapAllocate` takes whole pages of each block. -/
theorem heapTake_pages {is : List Interval} {rest : Nat} {result : IntervalSet}
    (his : ∀ i ∈ is, i.lower % pageSize = 0 ∧ i.upper % pageSize = 0) (hrest : rest % pageSize = 0)
    (hresult : InUnits pageSize result.toFinset) :
    InUnits pageSize (heapTake is rest result).1.toFinset := by
  induction is generalizing rest result with
  | nil => exact hresult
  | cons i is ih =>
    obtain ⟨⟨hlo, hup⟩, his⟩ := List.forall_mem_cons.mp his
    rw [heapTake]
    split_ifs with hle
    · rw [toFinset_add]
      exact hresult.union (InUnits.ico (mod_sub hup hrest).2 hup)
    · refine ih his (mod_sub hrest (mod_sub hup hlo).2).2 ?_
      rw [toFinset_add]
      exact hresult.union (InUnits.ico hlo hup)

theorem heapAllocate_paged (h : r.Paged) (hsz : size % pageSize = 0) :
    ∃ x r', r.heapAllocate size = some (x, r') ∧ r'.Paged ∧ x.toFinset ⊆ r.freeSet ∧
      InUnits pageSize x.toFinset := by
  have hcall : ∃ x r', r.heapAllocate size = some (x, r') ∧ InUnits pageSize x.toFinset := by
    unfold heapAllocate
    rw [if_neg (by simp [h.isLocked])]
    simp only
    split_ifs with hrest
    · exact ⟨_, _, rfl, toFinset_empty ▸ InUnits.empty _⟩
    · refine ⟨_, _, rfl, heapTake_pages (fun i hi => ?_) hsz (toFinset_empty ▸ InUnits.empty _)⟩
      obtain ⟨hlo, hup, -⟩ := h.block (List.mem_reverse.mp hi)
      exact ⟨hlo, hup⟩
  obtain ⟨x, r', hcall, hx⟩ := hcall
  refine ⟨x, r', hcall, ?_⟩
  rcases heapAllocate_cases hcall with ⟨rfl, rfl⟩ | ⟨-, hsub, rfl⟩
  · exact ⟨h, by simp, hx⟩
  · refine ⟨h.withFree _ ?_ fun o ho => h.free o ?_, hsub, hx⟩
    · rw [toFinset_subSet]
      exact h.pages.sdiff hx
    · rw [toFinset_subSet] at ho
      exact (Finset.mem_sdiff.mp ho).1

/-- Pages taken out of the free ones. -/
theorem Paged.subInterval (h : r.Paged) (hoff : offset % pageSize = 0) (hsz : size % pageSize = 0)
    (hlt : offset + size < 2 ^ 32) : ({ r with
      freeBlocks := r.freeBlocks.sub ⟨offset, add32 offset size⟩
      used := add32 r.used size } : MemoryRegionInfo).Paged := by
  rw [add32_eq hlt]
  refine h.withFree _ ?_ fun o ho => h.free o ?_
  · rw [toFinset_sub]
    exact h.pages.sdiff (InUnits.ico hoff (mod_sub hoff hsz).1)
  · rw [toFinset_sub] at ho
    exact (Finset.mem_sdiff.mp ho).1

theorem linearAllocate_paged (h : r.Paged) (hsz : size % pageSize = 0) :
    ∃ found r', r.linearAllocate size = some (found, r') ∧ r'.Paged ∧
      ∀ o, found = some o → o % pageSize = 0 ∧ o + size ≤ fcramN3DSSize := by
  have hlim : fcramN3DSSize = 0x10000000 := rfl
  unfold linearAllocate
  rw [if_neg (by simp [h.isLocked])]
  cases hfind : r.freeBlocks.blocks.find? fun i => decide (size ≤ i.upper - i.lower) with
  | none => exact ⟨none, r, rfl, h, nofun⟩
  | some i =>
    obtain ⟨hlo, -, hne, hup⟩ := h.block (List.mem_of_find?_eq_some hfind)
    have hfits : size ≤ i.upper - i.lower := by simpa using List.find?_some hfind
    refine ⟨some i.lower, _, rfl, h.subInterval hlo hsz (by omega), ?_⟩
    rintro o ⟨⟩
    exact ⟨hlo, by omega⟩

theorem linearAllocateAt_paged (h : r.Paged) (hoff : offset % pageSize = 0)
    (hsz : size % pageSize = 0) (hlt : offset + size < 2 ^ 32) :
    ∃ r', r.linearAllocateAt offset size =
        some (r.freeBlocks.contains ⟨offset, offset + size⟩, r') ∧ r'.Paged := by
  unfold linearAllocateAt
  rw [if_neg (by simp [h.isLocked]), ← add32_eq hlt]
  simp only
  cases hc : r.freeBlocks.contains ⟨offset, add32 offset size⟩ with
  | false => exact ⟨r, rfl, h⟩
  | true => exact ⟨_, rfl, h.subInterval hoff hsz hlt⟩

/-- Pages that are given back must not be free. -/
theorem free_paged (h : r.Paged) (hoff : offset % pageSize = 0) (hsz : size % pageSize = 0)
    (hle : offset + size ≤ fcramN3DSSize) :
    (¬ Disjoint r.freeSet (Finset.Ico offset (offset + size)) ∧ r.free offset size = none) ∨
      Disjoint r.freeSet (Finset.Ico offset (offset + size)) ∧
        ∃ r', r.free offset size = some r' ∧ r'.Paged ∧
          r'.freeSet = r.freeSet ∪ Finset.Ico offset (offset + size) := by
  have hlim : fcramN3DSSize = 0x10000000 := rfl
  have hiff : r.freeBlocks.intersects ⟨offset, offset + size⟩ = false ↔
      Disjoint r.freeSet (Finset.Ico offset (offset + size)) := IntervalSet.intersects_iff
  have hadd : (r.freeBlocks.add ⟨offset, offset + size⟩).toFinset =
      r.freeSet ∪ Finset.Ico offset (offset + size) := toFinset_add _ _
  unfold free
  rw [if_neg (by simp [h.isLocked]), add32_eq (by omega)]
  simp only
  split_ifs with hc
  · exact Or.inl ⟨fun hd => by simp [hiff.mpr hd] at hc, rfl⟩
  · refine Or.inr ⟨hiff.mp (by simpa using hc), _, rfl, h.withFree _ ?_ fun o ho => ?_, hadd⟩
    · rw [hadd]
      exact h.pages.union (InUnits.ico hoff (mod_sub hoff hsz).1)
    · rw [hadd] at ho
      rcases Finset.mem_union.mp ho with ho | ho
      · exact h.free o ho
      · have := (Finset.mem_Ico.mp ho).2
        omega

/-- A region after `Reset`. -/
theorem reset_paged {base : Nat} {r' : MemoryRegionInfo} (hbase : base % pageSize = 0)
    (hsz : size % pageSize = 0) (hin : base + size ≤ fcramN3DSSize)
    (ha : reset base size r = some r') : r'.Paged := by
  have hlim : fcramN3DSSize = 0x10000000 := rfl
  unfold reset at ha
  split_ifs at ha with hl
  obtain rfl := Option.some.inj ha
  rw [add32_eq (by omega)]
  have hfree : (IntervalSet.empty.add ⟨base, base + size⟩).toFinset =
      Finset.Ico base (base + size) := by
    rw [toFinset_add, toFinset_empty, Finset.empty_union]
    rfl
  refine ⟨by simpa using hl, hin, ?_, fun o ho => ?_⟩
  · show InUnits pageSize (IntervalSet.toFinset _)
    rw [hfree]
    exact InUnits.ico hbase (mod_sub hbase hsz).1
  · have ho' : o ∈ (IntervalSet.empty.add ⟨base, base + size⟩).toFinset := ho
    rw [hfree] at ho'
    have := (Finset.mem_Ico.mp ho').2
    omega

end MemoryRegionInfo

end GbaStation.Kernel
