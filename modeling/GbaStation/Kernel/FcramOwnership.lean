import GbaStation.Kernel.ProcessMemory
import GbaStation.Memory.Pointers

/-!
# Who owns FCRAM

FCRAM is handed out by the regions, mapped into the process, shared and given back. `Owned`
is the invariant that ties the four books together: an offset that is mapped, held or part
of a shared memory block is *taken*, that is, in no region's free blocks.

`FREE` gives back what lies behind the range it unmaps, whatever the state of that memory
is. It keeps the invariant if the process has it mapped nowhere else and no shared memory
block is made of it (`ReleasesOwn`); every other call keeps it in any case.
-/

namespace GbaStation.Kernel

open Memory
open Memory.VMManager (Intact pointerAt bytePointer blocksSize)
open MemoryRegionInfo (linearAllocate_spec reset_spec)
open Option (some.inj bind_eq_some_iff map_eq_some_iff)
open VMManager (blocksSize_cons changeMemoryState_pointerAt bytePointer_isSome keyed)
open Or (inr inl)
open Finset (mem_union mem_Ico)

variable {r : MemoryRegion} {info : MemoryRegionInfo} {x : Finset Nat} {vm : VMManager}
  {size target : Nat} {state : MemoryState} {perms : VMAPermission}

namespace KernelSystem

variable {ks ks' : KernelSystem}

/-- No region has the offset among its free blocks. -/
def Taken (ks : KernelSystem) (o : Nat) : Prop := ∀ r, o ∉ (ks.memoryRegions r).freeSet

/-- The process maps the offset at the address. -/
def MapsAt (ks : KernelSystem) (a o : Nat) : Prop :=
  pointerAt ks.process.vmManager a = some (ks.fcram + o)

instance (ks : KernelSystem) (a o : Nat) : Decidable (ks.MapsAt a o) :=
  inferInstanceAs (Decidable (_ = _))

/-- The offset is part of a list of backing blocks. -/
def InBlocks (ks : KernelSystem) (blocks : List (MemoryRef × Nat)) (o : Nat) : Prop :=
  ∃ i, bytePointer blocks i = some (ks.fcram + o)

/-- The offset is part of a shared memory block. -/
def Shared (ks : KernelSystem) (o : Nat) : Prop :=
  ∃ sm ∈ ks.sharedMemories, ks.InBlocks sm.backingBlocks o

/-- The region the process allocates from and frees to. -/
def ownRegion (ks : KernelSystem) : MemoryRegionInfo := ks.memoryRegions ks.process.memoryRegion

/-- The four books agree. -/
structure Owned (ks : KernelSystem) : Prop where
  intact : Intact ks.process.vmManager
  accounted : ∀ r, (ks.memoryRegions r).Accounted
  apart : ∀ r r', r ≠ r' → Disjoint (ks.memoryRegions r).bounds (ks.memoryRegions r').bounds
  mapped : ∀ a o, ks.MapsAt a o → ks.Taken o ∧ (o ∈ ks.ownRegion.bounds ∨ ks.Shared o)
  shared : ∀ o, ks.Shared o → ks.Taken o
  holding : ∀ o ∈ ks.process.holdingMemory.toFinset, ks.Taken o
  words : ∀ sm ∈ ks.sharedMemories, sm.size < 2 ^ 32 ∧ blocksSize sm.backingBlocks < 2 ^ 32

/-! ## Taking memory from a region -/

theorem setRegion_self (r : MemoryRegion) (info : MemoryRegionInfo) :
    (ks.setRegion r info).memoryRegions r = info := if_pos rfl

theorem setRegion_ne {r' : MemoryRegion} (h : r' ≠ r) (info : MemoryRegionInfo) :
    (ks.setRegion r info).memoryRegions r' = ks.memoryRegions r' := if_neg h

/-- What is taken after an allocation: what was, and the allocated offsets. -/
theorem Owned.taken_takes (h : Owned ks) (ht : (ks.memoryRegions r).Takes info x) (o : Nat) :
    (ks.setRegion r info).Taken o ↔ ks.Taken o ∨ o ∈ x := by
  constructor
  · intro hto
    by_cases hx : o ∈ x
    · exact inr hx
    · refine inl fun r' hr' => ?_
      by_cases hrr : r' = r
      · subst hrr
        have := hto r'
        rw [setRegion_self, ht.freeSet] at this
        exact this (Finset.mem_sdiff.mpr ⟨hr', hx⟩)
      · have := hto r'
        rw [setRegion_ne hrr] at this
        exact this hr'
  · intro hto r'
    by_cases hrr : r' = r
    · subst hrr
      rw [setRegion_self, ht.freeSet, Finset.mem_sdiff, not_and_not_right]
      intro ho
      exact hto.resolve_left fun hto => hto r' ho
    · rw [setRegion_ne hrr]
      rcases hto with hto | hx
      · exact hto r'
      · -- the allocated offsets belong to `r`, the free ones of `r'` to `r'`
        have hbr := (h.accounted r).free (ht.subset hx)
        exact fun ho => Finset.disjoint_left.mp (h.apart r' r hrr) ((h.accounted r').free ho) hbr

theorem bounds_setRegion (hb : info.bounds = (ks.memoryRegions r).bounds) (r' : MemoryRegion) :
    ((ks.setRegion r info).memoryRegions r').bounds = (ks.memoryRegions r').bounds := by
  by_cases hrr : r' = r
  · subst hrr
    rw [setRegion_self, hb]
  · rw [setRegion_ne hrr]

/-- An allocation keeps the books. -/
theorem Owned.take (h : Owned ks) {r : MemoryRegion} {info : MemoryRegionInfo} {x : Finset Nat}
    (ht : (ks.memoryRegions r).Takes info x) : Owned (ks.setRegion r info) where
  intact := h.intact
  accounted r' := by
    by_cases hrr : r' = r
    · subst hrr
      rw [setRegion_self]
      exact ht.accounted
    · rw [setRegion_ne hrr]
      exact h.accounted r'
  apart r₁ r₂ hne := by
    rw [bounds_setRegion ht.bounds, bounds_setRegion ht.bounds]
    exact h.apart r₁ r₂ hne
  mapped a o ho := by
    obtain ⟨htaken, hown⟩ := h.mapped a o ho
    refine ⟨(h.taken_takes ht o).mpr (inl htaken), ?_⟩
    unfold ownRegion
    rw [bounds_setRegion ht.bounds]
    exact hown
  shared o ho := (h.taken_takes ht o).mpr (inl (h.shared o ho))
  holding o ho := (h.taken_takes ht o).mpr (inl (h.holding o ho))
  words := h.words

theorem Owned.setRegion_same (h : Owned ks) (r : MemoryRegion) :
    Owned (ks.setRegion r (ks.memoryRegions r)) := by
  have heq : ks.setRegion r (ks.memoryRegions r) = ks := by
    unfold setRegion
    congr
    funext r'
    split_ifs with hr
    · rw [hr]
    · rfl
  rwa [heq]

/-- New mappings of memory that is taken keep the books. -/
theorem Owned.remap (h : Owned ks) (hi : Intact vm)
    (hm : ∀ a o, pointerAt vm a = some (ks.fcram + o) →
      (∃ a', ks.MapsAt a' o) ∨ ks.Taken o ∧ (o ∈ ks.ownRegion.bounds ∨ ks.Shared o)) :
    Owned (ks.setVMManager vm) where
  intact := hi
  accounted := h.accounted
  apart := h.apart
  mapped a o ho := by
    rcases hm a o ho with ⟨a', ha'⟩ | hnew
    · exact h.mapped a' o ha'
    · exact hnew
  shared := h.shared
  holding := h.holding
  words := h.words

/-- A change of protections or states keeps the books. -/
theorem Owned.samePointers (h : Owned ks) (hi : Intact vm)
    (hm : ∀ a, pointerAt vm a = pointerAt ks.process.vmManager a) : Owned (ks.setVMManager vm) :=
  h.remap hi fun a o ho => inl ⟨a, by rw [MapsAt, ← hm, ho]⟩

theorem Owned.hold (h : Owned ks) {x : IntervalSet} (hx : ∀ o ∈ x.toFinset, ks.Taken o) :
    Owned (ks.hold x size) where
  intact := h.intact
  accounted := h.accounted
  apart := h.apart
  mapped := h.mapped
  shared := h.shared
  holding o ho := by
    have ho' : o ∈ (ks.process.holdingMemory.addSet x).toFinset := ho
    rw [IntervalSet.toFinset_addSet, mem_union] at ho'
    exact ho'.elim (h.holding o) (hx o)
  words := h.words

/-- A new shared memory block of memory that is taken keeps the books. -/
theorem Owned.addShared (h : Owned ks) {sm : SharedMemory}
    (hsm : ∀ o, ks.InBlocks sm.backingBlocks o → ks.Taken o)
    (hw : sm.size < 2 ^ 32 ∧ blocksSize sm.backingBlocks < 2 ^ 32) : Owned (sm.addTo ks) where
  intact := h.intact
  accounted := h.accounted
  apart := h.apart
  mapped a o ho := by
    obtain ⟨htaken, hown⟩ := h.mapped a o ho
    refine ⟨htaken, hown.imp_right ?_⟩
    rintro ⟨sm', hmem, hin⟩
    exact ⟨sm', List.mem_append_left _ hmem, hin⟩
  shared o := by
    rintro ⟨sm', hmem, hin⟩
    rcases List.mem_append.mp hmem with hmem | hmem
    · exact h.shared o ⟨sm', hmem, hin⟩
    · obtain rfl := List.mem_singleton.mp hmem
      exact hsm o hin
  holding := h.holding
  words sm' hmem := by
    rcases List.mem_append.mp hmem with hmem | hmem
    · exact h.words sm' hmem
    · obtain rfl := List.mem_singleton.mp hmem
      exact hw

end KernelSystem

/-! ## Mapping blocks -/

theorem mapBlocks_pointerAt {blocks : List (MemoryRef × Nat)} {vm' : VMManager} (h : Intact vm)
    (hw : blocksSize blocks < 2 ^ 32) (hmap : mapBlocks state perms blocks target vm = some vm') :
    Intact vm' ∧ ∀ a p, pointerAt vm' a = some p →
      pointerAt vm a = some p ∨ ∃ i, bytePointer blocks i = some p := by
  induction blocks generalizing target vm with
  | nil =>
    obtain rfl := some.inj hmap
    exact ⟨h, fun a p hp => inl hp⟩
  | cons b blocks ih =>
    obtain ⟨memory, size⟩ := b
    rw [blocksSize_cons] at hw
    obtain ⟨⟨out, vm₁⟩, hcall, hmap⟩ := bind_eq_some_iff.mp hmap
    cases out with
    | error e => cases hmap
    | ok k =>
      obtain ⟨⟨k', vm₂⟩, hrep, hmap⟩ := bind_eq_some_iff.mp hmap
      obtain ⟨h₁, -, hp₁⟩ :=
        VMManager.mapBackingMemory_pointerAt h (by simp only at hw; omega) hcall
      obtain ⟨h₂, hp₂⟩ := VMManager.reprotect_pointerAt h₁ hrep
      obtain ⟨h', hp'⟩ := ih h₂ (by omega) hmap
      refine ⟨h', fun a p hp => ?_⟩
      rcases hp' a p hp with hp | ⟨i, hi⟩
      · rw [hp₂, hp₁] at hp
        split_ifs at hp with ha
        · refine inr ⟨a - target, ?_⟩
          rw [bytePointer, if_pos (by omega), hp]
        · exact inl hp
      · refine inr ⟨i + size, ?_⟩
        rw [bytePointer, if_neg (by omega), Nat.add_sub_cancel, hi]

namespace KernelSystem

variable {ks ks' : KernelSystem}

variable {offset : Nat} {out : Except Result Nat} {res : Result}

theorem getPtr_fcramRef {r : MemoryRef} (h : ks.getFCRAMRef offset = some r) :
    r.getPtr = ks.fcram + offset := by
  unfold getFCRAMRef at h
  split_ifs at h
  obtain rfl := some.inj h
  rfl

/-- The blocks behind FCRAM intervals are made of their offsets. -/
theorem fcramBlocks_spec {is : List Interval} {blocks : List (MemoryRef × Nat)}
    (h : ks.fcramBlocks is = some blocks) :
    blocksSize blocks = Interval.total is ∧ ∀ o, ks.InBlocks blocks o → o ∈ Interval.cover is := by
  induction is generalizing blocks with
  | nil =>
    obtain rfl := some.inj h
    refine ⟨rfl, ?_⟩
    rintro o ⟨i, hi⟩
    cases hi
  | cons interval is ih =>
    obtain ⟨r, hr, h⟩ := bind_eq_some_iff.mp h
    obtain ⟨bs, hbs, h⟩ := bind_eq_some_iff.mp h
    obtain rfl := some.inj h
    obtain ⟨hsize, hin⟩ := ih hbs
    refine ⟨by rw [blocksSize_cons, hsize]; rfl, ?_⟩
    rintro o ⟨i, hi⟩
    rw [Interval.cover_cons, mem_union, Interval.mem_toFinset]
    rw [bytePointer, getPtr_fcramRef hr] at hi
    split_ifs at hi with hlt
    · have := some.inj hi
      omega
    · exact inr (hin o ⟨_, hi⟩)

/-- Mapping blocks of taken memory keeps the books. -/
theorem Owned.mapBlocks (h : Owned ks) {blocks : List (MemoryRef × Nat)}
    (hw : blocksSize blocks < 2 ^ 32) (hb : ∀ o, ks.InBlocks blocks o → (∃ a, ks.MapsAt a o) ∨
      ks.Taken o ∧ (o ∈ ks.ownRegion.bounds ∨ ks.Shared o))
    (hmap : mapBlocks state perms blocks target ks.process.vmManager = some vm) :
    Owned (ks.setVMManager vm) := by
  obtain ⟨hi, hp⟩ := mapBlocks_pointerAt h.intact hw hmap
  refine h.remap hi fun a o ho => ?_
  rcases hp a _ ho with hold | hnew
  · exact inl ⟨a, hold⟩
  · exact hb o hnew

/-- Memory just taken from the process' region is taken and its own. -/
theorem Owned.taken_of_takes (h : Owned ks) (ht : ks.ownRegion.Takes info x) {o : Nat} (ho : o ∈ x)
    :
    (ks.setRegion ks.process.memoryRegion info).Taken o ∧
      o ∈ (ks.setRegion ks.process.memoryRegion info).ownRegion.bounds := by
  refine ⟨(h.taken_takes ht o).mpr (inr ho), ?_⟩
  have hb : (ks.setRegion ks.process.memoryRegion info).ownRegion.bounds = ks.ownRegion.bounds :=
    bounds_setRegion ht.bounds _
  rw [hb]
  exact (h.accounted _).free (ht.subset ho)

theorem Owned.total_lt (h : Owned ks) (ht : (ks.memoryRegions r).Takes info x) :
    x.card < 2 ^ 32 := by
  have hlim : fcramN3DSSize = 0x10000000 := rfl
  have hacc := h.accounted r
  have hin := hacc.inFCRAM
  have hused := hacc.used_eq
  have hle := Finset.card_le_card ht.subset
  omega

/-! ## The calls that keep the books in any case -/

theorem Owned.heapAllocate (h : Owned ks) {skip : Bool}
    (hcall : Process.heapAllocate target size perms state skip ks = some (out, ks')) :
    Owned ks' := by
  unfold Process.heapAllocate at hcall
  split at hcall
  · exact of_returned h hcall
  obtain ⟨allocated, -, hcall⟩ := bind_eq_some_iff.mp hcall
  split at hcall
  · exact of_returned h hcall
  obtain ⟨⟨fcram, region⟩, halloc, hcall⟩ := bind_eq_some_iff.mp hcall
  rcases MemoryRegionInfo.heapAllocate_spec (h.accounted _) halloc with ⟨rfl, rfl⟩ | ⟨hcard, ht⟩
  · exact of_returned (h.setRegion_same _) hcall
  have h₁ := h.take ht
  dsimp only at hcall
  split at hcall
  · exact of_returned h₁ hcall
  obtain ⟨blocks, hblocks, hcall⟩ := bind_eq_some_iff.mp hcall
  obtain ⟨vm, hmap, hcall⟩ := bind_eq_some_iff.mp hcall
  obtain ⟨rfl, rfl⟩ := returned hcall
  obtain ⟨hsize, hin⟩ := fcramBlocks_spec hblocks
  have hw : blocksSize blocks < 2 ^ 32 := by
    rw [hsize, fcram.normal.total_eq]
    exact h.total_lt ht
  refine (h₁.mapBlocks hw (fun o ho => inr ?_) hmap).hold fun o ho => ?_
  · exact (h.taken_of_takes ht (hin o ho)).imp_right inl
  · exact (h.taken_of_takes ht ho).1

theorem inBlocks_singleton {r : MemoryRef} (hr : ks.getFCRAMRef offset = some r) {o : Nat}
    (ho : ks.InBlocks [(r, size)] o) : o ∈ Finset.Ico offset (offset + size) := by
  have hblocks : ks.fcramBlocks [⟨offset, offset + size⟩] = some [(r, size)] := by
    simp [fcramBlocks, hr]
  obtain ⟨-, hin⟩ := fcramBlocks_spec hblocks
  simpa using hin o ho

/-- The block taken by a linear allocation, mapped and held. -/
theorem Owned.mapLinear (h : Owned ks)
    (ht : ks.ownRegion.Takes info (Finset.Ico offset (offset + size)))
    (hlt : offset + size < 2 ^ 32) (hcall : Process.mapLinear target offset size perms
      (ks.setRegion ks.process.memoryRegion info) = some (out, ks')) : Owned ks' := by
  obtain ⟨r, hr, hcall⟩ := bind_eq_some_iff.mp hcall
  obtain ⟨vm, hmap, hcall⟩ := bind_eq_some_iff.mp hcall
  obtain ⟨rfl, rfl⟩ := returned hcall
  have hw : blocksSize [(r, size)] < 2 ^ 32 := by
    rw [blocksSize_cons, VMManager.blocksSize_nil]
    omega
  refine ((h.take ht).mapBlocks hw (fun o ho => inr ?_) hmap).hold fun o ho => ?_
  · exact (h.taken_of_takes ht (inBlocks_singleton hr ho)).imp_right inl
  · rw [IntervalSet.toFinset_add, IntervalSet.toFinset_empty, Finset.empty_union,
      add32_eq hlt] at ho
    exact (h.taken_of_takes ht ho).1

/-- A range of the linear heap lies one to one over offsets of the process' region. -/
theorem Owned.inLinearHeap (h : Owned ks) (htg : target < 2 ^ 32) (hsz : size < 2 ^ 32)
    (hr : Process.outsideLinearHeap target size ks = false) :
    sub32 target ks.process.getLinearHeapAreaAddress =
        target - ks.process.getLinearHeapAreaAddress ∧
      ks.process.getLinearHeapAreaAddress ≤ target ∧
      target - ks.process.getLinearHeapAreaAddress + size ≤ fcramN3DSSize ∧
      Finset.Ico (target - ks.process.getLinearHeapAreaAddress)
        (target - ks.process.getLinearHeapAreaAddress + size) ⊆ ks.ownRegion.bounds := by
  have hlim : fcramN3DSSize = 0x10000000 := rfl
  have harea : ks.process.getLinearHeapAreaAddress ≤ 0x30000000 := by
    unfold Process.getLinearHeapAreaAddress linearHeapVAddr newLinearHeapVAddr
    split_ifs <;> decide
  have hin := (h.accounted ks.process.memoryRegion).inFCRAM
  have hbase : Process.getLinearHeapBase ks =
      ks.process.getLinearHeapAreaAddress + ks.ownRegion.base := add32_eq (by omega)
  have hlimit : Process.getLinearHeapLimit ks =
      ks.process.getLinearHeapAreaAddress + ks.ownRegion.base + ks.ownRegion.size := by
    unfold Process.getLinearHeapLimit
    rw [hbase]
    exact add32_eq (by unfold ownRegion; omega)
  unfold Process.outsideLinearHeap at hr
  rw [decide_eq_false_iff_not, hbase, hlimit] at hr
  unfold add32 at hr
  have hle : ks.process.getLinearHeapAreaAddress ≤ target := by omega
  refine ⟨sub32_eq hle htg, hle, ?_, fun x hx => ?_⟩
  · unfold ownRegion at hr
    omega
  · rw [MemoryRegionInfo.bounds, mem_Ico]
    rw [mem_Ico] at hx
    omega

theorem Owned.linearAllocate (h : Owned ks) (hsz : size < 2 ^ 32) (htg : target < 2 ^ 32)
    (hcall : Process.linearAllocate target size perms ks = some (out, ks')) : Owned ks' := by
  have hlim : fcramN3DSSize = 0x10000000 := rfl
  unfold Process.linearAllocate at hcall
  simp only at hcall
  split at hcall
  · obtain ⟨⟨offset, info⟩, halloc, hcall⟩ := bind_eq_some_iff.mp hcall
    rcases linearAllocate_spec (h.accounted _) halloc with ⟨rfl, rfl⟩ | ⟨o, rfl, hle, ht⟩
    · exact of_returned (h.setRegion_same _) hcall
    · exact h.mapLinear ht (by omega) hcall
  split at hcall
  · exact of_returned h hcall
  next hrange =>
  obtain ⟨hsub, -, hle, -⟩ := h.inLinearHeap htg hsz (by simpa using hrange)
  rw [hsub] at hcall
  obtain ⟨⟨allocated, info⟩, halloc, hcall⟩ := bind_eq_some_iff.mp hcall
  rcases MemoryRegionInfo.linearAllocateAt_spec (h.accounted _) (by omega) halloc with
    ⟨rfl, rfl⟩ | ⟨rfl, ht⟩
  · exact of_returned (h.setRegion_same _) hcall
  · exact h.mapLinear ht (by omega) hcall

theorem Owned.mapCall (h : Owned ks) {source : Nat} (hsrc : source < 2 ^ 32) (hsz : size < 2 ^ 32)
    {privileged : Bool}
    (hcall : Process.map target source size perms privileged ks = some (res, ks')) : Owned ks' := by
  rcases Process.map_inv hcall with
    ⟨-, rfl⟩ | ⟨-, -, vm, rfl, hchange⟩ | ⟨-, -, r, vm, hchange, hend⟩
  · exact h
  · obtain ⟨hi, hp, -⟩ := changeMemoryState_pointerAt h.intact hsrc hsz hchange
    exact h.samePointers hi hp
  obtain ⟨hi, hp, hle⟩ := changeMemoryState_pointerAt h.intact hsrc hsz hchange
  have h₁ := h.samePointers hi hp
  rcases hend with ⟨-, -, rfl⟩ | ⟨hres, e | blocks, hget, hend⟩
  · exact h₁
  · exact hend.2 ▸ h₁
  · obtain ⟨-, vm', rfl, hmap⟩ := hend
    obtain ⟨hsize, hbytes⟩ := VMManager.getBackingBlocksForRange_spec hi (hle hres) hget
    refine h₁.mapBlocks (by omega) (fun o ho => Or.inl ?_) hmap
    obtain ⟨i, hi⟩ := ho
    have hlt := bytePointer_isSome hi
    rw [hbytes i (by omega)] at hi
    exact ⟨source + i, hi⟩

/-- Unmapping keeps the books. -/
theorem Owned.unmapRange (h : Owned ks) (htg : target < 2 ^ 32) (hsz : size < 2 ^ 32)
    (hcall : VMManager.unmapRange target size ks.process.vmManager = some (res, vm)) :
    Owned (ks.setVMManager vm) := by
  rcases VMManager.unmapRange_pointerAt h.intact htg hsz hcall with ⟨-, rfl⟩ | ⟨-, hi, -, hp⟩
  · exact h
  · refine h.remap hi fun a o ho => inl ⟨a, ?_⟩
    rw [hp] at ho
    split_ifs at ho
    exact ho

theorem Owned.unmapCall (h : Owned ks) {source : Nat} (htg : target < 2 ^ 32)
    (hsrc : source < 2 ^ 32) (hsz : size < 2 ^ 32) {privileged : Bool}
    (hcall : Process.unmap target source size perms privileged ks = some (res, ks')) :
    Owned ks' := by
  unfold Process.unmap at hcall
  split at hcall
  · exact of_returned h hcall
  split at hcall
  · split at hcall
    · split at hcall
      · obtain ⟨⟨result, vm⟩, hchange, hcall⟩ := bind_eq_some_iff.mp hcall
        obtain ⟨rfl, rfl⟩ := returned hcall
        obtain ⟨hi, hp, -⟩ := changeMemoryState_pointerAt h.intact hsrc hsz hchange
        exact h.samePointers hi hp
      · exact of_returned h hcall
    · exact of_returned h hcall
  obtain ⟨⟨result, vm⟩, hunmap, hcall⟩ := bind_eq_some_iff.mp hcall
  have h₁ := h.unmapRange htg hsz hunmap
  dsimp only at hcall
  split at hcall
  · exact of_returned h₁ hcall
  obtain ⟨⟨result', vm'⟩, hchange, hcall⟩ := bind_eq_some_iff.mp hcall
  obtain ⟨rfl, rfl⟩ := returned hcall
  obtain ⟨hi, hp, -⟩ := changeMemoryState_pointerAt h₁.intact hsrc hsz hchange
  exact h₁.samePointers hi hp

theorem Owned.addMemoryUsed (h : Owned ks) : Owned (Process.addMemoryUsed size ks) :=
  ⟨h.intact, h.accounted, h.apart, h.mapped, h.shared, h.holding, h.words⟩

theorem Owned.subMemoryUsed (h : Owned ks) : Owned (Process.subMemoryUsed size ks) :=
  ⟨h.intact, h.accounted, h.apart, h.mapped, h.shared, h.holding, h.words⟩

theorem Owned.createShared (h : Owned ks) {hasOwner : Bool} {address : Nat} (hsz : size < 2 ^ 32)
    (hadr : address < 2 ^ 32) {permissions otherPermissions : MemoryPermission}
    {region : MemoryRegion}
    (hcall : SharedMemory.create hasOwner size permissions otherPermissions address region ks =
      some (res, ks')) : Owned ks' := by
  unfold SharedMemory.create at hcall
  split at hcall
  · obtain ⟨⟨offset, info⟩, halloc, hcall⟩ := bind_eq_some_iff.mp hcall
    rcases linearAllocate_spec (h.accounted _) halloc with ⟨rfl, -⟩ | ⟨o, rfl, hle, ht⟩
    · cases hcall
    obtain ⟨r, hr, hcall⟩ := bind_eq_some_iff.mp hcall
    obtain ⟨rfl, rfl⟩ := returned hcall
    have h₁ := h.take ht
    have hblocks : blocksSize [(r, size)] < 2 ^ 32 := by
      rw [blocksSize_cons, VMManager.blocksSize_nil]
      exact hsz
    have htaken : ∀ x, ks.InBlocks [(r, size)] x → (ks.setRegion region info).Taken x :=
      fun x hx => (h.taken_takes ht x).mpr (inr (inBlocks_singleton hr hx))
    split
    · exact h₁.addMemoryUsed.addShared htaken ⟨hsz, hblocks⟩
    · exact h₁.addShared htaken ⟨hsz, hblocks⟩
  split at hcall
  · cases hcall
  obtain ⟨⟨result, vm⟩, hchange, hcall⟩ := bind_eq_some_iff.mp hcall
  obtain ⟨hi, hp, hle⟩ := changeMemoryState_pointerAt h.intact hadr hsz hchange
  have h₁ := h.samePointers hi hp
  dsimp only at hcall
  split at hcall
  · exact of_returned h₁ hcall
  next hres =>
  obtain ⟨blocks, hget, hcall⟩ := bind_eq_some_iff.mp hcall
  cases blocks with
  | error e => cases hcall
  | ok blocks =>
    obtain ⟨rfl, rfl⟩ := returned hcall
    obtain ⟨hsize, hbytes⟩ :=
      VMManager.getBackingBlocksForRange_spec hi (hle (by simpa using hres)) hget
    refine h₁.addShared (fun o ho => ?_) ⟨hsz, by simp only; omega⟩
    obtain ⟨i, hi⟩ := ho
    have hlt := bytePointer_isSome hi
    simp only at hi hlt
    rw [hbytes i (by omega)] at hi
    exact (h₁.mapped _ _ hi).1

theorem Owned.mapShared (h : Owned ks) {sm : SharedMemory} (hmem : sm ∈ ks.sharedMemories)
    {address : Nat} {permissions otherPermissions : MemoryPermission}
    (hcall : sm.map address permissions otherPermissions ks = some (res, ks')) : Owned ks' := by
  unfold SharedMemory.map at hcall
  split at hcall
  · exact of_returned h hcall
  obtain ⟨allocated, -, hcall⟩ := bind_eq_some_iff.mp hcall
  split at hcall
  · exact of_returned h hcall
  obtain ⟨vm, hmap, hcall⟩ := bind_eq_some_iff.mp hcall
  obtain ⟨rfl, rfl⟩ := returned hcall
  refine h.mapBlocks (h.words sm hmem).2 (fun o ho => inr ?_) hmap
  exact ⟨h.shared o ⟨sm, hmem, ho⟩, inr ⟨sm, hmem, ho⟩⟩

/-! ## Giving memory back -/

/-- `ks'` is `ks` with the offsets in `F` given back to the process' region. -/
structure Released (ks ks' : KernelSystem) (F : Nat → Prop) : Prop where
  fcram : ks'.fcram = ks.fcram
  vmManager : ks'.process.vmManager = ks.process.vmManager
  memoryRegion : ks'.process.memoryRegion = ks.process.memoryRegion
  sharedMemories : ks'.sharedMemories = ks.sharedMemories
  accounted : ∀ r, (ks'.memoryRegions r).Accounted
  bounds : ∀ r, (ks'.memoryRegions r).bounds = (ks.memoryRegions r).bounds
  taken : ∀ o, ks'.Taken o ↔ ks.Taken o ∧ ¬ F o
  holding : ∀ o ∈ ks'.process.holdingMemory.toFinset,
    o ∈ ks.process.holdingMemory.toFinset ∧ ¬ F o

theorem Released.refl (h : ∀ r, (ks.memoryRegions r).Accounted) :
    Released ks ks fun _ => False :=
  ⟨rfl, rfl, rfl, rfl, h, fun _ => rfl, fun o => by simp, fun o ho => ⟨ho, id⟩⟩

theorem Released.trans {ks₁ ks₂ : KernelSystem} {F G : Nat → Prop} (h : Released ks ks₁ F)
    (h' : Released ks₁ ks₂ G) : Released ks ks₂ fun o => F o ∨ G o where
  fcram := h'.fcram.trans h.fcram
  vmManager := h'.vmManager.trans h.vmManager
  memoryRegion := h'.memoryRegion.trans h.memoryRegion
  sharedMemories := h'.sharedMemories.trans h.sharedMemories
  accounted := h'.accounted
  bounds r := (h'.bounds r).trans (h.bounds r)
  taken o := by
    rw [h'.taken, h.taken, not_or, and_assoc]
  holding o ho := by
    obtain ⟨ho₁, hg⟩ := h'.holding o ho
    obtain ⟨ho, hf⟩ := h.holding o ho₁
    exact ⟨ho, not_or.mpr ⟨hf, hg⟩⟩

theorem Released.congr {F G : Nat → Prop} (h : Released ks ks' F) (hfg : ∀ o, F o ↔ G o) :
    Released ks ks' G where
  fcram := h.fcram
  vmManager := h.vmManager
  memoryRegion := h.memoryRegion
  sharedMemories := h.sharedMemories
  accounted := h.accounted
  bounds := h.bounds
  taken o := by rw [h.taken, hfg]
  holding o ho := (h.holding o ho).imp_right (mt (hfg o).mpr)

/-- One block of the process' region given back. -/
theorem releaseFCRAM_released (hacc : ∀ r, (ks.memoryRegions r).Accounted)
    (hin : Finset.Ico offset (offset + size) ⊆ ks.ownRegion.bounds) (hlt : offset + size < 2 ^ 32)
    (hcall : Process.releaseFCRAM offset size ks = some ks') :
    Released ks ks' fun o => o ∈ Finset.Ico offset (offset + size) := by
  obtain ⟨info, hfree, hcall⟩ := bind_eq_some_iff.mp hcall
  obtain rfl := some.inj hcall
  have hr := MemoryRegionInfo.free_spec (hacc ks.process.memoryRegion) hin hlt hfree
  refine ⟨rfl, rfl, rfl, rfl, fun r => ?_, bounds_setRegion hr.bounds, fun o => ?_, fun o ho => ?_⟩
  · show ((ks.setRegion ks.process.memoryRegion info).memoryRegions r).Accounted
    by_cases hrr : r = ks.process.memoryRegion
    · rw [hrr, setRegion_self]
      exact hr.accounted
    · rw [setRegion_ne hrr]
      exact hacc r
  · show (ks.setRegion ks.process.memoryRegion info).Taken o ↔ _
    constructor
    · intro hto
      have hself := hto ks.process.memoryRegion
      rw [setRegion_self, hr.freeSet, mem_union, not_or] at hself
      refine ⟨fun r => ?_, hself.2⟩
      by_cases hrr : r = ks.process.memoryRegion
      · rw [hrr]
        exact hself.1
      · have := hto r
        rwa [setRegion_ne hrr] at this
    · rintro ⟨hto, ho⟩ r
      by_cases hrr : r = ks.process.memoryRegion
      · rw [hrr, setRegion_self, hr.freeSet, mem_union, not_or]
        exact ⟨hto _, ho⟩
      · rw [setRegion_ne hrr]
        exact hto r
  · have ho' : o ∈ (ks.process.holdingMemory.sub ⟨offset, add32 offset size⟩).toFinset := ho
    rw [add32_eq hlt, IntervalSet.toFinset_sub, Finset.mem_sdiff] at ho'
    exact ho'

theorem inBlocks_cons {n : Nat} {r : MemoryRef} {blocks : List (MemoryRef × Nat)}
    (hr : r.getPtr = ks.fcram + offset) (o : Nat) :
    ks.InBlocks ((r, n) :: blocks) o ↔
      o ∈ Finset.Ico offset (offset + n) ∨ ks.InBlocks blocks o := by
  rw [mem_Ico]
  constructor
  · rintro ⟨i, hi⟩
    rw [bytePointer, hr] at hi
    split_ifs at hi with hlt
    · have := some.inj hi
      exact inl (by omega)
    · exact inr ⟨_, hi⟩
  · rintro (⟨hlo, hhi⟩ | ⟨i, hi⟩)
    · refine ⟨o - offset, ?_⟩
      rw [bytePointer, if_pos (by omega), hr]
      congr 1
      omega
    · refine ⟨i + n, ?_⟩
      rw [bytePointer, if_neg (by omega), Nat.add_sub_cancel, hi]

/-- The loop of `HeapFree` gives back the offsets that the blocks are made of. -/
theorem releaseBlocks_released {blocks : List (MemoryRef × Nat)}
    (hacc : ∀ r, (ks.memoryRegions r).Accounted) (hw : blocksSize blocks ≤ maxAddress)
    (hin : ∀ o, ks.InBlocks blocks o → o ∈ ks.ownRegion.bounds)
    (hcall : Process.releaseBlocks blocks ks = some ks') :
    Released ks ks' (ks.InBlocks blocks) := by
  have hlim : maxAddress = 0x40000000 := rfl
  have hlim' : fcramN3DSSize = 0x10000000 := rfl
  induction blocks generalizing ks with
  | nil =>
    obtain rfl := some.inj hcall
    refine (Released.refl hacc).congr fun o => ⟨False.elim, ?_⟩
    rintro ⟨i, hi⟩
    cases hi
  | cons b blocks ih =>
    obtain ⟨r, n⟩ := b
    rw [blocksSize_cons] at hw
    obtain ⟨offset, hoff, hcall⟩ := bind_eq_some_iff.mp hcall
    obtain ⟨ks₁, hrel, hloop⟩ := bind_eq_some_iff.mp hcall
    unfold getFCRAMOffset at hoff
    split_ifs at hoff with hrange
    obtain rfl := some.inj hoff
    have hr : r.getPtr = ks.fcram + (r.getPtr - ks.fcram) := by omega
    have h₁ := releaseFCRAM_released hacc
      (fun o ho => hin o ((inBlocks_cons hr o).mpr (inl ho))) (by omega) hrel
    have hblocks : ks₁.InBlocks blocks = ks.InBlocks blocks := by
      unfold InBlocks
      rw [h₁.fcram]
    have hown : ks₁.ownRegion.bounds = ks.ownRegion.bounds := by
      unfold ownRegion
      rw [h₁.memoryRegion, h₁.bounds]
    have h₂ := ih h₁.accounted (by omega) (fun o ho => by
      rw [hown]
      exact hin o ((inBlocks_cons hr o).mpr (inr (hblocks ▸ ho)))) hloop
    refine (h₁.trans h₂).congr fun o => ?_
    rw [inBlocks_cons hr, hblocks]

/-- The books agree after memory was given back that is mapped and shared no more. -/
theorem Owned.release (h : Owned ks) {F : Nat → Prop} (hr : Released ks ks' F) {vm : VMManager}
    (hi : Intact vm)
    (hm : ∀ a o, pointerAt vm a = some (ks.fcram + o) → ks.MapsAt a o ∧ ¬ F o)
    (hs : ∀ o, ks.Shared o → ¬ F o) : Owned (ks'.setVMManager vm) := by
  have hshared : ∀ o, ks'.Shared o ↔ ks.Shared o := by
    intro o
    unfold Shared InBlocks
    rw [hr.sharedMemories, hr.fcram]
  have hown : ks'.ownRegion.bounds = ks.ownRegion.bounds := by
    unfold ownRegion
    rw [hr.memoryRegion, hr.bounds]
  refine ⟨hi, hr.accounted, fun r r' hne => ?_, fun a o ho => ?_, fun o ho => ?_, fun o ho => ?_,
    ?_⟩
  · show Disjoint (ks'.memoryRegions r).bounds (ks'.memoryRegions r').bounds
    rw [hr.bounds, hr.bounds]
    exact h.apart r r' hne
  · have ho' : pointerAt vm a = some (ks'.fcram + o) := ho
    rw [hr.fcram] at ho'
    obtain ⟨hmap, hf⟩ := hm a o ho'
    obtain ⟨htaken, hor⟩ := h.mapped a o hmap
    refine ⟨(hr.taken o).mpr ⟨htaken, hf⟩, ?_⟩
    show o ∈ ks'.ownRegion.bounds ∨ ks'.Shared o
    rwa [hown, hshared]
  · have ho' := (hshared o).mp ho
    exact (hr.taken o).mpr ⟨h.shared o ho', hs o ho'⟩
  · obtain ⟨ho', hf⟩ := hr.holding o ho
    exact (hr.taken o).mpr ⟨h.holding o ho', hf⟩
  · show ∀ sm ∈ ks'.sharedMemories, _
    rw [hr.sharedMemories]
    exact h.words

/-! ## `FREE` -/

/-- The offsets that `FREE` of `[addr0, addr0 + size)` gives back: those behind the range in
the heap, those one to one below it in the linear heap. -/
def Releases (ks : KernelSystem) (addr0 size o : Nat) : Prop :=
  if heapVAddr ≤ addr0 ∧ addr0 < heapVAddrEnd then
    ∃ a, addr0 ≤ a ∧ a < addr0 + size ∧ ks.MapsAt a o
  else
    ks.process.getLinearHeapAreaAddress + o ∈ Finset.Ico addr0 (addr0 + size)

/-- `[addr0, addr0 + size)` is mapped throughout, and inside the heap area or the linear
heap: anything else `FREE` refuses. -/
def Freeable (ks : KernelSystem) (addr0 size : Nat) : Prop :=
  (if heapVAddr ≤ addr0 ∧ addr0 < heapVAddrEnd then Process.outsideHeap addr0 size = false
    else Process.outsideLinearHeap addr0 size ks = false) ∧
  ∀ a, addr0 ≤ a → a < addr0 + size → ∃ p, pointerAt ks.process.vmManager a = some p

/-- What `FREE` gives back is mapped nowhere outside the range and not shared. -/
def ReleasesOwn (ks : KernelSystem) (addr0 size : Nat) : Prop :=
  ks.Freeable addr0 size → ∀ o, ks.Releases addr0 size o →
    (∀ a, ks.MapsAt a o → addr0 ≤ a ∧ a < addr0 + size) ∧ ¬ ks.Shared o

theorem Owned.heapFree (h : Owned ks) (htg : target < 2 ^ 32) (hsz : size < 2 ^ 32)
    (hheap : heapVAddr ≤ target ∧ target < heapVAddrEnd) (hown : ks.ReleasesOwn target size)
    (hcall : Process.heapFree target size ks = some (res, ks')) : Owned ks' := by
  have hlim : maxAddress = 0x40000000 := rfl
  have hend : heapVAddrEnd = 0x10000000 := rfl
  unfold Process.heapFree at hcall
  split at hcall
  · exact of_returned h hcall
  next hrange =>
  split at hcall
  · exact of_returned h hcall
  obtain ⟨out, hget, hcall⟩ := bind_eq_some_iff.mp hcall
  cases out with
  | error e =>
    exact of_returned h hcall
  | ok blocks =>
    have hle : target + size ≤ maxAddress := by
      rw [Process.outsideHeap, decide_eq_true_eq] at hrange
      unfold add32 at hrange
      omega
    obtain ⟨hsize, hbytes⟩ := VMManager.getBackingBlocksForRange_spec h.intact hle hget
    have hown := hown ⟨by rw [if_pos hheap]; simpa using hrange, fun a hlo hhi => ?_⟩
    on_goal 2 =>
      obtain ⟨p, hp⟩ := @VMManager.exists_bytePointer blocks (a - target) (by omega)
      rw [hbytes _ (by omega), Nat.add_sub_cancel' hlo] at hp
      exact ⟨p, hp⟩
    obtain ⟨ks₁, hrel, hcall⟩ := bind_eq_some_iff.mp hcall
    obtain ⟨⟨result, vm⟩, hunmap, hcall⟩ := bind_eq_some_iff.mp hcall
    dsimp only at hcall
    split at hcall
    · cases hcall
    next hres =>
    obtain ⟨rfl, rfl⟩ := returned hcall
    -- the blocks are made of what lies behind the range
    have hin : ∀ o, ks.InBlocks blocks o ↔ ks.Releases target size o := by
      intro o
      rw [Releases, if_pos hheap]
      constructor
      · rintro ⟨i, hi⟩
        have hlt := bytePointer_isSome hi
        rw [hbytes i (by omega)] at hi
        exact ⟨target + i, by omega, by omega, hi⟩
      · rintro ⟨a, hlo, hhi, ha⟩
        refine ⟨a - target, ?_⟩
        rw [hbytes _ (by omega), Nat.add_sub_cancel' hlo]
        exact ha
    have hreleased := releaseBlocks_released h.accounted (by omega) (fun o ho => ?_) hrel
    · rw [hreleased.vmManager] at hunmap
      rcases VMManager.unmapRange_pointerAt h.intact htg hsz hunmap with ⟨hfail, -⟩ | ⟨-, hi, -, hp⟩
      · exact absurd hfail (by simpa using hres)
      refine (h.release (hreleased.congr hin) hi (fun a o ho => ?_) fun o hs hf => ?_).subMemoryUsed
      · rw [hp] at ho
        split_ifs at ho with hout
        exact ⟨ho, fun hf => hout ((hown o hf).1 a ho)⟩
      · exact (hown o hf).2 hs
    · have hrel' := (hin o).mp ho
      obtain ⟨i, hi⟩ := ho
      have hlt := bytePointer_isSome hi
      rw [hbytes i (by omega)] at hi
      exact (h.mapped _ o hi).2.resolve_right (hown o hrel').2

theorem Owned.linearFree (h : Owned ks) (htg : target < 2 ^ 32) (hsz : size < 2 ^ 32)
    (hheap : ¬ (heapVAddr ≤ target ∧ target < heapVAddrEnd)) (hown : ks.ReleasesOwn target size)
    (hcall : Process.linearFree target size ks = some (res, ks')) : Owned ks' := by
  have hlim : fcramN3DSSize = 0x10000000 := rfl
  unfold Process.linearFree at hcall
  split at hcall
  · exact of_returned h hcall
  next hrange =>
  split at hcall
  · exact of_returned h hcall
  obtain ⟨hsub, hle, hfit, hin⟩ := h.inLinearHeap htg hsz (by simpa using hrange)
  obtain ⟨⟨result, vm⟩, hunmap, hcall⟩ := bind_eq_some_iff.mp hcall
  dsimp only at hcall
  split at hcall
  · exact of_returned (h.unmapRange htg hsz hunmap) hcall
  next hres =>
  obtain ⟨ks₁, hrel, hcall⟩ := bind_eq_some_iff.mp hcall
  obtain ⟨rfl, rfl⟩ := returned hcall
  rcases VMManager.unmapRange_pointerAt h.intact htg hsz hunmap with
    ⟨hfail, -⟩ | ⟨-, hi, hmapped, hp⟩
  · exact absurd hfail (by simpa using hres)
  have hown := hown ⟨by rw [if_neg hheap]; simpa using hrange, hmapped⟩
  have harea : (ks.setVMManager vm).process.getLinearHeapAreaAddress =
      ks.process.getLinearHeapAreaAddress := rfl
  rw [harea, hsub] at hrel
  have h₁ := h.unmapRange htg hsz hunmap
  have hreleased := releaseFCRAM_released h₁.accounted hin (by omega) hrel
  have hF : ∀ o, o ∈ Finset.Ico (target - ks.process.getLinearHeapAreaAddress)
      (target - ks.process.getLinearHeapAreaAddress + size) ↔ ks.Releases target size o := by
    intro o
    rw [Releases, if_neg hheap, mem_Ico, mem_Ico]
    omega
  have hrelease := h₁.release hreleased hi (fun a o ho => ?_) fun o hs hf => ?_
  · have hvm : ks₁.setVMManager vm = ks₁ := by
      have : vm = ks₁.process.vmManager := hreleased.vmManager.symm
      rw [this]
      rfl
    rw [hvm] at hrelease
    exact hrelease.subMemoryUsed
  · refine ⟨ho, fun hf => ?_⟩
    rw [hp] at ho
    split_ifs at ho with hout
    exact hout ((hown o ((hF o).mp hf)).1 a ho)
  · exact (hown o ((hF o).mp hf)).2 hs

theorem Owned.controlMemory (h : Owned ks) {addr0 addr1 size operation permissions : BitVec 32}
    (hown : checkControlMemory addr0.toNat addr1.toNat size.toNat permissions = none →
      memop operation = memopFree → ks.ReleasesOwn addr0.toNat size.toNat)
    {out : Result × Option Nat} (hcall : Kernel.controlMemory addr0.toNat addr1.toNat size.toNat
      operation permissions ks = some (out, ks')) : Owned ks' := by
  unfold Kernel.controlMemory at hcall
  split at hcall
  · exact of_returned h hcall
  next hcheck =>
  split at hcall
  · next hop =>
    obtain ⟨⟨result, ks₁⟩, hfree, hcall⟩ := bind_eq_some_iff.mp hcall
    obtain ⟨rfl, rfl⟩ := returned hcall
    unfold controlFree at hfree
    split at hfree
    · next hheap =>
      exact h.heapFree addr0.isLt size.isLt hheap (hown hcheck hop) hfree
    next hheap =>
    split at hfree
    · exact h.linearFree addr0.isLt size.isLt hheap (hown hcheck hop) hfree
    · exact of_returned h hfree
  split at hcall
  · obtain ⟨⟨result, ks₁⟩, hcommit, hcall⟩ := bind_eq_some_iff.mp hcall
    obtain ⟨rfl, rfl⟩ := returned hcall
    unfold controlCommit at hcommit
    split at hcommit
    · exact h.linearAllocate size.isLt addr0.isLt hcommit
    · exact h.heapAllocate hcommit
  split at hcall
  · obtain ⟨⟨result, ks₁⟩, hmap, hcall⟩ := bind_eq_some_iff.mp hcall
    obtain ⟨rfl, rfl⟩ := returned hcall
    exact h.mapCall addr1.isLt size.isLt hmap
  split at hcall
  · obtain ⟨⟨result, ks₁⟩, hunmap, hcall⟩ := bind_eq_some_iff.mp hcall
    obtain ⟨rfl, rfl⟩ := returned hcall
    exact h.unmapCall addr0.isLt addr1.isLt size.isLt hunmap
  split at hcall
  · obtain ⟨⟨result, vm⟩, hrep, hcall⟩ := bind_eq_some_iff.mp hcall
    obtain ⟨rfl, rfl⟩ := returned hcall
    obtain ⟨hi, hp⟩ := VMManager.reprotectRange_pointerAt h.intact addr0.isLt size.isLt hrep
    exact h.samePointers hi hp
  · exact of_returned h hcall

/-! ## Runs -/

/-- The kernel with a process that has no memory yet. -/
def start (fcram : Nat) (isNew3ds : Bool) (memoryMode : Fin 8) (kernelVersion : Nat)
    (memoryRegion : MemoryRegion) : Option KernelSystem := do
  let memoryRegions ← memoryInit isNew3ds memoryMode
  let vmManager ← VMManager.reset { vmaMap := [] }
  some { fcram, memoryRegions, process := { vmManager, kernelVersion, memoryRegion } }

/-- The kernel of the first model with an application. -/
def startApplication : Option KernelSystem := start 0x100000 false 0 0x22C .application

/-- A memory call, with the words the guest passes. -/
inductive MemoryCall
  | controlMemory (addr0 addr1 size operation permissions : BitVec 32)
  | createSharedMemory (hasOwner : Bool)
      (size permissions otherPermissions address : BitVec 32) (region : MemoryRegion)
  | mapSharedMemory (id : Nat) (address permissions otherPermissions : BitVec 32)
  | unmapSharedMemory (id : Nat) (address : BitVec 32)

namespace MemoryCall

/-- The kernel a call leaves behind. -/
def exec (ks : KernelSystem) : MemoryCall → Option KernelSystem
  | controlMemory addr0 addr1 size operation permissions =>
    (Kernel.controlMemory addr0.toNat addr1.toNat size.toNat operation permissions ks).map Prod.snd
  | createSharedMemory hasOwner size permissions otherPermissions address region =>
    (SharedMemory.create hasOwner size.toNat permissions otherPermissions address.toNat region
      ks).map Prod.snd
  | mapSharedMemory id address permissions otherPermissions => do
    let sm ← ks.sharedMemories[id]?
    (sm.map address.toNat permissions otherPermissions ks).map Prod.snd
  | unmapSharedMemory id address => do
    let sm ← ks.sharedMemories[id]?
    (sm.unmap address.toNat ks).map Prod.snd

/-- A `FREE` that is carried out gives back only what the range being freed owns. -/
def ReleasesOwn (ks : KernelSystem) : MemoryCall → Prop
  | controlMemory addr0 addr1 size operation permissions =>
    checkControlMemory addr0.toNat addr1.toNat size.toNat permissions = none →
      memop operation = memopFree → ks.ReleasesOwn addr0.toNat size.toNat
  | _ => True

end MemoryCall

/-- The kernels a run of calls that meet `Admits` reaches. -/
inductive Reached (Admits : MemoryCall → KernelSystem → Prop) : KernelSystem → Prop
  | start {fcram kernelVersion : Nat} {isNew3ds : Bool} {memoryMode : Fin 8}
      {memoryRegion : MemoryRegion} {ks : KernelSystem} :
      start fcram isNew3ds memoryMode kernelVersion memoryRegion = some ks → Reached Admits ks
  | call {ks ks' : KernelSystem} {c : MemoryCall} :
      Reached Admits ks → Admits c ks → c.exec ks = some ks' → Reached Admits ks'

theorem memoryRegionSizes_le (memoryMode : Fin 8) :
    memoryRegionSizes memoryMode .application + memoryRegionSizes memoryMode .system +
      memoryRegionSizes memoryMode .base ≤ fcramN3DSSize := by
  revert memoryMode
  decide

/-- The regions are laid out one behind the other. -/
theorem memoryInit_spec {isNew3ds : Bool} {memoryMode : Fin 8}
    {regions : MemoryRegion → MemoryRegionInfo}
    (h : memoryInit isNew3ds memoryMode = some regions) :
    (∀ r, (regions r).Accounted) ∧
      ∀ r r', r ≠ r' → Disjoint (regions r).bounds (regions r').bounds := by
  have hlim : fcramN3DSSize = 0x10000000 := rfl
  have hsum := memoryRegionSizes_le memoryMode
  unfold memoryInit at h
  obtain ⟨application, happ, h⟩ := bind_eq_some_iff.mp h
  obtain ⟨system, hsys, h⟩ := bind_eq_some_iff.mp h
  obtain ⟨base, hbase, h⟩ := bind_eq_some_iff.mp h
  obtain ⟨-, h⟩ := Option.ite_none_left_eq_some.mp h
  obtain rfl := some.inj h
  obtain ⟨ha, hab, has⟩ := reset_spec (by omega) happ
  rw [has] at hsys
  obtain ⟨hs, hsb, hss⟩ := reset_spec (by omega) hsys
  rw [has, hss, add32_eq (by omega)] at hbase
  obtain ⟨hb, hbb, hbs⟩ := reset_spec (by omega) hbase
  refine ⟨fun r => ?_, fun r r' hne => Finset.disjoint_left.mpr fun o ho ho' => ?_⟩
  · cases r <;> assumption
  · cases r <;> cases r' <;>
      simp only [MemoryRegionInfo.bounds, mem_Ico, ne_eq,
        not_true_eq_false] at hne ho ho' <;>
      omega

theorem owned_start {fcram kernelVersion : Nat} {isNew3ds : Bool} {memoryMode : Fin 8}
    {memoryRegion : MemoryRegion}
    (h : start fcram isNew3ds memoryMode kernelVersion memoryRegion = some ks) : Owned ks := by
  obtain ⟨regions, hregions, h⟩ := bind_eq_some_iff.mp h
  obtain ⟨vm, hvm, h⟩ := bind_eq_some_iff.mp h
  obtain rfl := some.inj h
  obtain ⟨hacc, hapart⟩ := memoryInit_spec hregions
  refine ⟨VMManager.intact_of_reset hvm, hacc, hapart, fun a o ho => ?_, ?_, ?_, ?_⟩
  · have ho' : pointerAt vm a = some (fcram + o) := ho
    rw [VMManager.pointerAt_reset hvm] at ho'
    cases ho'
  · rintro o ⟨sm, hsm, -⟩
    cases hsm
  · intro o ho
    cases ho
  · intro sm hsm
    cases hsm

theorem owned_call {c : MemoryCall} (h : Owned ks) (hc : c.ReleasesOwn ks)
    (hcall : c.exec ks = some ks') : Owned ks' := by
  cases c with
  | controlMemory addr0 addr1 size operation permissions =>
    obtain ⟨⟨out, ks₁⟩, hstep, rfl⟩ := map_eq_some_iff.mp hcall
    exact h.controlMemory hc hstep
  | createSharedMemory hasOwner size permissions otherPermissions address region =>
    obtain ⟨⟨out, ks₁⟩, hstep, rfl⟩ := map_eq_some_iff.mp hcall
    exact h.createShared size.isLt address.isLt hstep
  | mapSharedMemory id address permissions otherPermissions =>
    obtain ⟨sm, hsm, hmap⟩ := bind_eq_some_iff.mp hcall
    obtain ⟨⟨out, ks₁⟩, hstep, rfl⟩ := map_eq_some_iff.mp hmap
    exact h.mapShared (List.mem_of_getElem? hsm) hstep
  | unmapSharedMemory id address =>
    obtain ⟨sm, hsm, hmap⟩ := bind_eq_some_iff.mp hcall
    obtain ⟨⟨out, ks₁⟩, hstep, rfl⟩ := map_eq_some_iff.mp hmap
    obtain ⟨⟨result, vm⟩, hunmap, hres⟩ := bind_eq_some_iff.mp hstep
    obtain ⟨rfl, rfl⟩ := returned hres
    exact h.unmapRange address.isLt (h.words sm (List.mem_of_getElem? hsm)).1 hunmap

theorem Reached.owned (h : Reached (fun c ks => c.ReleasesOwn ks) ks) : Owned ks := by
  induction h with
  | start h => exact owned_start h
  | call _ hc hcall ih => exact owned_call ih hc hcall

/-- In every kernel that a run reaches in which each `FREE` gives back only what the range
being freed owns: free FCRAM is mapped nowhere, the process holds none of it, and the regions'
books balance. -/
theorem fcram_ownership (h : Reached (fun c ks => c.ReleasesOwn ks) ks) :
    (∀ r, ∀ o ∈ (ks.memoryRegions r).freeSet, ∀ a, ¬ ks.MapsAt a o) ∧
      (∀ r, Disjoint ks.process.holdingMemory.toFinset (ks.memoryRegions r).freeSet) ∧
      ∀ r, (ks.memoryRegions r).used =
        (ks.memoryRegions r).size - (ks.memoryRegions r).freeBlocks.total := by
  have howned := h.owned
  refine ⟨fun r o ho a ha => ?_, fun r => Finset.disjoint_left.mpr fun o ho hf => ?_, fun r => ?_⟩
  · exact (howned.mapped a o ha).1 r ho
  · exact howned.holding o ho r hf
  · have := (howned.accounted r).used
    omega

section Example

/-- Make the calls one after the other. -/
def execAll : List MemoryCall → KernelSystem → Option KernelSystem
  | [], ks => some ks
  | c :: cs, ks => do execAll cs (← c.exec ks)

theorem Reached.execAll {Admits : MemoryCall → KernelSystem → Prop} {cs : List MemoryCall}
    (h : Reached Admits ks) (hcs : ∀ c ∈ cs, ∀ ks, Admits c ks)
    (hrun : execAll cs ks = some ks') : Reached Admits ks' := by
  induction cs generalizing ks with
  | nil =>
    obtain rfl := some.inj hrun
    exact h
  | cons c cs ih =>
    obtain ⟨hc, hcs⟩ := List.forall_mem_cons.mp hcs
    obtain ⟨ks₁, hcall, hrun⟩ := bind_eq_some_iff.mp hrun
    exact ih (h.call (hc ks) hcall) hcs hrun

/-- A page of heap at the start of the heap area, and an alias of it behind it. -/
def exampleCalls : List MemoryCall :=
  [.controlMemory 0x08000000 0 0x1000 3 3, .controlMemory 0x08001000 0x08000000 0x1000 4 3]

/-- The page of heap freed under its alias. -/
def exampleFree : MemoryCall := .controlMemory 0x08000000 0 0x1000 1 0

/-- The offset of the page that the allocation takes, the last one of the region. -/
def exampleOffset : Nat := 0x03FFF000

/-- Whether the offset is free in the process' region and whether it is mapped at `a`. -/
def freeAndMapped (a o : Nat) (ks : KernelSystem) : Bool × Bool :=
  (ks.ownRegion.freeBlocks.blocks.any fun b => decide (b.lower ≤ o ∧ o < b.upper),
    decide (ks.MapsAt a o))

theorem exampleFree_run :
    (((start 0x100000 false 0 0x22C .application).bind
      (execAll (exampleCalls ++ [exampleFree]))).map
        (freeAndMapped 0x08001000 exampleOffset)) = some (true, true) := by
  decide +kernel

/-- A second page of heap. -/
def exampleCommit : MemoryCall := .controlMemory 0x08002000 0 0x1000 3 3

/-- It is freed. -/
def exampleFreeOwn : MemoryCall := .controlMemory 0x08002000 0 0x1000 1 0

/-- One page of the process, with its offset in FCRAM. -/
def examplePage (base offset : Nat) (state : MemoryState) : VirtualMemoryArea :=
  { base, size := 0x1000, type := .backingMemory, permissions := 3, meminfoState := state,
    backingMemory := ⟨some ⟨0x100000, 0x10000000⟩, offset⟩ }

/-- The heap behind the calls. -/
def exampleAreas : List VirtualMemoryArea :=
  [{ size := 0x08000000 }, examplePage 0x08000000 exampleOffset .aliased,
    examplePage 0x08001000 exampleOffset .alias,
    examplePage 0x08002000 (exampleOffset - 0x1000) .privateMemory,
    { base := 0x08003000, size := maxAddress - 0x08003000 }]

theorem exampleCommit_run :
    ∃ ks, (start 0x100000 false 0 0x22C .application).bind
        (execAll (exampleCalls ++ [exampleCommit])) = some ks ∧
      (ks.process.vmManager.vmaMap = keyed exampleAreas ∧
        ks.sharedMemories.length = 0 ∧ ks.fcram = 0x100000) ∧
      ∃ ks', exampleFreeOwn.exec ks = some ks' ∧
        freeAndMapped 0x08001000 exampleOffset ks' = (false, true) ∧
        freeAndMapped 0 (exampleOffset - 0x1000) ks' = (true, false) := by decide +kernel

theorem exampleFreeOwn_releasesOwn (hmap : ks.process.vmManager.vmaMap = keyed exampleAreas)
    (hshared : ks.sharedMemories.length = 0) (hfcram : ks.fcram = 0x100000) :
    exampleFreeOwn.ReleasesOwn ks := by
  intro _ _ _ o hrel
  have hpage : ∀ a o, ks.MapsAt a o → (0x08002000 ≤ a ∧ a < 0x08003000 ↔ o < exampleOffset) := by
    intro a o hmaps
    obtain ⟨v, hv, hlo, hhi, hptr⟩ := VMManager.exists_area_of_pointerAt hmaps
    rw [hmap, VMManager.areas_keyed] at hv
    rw [hfcram] at hptr
    simp only [exampleAreas, List.mem_cons, List.not_mem_nil, or_false] at hv
    rcases hv with rfl | rfl | rfl | rfl | rfl
    on_goal 1 => cases hptr
    on_goal 4 => cases hptr
    all_goals
      have hptr := some.inj hptr
      simp only [examplePage, MemoryRef.getPtr, exampleOffset] at hlo hhi hptr ⊢
      omega
  obtain ⟨a, hlo, hhi, hmaps⟩ : ∃ a, 0x08002000 ≤ a ∧ a < 0x08003000 ∧ ks.MapsAt a o := hrel
  refine ⟨fun a' hmaps' => (hpage a' o hmaps').mpr ((hpage a o hmaps).mp ⟨hlo, hhi⟩), ?_⟩
  rintro ⟨sm, hsm, -⟩
  rw [List.length_eq_zero_iff.mp hshared] at hsm
  cases hsm

/-- The invariant at work: the page that has an alias is not free, and the one that was freed is mapped
nowhere. -/
theorem fcram_ownership_freed :
    ∃ ks : KernelSystem, Reached (fun c ks => c.ReleasesOwn ks) ks ∧
      exampleOffset ∉ ks.ownRegion.freeSet ∧ ∀ a, ¬ks.MapsAt a (exampleOffset - 0x1000) := by
  obtain ⟨ks, hrun, ⟨hmap, hshared, hfcram⟩, ks', hfree, halias, hfreed⟩ := exampleCommit_run
  obtain ⟨ks₀, hstart, hrun⟩ := bind_eq_some_iff.mp hrun
  have hreached : Reached (fun c ks => c.ReleasesOwn ks) ks :=
    (Reached.start hstart).execAll (by
      intro c hc ks
      rcases List.mem_append.mp hc with hc | hc
      · rcases List.mem_pair.mp hc with rfl | rfl
        · exact fun _ hop => absurd hop (by decide)
        · exact fun _ hop => absurd hop (by decide)
      · obtain rfl := List.mem_singleton.mp hc
        exact fun _ hop => absurd hop (by decide)) hrun
  have hreached' := hreached.call (exampleFreeOwn_releasesOwn hmap hshared hfcram) hfree
  obtain ⟨b, hb, hin⟩ := List.any_eq_true.mp (congrArg Prod.fst hfreed)
  have hmaps : ks'.MapsAt 0x08001000 exampleOffset := of_decide_eq_true (congrArg Prod.snd halias)
  have hfreed : exampleOffset - 0x1000 ∈ ks'.ownRegion.freeSet :=
    Interval.mem_cover.mpr ⟨b, hb, of_decide_eq_true hin⟩
  exact ⟨ks', hreached', fun ho => (fcram_ownership hreached').1 _ _ ho _ hmaps,
    fun a => (fcram_ownership hreached').1 _ _ hfreed a⟩

/-- `FREE` gives the page of heap back that its alias still maps. -/
theorem free_releases_aliased :
    ∃ ks : KernelSystem, Reached (fun _ _ => True) ks ∧
      exampleOffset ∈ ks.ownRegion.freeSet ∧ ks.MapsAt 0x08001000 exampleOffset := by
  obtain ⟨ks, hrun, hks⟩ := map_eq_some_iff.mp exampleFree_run
  obtain ⟨ks₀, hstart, hrun⟩ := bind_eq_some_iff.mp hrun
  refine ⟨ks, (Reached.start hstart).execAll (fun _ _ _ => trivial) hrun, ?_,
    of_decide_eq_true (congrArg Prod.snd hks)⟩
  obtain ⟨b, hb, hin⟩ := List.any_eq_true.mp (congrArg Prod.fst hks)
  exact Interval.mem_cover.mpr ⟨b, hb, of_decide_eq_true hin⟩

end Example

end KernelSystem

end GbaStation.Kernel
