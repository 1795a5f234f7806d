import GbaStation.Kernel.FailedCalls
import GbaStation.Kernel.PagedRegions

/-!
# A process whose memory is made of pages

`Sound` is the invariant behind everything that can be said about a memory call returning: the
address space is well-formed, the regions are `Paged`, and FCRAM is mapped page by page, so that
what is given back to a region is pages again. Every call that returns keeps it, whatever its
arguments; the memory that is mapped need not come from FCRAM.
-/

namespace GbaStation.Kernel

open Memory
open Memory.VMManager (WellFormed SoundBlock FitsFree Intact pointerAt bytePointer blocksSize
  RangeAll Mapped)
open Process (outsideLinearHeap outsideHeap alreadyAllocated inHeap_of_outsideHeap
  getLinearHeapAreaAddress)
open MemoryRegionInfo (heapAllocate_paged linearAllocate_paged linearAllocateAt_paged)
open Option (some.inj bind_eq_some_iff bind_eq_bind bind_some)
open VirtualMemoryArea (mod_sub)

/-- Pointers into FCRAM point to the place in a page that their index is at. -/
def FcramPages (fcram : Nat) (f : Nat → Option Nat) : Prop :=
  ∀ a o, f a = some (fcram + o) → o < fcramN3DSSize → o % pageSize = a % pageSize

variable {r : MemoryRef} {state : MemoryState} {vm : VMManager} {o : Nat}

namespace FcramPages

variable {fcram target size : Nat} {f g : Nat → Option Nat}

/-- Page by page, the pointers come from elsewhere. -/
theorem of_pages (hf : FcramPages fcram f)
    (h : ∀ a p, g a = some p → ∃ a', f a' = some p ∧ a' % pageSize = a % pageSize) :
    FcramPages fcram g := fun a o hp ho => by
  obtain ⟨a', hf', ha'⟩ := h a _ hp
  rw [hf a' o hf' ho, ha']

theorem congr (hf : FcramPages fcram f) (h : ∀ a, g a = f a) : FcramPages fcram g :=
  hf.of_pages fun a _ hp => ⟨a, (h a) ▸ hp, rfl⟩

/-- The blocks of a list but for the first. -/
theorem tail {bs : List (MemoryRef × Nat)} (h : FcramPages fcram (bytePointer ((r, size) :: bs)))
    (hsz : size % pageSize = 0) : FcramPages fcram (bytePointer bs) := by
  refine h.of_pages fun i p hp => ⟨i + size, ?_, ?_⟩
  · rw [bytePointer, if_neg (by omega), Nat.add_sub_cancel, hp]
  · rw [Nat.add_mod, hsz, Nat.add_zero, Nat.mod_mod]

end FcramPages

/-- Mapping pages maps pages. -/
theorem mapBlocks_fcramPages {fcram : Nat} {perms : VMAPermission} {blocks : List (MemoryRef × Nat)}
    {target : Nat} {vm' : VMManager} (h : Intact vm) (hw : blocksSize blocks < 2 ^ 32)
    (hvm : FcramPages fcram (pointerAt vm)) (hblocks : FcramPages fcram (bytePointer blocks))
    (hmap : mapBlocks state perms blocks target vm = some vm') :
    FcramPages fcram (pointerAt vm') ∧ ∀ b ∈ blocks, 0 < b.2 := by
  induction blocks generalizing target vm with
  | nil =>
    obtain rfl := some.inj hmap
    exact ⟨hvm, by simp⟩
  | cons b blocks ih =>
    obtain ⟨memory, size⟩ := b
    rw [VMManager.blocksSize_cons] at hw
    obtain ⟨⟨out, vm₁⟩, hcall, hmap⟩ := bind_eq_some_iff.mp hmap
    cases out with
    | error e => cases hmap
    | ok k =>
      obtain ⟨⟨k', vm₂⟩, hrep, hmap⟩ := bind_eq_some_iff.mp hmap
      have hsz : size < 2 ^ 32 := by
        omega
      obtain ⟨ht, hpage, hpos, -⟩ := VMManager.mapBackingMemory_inv h hsz hcall
      obtain ⟨h₁, -, hp₁⟩ := VMManager.mapBackingMemory_pointerAt h hsz hcall
      obtain ⟨h₂, hp₂⟩ := VMManager.reprotect_pointerAt h₁ hrep
      have hvm₂ : FcramPages fcram (pointerAt vm₂) := by
        intro a o ha ho
        rw [hp₂, hp₁] at ha
        split_ifs at ha with hin
        · -- the byte of the block that is now at the address
          have hbyte : bytePointer ((memory, size) :: blocks) (a - target) = some (fcram + o) := by
            rw [bytePointer, if_pos (by omega), ha]
          rw [hblocks _ o hbyte ho]
          unfold pageSize at ht ⊢
          omega
        · exact hvm a o ha ho
      obtain ⟨hall, hrest⟩ := ih h₂ (by omega) hvm₂ (hblocks.tail hpage) hmap
      exact ⟨hall, List.forall_mem_cons.mpr ⟨hpos, hrest⟩⟩

/-- The first `n` bytes can be given back: they are FCRAM that is not free, and none comes twice. -/
structure Releasable (fcram : Nat) (free : Finset Nat) (f : Nat → Option Nat) (n : Nat) : Prop where
  offset : ∀ i < n, ∃ o < fcramN3DSSize, f i = some (fcram + o) ∧ o ∉ free
  once : ∀ i < n, ∀ j < n, f i = f j → i = j

theorem Releasable.congr {fcram n : Nat} {free : Finset Nat} {f g : Nat → Option Nat}
    (h : Releasable fcram free f n) (hfg : ∀ i < n, g i = f i) : Releasable fcram free g n where
  offset i hi := by
    rw [hfg i hi]
    exact h.offset i hi
  once i hi j hj heq := by
    rw [hfg i hi, hfg j hj] at heq
    exact h.once i hi j hj heq

/-- Block by block: the first one is free when the next one is given back. -/
theorem releasable_cons {fcram size m : Nat} {free : Finset Nat} {bs : List (MemoryRef × Nat)}
    (hptr : r.getPtr = fcram + o) (hle : o + size ≤ fcramN3DSSize) :
    Releasable fcram free (bytePointer ((r, size) :: bs)) (size + m) ↔
      Disjoint free (Finset.Ico o (o + size)) ∧
        Releasable fcram (free ∪ Finset.Ico o (o + size)) (bytePointer bs) m := by
  have hhead : ∀ i < size, bytePointer ((r, size) :: bs) i = some (fcram + (o + i)) := by
    intro i hi
    rw [bytePointer, if_pos hi, hptr, Nat.add_assoc]
  have htail : ∀ i, bytePointer ((r, size) :: bs) (size + i) = bytePointer bs i := by
    intro i
    rw [bytePointer, if_neg (by omega), Nat.add_sub_cancel_left]
  constructor
  · intro h
    refine ⟨Finset.disjoint_left.mpr fun x hx hin => ?_, fun i hi => ?_, fun i hi j hj heq => ?_⟩
    · rw [Finset.mem_Ico] at hin
      obtain ⟨o', -, ho', hfree⟩ := h.offset (x - o) (by omega)
      rw [hhead _ (by omega)] at ho'
      obtain rfl : o' = x := by
        have := some.inj ho'
        omega
      exact hfree hx
    · obtain ⟨o', hlt, ho', hfree⟩ := h.offset (size + i) (by omega)
      refine ⟨o', hlt, (htail i).symm.trans ho', fun hin => ?_⟩
      rcases Finset.mem_union.mp hin with hin | hin
      · exact hfree hin
      · -- the byte would be one of the first block
        rw [Finset.mem_Ico] at hin
        have hsame : bytePointer ((r, size) :: bs) (o' - o) = some (fcram + o') := by
          rw [hhead _ (by omega)]
          congr 1
          omega
        have := h.once _ (by omega) _ (by omega) (hsame.trans ho'.symm)
        omega
    · have := h.once (size + i) (by omega) (size + j) (by omega) (by rw [htail, htail, heq])
      omega
  · rintro ⟨hdisj, h⟩
    have hsplit : ∀ i < size + m, i < size ∨ ∃ j < m, i = size + j := fun i hi => by
      rcases Nat.lt_or_ge i size with hlt | hge
      · exact Or.inl hlt
      · exact Or.inr ⟨i - size, by omega, by omega⟩
    have hnew : ∀ i < size, ∀ j < m, bytePointer bs j ≠ some (fcram + (o + i)) := by
      intro i hi j hj heq
      obtain ⟨o', -, ho', hfree⟩ := h.offset j hj
      obtain rfl : o' = o + i := by
        have := some.inj (ho'.symm.trans heq)
        omega
      exact hfree (Finset.mem_union_right _ (Finset.mem_Ico.mpr (by omega)))
    refine ⟨fun i hi => ?_, fun i hi j hj heq => ?_⟩
    · rcases hsplit i hi with hlt | ⟨j, hj, rfl⟩
      · exact ⟨o + i, by omega, hhead i hlt, fun hin =>
          Finset.disjoint_left.mp hdisj hin (Finset.mem_Ico.mpr (by omega))⟩
      · obtain ⟨o', hlt, ho', hfree⟩ := h.offset j hj
        exact ⟨o', hlt, (htail j).trans ho', fun hin => hfree (Finset.mem_union_left _ hin)⟩
    · rcases hsplit i hi with hi' | ⟨i', hi', rfl⟩ <;> rcases hsplit j hj with hj' | ⟨j', hj', rfl⟩
      · rw [hhead i hi', hhead j hj'] at heq
        have := some.inj heq
        omega
      · rw [hhead i hi', htail] at heq
        exact absurd heq.symm (hnew i hi' j' hj')
      · rw [hhead j hj', htail] at heq
        exact absurd heq (hnew j hj' i' hi')
      · rw [htail, htail] at heq
        rw [h.once i' hi' j' hj' heq]

namespace KernelSystem

/-- The kernel's memory is made of pages; `mems` are the host allocations that back it. -/
structure Sound (mems : BackingMem → Prop) (ks : KernelSystem) : Prop where
  wellFormed : WellFormed mems ks.process.vmManager
  nonnull : ∀ m, mems m → m.ptr ≠ 0
  fcram : mems ⟨ks.fcram, fcramN3DSSize⟩
  regions : ∀ r, (ks.memoryRegions r).Paged
  pages : FcramPages ks.fcram (pointerAt ks.process.vmManager)
  shared : ∀ sm ∈ ks.sharedMemories, (∀ b ∈ sm.backingBlocks, 0 < b.2 → SoundBlock mems b) ∧
    FcramPages ks.fcram (bytePointer sm.backingBlocks) ∧ sm.size < 2 ^ 32 ∧
      blocksSize sm.backingBlocks < 2 ^ 32

variable {mems : BackingMem → Prop} {ks ks' : KernelSystem} {target source size : Nat}
  {perms : VMAPermission}

/-- Where `LinearAllocate` maps its memory, if the region has any for it. -/
def linearTarget (target size : Nat) (ks : KernelSystem) : Option Nat :=
  let area := ks.process.getLinearHeapAreaAddress
  if target = 0 then
    (ks.ownRegion.freeBlocks.blocks.find? fun i => decide (size ≤ i.upper - i.lower)).map
      fun i => i.lower + area
  else if outsideLinearHeap target size ks = false ∧
      ks.ownRegion.freeBlocks.contains ⟨target - area, target - area + size⟩ = true then some target
  else none

/-- What `HeapFree` finds behind the range can be given back. -/
def HeapReleasable (target size : Nat) (ks : KernelSystem) : Prop :=
  outsideHeap target size = false →
    RangeAll Mapped ks.process.vmManager target (target + size) →
      Releasable ks.fcram ks.ownRegion.freeSet
        (fun i => pointerAt ks.process.vmManager (target + i))
        size

/-- What `LinearFree` takes to be behind the range can be given back. -/
def LinearReleasable (target size : Nat) (ks : KernelSystem) : Prop :=
  outsideLinearHeap target size ks = false →
    RangeAll Mapped ks.process.vmManager target (target + size) →
      Disjoint ks.ownRegion.freeSet (Finset.Ico (target - ks.process.getLinearHeapAreaAddress)
        (target - ks.process.getLinearHeapAreaAddress + size))

namespace Sound

/-- A new address space. -/
theorem remap (h : Sound mems ks) (hvm : WellFormed mems vm)
    (hpages : FcramPages ks.fcram (pointerAt vm)) : Sound mems (ks.setVMManager vm) :=
  ⟨hvm, h.nonnull, h.fcram, h.regions, hpages, h.shared⟩

theorem samePointers (h : Sound mems ks) (hvm : WellFormed mems vm)
    (hp : ∀ a, pointerAt vm a = pointerAt ks.process.vmManager a) :
    Sound mems (ks.setVMManager vm) :=
  h.remap hvm (h.pages.congr hp)

/-- A region with other books. -/
theorem setRegion (h : Sound mems ks) {r : MemoryRegion} {info : MemoryRegionInfo}
    (hinfo : info.Paged) : Sound mems (ks.setRegion r info) := by
  refine ⟨h.wellFormed, h.nonnull, h.fcram, fun r' => ?_, h.pages, h.shared⟩
  show (if r' = r then info else ks.memoryRegions r').Paged
  split_ifs
  · exact hinfo
  · exact h.regions r'

theorem hold (h : Sound mems ks) (x : IntervalSet) (size : Nat) : Sound mems (ks.hold x size) :=
  ⟨h.wellFormed, h.nonnull, h.fcram, h.regions, h.pages, h.shared⟩

/-- A new shared memory block. -/
theorem addShared (h : Sound mems ks) {sm : SharedMemory}
    (hblocks : ∀ b ∈ sm.backingBlocks, 0 < b.2 → SoundBlock mems b)
    (hpages : FcramPages ks.fcram (bytePointer sm.backingBlocks)) (hsz : sm.size < 2 ^ 32)
    (hw : blocksSize sm.backingBlocks < 2 ^ 32) : Sound mems (sm.addTo ks) :=
  ⟨h.wellFormed, h.nonnull, h.fcram, h.regions, h.pages,
    List.forall_mem_append.mpr ⟨h.shared, List.forall_mem_singleton.mpr ⟨hblocks, hpages, hsz, hw⟩⟩⟩

/-! ## Mapping blocks -/

/-- Blocks of pages that are mapped leave a sound kernel. -/
theorem mapBlocks (h : Sound mems ks) {blocks : List (MemoryRef × Nat)}
    (hw : blocksSize blocks < 2 ^ 32) (hblocks : ∀ b ∈ blocks, 0 < b.2 → SoundBlock mems b)
    (hpages : FcramPages ks.fcram (bytePointer blocks))
    (hmap : Kernel.mapBlocks state perms blocks target ks.process.vmManager = some vm) :
    Sound mems (ks.setVMManager vm) := by
  obtain ⟨hvm, hpos⟩ := mapBlocks_fcramPages h.wellFormed.toIntact hw h.pages hpages hmap
  have hwf := (mapBlocks_wellFormed h.wellFormed hw (fun b hb => hblocks b hb (hpos b hb)) hmap).2
  exact h.remap hwf hvm

/-- A block of FCRAM. -/
theorem fcramBlock (h : Sound mems ks) (ho : o % pageSize = 0) (hsz : size % pageSize = 0)
    (hle : o + size ≤ fcramN3DSSize) : ∃ r, ks.getFCRAMRef o = some r ∧
      (0 < size → SoundBlock mems (r, size)) ∧
        ∀ i o', i < size → r.getPtr + i = ks.fcram + o' → o' % pageSize = i % pageSize := by
  refine ⟨_, if_pos (show o ≤ fcramN3DSSize by omega),
    fun hpos => ⟨⟨_, h.fcram, rfl, hle⟩, hsz, hpos⟩,
    fun i o' _ heq => ?_⟩
  have hptr : ks.fcram + o + i = ks.fcram + o' := heq
  obtain rfl : o' = o + i := by omega
  rw [Nat.add_mod, ho, Nat.zero_add, Nat.mod_mod]

/-- The blocks behind intervals of whole pages. -/
theorem fcramBlocks (h : Sound mems ks) {is : List Interval}
    (his : ∀ i ∈ is, i.lower % pageSize = 0 ∧ i.upper % pageSize = 0 ∧ i.lower < i.upper ∧
      i.upper ≤ fcramN3DSSize) :
    ∃ blocks, ks.fcramBlocks is = some blocks ∧ (∀ b ∈ blocks, SoundBlock mems b) ∧
      FcramPages ks.fcram (bytePointer blocks) := by
  induction is with
  | nil => exact ⟨[], rfl, by simp, nofun⟩
  | cons i is ih =>
    obtain ⟨⟨hlo, hup, hlt, hle⟩, his⟩ := List.forall_mem_cons.mp his
    obtain ⟨blocks, hblocks, hsound, hpages⟩ := ih his
    have hsz : (i.upper - i.lower) % pageSize = 0 := (mod_sub hup hlo).2
    obtain ⟨r, hr, hr', hptr⟩ := h.fcramBlock hlo hsz (by omega)
    refine ⟨(r, i.upper - i.lower) :: blocks, ?_, List.forall_mem_cons.mpr ⟨hr' (by omega), hsound⟩,
      fun a o ha ho => ?_⟩
    · rw [KernelSystem.fcramBlocks, hr, hblocks]
      rfl
    · rw [bytePointer] at ha
      split_ifs at ha with hin
      · exact hptr a o hin (some.inj ha)
      · rw [hpages _ o ha ho]
        unfold pageSize at hsz ⊢
        omega

/-! ## Allocation -/

/-- The area that `HeapAllocate` and `Map` look at. -/
theorem alreadyAllocated_some (h : Intact vm) (htg : target < maxAddress)
    (hw : target + size < 2 ^ 32) : ∃ v ∈ VMManager.areas vm.vmaMap, v.base ≤ target ∧
      target < v.base + v.size ∧ alreadyAllocated target size vm =
        some (decide (v.type ≠ .free ∨ v.base + v.size < target + size)) := by
  have hlim : maxAddress = 0x40000000 := rfl
  obtain ⟨xs, v, ys, hs, hv, hfind⟩ := VMManager.findVMA_cover h.tiles htg
  have htiles : Segment.Tiles 0 (xs ++ v :: ys) maxAddress := hs ▸ h.tiles
  have hbound := (htiles.mem_bounds (v := v) (by simp)).2.2
  rw [VirtualMemoryArea.base_def, VirtualMemoryArea.size_def] at hbound
  refine ⟨v, by simp [hs], hv.1, hv.2, ?_⟩
  unfold alreadyAllocated
  rw [h.keyedByBase.eq_keyed, hfind]
  simp only [bind_eq_bind, bind_some]
  rw [hs, VMManager.get?_keyed htiles, bind_some, add32_eq (by omega), add32_eq hw]

/-- Beyond the address space there is no area to look at. -/
theorem alreadyAllocated_none (htg : maxAddress ≤ target) :
    alreadyAllocated target size vm = none := by
  unfold alreadyAllocated VMManager.findVMA
  rw [if_pos htg]
  rfl

/-- The blocks that `HeapAllocate` of the region hands out. -/
theorem heapBlocks (h : Sound mems ks) {r : MemoryRegionInfo} (hr : r.Paged) {x : IntervalSet}
    (hx : x.toFinset ⊆ r.freeSet) (hpages : Interval.InUnits pageSize x.toFinset) :
    ∃ blocks, ks.fcramBlocks x.blocks = some blocks ∧ (∀ b ∈ blocks, SoundBlock mems b) ∧
      FcramPages ks.fcram (bytePointer blocks) := by
  refine h.fcramBlocks fun i hi => ?_
  obtain ⟨hlo, hup⟩ := x.normal.mod_eq_zero hpages hi
  have hlt := x.normal.nonempty i hi
  have hlast : i.upper - 1 ∈ x.toFinset := Interval.mem_cover.mpr ⟨i, hi, by omega, by omega⟩
  have := hr.free _ (hx hlast)
  exact ⟨hlo, hup, hlt, by omega⟩

variable {out : Except Result Nat} {res : Result}

theorem heapAllocate (h : Sound mems ks) (hpage : size % pageSize = 0) (hsz : size < 2 ^ 32)
    {skip : Bool} (hcall : Process.heapAllocate target size perms state skip ks = some (out, ks')) :
    Sound mems ks' := by
  unfold Process.heapAllocate at hcall
  split at hcall
  · exact of_returned h hcall
  obtain ⟨allocated, -, hcall⟩ := bind_eq_some_iff.mp hcall
  split at hcall
  · exact of_returned h hcall
  obtain ⟨⟨x, region⟩, halloc, hcall⟩ := bind_eq_some_iff.mp hcall
  obtain ⟨x', region', halloc', hregion, hsub, hx⟩ :=
    heapAllocate_paged (h.regions ks.process.memoryRegion) hpage
  rw [halloc] at halloc'
  obtain ⟨rfl, rfl⟩ := returned halloc'
  simp only at hcall
  split at hcall
  · exact of_returned (h.setRegion hregion) hcall
  next hne =>
  obtain ⟨blocks, hblocks, hcall⟩ := bind_eq_some_iff.mp hcall
  obtain ⟨vm, hmap, hcall⟩ := bind_eq_some_iff.mp hcall
  obtain ⟨-, rfl⟩ := returned hcall
  obtain ⟨blocks', hblocks', hsound, hpages⟩ := (h.setRegion hregion).heapBlocks
    (h.regions ks.process.memoryRegion) hsub hx
  rw [hblocks] at hblocks'
  obtain rfl := some.inj hblocks'
  have hw : blocksSize blocks = size := blocksSize_fcramBlocks halloc hne hblocks
  exact ((h.setRegion hregion).mapBlocks (by omega) (fun b hb _ => hsound b hb) hpages hmap).hold x
    size

/-- `HeapAllocate` of pages returns whatever the guest asks for. -/
theorem heapAllocate_returns (h : Sound mems ks) (ht : target % pageSize = 0)
    (hpage : size % pageSize = 0) (hsz : size < 2 ^ 32) (state : MemoryState) :
    (Process.heapAllocate target size perms state false ks).isSome = true := by
  have hend : heapVAddrEnd = 0x10000000 := rfl
  have hlim : maxAddress = 0x40000000 := rfl
  unfold Process.heapAllocate
  by_cases hheap : outsideHeap target size = true
  · rw [if_pos ⟨hheap, nofun⟩]
    rfl
  rw [if_neg fun hout => hheap hout.1]
  obtain ⟨-, hle⟩ := inHeap_of_outsideHeap (Bool.eq_false_iff.mpr hheap) hsz
  obtain ⟨v, hv, hlo, hhi, hallocated⟩ := alreadyAllocated_some h.wellFormed.toIntact
    (show target < maxAddress by omega) (show target + size < 2 ^ 32 by omega)
  rw [hallocated]
  simp only [bind_eq_bind, bind_some, decide_eq_true_eq]
  split_ifs with hno
  · rfl
  push Not at hno
  obtain ⟨x, region, halloc, hregion, hsub, hx⟩ :=
    heapAllocate_paged (h.regions ks.process.memoryRegion) hpage
  rw [halloc]
  simp only [bind_some]
  split_ifs with hne
  · rfl
  obtain ⟨blocks, hblocks, hsound, -⟩ := (h.setRegion hregion).heapBlocks
    (h.regions ks.process.memoryRegion) hsub hx
  have hw : blocksSize blocks = size := blocksSize_fcramBlocks halloc hne hblocks
  obtain ⟨vm, hmap, -⟩ : ∃ vm, Kernel.mapBlocks state perms blocks target ks.process.vmManager =
      some vm ∧ WellFormed mems vm :=
    mapBlocks_some h.wellFormed h.nonnull hsound ht fun _ => ⟨v, hv, hno.1, hlo, hw ▸ hno.2⟩
  rw [hblocks, bind_some]
  exact Option.isSome_iff_exists.mpr ⟨_, bind_eq_some_iff.mpr ⟨vm, hmap, rfl⟩⟩

/-! The linear heap. -/

/-- A block of FCRAM that `LinearAllocate` has mapped. -/
theorem mapLinear (h : Sound mems ks) {offset : Nat} (hoff : offset % pageSize = 0)
    (hpage : size % pageSize = 0) (hle : offset + size ≤ fcramN3DSSize)
    (hcall : Process.mapLinear target offset size perms ks = some (out, ks')) : Sound mems ks' := by
  have hN : fcramN3DSSize = 0x10000000 := rfl
  obtain ⟨r, hr, hsound, hptr⟩ := h.fcramBlock hoff hpage hle
  obtain ⟨r', hr', hcall⟩ := bind_eq_some_iff.mp hcall
  obtain rfl := some.inj (hr.symm.trans hr')
  obtain ⟨vm, hmap, hcall⟩ := bind_eq_some_iff.mp hcall
  obtain ⟨-, rfl⟩ := returned hcall
  refine (h.mapBlocks ?_ (List.forall_mem_singleton.mpr hsound) (fun i o hi ho => ?_) hmap).hold _
    size
  · rw [VMManager.blocksSize_cons, VMManager.blocksSize_nil]
    show size + 0 < 2 ^ 32
    omega
  · rw [bytePointer] at hi
    split_ifs at hi with hlt
    · exact hptr i o hlt (some.inj hi)
    · cases hi

/-- The block can be mapped if it is not empty and the range is free. -/
theorem mapLinear_returns_iff (h : Sound mems ks) {offset : Nat} (ht : target % pageSize = 0)
    (hoff : offset % pageSize = 0) (hpage : size % pageSize = 0)
    (hle : offset + size ≤ fcramN3DSSize) :
    (Process.mapLinear target offset size perms ks).isSome = true ↔
      0 < size ∧ FitsFree ks.process.vmManager target (target + size) := by
  have hN : fcramN3DSSize = 0x10000000 := rfl
  obtain ⟨r, hr, hsound, -⟩ := h.fcramBlock hoff hpage hle
  unfold Process.mapLinear
  rw [hr]
  simp only [bind_eq_bind, bind_some]
  constructor
  · intro hsome
    obtain ⟨out, hout⟩ := Option.isSome_iff_exists.mp hsome
    obtain ⟨vm, hmap, -⟩ := bind_eq_some_iff.mp hout
    obtain ⟨⟨res, vm₁⟩, hcall, hmap⟩ := bind_eq_some_iff.mp hmap
    cases res with
    | error e => cases hmap
    | ok k =>
      obtain ⟨-, -, hpos, -, -, hfits⟩ := VMManager.mapBackingMemory_inv h.wellFormed.toIntact
        (show size < 2 ^ 32 by omega) hcall
      exact ⟨hpos, hfits⟩
  · rintro ⟨hpos, hfits⟩
    obtain ⟨vm, hmap, -⟩ : ∃ vm, Kernel.mapBlocks .continuous perms [(r, size)] target
        ks.process.vmManager = some vm ∧ WellFormed mems vm :=
      mapBlocks_some h.wellFormed h.nonnull (List.forall_mem_singleton.mpr (hsound hpos)) ht
        fun _ => hfits
    rw [hmap]
    rfl

theorem area_mod (p : Process) : p.getLinearHeapAreaAddress % pageSize = 0 := by
  unfold getLinearHeapAreaAddress
  split_ifs <;> decide

theorem area_le (p : Process) : p.getLinearHeapAreaAddress + fcramN3DSSize ≤ maxAddress := by
  unfold getLinearHeapAreaAddress
  split_ifs <;> decide

/-- A range that passes the check of the linear heap. -/
theorem inLinearHeap (h : Sound mems ks) (hsz : size < 2 ^ 32)
    (hin : outsideLinearHeap target size ks = false) :
    ks.process.getLinearHeapAreaAddress ≤ target ∧
      target + size ≤ ks.process.getLinearHeapAreaAddress + fcramN3DSSize := by
  have hlim : maxAddress = 0x40000000 := rfl
  have harea := area_le ks.process
  have hbound := (h.regions ks.process.memoryRegion).inFCRAM
  unfold outsideLinearHeap Process.getLinearHeapLimit Process.getLinearHeapBase at hin
  rw [decide_eq_false_iff_not, add32_eq (by omega), add32_eq (by omega)] at hin
  unfold add32 at hin
  omega

theorem linearAllocate (h : Sound mems ks) (ht : target % pageSize = 0)
    (hpage : size % pageSize = 0) (hsz : size < 2 ^ 32) (htg : target < 2 ^ 32)
    (hcall : Process.linearAllocate target size perms ks = some (out, ks')) : Sound mems ks' := by
  have hN : fcramN3DSSize = 0x10000000 := rfl
  unfold Process.linearAllocate at hcall
  simp only at hcall
  split at hcall
  · obtain ⟨⟨found, info⟩, halloc, hcall⟩ := bind_eq_some_iff.mp hcall
    obtain ⟨found', info', halloc', hinfo, hoff⟩ :=
      linearAllocate_paged (h.regions ks.process.memoryRegion) hpage
    rw [halloc] at halloc'
    obtain ⟨rfl, rfl⟩ := returned halloc'
    cases found with
    | none =>
      exact of_returned (h.setRegion hinfo) hcall
    | some offset =>
      obtain ⟨ho, hle⟩ := hoff offset rfl
      exact (h.setRegion hinfo).mapLinear ho hpage hle hcall
  split at hcall
  · exact of_returned h hcall
  next hin =>
  obtain ⟨hlo, hhi⟩ := h.inLinearHeap hsz (Bool.eq_false_iff.mpr hin)
  have hoff : (target - ks.process.getLinearHeapAreaAddress) % pageSize = 0 :=
    (mod_sub ht (area_mod _)).2
  rw [sub32_eq hlo htg] at hcall
  obtain ⟨⟨allocated, info⟩, halloc, hcall⟩ := bind_eq_some_iff.mp hcall
  obtain ⟨info', halloc', hinfo⟩ := linearAllocateAt_paged
    (h.regions ks.process.memoryRegion) hoff hpage (by omega)
  rw [halloc] at halloc'
  obtain ⟨-, rfl⟩ := returned halloc'
  split at hcall
  · exact of_returned (h.setRegion hinfo) hcall
  · exact (h.setRegion hinfo).mapLinear hoff hpage (by omega) hcall

/-- `LinearAllocate` returns exactly if the memory it gets can be mapped. -/
theorem linearAllocate_returns_iff (h : Sound mems ks) (ht : target % pageSize = 0)
    (hpage : size % pageSize = 0) (hsz : size < 2 ^ 32) (htg : target < 2 ^ 32) :
    (Process.linearAllocate target size perms ks).isSome = true ↔
      ∀ t, linearTarget target size ks = some t →
        0 < size ∧ FitsFree ks.process.vmManager t (t + size) := by
  have hlim : maxAddress = 0x40000000 := rfl
  have harea := area_le ks.process
  have hpaged : ks.ownRegion.Paged := h.regions ks.process.memoryRegion
  unfold Process.linearAllocate linearTarget
  simp only
  by_cases hzero : target = 0
  · rw [if_pos hzero, if_pos hzero]
    cases hfind :
        ks.ownRegion.freeBlocks.blocks.find? fun i => decide (size ≤ i.upper - i.lower) with
    | none =>
      have hcall : ks.ownRegion.linearAllocate size = some (none, ks.ownRegion) := by
        unfold MemoryRegionInfo.linearAllocate
        rw [if_neg (by simp [hpaged.isLocked]), hfind]
      rw [show MemoryRegionInfo.linearAllocate size (ks.memoryRegions _) = _ from hcall]
      exact iff_of_true rfl nofun
    | some i =>
      obtain ⟨found, info, hcall, hinfo, hoff⟩ := linearAllocate_paged hpaged hpage
      have hfound : found = some i.lower := by
        unfold MemoryRegionInfo.linearAllocate at hcall
        rw [if_neg (by simp [hpaged.isLocked]), hfind] at hcall
        exact (returned hcall).1.symm
      subst hfound
      obtain ⟨ho, hle⟩ := hoff i.lower rfl
      rw [show MemoryRegionInfo.linearAllocate size (ks.memoryRegions _) = _ from hcall]
      simp only [bind_eq_bind, bind_some, Option.map_some, Option.some.injEq, forall_eq']
      rw [add32_eq (by omega)]
      exact (h.setRegion hinfo).mapLinear_returns_iff (mod_sub ho (area_mod _)).1
        ho hpage hle
  rw [if_neg hzero, if_neg hzero]
  by_cases hout : outsideLinearHeap target size ks = true
  · rw [if_pos hout, if_neg fun hin => by simp [hout] at hin]
    exact iff_of_true rfl nofun
  have hin := Bool.eq_false_iff.mpr hout
  obtain ⟨hlo, hhi⟩ := h.inLinearHeap hsz hin
  have hoff : (target - ks.process.getLinearHeapAreaAddress) % pageSize = 0 :=
    (mod_sub ht (area_mod _)).2
  obtain ⟨info, halloc, hinfo⟩ := linearAllocateAt_paged hpaged hoff hpage (by omega)
  rw [if_neg hout, sub32_eq hlo htg,
    show MemoryRegionInfo.linearAllocateAt _ size (ks.memoryRegions _) = _ from halloc]
  simp only [bind_eq_bind, bind_some]
  cases hc : ks.ownRegion.freeBlocks.contains ⟨target - ks.process.getLinearHeapAreaAddress,
      target - ks.process.getLinearHeapAreaAddress + size⟩ with
  | false =>
    rw [if_pos Bool.false_ne_true, if_neg fun hno => Bool.false_ne_true hno.2]
    exact iff_of_true rfl nofun
  | true =>
    rw [if_neg (not_not.mpr rfl), if_pos ⟨hin, rfl⟩]
    simp only [Option.some.injEq, forall_eq']
    exact (h.setRegion hinfo).mapLinear_returns_iff ht hoff hpage (by omega)

/-! ## Giving memory back -/

/-- Memory of which a byte is in FCRAM lies in FCRAM as a whole. -/
theorem within_fcram (h : Sound mems ks) (hin : r.Within mems size) {i : Nat} (hi : i < size)
    (ho : r.getPtr + i = ks.fcram + o) (hle : o ≤ fcramN3DSSize) :
    r.getPtr = ks.fcram + r.offset ∧ r.offset + size ≤ fcramN3DSSize := by
  obtain ⟨m, hm, hr, hin⟩ := hin
  have hptr : r.getPtr = m.ptr + r.offset := by
    unfold MemoryRef.getPtr
    rw [hr]
  by_cases hmem : m = ⟨ks.fcram, fcramN3DSSize⟩
  · subst hmem
    exact ⟨hptr, hin⟩
  · rcases h.wellFormed.apart _ _ hm h.fcram hmem with hlt | hlt
    · simp only at hlt
      omega
    · simp only at hlt
      omega

theorem getFCRAMOffset_some (h : Sound mems ks) (hb : SoundBlock mems (r, size))
    (ho : ks.getFCRAMOffset r.getPtr = some o) :
    r.getPtr = ks.fcram + o ∧ o + size ≤ fcramN3DSSize := by
  unfold getFCRAMOffset at ho
  split_ifs at ho with hbound
  obtain rfl := some.inj ho
  obtain ⟨hptr, hle⟩ := h.within_fcram hb.1 hb.2.2
    (show r.getPtr + 0 = ks.fcram + (r.getPtr - ks.fcram) by omega) (by omega)
  simp only at hptr hle
  omega

/-- One block is given back, unless a part of it is free. -/
theorem releaseFCRAM (h : Sound mems ks) (ho : o % pageSize = 0) (hpage : size % pageSize = 0)
    (hle : o + size ≤ fcramN3DSSize) :
    (¬ Disjoint ks.ownRegion.freeSet (Finset.Ico o (o + size)) ∧
        Process.releaseFCRAM o size ks = none) ∨
      Disjoint ks.ownRegion.freeSet (Finset.Ico o (o + size)) ∧
        ∃ ks', Process.releaseFCRAM o size ks = some ks' ∧ Sound mems ks' ∧
          ks'.fcram = ks.fcram ∧ ks'.process.vmManager = ks.process.vmManager ∧
            ks'.ownRegion.freeSet = ks.ownRegion.freeSet ∪ Finset.Ico o (o + size) := by
  have hpaged : ks.ownRegion.Paged := h.regions ks.process.memoryRegion
  unfold Process.releaseFCRAM
  simp only
  rcases MemoryRegionInfo.free_paged hpaged ho hpage hle with
    ⟨hno, hcall⟩ | ⟨hdisj, info, hcall, hinfo, hfree⟩
  · refine Or.inl ⟨hno, ?_⟩
    rw [show MemoryRegionInfo.free o size (ks.memoryRegions _) = _ from hcall]
    rfl
  · refine Or.inr ⟨hdisj, ?_⟩
    rw [show MemoryRegionInfo.free o size (ks.memoryRegions _) = _ from hcall]
    have h' := h.setRegion (r := ks.process.memoryRegion) hinfo
    refine ⟨_, rfl, ⟨h'.wellFormed, h'.nonnull, h'.fcram, h'.regions, h'.pages, h'.shared⟩, rfl,
      rfl,
      ?_⟩
    show ((ks.setRegion ks.process.memoryRegion info).memoryRegions
      ks.process.memoryRegion).freeSet = _
    rw [setRegion_self, hfree]

/-- The loop of `HeapFree`. -/
theorem releaseBlocks (h : Sound mems ks) {blocks : List (MemoryRef × Nat)}
    (hblocks : ∀ b ∈ blocks, SoundBlock mems b)
    (hpages : FcramPages ks.fcram (bytePointer blocks)) :
    (¬ Releasable ks.fcram ks.ownRegion.freeSet (bytePointer blocks) (blocksSize blocks) ∧
        Process.releaseBlocks blocks ks = none) ∨
      Releasable ks.fcram ks.ownRegion.freeSet (bytePointer blocks) (blocksSize blocks) ∧
        ∃ ks', Process.releaseBlocks blocks ks = some ks' ∧ Sound mems ks' ∧
          ks'.process.vmManager = ks.process.vmManager := by
  induction blocks generalizing ks with
  | nil =>
    exact Or.inr ⟨⟨fun i hi => absurd hi (Nat.not_lt_zero i),
      fun i hi => absurd hi (Nat.not_lt_zero i)⟩,
      ks, rfl, h, rfl⟩
  | cons b blocks ih =>
    obtain ⟨r, size⟩ := b
    obtain ⟨hb, hblocks⟩ := List.forall_mem_cons.mp hblocks
    rw [VMManager.blocksSize_cons, Process.releaseBlocks]
    cases hoff : ks.getFCRAMOffset r.getPtr with
    | none =>
      refine Or.inl ⟨fun hrel => ?_, rfl⟩
      obtain ⟨o, hlt, ho, -⟩ := hrel.offset 0 (Nat.lt_of_lt_of_le hb.2.2 (Nat.le_add_right _ _))
      rw [bytePointer, if_pos hb.2.2] at ho
      have hptr := some.inj ho
      unfold getFCRAMOffset at hoff
      split_ifs at hoff with hin
      omega
    | some o =>
      obtain ⟨hptr, hle⟩ := h.getFCRAMOffset_some hb hoff
      have ho : o % pageSize = 0 := by
        have hfirst := hpages 0 o (by rw [bytePointer, if_pos hb.2.2, hptr]; rfl)
          (by have := hb.2.2; simp only at this; omega)
        rwa [Nat.zero_mod] at hfirst
      rw [releasable_cons hptr hle]
      simp only [bind_eq_bind, bind_some]
      rcases h.releaseFCRAM ho hb.2.1 hle with ⟨hno, hcall⟩ |
        ⟨hdisj, ks₁, hcall, h₁, hf, hvm, hfree⟩
      · exact Or.inl ⟨fun hrel => hno hrel.1, by rw [hcall]; rfl⟩
      · rw [hcall]
        rcases ih h₁ hblocks (hf.symm ▸ hpages.tail hb.2.1) with
          ⟨hno, hrest⟩ | ⟨hrel, ks', hrest, h', hvm'⟩
        · refine Or.inl ⟨fun hrel => hno ?_, hrest⟩
          rw [hf, hfree]
          exact hrel.2
        · rw [hf, hfree] at hrel
          exact Or.inr ⟨⟨hdisj, hrel⟩, ks', hrest, h', hvm'.trans hvm⟩

/-! ## The calls of the address-space manager -/

theorem changeMemoryState (h : Sound mems ks) (htg : target < 2 ^ 32) (hsz : size < 2 ^ 32)
    {expectedState newState : MemoryState} {expectedPerms newPerms : VMAPermission}
    (hcall : ks.process.vmManager.changeMemoryState target size expectedState
      expectedPerms newState newPerms = some (res, vm)) : Sound mems (ks.setVMManager vm) := by
  obtain ⟨hvm, -⟩ := VMManager.changeMemoryState_wellFormed h.wellFormed htg hsz hcall
  exact h.samePointers hvm
    (VMManager.changeMemoryState_pointerAt h.wellFormed.toIntact htg hsz hcall).2.1

theorem unmapRange (h : Sound mems ks) (htg : target < 2 ^ 32) (hsz : size < 2 ^ 32)
    (hcall : ks.process.vmManager.unmapRange target size = some (res, vm)) :
    Sound mems (ks.setVMManager vm) := by
  refine h.remap (VMManager.unmapRange_wellFormed h.wellFormed htg hsz hcall) ?_
  rcases VMManager.unmapRange_pointerAt h.wellFormed.toIntact htg hsz hcall with
    ⟨-, rfl⟩ | ⟨-, -, -, hp⟩
  · exact h.pages
  · refine h.pages.of_pages fun a p ha => ⟨a, ?_, rfl⟩
    rw [hp] at ha
    split_ifs at ha
    exact ha

theorem reprotectRange (h : Sound mems ks) (htg : target < 2 ^ 32) (hsz : size < 2 ^ 32)
    (hcall : ks.process.vmManager.reprotectRange target size perms = some (res, vm)) :
    Sound mems (ks.setVMManager vm) :=
  h.samePointers (VMManager.reprotectRange_wellFormed h.wellFormed htg hsz hcall)
    (VMManager.reprotectRange_pointerAt h.wellFormed.toIntact htg hsz hcall).2

/-! ## `HeapFree` and `LinearFree` -/

theorem subMemoryUsed (h : Sound mems ks) (size : Nat) :
    Sound mems (Process.subMemoryUsed size ks) :=
  ⟨h.wellFormed, h.nonnull, h.fcram, h.regions, h.pages, h.shared⟩

/-- `HeapFree` returns exactly if what is mapped over the range can be given back. -/
theorem heapFree (h : Sound mems ks) (ht : target % pageSize = 0) (hpage : size % pageSize = 0)
    (hsz : size < 2 ^ 32) :
    (¬ HeapReleasable target size ks ∧ Process.heapFree target size ks = none) ∨
      HeapReleasable target size ks ∧
        ∃ res ks', Process.heapFree target size ks = some (res, ks') ∧ Sound mems ks' := by
  have hend : heapVAddrEnd = 0x10000000 := rfl
  have hlim : maxAddress = 0x40000000 := rfl
  unfold Process.heapFree HeapReleasable
  cases hheap : outsideHeap target size with
  | true => exact Or.inr ⟨nofun, _, _, rfl, h⟩
  | false =>
    obtain ⟨-, hle⟩ := inHeap_of_outsideHeap hheap hsz
    rw [if_neg Bool.false_ne_true]
    by_cases hzero : size = 0
    · subst hzero
      rw [if_pos rfl]
      exact Or.inr ⟨fun _ _ => ⟨fun i hi => absurd hi (Nat.not_lt_zero i),
        fun i hi => absurd hi (Nat.not_lt_zero i)⟩, _, _, rfl, h⟩
    rw [if_neg hzero]
    rcases VMManager.getBackingBlocksForRange_cases h.wellFormed ht hpage (by omega) with
      ⟨hno, hget⟩ | ⟨hmapped, blocks, hget, hsound⟩
    · rw [hget]
      exact Or.inr ⟨fun _ hmapped => absurd hmapped hno, _, _, rfl, h⟩
    obtain ⟨htotal, hbyte⟩ :=
      VMManager.getBackingBlocksForRange_spec h.wellFormed.toIntact (by omega) hget
    have hpages : FcramPages ks.fcram (bytePointer blocks) := by
      refine h.pages.of_pages fun i p hp => ⟨target + i, ?_, ?_⟩
      · rw [← hbyte i (htotal ▸ VMManager.bytePointer_isSome hp), hp]
      · rw [Nat.add_mod, ht, Nat.zero_add, Nat.mod_mod]
    rw [hget]
    simp only [bind_eq_bind, bind_some]
    rcases h.releaseBlocks hsound hpages with ⟨hno, hcall⟩ | ⟨hrel, ks₁, hcall, h₁, hvm⟩
    · refine Or.inl ⟨fun hall => hno ?_, by rw [hcall]; rfl⟩
      rw [htotal]
      exact (hall trivial hmapped).congr hbyte
    · rw [htotal] at hrel
      refine Or.inr ⟨fun _ _ => hrel.congr fun i hi => (hbyte i hi).symm, ?_⟩
      rcases VMManager.unmapRange_some h₁.wellFormed ht hpage (Nat.pos_of_ne_zero hzero)
        (by omega) with
        ⟨hno, -⟩ | ⟨-, vm, hunmap, -⟩
      · rw [hvm] at hno
        exact absurd hmapped hno
      · rw [hcall, bind_some, hunmap, bind_some,
          if_neg (not_not.mpr (show Result.success.isSuccess = true from rfl))]
        exact ⟨_, _, rfl, (h₁.unmapRange (by omega) hsz hunmap).subMemoryUsed size⟩

/-- `LinearFree` returns exactly if the range is not mapped or its memory is not free. -/
theorem linearFree (h : Sound mems ks) (ht : target % pageSize = 0) (hpage : size % pageSize = 0)
    (hsz : size < 2 ^ 32) :
    (¬ LinearReleasable target size ks ∧ Process.linearFree target size ks = none) ∨
      LinearReleasable target size ks ∧
        ∃ res ks', Process.linearFree target size ks = some (res, ks') ∧ Sound mems ks' := by
  have hlim : maxAddress = 0x40000000 := rfl
  have harea := area_le ks.process
  unfold Process.linearFree LinearReleasable
  cases hlinear : outsideLinearHeap target size ks with
  | true => exact Or.inr ⟨nofun, _, _, rfl, h⟩
  | false =>
    obtain ⟨hlo, hhi⟩ := h.inLinearHeap hsz hlinear
    rw [if_neg Bool.false_ne_true]
    by_cases hzero : size = 0
    · subst hzero
      rw [if_pos rfl]
      exact Or.inr ⟨fun _ _ => by simp, _, _, rfl, h⟩
    rw [if_neg hzero]
    rcases VMManager.unmapRange_some h.wellFormed ht hpage (Nat.pos_of_ne_zero hzero)
      (by omega) with
      ⟨hno, hunmap⟩ | ⟨hmapped, vm, hunmap, -⟩
    · rw [hunmap]
      exact Or.inr ⟨fun _ hmapped => absurd hmapped hno, _, _, rfl, h⟩
    have h₁ := h.unmapRange (by omega) hsz hunmap
    rw [hunmap]
    simp only [bind_eq_bind, bind_some]
    rw [if_neg (by decide), show (ks.setVMManager vm).process.getLinearHeapAreaAddress =
      ks.process.getLinearHeapAreaAddress from rfl, sub32_eq hlo (by omega)]
    rcases h₁.releaseFCRAM (mod_sub ht (area_mod ks.process)).2 hpage
      (by omega) with
      ⟨hno, hcall⟩ | ⟨hdisj, ks₂, hcall, h₂, -⟩
    · exact Or.inl ⟨fun hall => hno (hall trivial hmapped), by rw [hcall]; rfl⟩
    · rw [hcall]
      exact Or.inr ⟨fun _ _ => hdisj, _, _, rfl, h₂.subMemoryUsed size⟩

end Sound

end KernelSystem

end GbaStation.Kernel
