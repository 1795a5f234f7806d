import GbaStation.Kernel.FcramOwnership
import GbaStation.Memory.Progress

/-!
# Calls of `svcControlMemory` that fail

A call that returns an error has left the memory of the process and the books of the regions
`Untouched`, with one exception: `UNMAP` frees the target range before it looks at the source
range. It `StopsHalfway` if the target is mapped and the source is not what `MAP` made of it.

- one lemma for each function of `Process`: what it leaves behind when it fails.
- `failed_controlMemory_iff`: the same for the whole call.
-/

namespace GbaStation.Kernel

open Memory
open Memory.VMManager (Intact areas RangeAll Expected Mapped)
open Option (some.inj bind_eq_some_iff)

variable {ks ks' : KernelSystem} {target source size : Nat} {perms : VMAPermission} {e res : Result}

/-- The memory of the process and the regions is what it was. -/
structure Untouched (ks ks' : KernelSystem) : Prop where
  vmaMap : ks'.process.vmManager.vmaMap = ks.process.vmManager.vmaMap
  freeBlocks : ∀ r, (ks'.memoryRegions r).freeBlocks = (ks.memoryRegions r).freeBlocks
  used : ∀ r, (ks'.memoryRegions r).used = (ks.memoryRegions r).used
  holdingMemory : ks'.process.holdingMemory = ks.process.holdingMemory
  memoryUsed : ks'.process.memoryUsed = ks.process.memoryUsed
  commit : ks'.process.commit = ks.process.commit

namespace Untouched

theorem refl (ks : KernelSystem) : Untouched ks ks :=
  ⟨rfl, fun _ => rfl, fun _ => rfl, rfl, rfl, rfl⟩

/-- A region replaced by one with the same books. -/
theorem setRegion {r : MemoryRegion} {info : MemoryRegionInfo}
    (hfree : info.freeBlocks = (ks.memoryRegions r).freeBlocks)
    (hused : info.used = (ks.memoryRegions r).used) : Untouched ks (ks.setRegion r info) where
  vmaMap := rfl
  freeBlocks r' := by
    show (if r' = r then info else ks.memoryRegions r').freeBlocks = _
    split_ifs with hr
    · rw [hr, hfree]
    · rfl
  used r' := by
    show (if r' = r then info else ks.memoryRegions r').used = _
    split_ifs with hr
    · rw [hr, hused]
    · rfl
  holdingMemory := rfl
  memoryUsed := rfl
  commit := rfl

end Untouched

namespace Process

/-! ## The heap and the linear heap -/

theorem heapAllocate_failed {memoryState : MemoryState} {skip : Bool}
    (hused : ∀ r, (ks.memoryRegions r).used < 2 ^ 32)
    (hcall : heapAllocate target size perms memoryState skip ks = some (.error e, ks')) :
    Untouched ks ks' := by
  unfold heapAllocate at hcall
  split at hcall
  · exact of_returned (.refl ks) hcall
  obtain ⟨allocated, -, hcall⟩ := bind_eq_some_iff.mp hcall
  split at hcall
  · exact of_returned (.refl ks) hcall
  obtain ⟨⟨fcram, region⟩, halloc, hcall⟩ := bind_eq_some_iff.mp hcall
  simp only at hcall
  split at hcall
  next hempty =>
    obtain ⟨-, rfl⟩ := returned hcall
    rcases MemoryRegionInfo.heapAllocate_cases halloc with ⟨-, rfl⟩ | ⟨hcard, -, rfl⟩
    · exact .setRegion rfl rfl
    · -- no memory was asked for
      have hblocks : fcram.blocks = [] := List.isEmpty_iff.mp hempty
      have hsize : size = 0 := by
        rw [← hcard, ← IntervalSet.total_eq, IntervalSet.total, hblocks]
        rfl
      refine .setRegion ?_ ?_
      · show List.foldl IntervalSet.sub _ fcram.blocks = _
        rw [hblocks]
        rfl
      · show add32 _ size = _
        rw [hsize, add32_eq (hused _)]
        rfl
  next =>
    obtain ⟨blocks, -, hcall⟩ := bind_eq_some_iff.mp hcall
    obtain ⟨vm, -, hcall⟩ := bind_eq_some_iff.mp hcall
    cases some.inj hcall

theorem mapLinear_ok {offset : Nat} {out : Except Result Nat}
    (hcall : mapLinear target offset size perms ks = some (out, ks')) : out = .ok target := by
  obtain ⟨r, -, hcall⟩ := bind_eq_some_iff.mp hcall
  obtain ⟨vm, -, hcall⟩ := bind_eq_some_iff.mp hcall
  exact (returned hcall).1.symm

theorem linearAllocate_failed
    (hcall : linearAllocate target size perms ks = some (.error e, ks')) : Untouched ks ks' := by
  unfold linearAllocate at hcall
  split at hcall
  · obtain ⟨⟨found, info⟩, halloc, hcall⟩ := bind_eq_some_iff.mp hcall
    cases found with
    | some offset => cases mapLinear_ok hcall
    | none =>
      obtain ⟨-, rfl⟩ := returned hcall
      unfold MemoryRegionInfo.linearAllocate at halloc
      split at halloc
      · cases halloc
      split at halloc
      · cases some.inj halloc
      · obtain ⟨-, rfl⟩ := returned halloc
        exact .setRegion rfl rfl
  split at hcall
  · exact of_returned (.refl ks) hcall
  obtain ⟨⟨allocated, info⟩, halloc, hcall⟩ := bind_eq_some_iff.mp hcall
  simp only at hcall
  split at hcall
  next hno =>
    obtain ⟨-, rfl⟩ := returned hcall
    unfold MemoryRegionInfo.linearAllocateAt at halloc
    simp only at halloc
    split at halloc
    · cases halloc
    split at halloc
    · obtain ⟨-, rfl⟩ := returned halloc
      exact .setRegion rfl rfl
    · obtain ⟨rfl, -⟩ := returned halloc
      exact absurd rfl hno
  next => cases mapLinear_ok hcall

/-- `HeapFree` fails before it gives anything back. -/
theorem heapFree_failed (hres : res.isSuccess = false)
    (hcall : heapFree target size ks = some (res, ks')) : ks' = ks := by
  unfold heapFree at hcall
  split at hcall
  · exact (returned hcall).2.symm
  split at hcall
  · exact (returned hcall).2.symm
  obtain ⟨out, -, hcall⟩ := bind_eq_some_iff.mp hcall
  cases out with
  | error e => exact (returned hcall).2.symm
  | ok blocks =>
    obtain ⟨ks₁, -, hcall⟩ := bind_eq_some_iff.mp hcall
    obtain ⟨⟨r, vm⟩, -, hcall⟩ := bind_eq_some_iff.mp hcall
    simp only at hcall
    split at hcall
    · cases hcall
    · obtain ⟨rfl, -⟩ := returned hcall
      cases hres

/-- `LinearFree` fails where `UnmapRange` does. -/
theorem linearFree_failed (h : Intact ks.process.vmManager) (htg : target < 2 ^ 32)
    (hsz : size < 2 ^ 32) (hres : res.isSuccess = false)
    (hcall : linearFree target size ks = some (res, ks')) : ks' = ks := by
  unfold linearFree at hcall
  split at hcall
  · exact (returned hcall).2.symm
  split at hcall
  · exact (returned hcall).2.symm
  obtain ⟨⟨r, vm⟩, hunmap, hcall⟩ := bind_eq_some_iff.mp hcall
  simp only at hcall
  split at hcall
  · obtain ⟨rfl, rfl⟩ := returned hcall
    rcases (VMManager.unmapRange_effect h htg hsz hunmap).1 with ⟨-, rfl⟩ | ⟨rfl, -⟩
    · rfl
    · cases hres
  · obtain ⟨ks₁, -, hcall⟩ := bind_eq_some_iff.mp hcall
    obtain ⟨rfl, -⟩ := returned hcall
    cases hres

/-! ## Map and unmap -/

/-- `[target, target + size)` and `[source, source + size)` have an address in common. -/
def overlaps (target source size : Nat) : Bool :=
  decide (sub32 source target < size ∨ sub32 target source < size)

theorem apart_of_overlaps {a : Nat} (h : overlaps target source size = false)
    (htg : target + size ≤ 2 ^ 32) (hsrc : source + size ≤ 2 ^ 32) (ha : source ≤ a)
    (hae : a < source + size) : ¬ (target ≤ a ∧ a < target + size) := by
  unfold overlaps sub32 at h
  rw [decide_eq_false_iff_not] at h
  omega

/-- A range that passes the check of the heap area. -/
theorem inHeap_of_outsideHeap (h : outsideHeap target size = false) (hsz : size < 2 ^ 32) :
    heapVAddr ≤ target ∧ target + size ≤ heapVAddrEnd := by
  unfold outsideHeap add32 at h
  rw [decide_eq_false_iff_not] at h
  omega

/-- `Map` fails before it maps anything, and the source is mapped whenever its state could be
changed. -/
theorem map_failed (h : Intact ks.process.vmManager) (hsrc : source < 2 ^ 32) (hsz : size < 2 ^ 32)
    {privileged : Bool} (hres : res.isSuccess = false)
    (hcall : map target source size perms privileged ks = some (res, ks')) : ks' = ks := by
  have hchanged : ∀ {state : MemoryState} {r : Result} {vm : VMManager} {p : VMAPermission},
      r.isSuccess = false → ks.process.vmManager.changeMemoryState source size .privateMemory
        VMAPermission.readWrite state p = some (r, vm) → ks.setVMManager vm = ks := by
    intro state r vm p hr hchange
    rcases VMManager.changeMemoryState_effect h hsrc hsz hchange with ⟨-, rfl⟩ | ⟨rfl, -⟩
    · rfl
    · cases hr
  rcases map_inv hcall with
    ⟨-, rfl⟩ | ⟨-, -, vm, rfl, hchange⟩ | ⟨-, -, r, vm, hchange, hend⟩
  · rfl
  · exact hchanged hres hchange
  rcases hend with ⟨-, rfl, rfl⟩ | ⟨hok, err | blocks, hblocks, hend⟩
  · exact hchanged hres hchange
  · -- the source is mapped, so that it has backing blocks
    rcases VMManager.changeMemoryState_effect h hsrc hsz hchange with ⟨hfail, -⟩ | ⟨-, hrew⟩
    · simp [hfail] at hok
    have hle := hrew.inSpace
    have hexp := VMManager.changeMemoryState_expected h hrew.pos hle hok hchange
    have hlim : maxAddress = 0x40000000 := rfl
    unfold VMManager.getBackingBlocksForRange at hblocks
    rw [add32_eq (by omega)] at hblocks
    refine absurd (fun a ha hae => ?_)
      (VMManager.backingBlocksLoop_refused hrew.intact hle (Nat.le_add_right _ _) hblocks)
    obtain ⟨p, hp, -, hmapped⟩ := hexp a ha hae
    rw [hrew.view, if_pos ⟨ha, hae⟩, hp]
    exact ⟨_, rfl, hmapped⟩
  · obtain ⟨rfl, -⟩ := hend
    cases hres

/-- The target is mapped, but the source is not the source of a mapping. -/
def UnmapsTargetOnly (target source size : Nat) (vm : VMManager) : Prop :=
  RangeAll Mapped vm target (target + size) ∧
    ¬ RangeAll (fun p => Expected .aliased VMAPermission.none p ∧ Mapped p) vm source
      (source + size)

/-- `Unmap` fails after it has freed the target if the source is not as it expects. -/
theorem unmap_failed_iff (h : Intact ks.process.vmManager) (htg : target < 2 ^ 32)
    (hsrc : source < 2 ^ 32) (hsz : size < 2 ^ 32) (hres : res.isSuccess = false)
    (hcall : unmap target source size perms false ks = some (res, ks')) :
    Untouched ks ks' ↔ ¬ (outsideHeap source size = false ∧ overlaps target source size = false ∧
      UnmapsTargetOnly target source size ks.process.vmManager) := by
  have hlim : maxAddress = 0x40000000 := rfl
  unfold unmap at hcall
  simp only [Bool.false_eq_true, not_false_eq_true, true_and, if_false] at hcall
  split at hcall
  next hout =>
    obtain ⟨-, rfl⟩ := returned hcall
    exact iff_of_true (.refl ks) fun hno => by simp [hout] at hno
  next hheap =>
  split at hcall
  next hover =>
    obtain ⟨-, rfl⟩ := returned hcall
    exact iff_of_true (.refl ks) fun hno => by simp [overlaps, hover] at hno
  next hapart =>
  have hheap' : outsideHeap source size = false := by simpa using hheap
  have hapart' : overlaps target source size = false := decide_eq_false hapart
  obtain ⟨-, hsend⟩ := inHeap_of_outsideHeap hheap' hsz
  have hheapEnd : heapVAddrEnd = 0x10000000 := rfl
  obtain ⟨⟨r, vm⟩, hunmap, hcall⟩ := bind_eq_some_iff.mp hcall
  simp only at hcall
  split at hcall
  next hfail =>
    obtain ⟨rfl, rfl⟩ := returned hcall
    have hno := VMManager.unmapRange_refused h htg hsz hres hunmap
    rcases (VMManager.unmapRange_effect h htg hsz hunmap).1 with ⟨-, rfl⟩ | ⟨rfl, -⟩
    · exact iff_of_true (.refl ks) fun hstop => hno hstop.2.2.1
    · cases hres
  next hok =>
    obtain ⟨⟨r', vm'⟩, hchange, hcall⟩ := bind_eq_some_iff.mp hcall
    obtain ⟨rfl, rfl⟩ := returned hcall
    rcases (VMManager.unmapRange_effect h htg hsz hunmap).1 with ⟨hfail, -⟩ | ⟨rfl, hrew⟩
    · simp [hfail] at hok
    have hi := hrew.intact
    have hpos := hrew.pos
    have hle := hrew.inSpace
    have hmapped := (VMManager.rangeAll_mapped h (by omega) hle).mpr
      ((VMManager.unmapRange_effect h htg hsz hunmap).2 rfl)
    have hrefused := VMManager.changeMemoryState_refused hi hpos (by omega) hres hchange
    rcases VMManager.changeMemoryState_effect hi hsrc hsz hchange with ⟨-, rfl⟩ | ⟨rfl, -⟩
    · refine iff_of_false (fun hsame => ?_) (not_not.mpr ⟨hheap', hapart', hmapped, fun hall => ?_⟩)
      · -- the first address of the target was mapped, and is free
        obtain ⟨p, hp, hpm⟩ := hmapped target (Nat.le_refl _) (by omega)
        have hview := hrew.view target
        rw [if_pos ⟨Nat.le_refl _, by omega⟩, hp,
          show vm'.vmaMap = ks.process.vmManager.vmaMap from hsame.vmaMap, hp] at hview
        exact hpm (congrArg PageAttr.type (some.inj hview))
      · refine hrefused fun a ha hae => ?_
        obtain ⟨p, hp, hpa⟩ := hall a ha hae
        have hout := apart_of_overlaps hapart' (by omega) (by omega) ha hae
        exact ⟨p, by rw [hrew.view, if_neg hout, hp], hpa⟩
    · exact absurd (show Result.success.isSuccess = false from hres) (by decide)

end Process

/-! ## The service call -/

/-- `UNMAP` passes its checks and frees the target, and fails at the source. -/
def StopsHalfway (addr0 addr1 size : Nat) (operation permissions : BitVec 32)
    (ks : KernelSystem) : Prop :=
  checkControlMemory addr0 addr1 size permissions = none ∧ memop operation = memopUnmap ∧
    Process.outsideHeap addr1 size = false ∧ Process.overlaps addr0 addr1 size = false ∧
      Process.UnmapsTargetOnly addr0 addr1 size ks.process.vmManager

/-- A call that returns an error has left everything as it was, unless it stopped halfway. -/
theorem failed_controlMemory_iff (addr0 addr1 size : Nat) (operation permissions : BitVec 32)
    (ks ks' : KernelSystem) (res : Result) (out : Option Nat) (h0 : addr0 < 2 ^ 32)
    (h1 : addr1 < 2 ^ 32) (hsz : size < 2 ^ 32) (h : Intact ks.process.vmManager)
    (hused : ∀ r, (ks.memoryRegions r).used < 2 ^ 32) (hres : res.isSuccess = false)
    (hcall : controlMemory addr0 addr1 size operation permissions ks = some ((res, out), ks')) :
    Untouched ks ks' ↔ ¬ StopsHalfway addr0 addr1 size operation permissions ks := by
  unfold controlMemory at hcall
  split at hcall
  next err hcheck =>
    obtain ⟨-, rfl⟩ := returned hcall
    exact iff_of_true (.refl ks) fun hstop => by
      cases hcheck.symm.trans hstop.1
  next hcheck =>
  split at hcall
  next hop =>
    obtain ⟨⟨r, ks₁⟩, hfree, hcall⟩ := bind_eq_some_iff.mp hcall
    obtain ⟨hr, rfl⟩ := returned hcall
    obtain ⟨rfl, -⟩ := Prod.mk.inj hr
    refine iff_of_true ?_ fun hstop => absurd (hop.symm.trans hstop.2.1) (by decide)
    unfold controlFree at hfree
    split_ifs at hfree
    · rw [Process.heapFree_failed hres hfree]
      exact .refl ks
    · rw [Process.linearFree_failed h h0 hsz hres hfree]
      exact .refl ks
    · exact of_returned (.refl ks) hfree
  split at hcall
  next hop =>
    obtain ⟨⟨r, ks₁⟩, hcommit, hcall⟩ := bind_eq_some_iff.mp hcall
    obtain ⟨hr, rfl⟩ := returned hcall
    obtain ⟨rfl, -⟩ := Prod.mk.inj hr
    refine iff_of_true ?_ fun hstop => absurd (hop.symm.trans hstop.2.1) (by decide)
    cases r with
    | ok a => exact absurd (show Result.success.isSuccess = false from hres) (by decide)
    | error e =>
      unfold controlCommit at hcommit
      split_ifs at hcommit
      · exact Process.linearAllocate_failed hcommit
      · exact Process.heapAllocate_failed hused hcommit
  split at hcall
  next hop =>
    obtain ⟨⟨r, ks₁⟩, hmap, hcall⟩ := bind_eq_some_iff.mp hcall
    obtain ⟨hr, rfl⟩ := returned hcall
    obtain ⟨rfl, -⟩ := Prod.mk.inj hr
    refine iff_of_true ?_ fun hstop => absurd (hop.symm.trans hstop.2.1) (by decide)
    rw [Process.map_failed h h1 hsz hres hmap]
    exact .refl ks
  split at hcall
  next hop =>
    obtain ⟨⟨r, ks₁⟩, hunmap, hcall⟩ := bind_eq_some_iff.mp hcall
    obtain ⟨hr, rfl⟩ := returned hcall
    obtain ⟨rfl, -⟩ := Prod.mk.inj hr
    rw [Process.unmap_failed_iff h h0 h1 hsz hres hunmap]
    exact not_congr ⟨fun hstop => ⟨hcheck, hop, hstop⟩, fun hstop => hstop.2.2⟩
  next hop =>
  split at hcall
  next hop' =>
    obtain ⟨⟨r, vm⟩, hprotect, hcall⟩ := bind_eq_some_iff.mp hcall
    obtain ⟨hr, rfl⟩ := returned hcall
    obtain ⟨rfl, -⟩ := Prod.mk.inj hr
    refine iff_of_true ?_ fun hstop => hop hstop.2.1
    rcases VMManager.reprotectRange_effect h h0 hsz hprotect with ⟨-, rfl⟩ | ⟨rfl, -⟩
    · exact .refl ks
    · exact absurd (show Result.success.isSuccess = false from hres) (by decide)
  · obtain ⟨-, rfl⟩ := returned hcall
    exact iff_of_true (.refl ks) fun hstop => hop hstop.2.1

section Example

open KernelSystem (start startApplication execAll)

theorem start_used_lt {fcram kernelVersion : Nat} {isNew3ds : Bool} {memoryMode : Fin 8}
    {memoryRegion : MemoryRegion}
    (h : start fcram isNew3ds memoryMode kernelVersion memoryRegion = some ks) (r : MemoryRegion) :
    (ks.memoryRegions r).used < 2 ^ 32 := by
  have hlim : fcramN3DSSize = 0x10000000 := rfl
  have hacc := (KernelSystem.owned_start h).accounted r
  have hused := hacc.used
  have hin := hacc.inFCRAM
  omega

/-- `FREE` of a page that is not mapped. -/
theorem failed_controlMemory_free :
    ∃ ks ks' : KernelSystem, start 0x100000 false 0 0x22C .application = some ks ∧
      controlMemory 0x08000000 0 0x1000 1 0 ks =
        some ((Result.invalidAddressState, none), ks') ∧ Untouched ks ks' := by
  have hrun : ((start 0x100000 false 0 0x22C .application).bind
      (controlMemory 0x08000000 0 0x1000 1 0)).map Prod.fst =
        some (Result.invalidAddressState, none) := by
    decide +kernel
  obtain ⟨⟨out, ks'⟩, hrun, rfl⟩ := Option.map_eq_some_iff.mp hrun
  obtain ⟨ks, hstart, hcall⟩ := bind_eq_some_iff.mp hrun
  refine ⟨ks, ks', hstart, hcall, (failed_controlMemory_iff 0x08000000 0 0x1000 1 0 ks ks'
    Result.invalidAddressState none (by decide) (by decide) (by decide)
    (KernelSystem.owned_start hstart).intact (start_used_lt hstart) (by decide) hcall).mpr
      fun hstop => absurd hstop.2.1 (by decide)⟩

/-- A kernel whose process has two pages of heap. -/
def exampleHeap : Option KernelSystem :=
  startApplication.bind (execAll [.controlMemory 0x08000000 0 0x2000 3 3])

/-- The code of `UNMAP` from the first page to the second, and what the first page is then. -/
def exampleUnmap (ks : KernelSystem) : Option (Bool × Option VMAType × Option VMAType) := do
  let ((res, _), ks') ← controlMemory 0x08000000 0x08001000 0x1000 5 3 ks
  some (res.isSuccess,
    (Segment.view (areas ks.process.vmManager.vmaMap) 0x08000000).map PageAttr.type,
    (Segment.view (areas ks'.process.vmManager.vmaMap) 0x08000000).map PageAttr.type)

/-- It fails because the second page is no source of a mapping, and the first is gone. -/
theorem unmap_frees_and_fails :
    ∃ (ks ks' : KernelSystem) (res : Result) (out : Option Nat), exampleHeap = some ks ∧
      res.isSuccess = false ∧
      controlMemory 0x08000000 0x08001000 0x1000 5 3 ks = some ((res, out), ks') ∧
        ¬ Untouched ks ks' := by
  have hrun : exampleHeap.bind exampleUnmap =
      some (false, some .backingMemory, some .free) := by
    decide +kernel
  obtain ⟨ks, hks, hrun⟩ := bind_eq_some_iff.mp hrun
  obtain ⟨⟨⟨res, out⟩, ks'⟩, hcall, hrun⟩ := bind_eq_some_iff.mp hrun
  simp only [Option.some.injEq, Prod.mk.injEq] at hrun
  obtain ⟨hres, hbefore, hafter⟩ := hrun
  refine ⟨ks, ks', res, out, hks, hres, hcall, fun hsame => ?_⟩
  rw [hsame.vmaMap, hbefore] at hafter
  cases hafter

end Example

end GbaStation.Kernel
