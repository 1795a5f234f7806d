import GbaStation.Kernel.MemoryRegion
import GbaStation.Memory.VMManager

/-!
# A process' memory (`core/hle/kernel/process.cpp`, `shared_memory.cpp`, `svc.cpp`)

The functions behind `svcControlMemory` and shared memory blocks, for one process. Each
returns the code the source returns and the kernel it leaves behind, on error paths too;
`none` is a failed `ASSERT`. Of the resource limits the `Commit` value is kept (their answers are
ignored); the contents of FCRAM and the destructor of `SharedMemory` are left out.
-/

namespace GbaStation.Kernel

open Memory
open Result (invalidAddress invalidAddressState success invalidCombination)
open VMAPermission (readWrite)

def processImageVAddr : Nat := 0x00100000
def heapVAddr : Nat := 0x08000000
def heapVAddrEnd : Nat := 0x10000000
def sharedMemoryVAddrEnd : Nat := 0x14000000
def linearHeapVAddr : Nat := 0x14000000
def newLinearHeapVAddr : Nat := 0x30000000

/-- The fields of `Process` that its memory functions use. -/
structure Process where
  vmManager : VMManager
  kernelVersion : Nat
  memoryRegion : MemoryRegion
  holdingMemory : IntervalSet := IntervalSet.empty
  memoryUsed : Nat := 0
  /-- The current value of `ResourceLimitType::Commit` of its resource limit. -/
  commit : Int := 0
deriving DecidableEq

/-- A request for or a restriction of access; bit 28 says that the caller does not care. -/
abbrev MemoryPermission := BitVec 32

namespace MemoryPermission

def readWrite : MemoryPermission := 3
def readWriteExecute : MemoryPermission := 7
def dontCare : MemoryPermission := 0x10000000

end MemoryPermission

structure SharedMemory where
  /-- Whether the process created it (otherwise it has no owner). -/
  hasOwner : Bool
  size : Nat
  permissions : MemoryPermission
  otherPermissions : MemoryPermission
  baseAddress : Nat
  linearHeapPhysOffset : Nat := 0
  backingBlocks : List (MemoryRef × Nat)
  holdingMemory : IntervalSet := IntervalSet.empty
deriving DecidableEq

/-- The part of the kernel that memory calls work on: FCRAM at the host address `fcram`, its
regions, the process and the shared memory blocks in the order of their creation. -/
structure KernelSystem where
  fcram : Nat
  memoryRegions : MemoryRegion → MemoryRegionInfo
  process : Process
  sharedMemories : List SharedMemory := []

namespace KernelSystem

def setRegion (r : MemoryRegion) (info : MemoryRegionInfo) (ks : KernelSystem) : KernelSystem :=
  { ks with memoryRegions := fun r' => if r' = r then info else ks.memoryRegions r' }

def setVMManager (vm : VMManager) (ks : KernelSystem) : KernelSystem :=
  { ks with process := { ks.process with vmManager := vm } }

/-- The process holds more memory: the last lines of `HeapAllocate` and `LinearAllocate`. -/
def hold (x : IntervalSet) (size : Nat) (ks : KernelSystem) : KernelSystem :=
  { ks with process := { ks.process with
      holdingMemory := ks.process.holdingMemory.addSet x
      memoryUsed := add32 ks.process.memoryUsed size
      commit := ks.process.commit + size } }

/-- `GetFCRAMOffset`. -/
def getFCRAMOffset (ptr : Nat) (ks : KernelSystem) : Option Nat :=
  if ks.fcram ≤ ptr ∧ ptr ≤ ks.fcram + fcramN3DSSize then some (ptr - ks.fcram) else none

/-- `GetFCRAMRef`. -/
def getFCRAMRef (offset : Nat) (ks : KernelSystem) : Option MemoryRef :=
  if offset ≤ fcramN3DSSize then some ⟨some ⟨ks.fcram, fcramN3DSSize⟩, offset⟩ else none

/-- The memory behind a list of FCRAM intervals. -/
def fcramBlocks (ks : KernelSystem) : List Interval → Option (List (MemoryRef × Nat))
  | [] => some []
  | interval :: is => do
    let r ← ks.getFCRAMRef interval.lower
    let blocks ← fcramBlocks ks is
    some ((r, interval.upper - interval.lower) :: blocks)

/-- `MemoryInit`: the regions laid out in sequence over the whole of FCRAM. -/
def memoryInit (isNew3ds : Bool) (memoryMode : Fin 8) :
    Option (MemoryRegion → MemoryRegionInfo) := do
  let sizes := memoryRegionSizes memoryMode
  let application ← MemoryRegionInfo.reset 0 (sizes .application) {}
  let system ← MemoryRegionInfo.reset application.size (sizes .system) {}
  let base ← MemoryRegionInfo.reset (add32 application.size system.size) (sizes .base) {}
  if add32 (add32 application.size system.size) base.size ≠
      (if isNew3ds then fcramN3DSSize else fcramSize) then none else
  some fun
    | .application => application
    | .system => system
    | .base => base

end KernelSystem

/-- Map blocks of memory one behind the other, each with the same permissions: the loops of
`HeapAllocate`, `Process::Map` and `SharedMemory::Map`. -/
def mapBlocks (state : MemoryState) (perms : VMAPermission) :
    List (MemoryRef × Nat) → Nat → VMManager → Option VMManager
  | [], _, vm => some vm
  | (memory, size) :: blocks, intervalTarget, vm => do
    match ← VMManager.mapBackingMemory intervalTarget memory size state vm with
    | (.ok vma, vm) =>
      let (_, vm) ← VMManager.reprotect vma perms vm
      mapBlocks state perms blocks (add32 intervalTarget size) vm
    | (.error _, _) => none

namespace Process

/-- `GetLinearHeapAreaAddress`. -/
def getLinearHeapAreaAddress (p : Process) : Nat :=
  if p.kernelVersion < 0x22C then linearHeapVAddr else newLinearHeapVAddr

/-- `GetLinearHeapBase`. -/
def getLinearHeapBase (ks : KernelSystem) : Nat :=
  add32 ks.process.getLinearHeapAreaAddress (ks.memoryRegions ks.process.memoryRegion).base

/-- `GetLinearHeapLimit`. -/
def getLinearHeapLimit (ks : KernelSystem) : Nat :=
  add32 (getLinearHeapBase ks) (ks.memoryRegions ks.process.memoryRegion).size

/-- `[target, target + size)` leaves the heap area. -/
def outsideHeap (target size : Nat) : Bool :=
  decide (target < heapVAddr ∨ heapVAddrEnd < add32 target size ∨ add32 target size < target)

/-- `[target, target + size)` leaves the linear heap of the process' region. -/
def outsideLinearHeap (target size : Nat) (ks : KernelSystem) : Bool :=
  decide (target < getLinearHeapBase ks ∨ getLinearHeapLimit ks < add32 target size ∨
    add32 target size < target)

/-- The area across `target` is not free, or ends before `target + size`. -/
def alreadyAllocated (target size : Nat) (vm : VMManager) : Option Bool := do
  let vma ← vm.vmaMap.get? (← VMManager.findVMA vm.vmaMap target)
  some (decide (vma.type ≠ .free ∨ add32 vma.base vma.size < add32 target size))

/-- `HeapAllocate`; the value is the address. -/
def heapAllocate (target size : Nat) (perms : VMAPermission) (memoryState : MemoryState)
    (skipRangeCheck : Bool) (ks : KernelSystem) : Option (Except Result Nat × KernelSystem) :=
  if outsideHeap target size ∧ ¬ skipRangeCheck then
    some (.error invalidAddress, ks)
  else do
  if ← alreadyAllocated target size ks.process.vmManager then
    some (.error invalidAddressState, ks)
  else
  let r := ks.process.memoryRegion
  let (allocatedFcram, region) ← (ks.memoryRegions r).heapAllocate size
  let ks := ks.setRegion r region
  if allocatedFcram.blocks.isEmpty then some (.error Result.outOfHeapMemory, ks) else
  let blocks ← ks.fcramBlocks allocatedFcram.blocks
  let vm ← mapBlocks memoryState perms blocks target ks.process.vmManager
  some (.ok target, (ks.setVMManager vm).hold allocatedFcram size)

/-- Give one block of FCRAM back to the process' region. -/
def releaseFCRAM (offset size : Nat) (ks : KernelSystem) : Option KernelSystem := do
  let r := ks.process.memoryRegion
  let region ← (ks.memoryRegions r).free offset size
  let ks := ks.setRegion r region
  some { ks with process := { ks.process with
    holdingMemory := ks.process.holdingMemory.sub ⟨offset, add32 offset size⟩ } }

/-- The loop of `HeapFree` over the blocks. -/
def releaseBlocks : List (MemoryRef × Nat) → KernelSystem → Option KernelSystem
  | [], ks => some ks
  | (backingMemory, blockSize) :: blocks, ks => do
    let backingOffset ← ks.getFCRAMOffset backingMemory.getPtr
    let ks ← releaseFCRAM backingOffset blockSize ks
    releaseBlocks blocks ks

def addMemoryUsed (size : Nat) (ks : KernelSystem) : KernelSystem :=
  { ks with process := { ks.process with memoryUsed := add32 ks.process.memoryUsed size } }

/-- The last lines of `HeapFree` and `LinearFree`. -/
def subMemoryUsed (size : Nat) (ks : KernelSystem) : KernelSystem :=
  { ks with process := { ks.process with
      memoryUsed := sub32 ks.process.memoryUsed size
      commit := ks.process.commit - size } }

/-- `HeapFree`. -/
def heapFree (target size : Nat) (ks : KernelSystem) : Option (Result × KernelSystem) :=
  if outsideHeap target size then some (invalidAddress, ks) else
  if size = 0 then some (success, ks) else do
  match ← ks.process.vmManager.getBackingBlocksForRange target size with
  | .error e => some (e, ks)
  | .ok backingBlocks =>
    let ks ← releaseBlocks backingBlocks ks
    let (result, vm) ← ks.process.vmManager.unmapRange target size
    if ¬ result.isSuccess then none else
    some (success, subMemoryUsed size (ks.setVMManager vm))

/-- The last part of `LinearAllocate`: map the block that was allocated. -/
def mapLinear (target physicalOffset size : Nat) (perms : VMAPermission) (ks : KernelSystem) :
    Option (Except Result Nat × KernelSystem) := do
  let backingMemory ← ks.getFCRAMRef physicalOffset
  let vm ← mapBlocks .continuous perms [(backingMemory, size)] target ks.process.vmManager
  let interval : Interval := ⟨physicalOffset, add32 physicalOffset size⟩
  some (.ok target, (ks.setVMManager vm).hold (IntervalSet.empty.add interval) size)

/-- `LinearAllocate`. -/
def linearAllocate (target size : Nat) (perms : VMAPermission) (ks : KernelSystem) :
    Option (Except Result Nat × KernelSystem) :=
  let r := ks.process.memoryRegion
  let area := ks.process.getLinearHeapAreaAddress
  if target = 0 then do
    match ← (ks.memoryRegions r).linearAllocate size with
    | (none, region) => some (.error Result.outOfHeapMemory, ks.setRegion r region)
    | (some offset, region) =>
      mapLinear (add32 offset area) offset size perms (ks.setRegion r region)
  else if outsideLinearHeap target size ks then some (.error invalidAddress, ks)
  else do
    let physicalOffset := sub32 target area
    let (allocated, region) ← (ks.memoryRegions r).linearAllocateAt physicalOffset size
    if ¬ allocated then some (.error invalidAddressState, ks.setRegion r region) else
    mapLinear target physicalOffset size perms (ks.setRegion r region)

/-- `LinearFree`. -/
def linearFree (target size : Nat) (ks : KernelSystem) : Option (Result × KernelSystem) :=
  if outsideLinearHeap target size ks then some (invalidAddress, ks) else
  if size = 0 then some (success, ks) else do
  let (result, vm) ← ks.process.vmManager.unmapRange target size
  let ks := ks.setVMManager vm
  if ¬ result.isSuccess then some (result, ks) else
  let ks ← releaseFCRAM (sub32 target ks.process.getLinearHeapAreaAddress) size ks
  some (success, subMemoryUsed size ks)

/-- `Process::Map`. -/
def map (target source size : Nat) (perms : VMAPermission) (privileged : Bool)
    (ks : KernelSystem) : Option (Result × KernelSystem) :=
  let vm := ks.process.vmManager
  if ¬ privileged ∧ outsideHeap source size then some (invalidAddress, ks) else
  if sub32 source target < size ∨ sub32 target source < size then
    if privileged then
      if source = target then do
        let (result, vm) ← vm.changeMemoryState source size .privateMemory
          readWrite .aliasCode perms
        some (result, ks.setVMManager vm)
      else some (invalidAddress, ks)
    else some (invalidAddressState, ks)
  else do
  if ← alreadyAllocated target size vm then some (invalidAddressState, ks) else
  let (sourceState, targetState, sourcePerm) :=
    if privileged then (MemoryState.locked, MemoryState.aliasCode, VMAPermission.none)
    else (MemoryState.aliased, MemoryState.alias, readWrite)
  let (result, vm) ← vm.changeMemoryState source size .privateMemory readWrite
    sourceState sourcePerm
  let ks := ks.setVMManager vm
  if ¬ result.isSuccess then some (result, ks) else
  match ← vm.getBackingBlocksForRange source size with
  | .error e => some (e, ks)
  | .ok backingBlocks =>
    let vm ← mapBlocks targetState perms backingBlocks target vm
    some (success, ks.setVMManager vm)

/-- `Process::Unmap`. -/
def unmap (target source size : Nat) (perms : VMAPermission) (privileged : Bool)
    (ks : KernelSystem) : Option (Result × KernelSystem) :=
  let vm := ks.process.vmManager
  if ¬ privileged ∧ outsideHeap source size then some (invalidAddress, ks) else
  if sub32 source target < size ∨ sub32 target source < size then
    if privileged then
      if source = target then do
        let (result, vm) ← vm.changeMemoryState source size .aliasCode VMAPermission.none
          .privateMemory perms
        some (result, ks.setVMManager vm)
      else some (invalidAddress, ks)
    else some (invalidAddressState, ks)
  else do
  let sourceState := if privileged then MemoryState.locked else MemoryState.aliased
  let (result, vm) ← vm.unmapRange target size
  if ¬ result.isSuccess then some (result, ks.setVMManager vm) else
  let (result, vm) ← vm.changeMemoryState source size sourceState VMAPermission.none
    .privateMemory perms
  some (result, ks.setVMManager vm)

/-- `Map` fails at once, or changes the source in place, or changes the source and maps the target
if nothing fails in between. -/
theorem map_inv {target source size : Nat} {perms : VMAPermission} {privileged : Bool}
    {ks ks' : KernelSystem} {res : Result}
    (hcall : map target source size perms privileged ks = some (res, ks')) :
    (res.isSuccess = false ∧ ks' = ks) ∨
    (privileged = true ∧ source = target ∧ ∃ vm, ks' = ks.setVMManager vm ∧
      ks.process.vmManager.changeMemoryState source size .privateMemory readWrite
        .aliasCode perms = some (res, vm)) ∨
    (privileged = false → outsideHeap source size = false) ∧
      ¬ (sub32 source target < size ∨ sub32 target source < size) ∧ ∃ r vm,
      ks.process.vmManager.changeMemoryState source size .privateMemory readWrite
        (if privileged then .locked else .aliased)
        (if privileged then VMAPermission.none else readWrite) = some (r, vm) ∧
      (r.isSuccess = false ∧ res = r ∧ ks' = ks.setVMManager vm ∨
        r.isSuccess = true ∧ ∃ out, vm.getBackingBlocksForRange source size = some out ∧
          match out with
          | .error e => res = e ∧ ks' = ks.setVMManager vm
          | .ok blocks => res = success ∧ ∃ vm', ks' = ks.setVMManager vm' ∧
            mapBlocks (if privileged then .aliasCode else .alias) perms blocks target vm =
              some vm') := by
  have hrefused : ∀ {e : Result}, e.isSuccess = false → some (e, ks) = some (res, ks') →
      res.isSuccess = false ∧ ks' = ks := by
    intro e he hret
    obtain ⟨rfl, rfl⟩ := returned hret
    exact ⟨he, rfl⟩
  unfold map at hcall
  split at hcall
  · exact Or.inl (hrefused rfl hcall)
  next hheap =>
  split at hcall
  · split at hcall
    next hpriv =>
      split at hcall
      next hsame =>
        obtain ⟨⟨r, vm⟩, hchange, hcall⟩ := Option.bind_eq_some_iff.mp hcall
        obtain ⟨rfl, rfl⟩ := returned hcall
        exact Or.inr (Or.inl ⟨hpriv, hsame, vm, rfl, hchange⟩)
      · exact Or.inl (hrefused rfl hcall)
    · exact Or.inl (hrefused rfl hcall)
  next hapart =>
  obtain ⟨allocated, -, hcall⟩ := Option.bind_eq_some_iff.mp hcall
  split at hcall
  · exact Or.inl (hrefused rfl hcall)
  obtain ⟨⟨r, vm⟩, hchange, hcall⟩ := Option.bind_eq_some_iff.mp hcall
  refine Or.inr (Or.inr ⟨by simpa using hheap, hapart, r, vm, ?_, ?_⟩)
  · cases privileged <;> exact hchange
  simp only at hcall
  split at hcall
  next hfail =>
    obtain ⟨rfl, rfl⟩ := returned hcall
    exact Or.inl ⟨by simpa using hfail, rfl, rfl⟩
  next hok =>
    obtain ⟨out, hget, hcall⟩ := Option.bind_eq_some_iff.mp hcall
    refine Or.inr ⟨by simpa using hok, out, hget, ?_⟩
    cases out with
    | error e =>
      obtain ⟨rfl, rfl⟩ := returned hcall
      exact ⟨rfl, rfl⟩
    | ok blocks =>
      obtain ⟨vm', hmap, hcall⟩ := Option.bind_eq_some_iff.mp hcall
      obtain ⟨rfl, rfl⟩ := returned hcall
      exact ⟨rfl, vm', rfl, by cases privileged <;> exact hmap⟩

end Process

namespace SharedMemory

/-- `ConvertPermissions`. -/
def convertPermissions (permission : MemoryPermission) : VMAPermission :=
  (permission &&& MemoryPermission.readWriteExecute).setWidth 8

/-- The new block at the end of the kernel's list. -/
def addTo (sm : SharedMemory) (ks : KernelSystem) : KernelSystem :=
  { ks with sharedMemories := ks.sharedMemories ++ [sm] }

/-- `CreateSharedMemory`; without an owner the address is 0, or the source follows a null
pointer. -/
def create (hasOwner : Bool) (size : Nat) (permissions otherPermissions : MemoryPermission)
    (address : Nat) (region : MemoryRegion) (ks : KernelSystem) :
    Option (Result × KernelSystem) :=
  if address = 0 then do
    match ← (ks.memoryRegions region).linearAllocate size with
    | (none, _) => none
    | (some offset, info) =>
      let ks := ks.setRegion region info
      let backing ← ks.getFCRAMRef offset
      let ks := if hasOwner then Process.addMemoryUsed size ks else ks
      some (success, SharedMemory.addTo
        { hasOwner, size, permissions, otherPermissions
          baseAddress := address
          linearHeapPhysOffset := offset
          backingBlocks := [(backing, size)]
          holdingMemory := IntervalSet.empty.add ⟨offset, add32 offset size⟩ } ks)
  else if ¬ hasOwner then none else do
    let (result, vm) ← ks.process.vmManager.changeMemoryState address size .privateMemory
      readWrite .locked (convertPermissions permissions)
    let ks := ks.setVMManager vm
    if ¬ result.isSuccess then some (result, ks) else
    match ← vm.getBackingBlocksForRange address size with
    | .error _ => none
    | .ok backingBlocks =>
      some (success, SharedMemory.addTo
        { hasOwner, size, permissions, otherPermissions
          baseAddress := address
          backingBlocks } ks)

/-- `CreateSharedMemoryForApplet`: memory of the SYSTEM region, at an address of the heap area. -/
def createForApplet (offset size : Nat) (permissions otherPermissions : MemoryPermission)
    (ks : KernelSystem) : Option KernelSystem := do
  let (holdingMemory, info) ← (ks.memoryRegions .system).heapAllocate size
  if holdingMemory.blocks.isEmpty then none else
  let backingBlocks ← ks.fcramBlocks holdingMemory.blocks
  some (SharedMemory.addTo
    { hasOwner := false, size, permissions, otherPermissions
      baseAddress := add32 heapVAddr offset
      backingBlocks, holdingMemory } (ks.setRegion .system info))

/-- The checks at the head of `SharedMemory::Map`; `none` when all pass. -/
def mapCheck (sm : SharedMemory) (address : Nat) (permissions otherPermissions : MemoryPermission) :
    Option Result :=
  let ownOtherPermissions := if sm.hasOwner then sm.permissions else sm.otherPermissions
  if sm.baseAddress = 0 ∧ otherPermissions ≠ MemoryPermission.dontCare then
    some invalidCombination
  else if permissions &&& ~~~ownOtherPermissions ≠ 0 then some invalidCombination
  else if sm.baseAddress ≠ 0 ∧ otherPermissions = MemoryPermission.dontCare then
    some invalidCombination
  else if otherPermissions ≠ MemoryPermission.dontCare ∧
      sm.permissions &&& ~~~otherPermissions ≠ 0 then
    some Result.wrongPermission
  else if address ≠ 0 ∧
      (address < heapVAddr ∨ sharedMemoryVAddrEnd ≤ add32 address sm.size) then
    some invalidAddress
  else none

/-- `SharedMemory::Map`. -/
def map (sm : SharedMemory) (address : Nat) (permissions otherPermissions : MemoryPermission)
    (ks : KernelSystem) : Option (Result × KernelSystem) :=
  match sm.mapCheck address permissions otherPermissions with
  | some error => some (error, ks)
  | none => do
    let targetAddress := if sm.baseAddress = 0 ∧ address = 0
      then add32 sm.linearHeapPhysOffset linearHeapVAddr else address
    if ← Process.alreadyAllocated targetAddress sm.size ks.process.vmManager then
      some (invalidAddressState, ks)
    else
    let vm ← mapBlocks .shared (convertPermissions permissions) sm.backingBlocks targetAddress
      ks.process.vmManager
    some (success, ks.setVMManager vm)

/-- `SharedMemory::Unmap`. -/
def unmap (sm : SharedMemory) (address : Nat) (ks : KernelSystem) :
    Option (Result × KernelSystem) := do
  let (result, vm) ← ks.process.vmManager.unmapRange address sm.size
  some (result, ks.setVMManager vm)

end SharedMemory

/-! ## `svcControlMemory` -/

def memopFree : BitVec 32 := 1
def memopCommit : BitVec 32 := 3
def memopMap : BitVec 32 := 4
def memopUnmap : BitVec 32 := 5
def memopProtect : BitVec 32 := 6
def memopOperationMask : BitVec 32 := 0xFF
def memopRegionMask : BitVec 32 := 0xF00
def memopLinear : BitVec 32 := 0x10000

/-- The code of an allocation that reports its address through an output parameter. -/
def toResult : Except Result Nat → Result
  | .ok _ => success
  | .error e => e

/-- `MEMOP_FREE` of `ControlMemory`. -/
def controlFree (addr0 size : Nat) (ks : KernelSystem) : Option (Result × KernelSystem) :=
  if heapVAddr ≤ addr0 ∧ addr0 < heapVAddrEnd then Process.heapFree addr0 size ks
  else if Process.getLinearHeapBase ks ≤ addr0 ∧ addr0 < Process.getLinearHeapLimit ks then
    Process.linearFree addr0 size ks
  else some (invalidAddress, ks)

/-- `MEMOP_COMMIT` of `ControlMemory`. -/
def controlCommit (addr0 size : Nat) (linear : Bool) (perms : VMAPermission)
    (ks : KernelSystem) : Option (Except Result Nat × KernelSystem) :=
  if linear then Process.linearAllocate addr0 size perms ks
  else Process.heapAllocate addr0 size perms .privateMemory false ks

/-- The checks at the head of `ControlMemory`; `none` when all pass. -/
def checkControlMemory (addr0 addr1 size : Nat) (permissions : BitVec 32) : Option Result :=
  if addr0 % pageSize ≠ 0 then some Result.misalignedAddress
  else if addr1 % pageSize ≠ 0 then some Result.misalignedAddress
  else if size % pageSize ≠ 0 then some Result.misalignedSize
  else if permissions &&& MemoryPermission.readWrite ≠ permissions then
    some invalidCombination
  else none

/-- The operation without the region it names, which `ControlMemory` ignores. -/
def memop (operation : BitVec 32) : BitVec 32 :=
  (operation &&& ~~~memopRegionMask) &&& memopOperationMask

/-- `ControlMemory`: the code and, where the source writes it, the output address. -/
def controlMemory (addr0 addr1 size : Nat) (operation permissions : BitVec 32)
    (ks : KernelSystem) : Option ((Result × Option Nat) × KernelSystem) :=
  match checkControlMemory addr0 addr1 size permissions with
  | some error => some ((error, none), ks)
  | none =>
    let vmaPermissions : VMAPermission := permissions.setWidth 8
    if memop operation = memopFree then do
      let (result, ks) ← controlFree addr0 size ks
      some ((result, if result.isSuccess then some addr0 else none), ks)
    else if memop operation = memopCommit then do
      let (out, ks) ←
        controlCommit addr0 size (operation &&& memopLinear ≠ 0) vmaPermissions ks
      some ((toResult out, out.toOption), ks)
    else if memop operation = memopMap then do
      let (result, ks) ← Process.map addr0 addr1 size vmaPermissions false ks
      some ((result, none), ks)
    else if memop operation = memopUnmap then do
      let (result, ks) ← Process.unmap addr0 addr1 size vmaPermissions false ks
      some ((result, none), ks)
    else if memop operation = memopProtect then do
      let (result, vm) ← ks.process.vmManager.reprotectRange addr0 size vmaPermissions
      some ((result, none), ks.setVMManager vm)
    else some ((invalidCombination, none), ks)

end GbaStation.Kernel
