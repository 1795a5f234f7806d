import GbaStation.Common.OrdMap
import GbaStation.Common.Word
import GbaStation.Kernel.Result

/-!
# The address-space manager (`core/hle/kernel/vm_manager.cpp`)

A process' address space is a `std::map` of virtual memory areas (`vma_map`), keyed by the
base of each. The functions below follow the source one by one.

- A failed `ASSERT` ends the emulator: the functions return `none` then, and for the
  dereference of `end()`. Otherwise they return the code or value the source returns and
  the map it leaves behind, on error paths too.
- Addresses and sizes are `u32`, kept as natural numbers below `2 ^ 32` (`add32`, `sub32`).
- The page table and the plugin loader's callback, which `UpdatePageTableForVMA` feeds and
  nothing here reads back, are left out.
-/

namespace GbaStation.Memory

open Kernel (Result)

/-- A host allocation: its address and its size. -/
structure BackingMem where
  ptr : Nat
  size : Nat
deriving DecidableEq, Repr

/-- A reference to host memory (`common/memory_ref.h`). -/
structure MemoryRef where
  backingMem : Option BackingMem := none
  offset : Nat := 0
deriving DecidableEq, Repr

namespace MemoryRef

/-- `GetPtr`; 0 is `nullptr`. -/
def getPtr (r : MemoryRef) : Nat :=
  match r.backingMem with
  | some m => m.ptr + r.offset
  | none => 0

/-- `GetSize`: the bytes of the allocation from the offset on. -/
def getSize (r : MemoryRef) : Nat :=
  match r.backingMem with
  | some m => m.size - r.offset
  | none => 0

/-- `operator+=` and `operator+`, which assert that the new offset is inside. -/
def advance (r : MemoryRef) (offsetBy : Nat) : Option MemoryRef :=
  if offsetBy < r.getSize then some { r with offset := r.offset + offsetBy } else none

theorem getPtr_advance {r r' : MemoryRef} {n : Nat} (h : r.advance n = some r') :
    r'.getPtr = r.getPtr + n := by
  unfold advance at h
  split at h
  · next hlt =>
    obtain rfl := Option.some.inj h
    cases hm : r.backingMem with
    | none => simp [getSize, hm] at hlt
    | some m => simp [getPtr, hm, Nat.add_assoc]
  · cases h

end MemoryRef

inductive VMAType
  | free
  | backingMemory
deriving DecidableEq, Repr

/-- Permission bits: 1 read, 2 write, 4 execute. -/
abbrev VMAPermission := BitVec 8

namespace VMAPermission

def none : VMAPermission := 0
def read : VMAPermission := 1
def write : VMAPermission := 2
def readWrite : VMAPermission := 3

end VMAPermission

inductive MemoryState
  | free
  | reserved
  | io
  | static
  | code
  | privateMemory
  | shared
  | continuous
  | aliased
  | alias
  | aliasCode
  | locked
deriving DecidableEq, Repr

structure VirtualMemoryArea where
  base : Nat := 0
  size : Nat := 0
  type : VMAType := .free
  permissions : VMAPermission := VMAPermission.none
  meminfoState : MemoryState := .free
  backingMemory : MemoryRef := {}
deriving DecidableEq, Repr

/-- The test of `CanBeMergedWith`, which asserts first that `next` starts where `v` ends. -/
def VirtualMemoryArea.Mergeable (v next : VirtualMemoryArea) : Prop :=
  v.permissions = next.permissions ∧ v.meminfoState = next.meminfoState ∧
    v.type = next.type ∧ (v.type = .backingMemory →
      v.backingMemory.getPtr + v.size = next.backingMemory.getPtr)

instance (v next : VirtualMemoryArea) : Decidable (v.Mergeable next) :=
  inferInstanceAs (Decidable (_ ∧ _ ∧ _ ∧ (_ → _)))

def VirtualMemoryArea.canBeMergedWith (v next : VirtualMemoryArea) : Option Bool :=
  if add32 v.base v.size = next.base then some (decide (v.Mergeable next)) else none

/-- The `switch` of `SplitVMA`: the backing memory of the part from an offset on. -/
def VirtualMemoryArea.backingAt (v : VirtualMemoryArea) (offsetInVMA : Nat) :
    Option MemoryRef :=
  match v.type with
  | .free => some v.backingMemory
  | .backingMemory => v.backingMemory.advance offsetInVMA

abbrev VMAMap := OrdMap VirtualMemoryArea

/-- Addresses from here on are never used. -/
def maxAddress : Nat := 0x40000000

def pageSize : Nat := 0x1000

structure VMManager where
  vmaMap : VMAMap
  isLocked : Bool := false
deriving DecidableEq, Repr

namespace VMManager

/-- The map after `Reset`: one free area over the whole managed space. -/
def initialMap : VMAMap := [(0, { size := maxAddress })]

/-- `Reset`. -/
def reset (s : VMManager) : Option VMManager :=
  if s.isLocked then none else some { s with vmaMap := initialMap }

/-- `FindVMA`: the area that includes `target`. -/
def findVMA (m : VMAMap) (target : Nat) : OrdMap.Iter :=
  if maxAddress ≤ target then none else m.prev (m.upperBound target)

/-- `SplitVMA`: cut the area at key `k` and return the right part. -/
def splitVMA (k offsetInVMA : Nat) (m : VMAMap) : Option (Nat × VMAMap) := do
  let oldVMA ← m.get? k
  if oldVMA.size ≤ offsetInVMA ∨ offsetInVMA = 0 then none
  let left := { oldVMA with size := offsetInVMA }
  let backing ← oldVMA.backingAt offsetInVMA
  let right := { oldVMA with
    base := add32 oldVMA.base offsetInVMA
    size := sub32 oldVMA.size offsetInVMA
    backingMemory := backing }
  if (← left.canBeMergedWith right) then
    some (right.base, (m.set k left).emplace right.base right)
  else none

/-- The first half of `MergeAdjacent`: absorb the right neighbour of the area at key `k`. -/
def mergeNext (k : Nat) (m : VMAMap) : Option VMAMap := do
  let vma ← m.get? k
  match m.next k with
  | none => some m
  | some kn =>
    let nextVMA ← m.get? kn
    if (← vma.canBeMergedWith nextVMA) then
      some ((m.set k { vma with size := add32 vma.size nextVMA.size }).erase kn)
    else some m

/-- The second half of `MergeAdjacent`: be absorbed by the left neighbour. -/
def mergePrev (k : Nat) (m : VMAMap) : Option (Nat × VMAMap) := do
  let vma ← m.get? k
  match m.prev (some k) with
  | none => some (k, m)
  | some kp =>
    let prevVMA ← m.get? kp
    if (← prevVMA.canBeMergedWith vma) then
      some (kp, (m.set kp { prevVMA with size := add32 prevVMA.size vma.size }).erase k)
    else some (k, m)

/-- `MergeAdjacent`; the result points to the merged area. -/
def mergeAdjacent (k : Nat) (m : VMAMap) : Option (Nat × VMAMap) := do
  let m ← mergeNext k m
  mergePrev k m

/-- `CarveVMA`: split the area at the end of the allocated region. -/
def splitEnd (k endInVMA vmaSize : Nat) (m : VMAMap) : Option VMAMap :=
  if endInVMA ≠ vmaSize then (splitVMA k endInVMA m).map Prod.snd else some m

/-- `CarveVMA`: split the area at the start of the allocated region. -/
def splitStart (k startInVMA : Nat) (m : VMAMap) : Option (Nat × VMAMap) :=
  if startInVMA ≠ 0 then splitVMA k startInVMA m else some (k, m)

/-- `CarveVMA`: cut a free area of the given size out of the one around `base`. -/
def carveVMA (base size : Nat) (m : VMAMap) : Option (Except Result Nat × VMAMap) :=
  if size % pageSize ≠ 0 ∨ base % pageSize ≠ 0 then none else
  match findVMA m base with
  | none => some (.error Result.invalidAddress, m)
  | some k => do
    let vma ← m.get? k
    if vma.type ≠ .free then some (.error Result.invalidAddressState, m) else
    let startInVMA := sub32 base vma.base
    let endInVMA := add32 startInVMA size
    if vma.size < endInVMA then some (.error Result.invalidAddressState, m) else
    let m ← splitEnd k endInVMA vma.size m
    let (k', m) ← splitStart k startInVMA m
    some (.ok k', m)

/-- Split the area at key `k` at `target` unless it starts there: the two `if`s of
`CarveVMARange`. The result is the key of the area from `target` on. -/
def splitBefore (k target : Nat) (m : VMAMap) : Option (Nat × VMAMap) := do
  let vma ← m.get? k
  if target ≠ vma.base then splitVMA k (sub32 target vma.base) m else some (k, m)

/-- Split the area across the end of a range. -/
def splitAtEnd (targetEnd : Nat) (m : VMAMap) : Option VMAMap :=
  match findVMA m targetEnd with
  | none => some m
  | some endVMA => (splitBefore endVMA targetEnd m).map Prod.snd

/-- `CarveVMARange`: cut the areas at both ends of a range without free areas. -/
def carveVMARange (target size : Nat) (m : VMAMap) : Option (Except Result Nat × VMAMap) :=
  let targetEnd := add32 target size
  if size % pageSize ≠ 0 ∨ target % pageSize ≠ 0 then none else
  if targetEnd < target ∨ maxAddress < targetEnd ∨ size = 0 then none else do
  let beginVMA ← findVMA m target
  let areas ← m.range beginVMA (m.lowerBound targetEnd)
  if areas.any fun e => decide (e.2.type = .free) then
    some (.error Result.invalidAddressState, m)
  else
  let (beginVMA, m) ← splitBefore beginVMA target m
  let m ← splitAtEnd targetEnd m
  some (.ok beginVMA, m)

/-- Rewrite the area at key `k` and merge it with its neighbours. -/
def updateVMA (upd : VirtualMemoryArea → VirtualMemoryArea) (k : Nat) (m : VMAMap) :
    Option (Nat × VMAMap) := do
  let vma ← m.get? k
  mergeAdjacent k (m.set k (upd vma))

/-- The loop `while (vma != end && vma->second.base < target_end)` of the three functions
that rewrite a range. Every turn moves the iterator on, so the number of areas bounds the
number of turns. -/
def updateLoop (upd : VirtualMemoryArea → VirtualMemoryArea) (targetEnd : Nat) :
    Nat → OrdMap.Iter → VMAMap → Option VMAMap
  | _, none, m => some m
  | 0, some _, _ => none
  | fuel + 1, some k, m => do
    let vma ← m.get? k
    if vma.base < targetEnd then
      let (k', m) ← updateVMA upd k m
      updateLoop upd targetEnd fuel (m.next k') m
    else some m

/-- `Unmap`: what it makes of an area. -/
def unmapped (v : VirtualMemoryArea) : VirtualMemoryArea :=
  { v with type := .free, permissions := VMAPermission.none, meminfoState := .free,
           backingMemory := {} }

/-- `Reprotect`: what it makes of an area. -/
def reprotected (newPerms : VMAPermission) (v : VirtualMemoryArea) : VirtualMemoryArea :=
  { v with permissions := newPerms }

/-- What `ChangeMemoryState` makes of an area. -/
def stateChanged (newState : MemoryState) (newPerms : VMAPermission) (v : VirtualMemoryArea) :
    VirtualMemoryArea :=
  { v with permissions := newPerms, meminfoState := newState }

/-- `Unmap`. -/
def unmap (k : Nat) (m : VMAMap) : Option (Nat × VMAMap) := updateVMA unmapped k m

/-- `MapBackingMemory`: what it makes of the area it carved out. -/
def backed (memory : MemoryRef) (state : MemoryState) (v : VirtualMemoryArea) :
    VirtualMemoryArea :=
  { v with type := .backingMemory, permissions := VMAPermission.readWrite,
           meminfoState := state, backingMemory := memory }

/-- `MapBackingMemory`; the value is the iterator to the new area. -/
def mapBackingMemory (target : Nat) (memory : MemoryRef) (size : Nat) (state : MemoryState)
    (s : VMManager) : Option (Except Result Nat × VMManager) :=
  if s.isLocked then none else
  if memory.getPtr = 0 then none else do
  match ← carveVMA target size s.vmaMap with
  | (.error e, m) => some (.error e, { s with vmaMap := m })
  | (.ok k, m) =>
    let finalVMA ← m.get? k
    if finalVMA.size ≠ size then none else
    let (k', m) ← mergeAdjacent k (m.set k (backed memory state finalVMA))
    some (.ok k', { s with vmaMap := m })

/-- The test of the `find_if` of `MapBackingMemoryToBase`. -/
def endsBehind (base size : Nat) (vma : VirtualMemoryArea) : Bool :=
  if vma.type ≠ .free then false else
  let vmaEnd := add32 vma.base vma.size
  decide (base < vmaEnd) && decide (add32 base size ≤ vmaEnd)

/-- `MapBackingMemoryToBase`; the value is the address. The source reads the area that was found
before it looks whether there is one. -/
def mapBackingMemoryToBase (base regionSize : Nat) (memory : MemoryRef) (size : Nat)
    (state : MemoryState) (s : VMManager) : Option (Except Result Nat × VMManager) :=
  if s.isLocked then none else
  match s.vmaMap.find? fun vma => endsBehind base size vma.2 with
  | none => none
  | some (_, vma) =>
    let target := max base vma.base
    if add32 base regionSize < add32 target size then some (.error Result.outOfMemory, s) else do
    match ← mapBackingMemory target memory size state s with
    | (.error e, s) => some (.error e, s)
    | (.ok _, s) => some (.ok target, s)

/-- `ChangeMemoryState`. -/
def changeMemoryState (target size : Nat) (expectedState : MemoryState)
    (expectedPerms : VMAPermission) (newState : MemoryState) (newPerms : VMAPermission)
    (s : VMManager) : Option (Result × VMManager) :=
  if s.isLocked then some (Result.success, s) else
  let targetEnd := add32 target size
  match findVMA s.vmaMap target with
  | none => some (Result.invalidAddress, s)
  | some beginVMA => do
    let areas ← s.vmaMap.range beginVMA (s.vmaMap.lowerBound targetEnd)
    if areas.any fun e => decide (e.2.meminfoState ≠ expectedState ∨
        e.2.permissions &&& expectedPerms ≠ expectedPerms) then
      some (Result.invalidAddressState, s)
    else
    match ← carveVMARange target size s.vmaMap with
    | (.error e, m) => some (e, { s with vmaMap := m })
    | (.ok k, m) =>
      let m ← updateLoop (stateChanged newState newPerms) targetEnd (m.length + 1) (some k) m
      some (Result.success, { s with vmaMap := m })

/-- `UnmapRange`. -/
def unmapRange (target size : Nat) (s : VMManager) : Option (Result × VMManager) :=
  if s.isLocked then none else do
  match ← carveVMARange target size s.vmaMap with
  | (.error e, m) => some (e, { s with vmaMap := m })
  | (.ok k, m) =>
    let targetEnd := add32 target size
    let m ← updateLoop unmapped targetEnd (m.length + 1) (some k) m
    let vma ← m.get? (← findVMA m target)
    if vma.size < size then none else
    some (Result.success, { s with vmaMap := m })

/-- `Reprotect`, at the area with key `k`. -/
def reprotect (k : Nat) (newPerms : VMAPermission) (s : VMManager) : Option (Nat × VMManager) :=
  if s.isLocked then none else do
  let (k', m) ← updateVMA (reprotected newPerms) k s.vmaMap
  some (k', { s with vmaMap := m })

/-- `ReprotectRange`. -/
def reprotectRange (target size : Nat) (newPerms : VMAPermission) (s : VMManager) :
    Option (Result × VMManager) :=
  if s.isLocked then none else do
  match ← carveVMARange target size s.vmaMap with
  | (.error e, m) => some (e, { s with vmaMap := m })
  | (.ok k, m) =>
    let targetEnd := add32 target size
    let m ← updateLoop (reprotected newPerms) targetEnd (m.length + 1) (some k) m
    some (Result.success, { s with vmaMap := m })

/-- The loop of `GetBackingBlocksForRange`. Every turn moves on by a byte at least, so the
number of bytes bounds the number of turns. -/
def backingBlocksLoop (m : VMAMap) (rangeEnd : Nat) :
    Nat → Nat → List (MemoryRef × Nat) → Option (Except Result (List (MemoryRef × Nat)))
  | 0, _, _ => none
  | fuel + 1, intervalTarget, backingBlocks =>
    if intervalTarget = rangeEnd then some (.ok backingBlocks) else do
    let vma ← m.get? (← findVMA m intervalTarget)
    if vma.type ≠ .backingMemory then some (.error Result.invalidAddressState) else
    let intervalEnd := min rangeEnd (add32 vma.base vma.size)
    let intervalSize := sub32 intervalEnd intervalTarget
    let backingMemory ← vma.backingMemory.advance (sub32 intervalTarget vma.base)
    backingBlocksLoop m rangeEnd fuel (add32 intervalTarget intervalSize)
      (backingBlocks ++ [(backingMemory, intervalSize)])

/-- `GetBackingBlocksForRange`. -/
def getBackingBlocksForRange (address size : Nat) (s : VMManager) :
    Option (Except Result (List (MemoryRef × Nat))) :=
  backingBlocksLoop s.vmaMap (add32 address size) (size + 1) address []

end VMManager

end GbaStation.Memory
