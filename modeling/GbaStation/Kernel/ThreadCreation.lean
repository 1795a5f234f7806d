import GbaStation.Common.SlotPages
import GbaStation.Kernel.ProcessMemory
import GbaStation.Kernel.ResourceLimits
import GbaStation.Memory.Pointers

/-!
# Threads come and go (`core/hle/kernel/svc.cpp`, `thread.cpp`, `process.cpp`)

`SVC::CreateThread` reserves a thread, creates it and puts it into the handle table of its process.
In between the thread is entered into three containers of its `ThreadManager`, and gets a slot for
its thread local storage, in a page that is mapped if no other has a free slot.

- The state is the kernel's: the resource limits, the processes with their address spaces, handle
  tables and slots, the threads in the order of their creation (with those that are dead), the
  managers, and the `BASE` region that pages are taken from.
- Threads that wait, mutexes, and when a thread runs are not modelled; nor is what is in memory.
  `none` is a run that does not go on, as in `Threads`.
-/

namespace GbaStation.Kernel

open Function (update)

namespace ThreadCreation

open Memory (VMManager MemoryRef BackingMem)
open ResourceLimits (ResourceLimit Reference outOfThreads)
open ResourceLimits.KernelSystem (tlsAreaVAddr citraPageSize tlsEntrySize tlsAddress)

/-- The fields of `Thread`. -/
structure Thread (P : Type) where
  ownerProcess : P
  processorId : Nat
  entryPoint : Nat
  stackTop : Nat
  arg : Nat
  nominalPriority : Nat
  currentPriority : Nat
  status : ThreadStatus := .dormant
  tlsAddress : Nat := 0

/-- The fields of `Process`. -/
structure Process (P : Type) where
  resourceLimit : ResourceLimitCategory
  noThreadRestrictions : Bool
  idealProcessor : Nat
  handleTable : HandleTable (Reference P)
  vmManager : VMManager
  tlsSlots : List (BitVec 8) := []
  holdingTlsMemory : IntervalSet := IntervalSet.empty
  memoryUsed : Nat := 0

/-- `IsValidVirtualAddress`: the page has a pointer. -/
def Process.isValidVirtualAddress {P : Type} (process : Process P) (address : Nat) : Bool :=
  (process.vmManager.pointerAt address).isSome

/-- A page of FCRAM behind the slots that there are: it is held, and its first slot is used. -/
def Process.holdTlsPage {P : Type} (process : Process P) (vmManager : VMManager) (offset : Nat) :
    Process P :=
  { process with
    vmManager
    tlsSlots := process.tlsSlots ++ [1#8]
    holdingTlsMemory := process.holdingTlsMemory.add ⟨offset, add32 offset citraPageSize⟩
    memoryUsed := add32 process.memoryUsed citraPageSize }

structure KernelSystem (P : Type) where
  limits : ResourceLimitCategory → ResourceLimit
  process : P → Process P
  threads : List (Thread P) := []
  manager : ManagerFields
  numCores : Nat
  baseRegion : MemoryRegionInfo
  /-- The host address of FCRAM. -/
  fcram : Nat

/-- The arguments of `SVC::CreateThread`. -/
structure NewThread where
  entryPoint : Nat
  arg : Nat
  stackTop : Nat
  priority : Nat
  processorId : Int

namespace KernelSystem

variable {P : Type} [DecidableEq P]

def modifyProcess (k : KernelSystem P) (p : P) (f : Process P → Process P) : KernelSystem P :=
  { k with process := update k.process p (f (k.process p)) }

def modifyThread (k : KernelSystem P) (t : ThreadId) (f : Thread P → Thread P) : KernelSystem P :=
  { k with threads := k.threads.modify t f }

/-- `Reserve` and `Release` of a thread, of the resource limit of a category. -/
def reserve (k : KernelSystem P) (category : ResourceLimitCategory) : Bool × KernelSystem P :=
  let (reserved, limit) := (k.limits category).reserve .thread 1
  (reserved, { k with limits := update k.limits category limit })

def release (k : KernelSystem P) (category : ResourceLimitCategory) : KernelSystem P :=
  { k with limits := update k.limits category ((k.limits category).release .thread 1).2 }

/-! ## Thread local storage -/

def fcramMem (k : KernelSystem P) : BackingMem := ⟨k.fcram, fcramN3DSSize⟩

/-- `GetFCRAMRef`. -/
def getFCRAMRef (k : KernelSystem P) (offset : Nat) : Option MemoryRef :=
  if offset ≤ fcramN3DSSize then some ⟨some k.fcramMem, offset⟩ else none

/-- A new page, with the first slot used. Whether it could be mapped is not looked at. -/
def addTlsPage (k : KernelSystem P) (p : P) (offset : Nat) : Option (KernelSystem P) := do
  let process := k.process p
  let memory ← k.getFCRAMRef offset
  let (_, vmManager) ← process.vmManager.mapBackingMemory (tlsAddress process.tlsSlots.length 0)
    memory citraPageSize .locked
  some (k.modifyProcess p fun process => process.holdTlsPage vmManager offset)

/-- `Process::AllocateThreadLocalStorage`. -/
def allocateThreadLocalStorage (k : KernelSystem P) (p : P) :
    Option (Except Result Nat × KernelSystem P) :=
  let slots := (k.process p).tlsSlots
  match SlotPages.firstFree slots with
  | some (tlsPage, tlsSlot) =>
    some (.ok (tlsAddress tlsPage tlsSlot), k.modifyProcess p fun process =>
      { process with tlsSlots := SlotPages.use process.tlsSlots tlsPage tlsSlot })
  | none =>
    match k.baseRegion.linearAllocate citraPageSize with
    | none => none
    | some (none, region) => some (.error Result.outOfMemory, { k with baseRegion := region })
    | some (some offset, region) =>
      (({ k with baseRegion := region } : KernelSystem P).addTlsPage p offset).map fun k =>
        (.ok (tlsAddress slots.length 0), k)

/-! ## Creation -/

/-- The thread is entered into the list, the ready queue is prepared for its priority, and it gets
its entry in the table of wake-up callbacks. -/
def register (k : KernelSystem P) (thread : Thread P) : KernelSystem P :=
  let t := k.threads.length
  let core := thread.processorId
  { k with
    threads := k.threads ++ [thread]
    manager.threadList :=
      update k.manager.threadList core (k.manager.threadList core ++ [t])
    manager.readyQueue := update k.manager.readyQueue core
      ((k.manager.readyQueue core).prepare thread.currentPriority)
    manager.wakeupCallbackTable := update k.manager.wakeupCallbackTable core
      (pushAbsent t (k.manager.wakeupCallbackTable core)) }

/-- The thread has its storage; it is made ready. -/
def finishThread (k : KernelSystem P) (t : ThreadId) (thread : Thread P) (address : Nat)
    (makeReady : Bool) : KernelSystem P :=
  let k := k.modifyThread t fun thread => { thread with tlsAddress := address }
  if makeReady then
    let core := thread.processorId
    { k.modifyThread t fun thread => { thread with status := .ready } with
      manager.readyQueue := update k.manager.readyQueue core
        ((k.manager.readyQueue core).pushBack thread.currentPriority t) }
  else k

/-- A new thread of a process. -/
def newThread (p : P) (a : NewThread) : Thread P where
  ownerProcess := p
  processorId := a.processorId.toNat
  entryPoint := a.entryPoint
  stackTop := a.stackTop
  arg := a.arg
  nominalPriority := a.priority
  currentPriority := a.priority

/-- `KernelSystem::CreateThread`. -/
def createKernelThread (k : KernelSystem P) (p : P) (a : NewThread) (makeReady : Bool) :
    Option (Except Result ThreadId × KernelSystem P) :=
  if threadPrioLowest < a.priority then some (.error Result.outOfRange, k)
  else if 4 < a.processorId then some (.error Result.outOfRangeKernel, k)
  else if (k.process p).isValidVirtualAddress a.entryPoint = false then
    some (.error Result.invalidEntryPoint, k)
  -- A processor without a manager is not caught.
  else if a.processorId < 0 ∨ k.numCores ≤ a.processorId then none
  else
    let t := k.threads.length
    let thread := newThread p a
    match (k.register thread).allocateThreadLocalStorage p with
    | none => none
    | some (.error result, k) => some (.error result, k)
    | some (.ok address, k) => some (.ok t, k.finishThread t thread address makeReady)

/-- The processor of a new thread: the one of the process, or the one that is asked for. -/
def targetProcessor (k : KernelSystem P) (p : P) (processorId : Int) : Except Result Int :=
  let processorId := if processorId = -2 then ((k.process p).idealProcessor : Int) else processorId
  if 0 ≤ processorId ∧ processorId ≤ 3 then .ok processorId
  else if processorId = -1 then .ok 0
  else .error Result.outOfRange

/-- `resource_limit->GetLimitValue(ResourceLimitType::Priority)`, as a `u32`. -/
def maxPriority (k : KernelSystem P) (p : P) : Nat :=
  ((k.limits (k.process p).resourceLimit).getLimitValue .priority % 2 ^ 32).toNat

/-- `Create` of a handle to the thread. -/
def createHandle (k : KernelSystem P) (p : P) (t : ThreadId) :
    Except Result Handle × KernelSystem P :=
  let (result, table) := (k.process p).handleTable.create (.thread t)
  (result, k.modifyProcess p fun process => { process with handleTable := table })

/-- `SVC::CreateThread`. -/
def createThread (k : KernelSystem P) (p : P) (a : NewThread) :
    Option (Except Result Handle × KernelSystem P) :=
  if threadPrioLowest < a.priority then some (.error Result.outOfRange, k)
  else if a.priority < k.maxPriority p ∧ (k.process p).noThreadRestrictions = false then
    some (.error Result.notAuthorized, k)
  else
    match k.targetProcessor p a.processorId with
    | .error result => some (.error result, k)
    | .ok processorId =>
      let (reserved, k) := k.reserve (k.process p).resourceLimit
      if reserved = false then some (.error outOfThreads, k)
      else
        match k.createKernelThread p { a with processorId } true with
        | none => none
        | some (.error result, k) => some (.error result, k)
        | some (.ok t, k) => some (k.createHandle p t)

/-- The end of `Process::Run`: the reservation and the main thread. With the delay of the main
thread it is not made ready, and sleeps. -/
def run (k : KernelSystem P) (p : P) (entryPoint priority : Nat) (delayed : Bool) :
    Option (KernelSystem P) :=
  let (reserved, k) := k.reserve (k.process p).resourceLimit
  if reserved = false then some k
  else
    let a : NewThread :=
      { entryPoint, arg := 0, stackTop := heapVAddrEnd, priority
        processorId := (k.process p).idealProcessor }
    match k.createKernelThread p a (!delayed) with
    | none => none
    -- `Unwrap` of a result that is not a thread.
    | some (.error _, _) => none
    | some (.ok t, k) =>
      some (if delayed then k.modifyThread t fun thread => { thread with status := .waitSleep }
        else k)

/-! ## Exit -/

/-- `Thread::Stop`. The slot is computed from the address. -/
def stop (k : KernelSystem P) (t : ThreadId) : Option (KernelSystem P) :=
  match k.threads[t]? with
  | none => none
  | some thread =>
    let p := thread.ownerProcess
    let core := thread.processorId
    let offset := sub32 thread.tlsAddress tlsAreaVAddr
    let tlsPage := offset / citraPageSize
    let tlsSlot := offset % citraPageSize / tlsEntrySize
    let manager :=
      { k.manager with
        wakeupCallbackTable := update k.manager.wakeupCallbackTable core
          ((k.manager.wakeupCallbackTable core).erase t)
        readyQueue := update k.manager.readyQueue core
          (if thread.status = .ready then
            (k.manager.readyQueue core).remove thread.currentPriority t
          else k.manager.readyQueue core) }
    -- `tls_slots[tls_page]` of a page that there is not
    if tlsPage < (k.process p).tlsSlots.length then
      let k := ({ k with manager } : KernelSystem P).modifyThread t fun thread =>
        { thread with status := .dead }
      let k := k.modifyProcess p fun process =>
        { process with tlsSlots := SlotPages.free process.tlsSlots tlsPage tlsSlot }
      some (k.release (k.process p).resourceLimit)
    else none

/-- `ExitCurrentThread`, or a thread in `TerminateProcessThreads`: it is stopped and leaves the list
of its manager. -/
def exitThread (k : KernelSystem P) (t : ThreadId) : Option (KernelSystem P) :=
  match k.threads[t]? with
  | none => none
  | some thread =>
    let core := thread.processorId
    if thread.status = .dead then none
    else (k.stop t).map fun k =>
      { k with
        manager.threadList :=
          update k.manager.threadList core ((k.manager.threadList core).erase t) }

/-- A process is run, creates a thread, or a thread exits. -/
inductive Event (P : Type)
  | run (p : P) (entryPoint priority : Nat) (delayed : Bool)
  | createThread (p : P) (a : NewThread)
  | exitThread (t : ThreadId)

def step (k : KernelSystem P) : Event P → Option (KernelSystem P)
  | .run p entryPoint priority delayed => k.run p entryPoint priority delayed
  | .createThread p a => (k.createThread p a).map Prod.snd
  | .exitThread t => k.exitThread t

end KernelSystem

end ThreadCreation

end GbaStation.Kernel
