import GbaStation.Common.ThreadQueueList
import GbaStation.Kernel.Result
import Mathlib.Data.List.Sort

/-!
# Threads and the objects they wait for

The part of `KernelSystem` that threads are scheduled and synchronised with: the fields of `Thread`
and `ThreadManager` (`thread.cpp`), of `WaitObject` and of the classes derived from it (`event.cpp`,
`timer.cpp`, `semaphore.cpp`, `mutex.cpp`, `server_session.cpp`), and their member functions.

- `none` is a run that does not go on: a failed `ASSERT`, a null pointer that is followed, an
  exception, a signed overflow. `DEBUG_ASSERT` is not compiled in.
- Not modelled: memory contents and the CPU context beside registers 0 and 1, resource limits,
  names, the timing queue (a timeout may come at any time) and HLE handlers.
-/

namespace GbaStation.Kernel

open GbaStation.Common
open Function (update)

abbrev ThreadId := Nat
abbrev EventId := Nat
abbrev TimerId := Nat
abbrev SemaphoreId := Nat
abbrev MutexId := Nat
abbrev SessionId := Nat
abbrev ProcessId := Nat
abbrev CoreId := Nat

/-- A pointer to a `WaitObject`. -/
inductive ObjRef
  | event (e : EventId)
  | timer (i : TimerId)
  | semaphore (s : SemaphoreId)
  | mutex (m : MutexId)
  | serverSession (s : SessionId)
  | thread (t : ThreadId)
deriving DecidableEq, Repr

inductive ThreadStatus
  | running
  | ready
  | waitArb
  | waitSleep
  | waitIPC
  | waitSynchAny
  | waitSynchAll
  | waitHleEvent
  | dormant
  | dead
deriving DecidableEq, Repr

inductive ThreadWakeupReason
  | signal
  | timeout
deriving DecidableEq, Repr

/-- The wake-up callbacks of the service calls: `SVC_SyncCallback` and `SVC_IPCCallback`. -/
inductive WakeupCallback
  | sync (doOutput : Bool)
  | ipc
deriving DecidableEq, Repr

inductive ResetType
  | oneShot
  | sticky
  | pulse
deriving DecidableEq, Repr

inductive ResourceLimitCategory
  | application
  | sysApplet
  | libApplet
  | other
deriving DecidableEq, Repr

inductive ProcessStatus
  | created
  | running
  | exited
deriving DecidableEq, Repr

inductive SchedState
  | app
  | sys
deriving DecidableEq, Repr

/-- `ThreadPrioLowest`, numerically the greatest priority. -/
def threadPrioLowest : Nat := 63

/-- The ready queue of a core. -/
abbrev ReadyQueue := ThreadQueueList ThreadId (threadPrioLowest + 1)

/-- The fields of `Thread`. -/
structure ThreadFields where
  status : ThreadId → ThreadStatus
  nominalPriority : ThreadId → Nat
  currentPriority : ThreadId → Nat
  coreId : ThreadId → CoreId
  ownerProcess : ThreadId → ProcessId
  resourceLimitCategory : ThreadId → ResourceLimitCategory
  heldMutexes : ThreadId → List MutexId
  pendingMutexes : ThreadId → List MutexId
  waitObjects : ThreadId → List ObjRef
  wakeupCallback : ThreadId → Option WakeupCallback
  unscheduleMode : ThreadId → Nat
  cpuRegister0 : ThreadId → Result
  cpuRegister1 : ThreadId → Int

/-- The fields of `Event`, and those of `Timer` beside its delays. -/
structure SignalFields where
  resetType : Nat → ResetType
  signaled : Nat → Bool

/-- The fields of `Semaphore`, both `s32`. -/
structure SemaphoreFields where
  maxCount : SemaphoreId → Int
  availableCount : SemaphoreId → Int

/-- The fields of `Mutex`; `lock_count` is an `int`. -/
structure MutexFields where
  lockCount : MutexId → Int
  priority : MutexId → Nat
  holdingThread : MutexId → Option ThreadId

/-- The fields of `ServerSession`, and whether `parent->client` is still set. -/
structure SessionFields where
  clientOpen : SessionId → Bool
  pendingRequestingThreads : SessionId → List ThreadId
  currentlyHandling : SessionId → Option ThreadId

/-- The fields of `ThreadManager`, one instance for each core. -/
structure ManagerFields where
  currentThread : CoreId → Option ThreadId
  readyQueue : CoreId → ReadyQueue
  wakeupCallbackTable : CoreId → List ThreadId
  threadList : CoreId → List ThreadId

/-- The fields of the `CpuLimiterMulti` of core 1 that decide about a thread. -/
structure LimiterFields where
  ready : Bool
  active : Bool
  currState : SchedState
  sleepingThreadIds : List ThreadId

structure ThreadSystem where
  thread : ThreadFields
  waitingThreads : ObjRef → List ThreadId
  event : SignalFields
  timer : SignalFields
  semaphore : SemaphoreFields
  mutex : MutexFields
  session : SessionFields
  manager : ManagerFields
  limiter : LimiterFields
  processStatus : ProcessId → ProcessStatus
  nextThreadId : ThreadId
  numCores : Nat
  /-- The categories whose `CpuTime` limit is `PREEMPTION_EXCEMPTED`. -/
  preemptionExcempted : ResourceLimitCategory → Bool

/-- `flat_set::insert`: the set is ordered by address. -/
def flatInsert (m : MutexId) (l : List MutexId) : List MutexId :=
  if m ∈ l then l else l.orderedInsert (· ≤ ·) m

/-- `push_back` of a thread that is not in the list yet. -/
def pushAbsent (t : ThreadId) (l : List ThreadId) : List ThreadId :=
  if t ∈ l then l else l ++ [t]

/-- The signed 32-bit integer with the same low bits. -/
def wrap32 (i : Int) : Int := Int.bmod i (2 ^ 32)

namespace ThreadSystem

/-! ## Priorities -/

/-- Takes the smaller priority, as the loops of `UpdatePriority` do. -/
def bestPriority (start : Nat) (priorities : List Nat) : Nat :=
  priorities.foldl (fun best p => if p < best then p else best) start

/-- `Thread::BoostPriority`. -/
def boostPriority (k : ThreadSystem) (t : ThreadId) (priority : Nat) : ThreadSystem :=
  let queue := k.manager.readyQueue (k.thread.coreId t)
  { k with
    manager.readyQueue := update k.manager.readyQueue (k.thread.coreId t)
      (if k.thread.status t = .ready then queue.move t (k.thread.currentPriority t) priority
        else queue.prepare priority)
    thread.currentPriority := update k.thread.currentPriority t priority }

/-- `Thread::SetPriority`. -/
def setPriority (k : ThreadSystem) (t : ThreadId) (priority : Nat) : Option ThreadSystem :=
  if priority ≤ threadPrioLowest then
    let k := k.boostPriority t priority
    some { k with
      thread.nominalPriority := update k.thread.nominalPriority t priority }
  else none

/-- `Thread::UpdatePriority`. -/
def updatePriority (k : ThreadSystem) (t : ThreadId) : ThreadSystem :=
  k.boostPriority t
    (bestPriority (k.thread.nominalPriority t) ((k.thread.heldMutexes t).map k.mutex.priority))

/-- The best priority among the threads that wait for a mutex. -/
def bestWaiter (k : ThreadSystem) (m : MutexId) : Nat :=
  bestPriority threadPrioLowest ((k.waitingThreads (.mutex m)).map k.thread.currentPriority)

/-- `Mutex::UpdatePriority`. -/
def updateMutexPriority (k : ThreadSystem) (m : MutexId) : ThreadSystem :=
  match k.mutex.holdingThread m with
  | none => k
  | some holder =>
    if k.bestWaiter m ≠ k.mutex.priority m then
      updatePriority
        { k with mutex.priority := update k.mutex.priority m (k.bestWaiter m) } holder
    else k

/-! ## Wait lists -/

/-- `WaitObject::AddWaitingThread`. -/
def pushWaitingThread (k : ThreadSystem) (o : ObjRef) (t : ThreadId) : ThreadSystem :=
  { k with
    waitingThreads := update k.waitingThreads o (pushAbsent t (k.waitingThreads o)) }

/-- `WaitObject::RemoveWaitingThread`. -/
def eraseWaitingThread (k : ThreadSystem) (o : ObjRef) (t : ThreadId) : ThreadSystem :=
  { k with waitingThreads := update k.waitingThreads o ((k.waitingThreads o).erase t) }

/-- `AddWaitingThread`, with the override of `Mutex`. -/
def addWaitingThread (k : ThreadSystem) (o : ObjRef) (t : ThreadId) : ThreadSystem :=
  let k := k.pushWaitingThread o t
  match o with
  | .mutex m =>
    updateMutexPriority
      { k with
        thread.pendingMutexes :=
          update k.thread.pendingMutexes t (flatInsert m (k.thread.pendingMutexes t)) } m
  | _ => k

/-- `RemoveWaitingThread`, with the override of `Mutex`. -/
def removeWaitingThread (k : ThreadSystem) (o : ObjRef) (t : ThreadId) : ThreadSystem :=
  let k := k.eraseWaitingThread o t
  match o with
  | .mutex m =>
    updateMutexPriority
      { k with
        thread.pendingMutexes :=
          update k.thread.pendingMutexes t ((k.thread.pendingMutexes t).erase m) } m
  | _ => k

/-- The loop that takes a thread off the lists of its `wait_objects`, and `wait_objects.clear()`. -/
def leaveWaitObjects (k : ThreadSystem) (t : ThreadId) : ThreadSystem :=
  let k := (k.thread.waitObjects t).foldl (fun k o => k.removeWaitingThread o t) k
  { k with thread.waitObjects := update k.thread.waitObjects t [] }

/-! ## Availability -/

/-- `Event::ShouldWait`. -/
def eventShouldWait (k : ThreadSystem) (e : EventId) : Bool := !k.event.signaled e

/-- `Timer::ShouldWait`. -/
def timerShouldWait (k : ThreadSystem) (i : TimerId) : Bool := !k.timer.signaled i

/-- `Semaphore::ShouldWait`. -/
def semaphoreShouldWait (k : ThreadSystem) (s : SemaphoreId) : Bool :=
  decide (k.semaphore.availableCount s ≤ 0)

/-- `Mutex::ShouldWait`. -/
def mutexShouldWait (k : ThreadSystem) (m : MutexId) (t : ThreadId) : Bool :=
  decide (k.mutex.lockCount m > 0) && decide (some t ≠ k.mutex.holdingThread m)

/-- `ServerSession::ShouldWait`. -/
def sessionShouldWait (k : ThreadSystem) (s : SessionId) : Bool :=
  if !k.session.clientOpen s then false
  else (k.session.pendingRequestingThreads s).isEmpty || (k.session.currentlyHandling s).isSome

/-- `Thread::ShouldWait`. -/
def threadShouldWait (k : ThreadSystem) (t : ThreadId) : Bool :=
  decide (k.thread.status t ≠ .dead)

/-- `WaitObject::ShouldWait`. -/
def shouldWait (k : ThreadSystem) (o : ObjRef) (t : ThreadId) : Bool :=
  match o with
  | .event e => k.eventShouldWait e
  | .timer i => k.timerShouldWait i
  | .semaphore s => k.semaphoreShouldWait s
  | .mutex m => k.mutexShouldWait m t
  | .serverSession s => k.sessionShouldWait s
  | .thread u => k.threadShouldWait u

/-- `Event::Acquire`, behind its assertion. -/
def eventAcquire (k : ThreadSystem) (e : EventId) : ThreadSystem :=
  if k.event.resetType e = .oneShot then
    { k with event.signaled := update k.event.signaled e false }
  else k

/-- `Timer::Acquire`, behind its assertion. -/
def timerAcquire (k : ThreadSystem) (i : TimerId) : ThreadSystem :=
  if k.timer.resetType i = .oneShot then
    { k with timer.signaled := update k.timer.signaled i false }
  else k

/-- `Semaphore::Acquire`. -/
def semaphoreAcquire (k : ThreadSystem) (s : SemaphoreId) : ThreadSystem :=
  if k.semaphore.availableCount s ≤ 0 then k
  else { k with
    semaphore.availableCount :=
      update k.semaphore.availableCount s (k.semaphore.availableCount s - 1) }

/-- The first acquisition of a mutex, which makes `t` its holder. -/
def takeMutex (k : ThreadSystem) (m : MutexId) (t : ThreadId) : ThreadSystem :=
  updatePriority
    { k with
      mutex.priority := update k.mutex.priority m (k.thread.currentPriority t)
      thread.heldMutexes :=
        update k.thread.heldMutexes t (flatInsert m (k.thread.heldMutexes t))
      mutex.holdingThread := update k.mutex.holdingThread m (some t) } t

/-- `Mutex::Acquire`, behind its assertion. `lock_count++` must not overflow. -/
def mutexAcquire (k : ThreadSystem) (m : MutexId) (t : ThreadId) : Option ThreadSystem :=
  let k := if k.mutex.lockCount m = 0 then k.takeMutex m t else k
  if k.mutex.lockCount m = 2 ^ 31 - 1 then none
  else some { k with
    mutex.lockCount := update k.mutex.lockCount m (k.mutex.lockCount m + 1) }

/-- `ServerSession::Acquire`, behind its assertion: the last pending request is taken. -/
def sessionAcquire (k : ThreadSystem) (s : SessionId) : Option ThreadSystem :=
  if !k.session.clientOpen s then some k
  else match (k.session.pendingRequestingThreads s).getLast? with
    | none => none
    | some requester => some { k with
        session.currentlyHandling :=
          update k.session.currentlyHandling s (some requester)
        session.pendingRequestingThreads :=
          update k.session.pendingRequestingThreads s
            (k.session.pendingRequestingThreads s).dropLast }

/-- `WaitObject::Acquire`. All classes but `Semaphore` assert that the object is available. -/
def acquire (k : ThreadSystem) (o : ObjRef) (t : ThreadId) : Option ThreadSystem :=
  match o with
  | .semaphore s => some (k.semaphoreAcquire s)
  | .event e => if k.eventShouldWait e then none else some (k.eventAcquire e)
  | .timer i => if k.timerShouldWait i then none else some (k.timerAcquire i)
  | .mutex m => if k.mutexShouldWait m t then none else k.mutexAcquire m t
  | .serverSession s => if k.sessionShouldWait s then none else k.sessionAcquire s
  | .thread u => if k.threadShouldWait u then none else some k

/-! ## Waking up -/

/-- `Thread::ResumeFromWait`. -/
def resumeFromWait (k : ThreadSystem) (t : ThreadId) : Option ThreadSystem :=
  if k.thread.waitObjects t ≠ [] then none
  else match k.thread.status t with
    | .ready => if k.thread.wakeupCallback t = none then some k else none
    | .running | .dead => some k
    | _ => some { k with
        thread.wakeupCallback := update k.thread.wakeupCallback t none
        manager.readyQueue := update k.manager.readyQueue (k.thread.coreId t)
          ((k.manager.readyQueue (k.thread.coreId t)).pushBack (k.thread.currentPriority t) t)
        thread.status := update k.thread.status t .ready }

def setWaitSynchronizationResult (k : ThreadSystem) (t : ThreadId) (result : Result) :
    ThreadSystem :=
  { k with thread.cpuRegister0 := update k.thread.cpuRegister0 t result }

def setWaitSynchronizationOutput (k : ThreadSystem) (t : ThreadId) (output : Int) :
    ThreadSystem :=
  { k with thread.cpuRegister1 := update k.thread.cpuRegister1 t output }

/-- `Thread::GetWaitObjectIndex`: the last position of the object, -1 when it is not there. -/
def getWaitObjectIndex (k : ThreadSystem) (t : ThreadId) (o : ObjRef) : Option Int :=
  if k.thread.waitObjects t = [] then none
  else
    let fromEnd := (k.thread.waitObjects t).reverse.findIdx (· = o)
    some ((k.thread.waitObjects t).length - fromEnd - 1)

/-- `ReceiveIPCRequest`. A command buffer that cannot be translated ends in an `ASSERT`, so a call
that returns has either translated the request or found the client closed. -/
def receiveIPCRequest (k : ThreadSystem) (s : SessionId) : Option Result :=
  if !k.session.clientOpen s then some Result.sessionClosed
  else if k.session.currentlyHandling s = none then none
  else some Result.success

/-- What an IPC callback receives from the object that woke the thread. -/
def receiveFrom (k : ThreadSystem) : Option ObjRef → Option Result
  | some (.serverSession s) => k.receiveIPCRequest s
  | some _ => some Result.success
  | none => none

/-- `WakeupCallback::WakeUp`. -/
def wakeUp (k : ThreadSystem) (callback : WakeupCallback) (reason : ThreadWakeupReason)
    (t : ThreadId) (object : Option ObjRef) : Option ThreadSystem :=
  match callback, reason with
  | .sync _, .timeout => some (k.setWaitSynchronizationResult t Result.timeout)
  | .sync doOutput, .signal => do
    let k := k.setWaitSynchronizationResult t Result.success
    if doOutput then
      let index ← k.getWaitObjectIndex t (← object)
      some (k.setWaitSynchronizationOutput t index)
    else some k
  | .ipc, reason => do
    guard (k.thread.status t = .waitSynchAny)
    guard (reason = .signal)
    let result ← k.receiveFrom object
    let k := k.setWaitSynchronizationResult t result
    let index ← k.getWaitObjectIndex t (← object)
    some (k.setWaitSynchronizationOutput t index)

/-- Runs the wake-up callback of a thread, if it has one. -/
def runCallback (k : ThreadSystem) (reason : ThreadWakeupReason) (t : ThreadId)
    (object : Option ObjRef) : Option ThreadSystem :=
  match k.thread.wakeupCallback t with
  | none => some k
  | some callback => k.wakeUp callback reason t object

/-- A waiter of `o` that could go on, as `GetHighestPriorityReadyThread` decides it. -/
def readyToRun (k : ThreadSystem) (o : ObjRef) (t : ThreadId) : Bool :=
  !k.shouldWait o t &&
    (decide (k.thread.status t ≠ .waitSynchAll) ||
      (k.thread.waitObjects t).all fun object => !k.shouldWait object t)

/-- One turn of `GetHighestPriorityReadyThread`: the candidate so far and its priority. -/
def considerWaiter (k : ThreadSystem) (o : ObjRef) (candidate : Option ThreadId × Nat)
    (t : ThreadId) : Option (Option ThreadId × Nat) :=
  if k.thread.status t ≠ .waitSynchAny ∧ k.thread.status t ≠ .waitSynchAll ∧
      k.thread.status t ≠ .waitHleEvent then none
  else if k.thread.currentPriority t ≥ candidate.2 then some candidate
  else if k.readyToRun o t then some (some t, k.thread.currentPriority t)
  else some candidate

/-- `WaitObject::GetHighestPriorityReadyThread`. -/
def getHighestPriorityReadyThread (k : ThreadSystem) (o : ObjRef) : Option (Option ThreadId) :=
  ((k.waitingThreads o).foldlM (k.considerWaiter o) (none, threadPrioLowest + 1)).map Prod.fst

/-- The acquisitions of the body of `WakeupAllWaitingThreads`. -/
def acquireFor (k : ThreadSystem) (o : ObjRef) (t : ThreadId) : Option ThreadSystem :=
  if k.thread.status t ≠ .waitSynchAll then k.acquire o t
  else (k.thread.waitObjects t).foldlM (fun k object => k.acquire object t) k

/-- The body of `WakeupAllWaitingThreads` for the thread that was selected. -/
def wakeThread (k : ThreadSystem) (o : ObjRef) (t : ThreadId) : Option ThreadSystem := do
  let k ← k.acquireFor o t
  let k ← k.runCallback .signal t (some o)
  (k.leaveWaitObjects t).resumeFromWait t

/-- The loop of `WakeupAllWaitingThreads`. A turn takes its thread off the list, so the loop has a
turn for every waiting thread and one to find that there is nobody left. -/
def wakeupLoop (o : ObjRef) : Nat → ThreadSystem → Option ThreadSystem
  | 0, _ => none
  | turns + 1, k => do
    match ← k.getHighestPriorityReadyThread o with
    | none => some k
    | some t => wakeupLoop o turns (← k.wakeThread o t)

/-- The overrides of `Event` and `Timer`: a pulse ends when everybody was woken. -/
def endPulse (k : ThreadSystem) : ObjRef → ThreadSystem
  | .event e =>
    if k.event.resetType e = .pulse then
      { k with event.signaled := update k.event.signaled e false }
    else k
  | .timer i =>
    if k.timer.resetType i = .pulse then
      { k with timer.signaled := update k.timer.signaled i false }
    else k
  | _ => k

/-- `WakeupAllWaitingThreads`, with the overrides of `Event` and `Timer`. -/
def wakeupAllWaitingThreads (k : ThreadSystem) (o : ObjRef) : Option ThreadSystem := do
  let k ← wakeupLoop o ((k.waitingThreads o).length + 1) k
  some (k.endPulse o)

/-! ## The operations of the objects -/

/-- `Event::Signal`. -/
def eventSignal (k : ThreadSystem) (e : EventId) : Option ThreadSystem :=
  wakeupAllWaitingThreads
    { k with event.signaled := update k.event.signaled e true } (.event e)

/-- `Event::Clear`. -/
def eventClear (k : ThreadSystem) (e : EventId) : ThreadSystem :=
  { k with event.signaled := update k.event.signaled e false }

/-- `Timer::Signal`, called when the timer fires or is set without a delay. -/
def timerSignal (k : ThreadSystem) (i : TimerId) : Option ThreadSystem :=
  wakeupAllWaitingThreads
    { k with timer.signaled := update k.timer.signaled i true } (.timer i)

/-- `Timer::Clear`. -/
def timerClear (k : ThreadSystem) (i : TimerId) : ThreadSystem :=
  { k with timer.signaled := update k.timer.signaled i false }

/-- `Semaphore::Release`; the counts are added as `s32` values. -/
def semaphoreRelease (k : ThreadSystem) (s : SemaphoreId) (releaseCount : Int) :
    Option (Result × ThreadSystem) :=
  let count := wrap32 (releaseCount + k.semaphore.availableCount s)
  if count ≤ k.semaphore.maxCount s then do
    let k ← wakeupAllWaitingThreads
      { k with
        semaphore.availableCount := update k.semaphore.availableCount s count } (.semaphore s)
    some (Result.success, k)
  else some (Result.outOfRangeKernel, k)

/-- The end of `Mutex::Release`, when the holder has given up its last acquisition. -/
def giveUpMutex (k : ThreadSystem) (m : MutexId) (holder : ThreadId) : Option ThreadSystem :=
  let k := updatePriority
    { k with
      thread.heldMutexes :=
        update k.thread.heldMutexes holder ((k.thread.heldMutexes holder).erase m) } holder
  wakeupAllWaitingThreads
    { k with mutex.holdingThread := update k.mutex.holdingThread m none } (.mutex m)

/-- `Mutex::Release`. -/
def mutexRelease (k : ThreadSystem) (m : MutexId) (t : ThreadId) :
    Option (Result × ThreadSystem) :=
  if some t ≠ k.mutex.holdingThread m then some (Result.wrongLockingThread, k)
  else if k.mutex.lockCount m ≤ 0 then some (Result.invalidResultValue, k)
  else
    let k := { k with
      mutex.lockCount := update k.mutex.lockCount m (k.mutex.lockCount m - 1) }
    if k.mutex.lockCount m = 0 then do
      let k ← k.giveUpMutex m t
      some (Result.success, k)
    else some (Result.success, k)

/-- One turn of `ReleaseThreadMutexes`. -/
def forceRelease (k : ThreadSystem) (m : MutexId) : Option ThreadSystem :=
  wakeupAllWaitingThreads
    { k with
      mutex.lockCount := update k.mutex.lockCount m 0
      mutex.holdingThread := update k.mutex.holdingThread m none } (.mutex m)

/-- `ReleaseThreadMutexes`. -/
def releaseThreadMutexes (k : ThreadSystem) (t : ThreadId) : Option ThreadSystem := do
  let k ← (k.thread.heldMutexes t).foldlM forceRelease k
  some { k with thread.heldMutexes := update k.thread.heldMutexes t [] }

/-- `ServerSession::HandleSyncRequest` of a session without an HLE handler. -/
def handleSyncRequest (k : ThreadSystem) (s : SessionId) (t : ThreadId) : Option ThreadSystem :=
  let k := if k.thread.status t = .running then
    { k with
      thread.status := update k.thread.status t .waitIPC
      session.pendingRequestingThreads :=
        update k.session.pendingRequestingThreads s
          (k.session.pendingRequestingThreads s ++ [t]) }
    else k
  k.wakeupAllWaitingThreads (.serverSession s)

/-- `ClientSession::~ClientSession`. -/
def closeClientSession (k : ThreadSystem) (s : SessionId) : Option ThreadSystem :=
  wakeupAllWaitingThreads
    { k with
      session.pendingRequestingThreads :=
        update k.session.pendingRequestingThreads s []
      session.currentlyHandling := update k.session.currentlyHandling s none
      session.clientOpen := update k.session.clientOpen s false } (.serverSession s)

/-! ## The operations of threads -/

/-- The thread that `KernelSystem::CreateThread` makes. Without room for the thread local storage it
stays in the list, dormant. -/
def addThread (k : ThreadSystem) (process : ProcessId) (category : ResourceLimitCategory)
    (core : CoreId) (priority : Nat) (starts : Bool) : ThreadSystem :=
  let t := k.nextThreadId
  let queue := (k.manager.readyQueue core).prepare priority
  { k with
    nextThreadId := t + 1
    thread.status := update k.thread.status t (if starts then .ready else .dormant)
    thread.nominalPriority := update k.thread.nominalPriority t priority
    thread.currentPriority := update k.thread.currentPriority t priority
    thread.coreId := update k.thread.coreId t core
    thread.ownerProcess := update k.thread.ownerProcess t process
    thread.resourceLimitCategory := update k.thread.resourceLimitCategory t category
    thread.waitObjects := update k.thread.waitObjects t []
    manager.threadList :=
      update k.manager.threadList core (k.manager.threadList core ++ [t])
    manager.wakeupCallbackTable := update k.manager.wakeupCallbackTable core
      (t :: k.manager.wakeupCallbackTable core)
    manager.readyQueue := update k.manager.readyQueue core
      (if starts then queue.pushBack priority t else queue) }

/-- `KernelSystem::CreateThread`. The caller says whether the entry point is mapped and whether
there is room for the thread local storage. A core without a manager is not caught. -/
def createThread (k : ThreadSystem) (process : ProcessId) (category : ResourceLimitCategory)
    (core : CoreId) (priority : Nat) (entryValid tlsAllocated makeReady : Bool) :
    Option (Result × ThreadSystem) :=
  if priority > threadPrioLowest then some (Result.outOfRange, k)
  else if core > 4 then some (Result.outOfRangeKernel, k)
  else if !entryValid then some (Result.invalidEntryPoint, k)
  else if core ≥ k.numCores then none
  else
    some (if tlsAllocated then Result.success else Result.outOfMemory,
      k.addThread process category core priority (tlsAllocated && makeReady))

/-- The beginning of `Thread::Stop`: no more timeouts, off the ready queue, dead. -/
def markDead (k : ThreadSystem) (t : ThreadId) : ThreadSystem :=
  let core := k.thread.coreId t
  { k with
    manager.wakeupCallbackTable := update k.manager.wakeupCallbackTable core
      ((k.manager.wakeupCallbackTable core).filter (· ≠ t))
    manager.readyQueue := if k.thread.status t = .ready then
        update k.manager.readyQueue core
          ((k.manager.readyQueue core).remove (k.thread.currentPriority t) t)
      else k.manager.readyQueue
    thread.status := update k.thread.status t .dead }

/-- `Thread::Stop`. -/
def stop (k : ThreadSystem) (t : ThreadId) : Option ThreadSystem := do
  let k ← (k.markDead t).wakeupAllWaitingThreads (.thread t)
  (k.leaveWaitObjects t).releaseThreadMutexes t

/-- `ThreadManager::ExitCurrentThread`. -/
def exitCurrentThread (k : ThreadSystem) (core : CoreId) : Option ThreadSystem := do
  let t ← k.manager.currentThread core
  let k ← k.stop t
  some { k with
    manager.threadList :=
      update k.manager.threadList core ((k.manager.threadList core).filter (· ≠ t)) }

/-- One turn of the loop of `TerminateProcessThreads`. -/
def terminateOther (core : CoreId) (process : ProcessId) (k : ThreadSystem) (t : ThreadId) :
    Option ThreadSystem :=
  if some t = k.manager.currentThread core ∨ k.thread.ownerProcess t ≠ process then some k
  else do
    let k ← k.stop t
    some { k with
      manager.threadList := update k.manager.threadList core ((k.manager.threadList core).erase t) }

/-- `ThreadManager::TerminateProcessThreads`: the current thread of the core is stopped last. -/
def terminateProcessThreads (k : ThreadSystem) (process : ProcessId) (core : CoreId) :
    Option ThreadSystem := do
  let k ← (k.manager.threadList core).foldlM (terminateOther core process) k
  match k.manager.currentThread core with
  | none => some k
  | some t => if k.thread.ownerProcess t = process then k.exitCurrentThread core else some k

/-- `KernelSystem::TerminateProcess`. -/
def terminateProcess (k : ThreadSystem) (process : ProcessId) : Option ThreadSystem :=
  if k.processStatus process ≠ .running then none
  else (List.range k.numCores).foldlM (fun k core => k.terminateProcessThreads process core)
    { k with processStatus := update k.processStatus process .exited }

/-- `ThreadManager::ThreadWakeupCallback`, the end of a delay. -/
def threadWakeupCallback (k : ThreadSystem) (core : CoreId) (t : ThreadId) :
    Option ThreadSystem := do
  guard (t ∈ k.manager.wakeupCallbackTable core)
  if k.thread.status t = .waitSynchAny ∨ k.thread.status t = .waitSynchAll ∨
      k.thread.status t = .waitArb ∨ k.thread.status t = .waitHleEvent then
    let k ← k.runCallback .timeout t none
    (k.leaveWaitObjects t).resumeFromWait t
  else k.resumeFromWait t

end ThreadSystem

end GbaStation.Kernel
