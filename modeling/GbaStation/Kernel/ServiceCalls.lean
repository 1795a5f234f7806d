import GbaStation.Kernel.Threads

/-!
# Scheduling and service calls

The scheduler of a core (`ThreadManager::Reschedule` and the `CpuLimiterMulti` of core 1), the
service calls of `svc.cpp` that synchronise threads, and the runs of the whole system.

- A service call is made by the current thread of a core. `Thread::Stop` can kill the current
  thread of another core, which goes on to the end of its time slice (`System::RunLoop` looks only
  at whether there is a current thread), so the caller is running or dead.
- Handles are looked up by the caller of the model: `none` is a handle that is not valid.
-/

namespace GbaStation.Kernel

open GbaStation.Common
open Function (update)
open Result (invalidHandle timeout success)

namespace ThreadSystem

/-! ## The scheduler -/

/-- `Thread::CanSchedule`. -/
def canSchedule (k : ThreadSystem) (t : ThreadId) : Bool := k.thread.unscheduleMode t = 0

/-- `Thread::SetUnscheduleMode`. -/
def setUnscheduleMode (k : ThreadSystem) (t : ThreadId) (mode : Nat) : ThreadSystem :=
  { k with
    thread.unscheduleMode := update k.thread.unscheduleMode t (k.thread.unscheduleMode t ||| mode) }

/-- `Thread::ClearUnscheduleMode`, on the bits of a `u32`. -/
def clearUnscheduleMode (k : ThreadSystem) (t : ThreadId) (mode : Nat) : ThreadSystem :=
  { k with
    thread.unscheduleMode :=
      update k.thread.unscheduleMode t (k.thread.unscheduleMode t &&& (2 ^ 32 - 1 ^^^ mode)) }

/-- The loop of `PopNextReadyThread` without a current thread to beat: the first thread that can be
scheduled, the queue without it, and the entries that were skipped. -/
def popSchedulable (k : ThreadSystem) :
    Nat → ReadyQueue → Option (Option ThreadId × ReadyQueue × List (Nat × ThreadId))
  | 0, _ => none
  | turns + 1, queue => do
    match ← queue.popFirst with
    | (none, queue) => some (none, queue, [])
    | (some (priority, next), queue) =>
      if k.canSchedule next then some (some next, queue, [])
      else
        let (found, queue, skipped) ← k.popSchedulable turns queue
        some (found, queue, (priority, next) :: skipped)

/-- The same loop with a current thread, which goes on when there is nobody better. -/
def popSchedulableBetter (k : ThreadSystem) (current : ThreadId) :
    Nat → ReadyQueue → Option (ThreadId × ReadyQueue × List (Nat × ThreadId))
  | 0, _ => none
  | turns + 1, queue => do
    match ← queue.popFirstBetter (k.thread.currentPriority current) with
    | (none, queue) => some (current, queue, [])
    | (some (priority, next), queue) =>
      if k.canSchedule next then some (next, queue, [])
      else
        let (found, queue, skipped) ← k.popSchedulableBetter current turns queue
        some (found, queue, (priority, next) :: skipped)

/-- Puts the skipped threads back, the last one first. -/
def restoreSkipped (queue : ReadyQueue) (skipped : List (Nat × ThreadId)) : ReadyQueue :=
  skipped.foldr (fun entry queue => queue.pushFront entry.1 entry.2) queue

/-- The thread that can go on with its time slice. -/
def runningThread (k : ThreadSystem) (core : CoreId) : Option ThreadId :=
  (k.manager.currentThread core).filter fun t =>
    k.thread.status t = .running && k.canSchedule t

/-- One turn of the outer loop of `PopNextReadyThread`. A popping loop takes at most one turn for
every queued thread and one for the end of the queue. -/
def selectNext (k : ThreadSystem) (core : CoreId) : Option (Option ThreadId × ReadyQueue) := do
  let queue := k.manager.readyQueue core
  match k.runningThread core with
  | some current =>
    let (next, queue, skipped) ← k.popSchedulableBetter current (queue.order.length + 1) queue
    some (some next, restoreSkipped queue skipped)
  | none =>
    let (next, queue, skipped) ← k.popSchedulable (queue.order.length + 1) queue
    some (next, restoreSkipped queue skipped)

/-- The test of `CpuLimiterMulti::DoTimeLimit`. -/
def isTimeLimited (k : ThreadSystem) (t : ThreadId) : Bool :=
  k.limiter.ready && k.limiter.active &&
    !k.preemptionExcempted (k.thread.resourceLimitCategory t) &&
    (k.thread.resourceLimitCategory t = .application && k.limiter.currState = .sys ||
      k.thread.resourceLimitCategory t = .other && k.limiter.currState = .app)

/-- What `DoTimeLimit` does to a thread that is blocked. -/
def timeLimit (k : ThreadSystem) (t : ThreadId) : ThreadSystem :=
  { k with
    thread.status := update k.thread.status t .waitSleep
    limiter.sleepingThreadIds := k.limiter.sleepingThreadIds ++ [t] }

/-- `ThreadManager::PopNextReadyThread`. A turn of the outer loop that is not the last one puts one
more thread to sleep. -/
def popNextReadyThread (core : CoreId) :
    Nat → ThreadSystem → Option (Option ThreadId × ThreadSystem)
  | 0, _ => none
  | turns + 1, k => do
    let (next, queue) ← k.selectNext core
    let k := { k with manager.readyQueue := update k.manager.readyQueue core queue }
    match next with
    | none => some (none, k)
    | some t =>
      if core = 1 ∧ k.isTimeLimited t then popNextReadyThread core turns (k.timeLimit t)
      else some (some t, k)

/-- The current thread, when a reschedule came without it giving up the core. -/
def preempted (k : ThreadSystem) (core : CoreId) : Option ThreadId :=
  (k.manager.currentThread core).filter fun t => k.thread.status t = .running

/-- The part of `ThreadManager::SwitchContext` that saves the previous thread. -/
def switchOut (k : ThreadSystem) (core : CoreId) : ThreadSystem :=
  match k.preempted core with
  | none => k
  | some t =>
    { k with
      manager.readyQueue := update k.manager.readyQueue core
        ((k.manager.readyQueue core).pushFront (k.thread.currentPriority t) t)
      thread.status := update k.thread.status t .ready }

/-- The part of `ThreadManager::SwitchContext` that loads the next thread. -/
def switchIn (k : ThreadSystem) (core : CoreId) : Option ThreadId → Option ThreadSystem
  | none => some { k with
      manager.currentThread := update k.manager.currentThread core none }
  | some t =>
    if k.thread.status t ≠ .ready then none
    else some { k with
      manager.currentThread := update k.manager.currentThread core (some t)
      manager.readyQueue := update k.manager.readyQueue core
        ((k.manager.readyQueue core).remove (k.thread.currentPriority t) t)
      thread.status := update k.thread.status t .running }

/-- `ThreadManager::SwitchContext`. -/
def switchContext (k : ThreadSystem) (core : CoreId) (next : Option ThreadId) :
    Option ThreadSystem :=
  (k.switchOut core).switchIn core next

/-- `ThreadManager::Reschedule`. -/
def reschedule (k : ThreadSystem) (core : CoreId) : Option ThreadSystem := do
  let current := k.manager.currentThread core
  let (next, k) ← popNextReadyThread core ((k.manager.readyQueue core).order.length + 2) k
  if current = none ∧ next = none then some k else k.switchContext core next

/-- `CpuLimiterMulti::WakeupSleepingThreads`. -/
def wakeupSleepingThreads (k : ThreadSystem) : Option ThreadSystem := do
  let k' ← k.limiter.sleepingThreadIds.foldlM (fun k t =>
    if t ∈ k.manager.threadList 1 ∧ k.thread.status t = .waitSleep then k.resumeFromWait t
    else some k) k
  some { k' with limiter.sleepingThreadIds := [] }

/-- `CpuLimiterMulti::Start`. -/
def limiterStart (k : ThreadSystem) : ThreadSystem :=
  if k.limiter.ready then k
  else { k with limiter.ready := true, limiter.active := false, limiter.currState := .app }

/-- `CpuLimiterMulti::End`. -/
def limiterEnd (k : ThreadSystem) : Option ThreadSystem :=
  if !k.limiter.ready then some k
  else wakeupSleepingThreads { k with limiter.ready := false, limiter.active := false }

/-- `CpuLimiterMulti::ChangeState`. -/
def changeState (k : ThreadSystem) : ThreadSystem :=
  { k with limiter.currState := if k.limiter.currState = .sys then .app else .sys }

/-- `CpuLimiterMulti::UpdateAppCpuLimit`: `preempts` is whether the new limit asks for
preemption (never on the Switch). -/
def updateAppCpuLimit (k : ThreadSystem) (preempts : Bool) : Option ThreadSystem :=
  if !k.limiter.ready then some k
  else if preempts then some (changeState { k with limiter.active := true })
  else wakeupSleepingThreads { k with limiter.active := false }

/-- `CpuLimiterMulti::OnTick`. -/
def limiterTick (k : ThreadSystem) : Option ThreadSystem := do
  let k ← k.wakeupSleepingThreads
  some k.changeState

/-! ## Service calls -/

/-- What a service call gives back: its result and the value it stores through its pointer. -/
structure SvcReturn where
  result : Result
  output : Option Int
  system : ThreadSystem

/-- Puts the caller to sleep on objects it was already added to, with its callback. -/
def sleepOn (k : ThreadSystem) (t : ThreadId) (objects : List ObjRef)
    (callback : WakeupCallback) : ThreadSystem :=
  { k with
    thread.waitObjects := update k.thread.waitObjects t objects
    thread.wakeupCallback := update k.thread.wakeupCallback t (some callback) }

/-- The loop that adds a thread to the wait lists of the objects. -/
def addToAll (k : ThreadSystem) (t : ThreadId) (objects : List ObjRef) : ThreadSystem :=
  objects.foldl (fun k o => k.addWaitingThread o t) k

def setStatus (k : ThreadSystem) (t : ThreadId) (status : ThreadStatus) : ThreadSystem :=
  { k with thread.status := update k.thread.status t status }

/-- `SVC::WaitSynchronization1`. The call sets `wait_objects` and the status around the one
`AddWaitingThread`, which reads neither. -/
def waitSynchronization1 (k : ThreadSystem) (t : ThreadId) (object : Option ObjRef)
    (nanoSeconds : Int) : Option SvcReturn :=
  match object with
  | none => some ⟨invalidHandle, none, k⟩
  | some object =>
    if k.shouldWait object t then
      if nanoSeconds = 0 then some ⟨timeout, none, k⟩
      else
        let k := (k.addToAll t [object]).setStatus t .waitSynchAny
        some ⟨timeout, none, k.sleepOn t [object] (.sync false)⟩
    else do
      let k ← k.acquire object t
      some ⟨success, none, k⟩

/-- The handles of a call, read from guest memory and looked up one after the other. -/
def lookupObjects (handles : Nat → Option ObjRef) (handleCount : Nat) : Option (List ObjRef) :=
  (List.range handleCount).mapM handles

/-- The first object of the list that the thread can acquire. -/
def firstAcquirable (k : ThreadSystem) (t : ThreadId) (objects : List ObjRef) : Option ObjRef :=
  objects.find? fun object => !k.shouldWait object t

/-- The branch of `WaitSynchronizationN` that waits for all objects. -/
def waitForAll (k : ThreadSystem) (t : ThreadId) (objects : List ObjRef) (nanoSeconds : Int) :
    Option SvcReturn :=
  if objects.all fun object => !k.shouldWait object t then do
    let k ← objects.foldlM (fun k object => k.acquire object t) k
    some ⟨success, none, k⟩
  else if nanoSeconds = 0 then some ⟨timeout, none, k⟩
  else
    let k := (k.setStatus t .waitSynchAll).addToAll t objects
    some ⟨timeout, some (-1), k.sleepOn t objects (.sync false)⟩

/-- The branch of `WaitSynchronizationN` that waits for any of the objects. -/
def waitForAny (k : ThreadSystem) (t : ThreadId) (objects : List ObjRef) (nanoSeconds : Int) :
    Option SvcReturn :=
  match k.firstAcquirable t objects with
  | some object => do
    let k ← k.acquire object t
    some ⟨success, some (objects.idxOf object), k⟩
  | none =>
    if nanoSeconds = 0 then some ⟨timeout, none, k⟩
    else
      let k := (k.setStatus t .waitSynchAny).addToAll t objects
      some ⟨timeout, some (-1), k.sleepOn t objects (.sync true)⟩

/-- `SVC::WaitSynchronizationN`; `addressValid` is whether `handles_address` is mapped. -/
def waitSynchronizationN (k : ThreadSystem) (t : ThreadId) (addressValid : Bool)
    (handleCount : Int) (handles : Nat → Option ObjRef) (waitAll : Bool) (nanoSeconds : Int) :
    Option SvcReturn :=
  if !addressValid then some ⟨Result.invalidPointer, none, k⟩
  else if handleCount < 0 then some ⟨Result.outOfRange, none, k⟩
  else match lookupObjects handles handleCount.toNat with
    | none => some ⟨invalidHandle, none, k⟩
    | some objects =>
      if waitAll then k.waitForAll t objects nanoSeconds
      else k.waitForAny t objects nanoSeconds

/-- The reply of `ReplyAndReceive`: the session has no request any more, and the thread that made
the request resumes. `none` as a result means that the call goes on. -/
def reply (k : ThreadSystem) (s : SessionId) : Option (Option Result × ThreadSystem) :=
  let replied := { k with
    session.currentlyHandling := update k.session.currentlyHandling s none }
  match k.session.currentlyHandling s with
  | none => some (some Result.sessionClosed, replied)
  | some requester =>
    if !k.session.clientOpen s then some (some Result.sessionClosed, replied)
    else do
      let replied ← replied.resumeFromWait requester
      some (none, replied)

/-- `ReplyAndReceive` after the reply. `replied` is whether there was one. -/
def receive (k : ThreadSystem) (t : ThreadId) (objects : List ObjRef) (replied : Bool) :
    Option SvcReturn :=
  if objects = [] then
    some ⟨if replied then success else Result.nothingToReceive, some 0, k⟩
  else match k.firstAcquirable t objects with
    | some object => do
      let k ← k.acquire object t
      let result ← k.receiveFrom (some object)
      some ⟨result, some (objects.idxOf object), k⟩
    | none =>
      let k := (k.setStatus t .waitSynchAny).addToAll t objects
      some ⟨success, some (-1), k.sleepOn t objects .ipc⟩

/-- `SVC::ReplyAndReceive`. `target` is `none` when `reply_target` is zero or the command buffer
holds the command id 0xFFFF; otherwise it is the session of the handle. -/
def replyAndReceive (k : ThreadSystem) (t : ThreadId) (addressValid : Bool) (handleCount : Int)
    (handles : Nat → Option ObjRef) (target : Option (Option SessionId)) : Option SvcReturn :=
  if !addressValid then some ⟨Result.invalidPointer, none, k⟩
  else if handleCount < 0 then some ⟨Result.outOfRange, none, k⟩
  else match lookupObjects handles handleCount.toNat with
    | none => some ⟨invalidHandle, none, k⟩
    | some objects =>
      match target with
      | none => k.receive t objects false
      | some none => some ⟨invalidHandle, none, k⟩
      | some (some s) => do
        match ← k.reply s with
        | (some result, k) => some ⟨result, some (-1), k⟩
        | (none, k) => k.receive t objects true

/-- `ClientSession::SendSyncRequest`; `server` is `parent->server`. -/
def sendSyncRequest (k : ThreadSystem) (t : ThreadId) (server : Option SessionId) :
    Option (Result × ThreadSystem) :=
  match server with
  | none => some (Result.sessionClosed, k)
  | some s => do
    let k ← k.handleSyncRequest s t
    some (success, k)

/-- `SVC::SetThreadPriority` of a valid handle, `maxPriority` being the limit of the caller's
process. -/
def setThreadPriority (k : ThreadSystem) (t : ThreadId) (maxPriority priority : Nat) :
    Option (Result × ThreadSystem) :=
  if priority > threadPrioLowest then some (Result.outOfRange, k)
  else if maxPriority > priority then some (Result.notAuthorized, k)
  else do
    let k := updatePriority (← k.setPriority t priority) t
    some (success, (k.thread.pendingMutexes t).foldl updateMutexPriority k)

/-- `SVC::SleepThread`. -/
def sleepThread (k : ThreadSystem) (core : CoreId) (t : ThreadId) (nanoSeconds : Int) :
    Option ThreadSystem := do
  let first ← (k.manager.readyQueue core).getFirst
  if nanoSeconds = 0 ∧ first = none then some k
  else some (k.setStatus t .waitSleep)

/-! ## Runs -/

/-- What happens to the system in one step. The first group are service calls of the current
thread of a core; the others come from timing events, from closing a handle, or from the scheduler
itself. `ArbitrateAddress` and the `SleepClientThread` of HLE services are not among them, although
threads have the states in which these wait. -/
inductive Call
  | waitSynchronization1 (core : CoreId) (object : Option ObjRef) (nanoSeconds : Int)
  | waitSynchronizationN (core : CoreId) (addressValid : Bool) (handleCount : Int)
      (handles : Nat → Option ObjRef) (waitAll : Bool) (nanoSeconds : Int)
  | replyAndReceive (core : CoreId) (addressValid : Bool) (handleCount : Int)
      (handles : Nat → Option ObjRef) (target : Option (Option SessionId))
  | sendSyncRequest (core : CoreId) (server : Option SessionId)
  | releaseMutex (core : CoreId) (m : MutexId)
  | acquireNewMutex (core : CoreId) (m : MutexId)
  | sleepThread (core : CoreId) (nanoSeconds : Int)
  | exitThread (core : CoreId)
  | terminateProcess (process : ProcessId)
  | setThreadPriority (t : ThreadId) (maxPriority priority : Nat)
  | createThread (process : ProcessId) (category : ResourceLimitCategory) (core : CoreId)
      (priority : Nat) (entryValid tlsAllocated makeReady : Bool)
  | signalEvent (e : EventId)
  | clearEvent (e : EventId)
  | signalTimer (i : TimerId)
  | clearTimer (i : TimerId)
  | releaseSemaphore (s : SemaphoreId) (releaseCount : Int)
  | closeClientSession (s : SessionId)
  | wakeupTimeout (core : CoreId) (t : ThreadId)
  | resumeFromWait (t : ThreadId)
  | setUnscheduleMode (t : ThreadId) (mode : Nat)
  | clearUnscheduleMode (t : ThreadId) (mode : Nat)
  | reschedule (core : CoreId)
  | limiterStart
  | limiterEnd
  | updateAppCpuLimit (preempts : Bool)
  | limiterTick

/-- The thread that makes a service call on a core. -/
def caller (k : ThreadSystem) (core : CoreId) : Option ThreadId :=
  (k.manager.currentThread core).filter fun t =>
    k.thread.status t = .running || k.thread.status t = .dead

/-- A pointer to a thread that was created. -/
def existing (k : ThreadSystem) (t : ThreadId) : Option ThreadId :=
  if t < k.nextThreadId then some t else none

/-- One step of the system. -/
def step (k : ThreadSystem) : Call → Option ThreadSystem
  | .waitSynchronization1 core object nanoSeconds => do
    (← k.waitSynchronization1 (← k.caller core) object nanoSeconds).system
  | .waitSynchronizationN core addressValid handleCount handles waitAll nanoSeconds => do
    (← k.waitSynchronizationN (← k.caller core) addressValid handleCount handles waitAll
      nanoSeconds).system
  | .replyAndReceive core addressValid handleCount handles target => do
    (← k.replyAndReceive (← k.caller core) addressValid handleCount handles target).system
  | .sendSyncRequest core server => do
    (← k.sendSyncRequest (← k.caller core) server).2
  | .releaseMutex core m => do
    (← k.mutexRelease m (← k.caller core)).2
  | .acquireNewMutex core m => do
    k.acquire (.mutex m) (← k.caller core)
  | .sleepThread core nanoSeconds => do
    k.sleepThread core (← k.caller core) nanoSeconds
  | .exitThread core => do
    let _ ← k.caller core
    k.exitCurrentThread core
  | .terminateProcess process => k.terminateProcess process
  | .setThreadPriority t maxPriority priority => do
    (← k.setThreadPriority (← k.existing t) maxPriority priority).2
  | .createThread process category core priority entryValid tlsAllocated makeReady => do
    (← k.createThread process category core priority entryValid tlsAllocated makeReady).2
  | .signalEvent e => k.eventSignal e
  | .clearEvent e => some (k.eventClear e)
  | .signalTimer i => k.timerSignal i
  | .clearTimer i => some (k.timerClear i)
  | .releaseSemaphore s releaseCount => do (← k.semaphoreRelease s releaseCount).2
  | .closeClientSession s => k.closeClientSession s
  | .wakeupTimeout core t => k.threadWakeupCallback core t
  | .resumeFromWait t => do k.resumeFromWait (← k.existing t)
  | .setUnscheduleMode t mode => do k.setUnscheduleMode (← k.existing t) mode
  | .clearUnscheduleMode t mode => do k.clearUnscheduleMode (← k.existing t) mode
  | .reschedule core => k.reschedule core
  | .limiterStart => some k.limiterStart
  | .limiterEnd => k.limiterEnd
  | .updateAppCpuLimit preempts => k.updateAppCpuLimit preempts
  | .limiterTick => k.limiterTick

/-- A kernel without threads. Semaphores have any counts that `CreateSemaphore` accepts; events,
timers and semaphores are of any kind. -/
structure Initial (k : ThreadSystem) : Prop where
  status : k.thread.status = fun _ => .dormant
  nominalPriority : k.thread.nominalPriority = fun _ => 0
  currentPriority : k.thread.currentPriority = fun _ => 0
  heldMutexes : k.thread.heldMutexes = fun _ => []
  pendingMutexes : k.thread.pendingMutexes = fun _ => []
  waitObjects : k.thread.waitObjects = fun _ => []
  waitingThreads : k.waitingThreads = fun _ => []
  availableCount : ∀ s, k.semaphore.availableCount s ≤ k.semaphore.maxCount s
  lockCount : k.mutex.lockCount = fun _ => 0
  holdingThread : k.mutex.holdingThread = fun _ => none
  clientOpen : k.session.clientOpen = fun _ => true
  pendingRequestingThreads : k.session.pendingRequestingThreads = fun _ => []
  currentlyHandling : k.session.currentlyHandling = fun _ => none
  currentThread : k.manager.currentThread = fun _ => none
  readyQueue : k.manager.readyQueue = fun _ => ThreadQueueList.empty
  wakeupCallbackTable : k.manager.wakeupCallbackTable = fun _ => []
  threadList : k.manager.threadList = fun _ => []
  nextThreadId : k.nextThreadId = 0

/-- A kernel with four cores in which all events, timers and mutexes are unused. -/
def start : ThreadSystem where
  thread := {
    status _ := .dormant, nominalPriority _ := 0, currentPriority _ := 0, coreId _ := 0
    ownerProcess _ := 0, resourceLimitCategory _ := .other, heldMutexes _ := []
    pendingMutexes _ := [], waitObjects _ := [], wakeupCallback _ := none, unscheduleMode _ := 0
    cpuRegister0 _ := success, cpuRegister1 _ := 0 }
  waitingThreads _ := []
  event := { resetType _ := .oneShot, signaled _ := false }
  timer := { resetType _ := .oneShot, signaled _ := false }
  semaphore := { maxCount _ := 1, availableCount _ := 0 }
  mutex := { lockCount _ := 0, priority _ := threadPrioLowest, holdingThread _ := none }
  session := {
    clientOpen _ := true, pendingRequestingThreads _ := [], currentlyHandling _ := none }
  manager := {
    currentThread _ := none, readyQueue _ := ThreadQueueList.empty, wakeupCallbackTable _ := []
    threadList _ := [] }
  limiter := { ready := false, active := false, currState := .sys, sleepingThreadIds := [] }
  processStatus _ := .running
  nextThreadId := 0
  numCores := 4
  preemptionExcempted _ := false

theorem initial_start : start.Initial := by
  constructor <;> first | rfl | simp [start]

/-- Carries out calls one after the other. -/
def run (k : ThreadSystem) (calls : List Call) : Option ThreadSystem := calls.foldlM step k

/-- The states reached by runs whose steps all meet a condition. -/
inductive Reached (Meets : ThreadSystem → Call → Prop) : ThreadSystem → Prop
  | initial {k : ThreadSystem} (h : k.Initial) : Reached Meets k
  | step {k k' : ThreadSystem} {call : Call} (h : Reached Meets k) (hc : Meets k call)
      (hs : k.step call = some k') : Reached Meets k'

/-- An invariant of the steps that meet the condition holds in every state reached. -/
theorem Reached.induction {Meets : ThreadSystem → Call → Prop} {P : ThreadSystem → Prop}
    (hinit : ∀ k, k.Initial → P k)
    (hstep : ∀ k k' call, P k → Meets k call → k.step call = some k' → P k')
    {k : ThreadSystem} (h : Reached Meets k) : P k := by
  induction h with
  | initial h => exact hinit _ h
  | step _ hc hs ih => exact hstep _ _ _ ih hc hs

/-- A run whose calls meet the condition wherever they are made reaches what it ends in. -/
theorem Reached.run {Meets : ThreadSystem → Call → Prop} {calls : List Call}
    (hc : ∀ k, ∀ call ∈ calls, Meets k call) {k k' : ThreadSystem} (h : Reached Meets k)
    (hrun : k.run calls = some k') : Reached Meets k' := by
  induction calls generalizing k with
  | nil =>
    obtain rfl : k = k' := Option.some.inj hrun
    exact h
  | cons call calls ih =>
    rw [ThreadSystem.run, List.foldlM_cons] at hrun
    obtain ⟨k₁, hs, hrun⟩ := Option.bind_eq_some_iff.mp hrun
    exact ih (fun j c hc' => hc j c (List.mem_cons_of_mem _ hc'))
      (h.step (hc k call List.mem_cons_self) hs) hrun

end ThreadSystem

end GbaStation.Kernel
