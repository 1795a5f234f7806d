import Mathlib.Algebra.Order.Ring.Int
import Mathlib.Logic.Function.Basic

/-!
# The interrupt relay of the GSP service

The GPU signals interrupts to the sessions of the GSP service. An interrupt that takes time waits in
an array of 512 places, with an event of the timing for its place; when it falls due, it is put in
the relay queue of its thread id, which the guest reads in shared memory.

The constructor of the service creates the shared memory, so the guard of `SignalInterrupt` against
a missing one is not here.
-/

namespace GbaStation.Gsp

/-- `InterruptId`. Its `COUNT` is no interrupt: it marks a free place of the array. -/
inductive InterruptId where
  | psc0 | psc1 | pdc0 | pdc1 | ppf | p3d | dma
  deriving DecidableEq, Repr

/-- The interrupts that are signalled to every thread, at once. -/
def InterruptId.isPdc : InterruptId → Bool
  | .pdc0 | .pdc1 => true
  | _ => false

/-- An interrupt for a thread id. The code stores the first two fields. The last two tell signals
apart in a run, and no function of the service reads them. -/
structure Signal where
  interruptId : InterruptId
  threadId : Nat
  /-- How many were signalled before. -/
  number : Nat
  /-- The session that had the thread id. -/
  session : Option Nat
  deriving DecidableEq, Repr

/-- What zeroed memory reads as. -/
def Signal.zero : Signal := { interruptId := .psc0, threadId := 0, number := 0, session := none }

/-! ## Relay queues -/

/-- `InterruptRelayQueue`. -/
structure InterruptRelayQueue where
  index : Nat
  numberInterrupts : Nat
  errorCode : Nat
  ignorePdc : Bool
  missedPdc0 : Nat
  missedPdc1 : Nat
  slot : Nat → Signal

namespace InterruptRelayQueue

def maxSlots : Nat := 0x34
def stopQueuingPdcThreshold : Nat := 0x20
def queueFullError : Nat := 0x1

/-- The queue in zeroed shared memory. -/
def zero : InterruptRelayQueue :=
  { index := 0, numberInterrupts := 0, errorCode := 0, ignorePdc := false, missedPdc0 := 0,
    missedPdc1 := 0, slot := fun _ => Signal.zero }

/-- The place behind the last interrupt, in `u8`. -/
def next (q : InterruptRelayQueue) : Nat := (q.index + q.numberInterrupts) % 2 ^ 8 % maxSlots

def push (q : InterruptRelayQueue) (s : Signal) : InterruptRelayQueue :=
  { q with
    numberInterrupts := (q.numberInterrupts + 1) % 2 ^ 8
    slot := Function.update q.slot q.next s }

/-- What the guest does with the first interrupt. -/
def consume (q : InterruptRelayQueue) : Signal × InterruptRelayQueue :=
  (q.slot q.index,
    { q with index := (q.index + 1) % maxSlots, numberInterrupts := q.numberInterrupts - 1 })

/-- The interrupts that the guest has not read. -/
def contents (q : InterruptRelayQueue) : List Signal :=
  (List.range q.numberInterrupts).map fun j => q.slot ((q.index + j) % maxSlots)

end InterruptRelayQueue

/-! ## Interrupts that wait -/

/-- `PendingInterruptArray`. A free place is `none`. -/
structure PendingInterruptArray where
  head : Nat
  elements : Nat → Option Signal

namespace PendingInterruptArray

def arraySize : Nat := 512

def empty : PendingInterruptArray := { head := 0, elements := fun _ => none }

/-- `Push`: the place, unless the one at the head is occupied. -/
def push (a : PendingInterruptArray) (elem : Signal) : Option (Nat × PendingInterruptArray) :=
  if (a.elements a.head).isSome then none
  else some (a.head, { head := (a.head + 1) % arraySize
                       elements := Function.update a.elements a.head (some elem) })

/-- `Pop`. -/
def pop (a : PendingInterruptArray) (at_ : Nat) : Option (Signal × PendingInterruptArray) :=
  if arraySize ≤ at_ then none
  else (a.elements at_).map fun value =>
    (value, { a with elements := Function.update a.elements at_ none })

end PendingInterruptArray

/-! ## Sessions -/

/-- `SessionData`, with the session that it belongs to. -/
structure SessionData where
  session : Nat
  threadId : Nat
  interruptEvent : Option Nat
  registered : Bool
  deriving DecidableEq, Repr

/-- The constructor of `SessionData`, for the thread id that it takes. -/
def SessionData.new (session threadId : Nat) : SessionData :=
  { session := session, threadId := threadId, interruptEvent := none, registered := false }

/-- `GSP_GPU`. No thread id has the GPU right when it is `none`. -/
structure GspGpu where
  connectedSessions : List SessionData
  usedThreadIds : Nat → Bool
  threadIdWithRights : Option Nat
  firstInitialization : Bool
  delayTextureCopyCompletion : Bool
  pendingInterrupts : PendingInterruptArray
  interruptRelayQueue : Nat → InterruptRelayQueue

/-- What becomes of an interrupt that falls due. -/
inductive Outcome where
  /-- No session is registered with the thread id. -/
  | unregistered
  /-- The session has no event. -/
  | noEvent
  /-- Put at the end of the relay queue, and the event signalled. -/
  | queued (event : Nat)
  /-- Reported by `error_code`. -/
  | full
  /-- Counted in `missed_PDC0` or `missed_PDC1`. -/
  | missed
  /-- Not wanted by the guest. -/
  | ignored
  deriving DecidableEq, Repr

/-- What becomes of an interrupt that is signalled. -/
inductive Sent where
  | processed (outcome : Outcome)
  | scheduled (pendingInterruptId : Nat)

/-- The results of `AcquireGpuRight`. -/
inductive AcquireResult where
  | success | alreadyDone | busy
  deriving DecidableEq, Repr

namespace GspGpu

def maxGspThreads : Nat := 4

/-- The service after its constructor. -/
def created : GspGpu :=
  { connectedSessions := [], usedThreadIds := fun _ => false, threadIdWithRights := none,
    firstInitialization := true, delayTextureCopyCompletion := false,
    pendingInterrupts := .empty, interruptRelayQueue := fun _ => .zero }

/-- `GetUnusedThreadId`; `none` is its `UNREACHABLE`. -/
def getUnusedThreadId (g : GspGpu) : Option Nat :=
  (List.range maxGspThreads).find? fun id => !g.usedThreadIds id

/-- `GetSessionData`. -/
def getSessionData (g : GspGpu) (session : Nat) : Option SessionData :=
  g.connectedSessions.find? fun d => d.session = session

/-- A change of the data of one session. -/
def setSessionData (g : GspGpu) (session : Nat) (f : SessionData → SessionData) : GspGpu :=
  { g with connectedSessions := g.connectedSessions.map fun d =>
      if d.session = session then f d else d }

/-- `FindRegisteredThreadData`. -/
def findRegisteredThreadData (g : GspGpu) (threadId : Nat) : Option SessionData :=
  g.connectedSessions.find? fun d => d.registered && d.threadId = threadId

/-- `ClientConnected`. -/
def clientConnected (g : GspGpu) (session : Nat) : Option GspGpu :=
  g.getUnusedThreadId.map fun threadId =>
    { g with
      connectedSessions := g.connectedSessions ++ [SessionData.new session threadId]
      usedThreadIds := Function.update g.usedThreadIds threadId true }

/-- `ReleaseRight`. -/
def releaseRight (g : GspGpu) (data : SessionData) : GspGpu :=
  if g.threadIdWithRights = some data.threadId then { g with threadIdWithRights := none } else g

/-- `ClientDisconnected`, with the destructor of `SessionData`. -/
def clientDisconnected (g : GspGpu) (data : SessionData) : GspGpu :=
  let released := g.releaseRight data
  { released with
    connectedSessions := released.connectedSessions.filter fun d => d.session ≠ data.session
    usedThreadIds := Function.update released.usedThreadIds data.threadId false }

/-- `RegisterInterruptRelayQueue`: whether it is the first initialization, and the thread id. -/
def registerInterruptRelayQueue (g : GspGpu) (data : SessionData) (event : Nat) :
    GspGpu × Bool × Nat :=
  ({ g.setSessionData data.session fun d =>
      { d with interruptEvent := some event, registered := true } with
     firstInitialization := false }, g.firstInitialization, data.threadId)

/-- `UnregisterInterruptRelayQueue`. -/
def unregisterInterruptRelayQueue (g : GspGpu) (data : SessionData) : GspGpu :=
  g.setSessionData data.session fun d => { d with interruptEvent := none, registered := false }

/-- `AcquireGpuRight` for a process with or without the setting of longer texture copies; `none`
is its assertion. -/
def acquireGpuRight (g : GspGpu) (data : SessionData) (delayTextureCopy blocking : Bool) :
    Option (AcquireResult × GspGpu) :=
  let g' := { g with delayTextureCopyCompletion := delayTextureCopy }
  if g.threadIdWithRights = some data.threadId then some (.alreadyDone, g')
  else if g.threadIdWithRights = none then
    some (.success, { g' with threadIdWithRights := some data.threadId })
  else if blocking then none
  else some (.busy, g')

/-! ## Interrupts -/

def setQueue (g : GspGpu) (threadId : Nat) (q : InterruptRelayQueue) : GspGpu :=
  { g with interruptRelayQueue := Function.update g.interruptRelayQueue threadId q }

/-- `queue_interrupt` of `ProcessPendingInterruptImpl`. -/
def queueInterrupt (g : GspGpu) (s : Signal) (event : Nat) : GspGpu × Outcome :=
  let q := g.interruptRelayQueue s.threadId
  if InterruptRelayQueue.maxSlots ≤ q.numberInterrupts then
    (g.setQueue s.threadId { q with errorCode := InterruptRelayQueue.queueFullError }, .full)
  else (g.setQueue s.threadId (q.push s), .queued event)

/-- The count of missed PDC interrupts, in `u32`. -/
def countMissed (q : InterruptRelayQueue) (id : InterruptId) : InterruptRelayQueue :=
  if id = .pdc0 then { q with missedPdc0 := (q.missedPdc0 + 1) % 2 ^ 32 }
  else { q with missedPdc1 := (q.missedPdc1 + 1) % 2 ^ 32 }

/-- `ProcessPendingInterruptImpl`. -/
def processPendingInterruptImpl (g : GspGpu) (s : Signal) : GspGpu × Outcome :=
  match g.findRegisteredThreadData s.threadId with
  | none => (g, .unregistered)
  | some data =>
    match data.interruptEvent with
    | none => (g, .noEvent)
    | some event =>
      let q := g.interruptRelayQueue s.threadId
      if s.interruptId.isPdc then
        if q.ignorePdc then (g, .ignored)
        else if InterruptRelayQueue.stopQueuingPdcThreshold ≤ q.numberInterrupts then
          (g.setQueue s.threadId (countMissed q s.interruptId), .missed)
        else g.queueInterrupt s event
      else g.queueInterrupt s event

def syncDelayNanoseconds : Nat := 300 * 1000
def syncDelayNanosecondsDelayedTexcopy : Nat := 1000 * 1000

/-- The delay that `SignalInterruptForThread` uses, in `u64`. -/
def waitDelay (g : GspGpu) (simulate3dsGpuTimings : Bool) (id : InterruptId)
    (waitDelayNs : Nat) : Nat :=
  if simulate3dsGpuTimings then
    if g.delayTextureCopyCompletion then
      (waitDelayNs + if id = .ppf then syncDelayNanosecondsDelayedTexcopy
        else syncDelayNanoseconds) % 2 ^ 64
    else (waitDelayNs + syncDelayNanoseconds) % 2 ^ 64
  else if g.delayTextureCopyCompletion && id = .ppf then
    (waitDelayNs + syncDelayNanosecondsDelayedTexcopy) % 2 ^ 64
  else 0

/-- `SignalInterruptForThread`. When an interrupt is scheduled, so is an event with its place. -/
def signalInterruptForThread (g : GspGpu) (simulate3dsGpuTimings : Bool) (s : Signal)
    (waitDelayNs : Nat) : GspGpu × Sent :=
  if s.interruptId.isPdc then
    let (g', outcome) := g.processPendingInterruptImpl s
    (g', .processed outcome)
  else if g.waitDelay simulate3dsGpuTimings s.interruptId waitDelayNs ≠ 0 then
    match g.pendingInterrupts.push s with
    | none =>
      -- the queue is full: the interrupt falls due now
      let (g', outcome) := g.processPendingInterruptImpl s
      (g', .processed outcome)
    | some (place, a) => ({ g with pendingInterrupts := a }, .scheduled place)
  else
    let (g', outcome) := g.processPendingInterruptImpl s
    (g', .processed outcome)

/-- `ProcessPendingInterrupt`: the callback of the event. -/
def processPendingInterrupt (g : GspGpu) (place : Nat) : Option (Signal × GspGpu × Outcome) :=
  (g.pendingInterrupts.pop place).map fun (s, a) =>
    (s, { g with pendingInterrupts := a }.processPendingInterruptImpl s)

/-- The thread ids to which `SignalInterrupt` passes an interrupt. -/
def targets (g : GspGpu) (id : InterruptId) : List Nat :=
  if id.isPdc then List.range maxGspThreads else g.threadIdWithRights.toList

end GspGpu

end GbaStation.Gsp
