import GbaStation.Common.Interleaving
import GbaStation.Gsp.InterruptRelay

/-!
# Runs of the interrupt relay

Sessions come and go, the GPU signals, the timing calls back in any order, and the guest reads its
relay queue from the front. A run keeps a record of what was signalled, what fell due and what was
read.
-/

namespace GbaStation.Gsp

/-- An interrupt that fell due: the session that was registered with its thread id, the relay queue
of the thread id before, and what became of it. -/
structure Fall where
  signal : Signal
  session : Option Nat
  queue : InterruptRelayQueue
  outcome : Outcome

structure Run where
  gsp : GspGpu
  /-- The places whose events are scheduled. -/
  scheduled : List Nat
  /-- How many sessions there have been. -/
  sessions : Nat
  signalled : List Signal
  /-- In the order in which they fell due. -/
  due : List Fall
  /-- What the guest has read, and the session for which. -/
  read : List (Nat × Signal)

inductive Action where
  | connect
  | disconnect (session : Nat)
  | register (session event : Nat)
  | unregister (session : Nat)
  | acquireRight (session : Nat) (delayTextureCopy blocking : Bool)
  | releaseRight (session : Nat)
  | signalInterrupt (id : InterruptId) (waitDelayNs : Nat) (simulate3dsGpuTimings : Bool)
  | callback (place : Nat)
  /-- The guest takes the first interrupt out of its relay queue. -/
  | consume (session : Nat)
  /-- The guest says whether it wants PDC interrupts. -/
  | configure (session : Nat) (ignorePdc : Bool)

namespace Run

def init : Run :=
  { gsp := .created, scheduled := [], sessions := 0, signalled := [], due := [], read := [] }

/-- The session that has a thread id. -/
def holder (r : Run) (threadId : Nat) : Option Nat :=
  (r.gsp.connectedSessions.find? fun d => d.threadId = threadId).map (·.session)

/-- The record of an interrupt that falls due, with the service after it. -/
def fall (r : Run) (s : Signal) (after : GspGpu) (outcome : Outcome) : Run :=
  { r with
    gsp := after
    due := r.due ++ [{ signal := s
                       session := (r.gsp.findRegisteredThreadData s.threadId).map (·.session)
                       queue := r.gsp.interruptRelayQueue s.threadId
                       outcome := outcome }] }

/-- The next signal for a thread id. -/
def newSignal (r : Run) (id : InterruptId) (threadId : Nat) : Signal :=
  { interruptId := id, threadId := threadId, number := r.signalled.length,
    session := r.holder threadId }

/-- `SignalInterruptForThread`. -/
def signalForThread (id : InterruptId) (waitDelayNs : Nat) (simulate : Bool) (r : Run)
    (threadId : Nat) : Run :=
  let s := r.newSignal id threadId
  let r' := { r with signalled := r.signalled ++ [s] }
  match r.gsp.signalInterruptForThread simulate s waitDelayNs with
  | (after, .processed outcome) => r'.fall s after outcome
  | (after, .scheduled place) => { r' with gsp := after, scheduled := r.scheduled ++ [place] }

def withGsp (r : Run) (gsp : GspGpu) : Run := { r with gsp := gsp }

def step (r : Run) : Action → Option Run
  | .connect =>
    (r.gsp.clientConnected r.sessions).map fun gsp =>
      { r with gsp := gsp, sessions := r.sessions + 1 }
  | .disconnect session =>
    (r.gsp.getSessionData session).map fun data => r.withGsp (r.gsp.clientDisconnected data)
  | .register session event =>
    (r.gsp.getSessionData session).map fun data =>
      r.withGsp (r.gsp.registerInterruptRelayQueue data event).1
  | .unregister session =>
    (r.gsp.getSessionData session).map fun data =>
      r.withGsp (r.gsp.unregisterInterruptRelayQueue data)
  | .acquireRight session delayTextureCopy blocking =>
    (r.gsp.getSessionData session).bind fun data =>
      (r.gsp.acquireGpuRight data delayTextureCopy blocking).map fun (_, gsp) => r.withGsp gsp
  | .releaseRight session =>
    (r.gsp.getSessionData session).map fun data => r.withGsp (r.gsp.releaseRight data)
  | .signalInterrupt id waitDelayNs simulate =>
    some ((r.gsp.targets id).foldl (signalForThread id waitDelayNs simulate) r)
  | .callback place =>
    if place ∈ r.scheduled then
      let r' := { r with scheduled := r.scheduled.erase place }
      match r.gsp.processPendingInterrupt place with
      | none => some r'
      | some (s, after, outcome) => some (r'.fall s after outcome)
    else none
  | .consume session =>
    (r.gsp.getSessionData session).bind fun data =>
      let q := r.gsp.interruptRelayQueue data.threadId
      if q.numberInterrupts = 0 then none
      else some { r with
        gsp := r.gsp.setQueue data.threadId q.consume.2
        read := r.read ++ [(session, q.consume.1)] }
  | .configure session ignorePdc =>
    (r.gsp.getSessionData session).map fun data =>
      r.withGsp (r.gsp.setQueue data.threadId
        { r.gsp.interruptRelayQueue data.threadId with ignorePdc := ignorePdc })

end Run

end GbaStation.Gsp
