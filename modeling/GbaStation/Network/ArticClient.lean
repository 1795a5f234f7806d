import GbaStation.Common.Interleaving
import GbaStation.Common.PagedMemory
import Mathlib.Data.Finset.Card
import Mathlib.Data.Fintype.Card

/-!
# The Artic client (`network/artic_base/artic_base_client.cpp`)

A request is sent by any thread in `Client::Send`, which then waits. The response arrives at one of
the handlers, each a thread with a socket of its own. They meet in `pending_responses`, a map from
request ids to entries on the stacks of the senders.

- `step`: one section of one thread. A section holds one lock, or does not touch what is shared.

What a socket gives comes with an event. A read or write through an entry that is not there any more
is undefined; there is no step for it, nor for a buffer of negative size, which throws. `received`
and `completions` are not in the source. What is written to the server is not modelled.
-/

namespace GbaStation.Network

namespace Artic

/-- `ResponseMethod::ArticResult`. -/
def success : Nat := 0
def methodNotFound : Nat := 1
def methodError : Nat := 2
def provideInput : Nat := 3

/-- `MethodState::INTERNAL_METHOD_ERROR`. -/
def internalMethodError : Int := 9

structure DataPacket where
  requestId : Nat
  articResult : Nat
  methodResult : Int
  bufferSize : Int
deriving DecidableEq

/-- `Client::Response`. `methodState` shares its place with `methodResult`. It starts in an error
state, in case the request is not fulfilled. -/
structure Response where
  articResult : Nat := methodError
  methodResult : Int := internalMethodError
  respDataBuffer : Option (List Byte) := none
  respDataSize : Nat := 0
deriving DecidableEq

/-- What a handler makes of a packet, with what it has read into the buffer. -/
def Response.fill (r : Response) (packet : DataPacket) (body : List Byte) : Response :=
  if packet.articResult = success then
    let r := { r with articResult := packet.articResult, methodResult := packet.methodResult }
    if packet.bufferSize ≠ 0 then
      { r with respDataBuffer := some body, respDataSize := packet.bufferSize.toNat }
    else r
  else if packet.articResult = methodNotFound then { r with articResult := packet.articResult }
  else { r with articResult := packet.articResult, methodResult := packet.methodResult }

structure PendingResponse where
  isDone : Bool := false
  response : Response := {}
  /-- The packets that the response was filled with. -/
  received : List (DataPacket × List Byte) := []
  /-- How often it was done. -/
  completions : Nat := 0
deriving DecidableEq

/-- Where a `Send` is. -/
inductive SendState
  | ready
  | registering
  | sending
  | checking (sent : Bool)
  | leaving
  | waiting
  | returned (result : Option Response)
deriving DecidableEq

/-- The entry has been registered, and `Send` has not returned. -/
def SendState.active : SendState → Bool
  | .sending | .checking _ | .leaving | .waiting => true
  | .ready | .registering | .returned _ => false

/-- Where the thread of a handler is. -/
inductive HandlerState (S : Type)
  | starting
  | reading
  | working (s : S) (packet : DataPacket)
  | erasing (s : S) (packet : DataPacket)
  | completing (s : S)
  | leaving
  | finishing
  | exited
deriving DecidableEq

structure Client (S H : Type) where
  stopped : Bool := false
  /-- The main socket has been created. -/
  connected : Bool := true
  pendingResponses : Nat → Option S := fun _ => none
  send : S → SendState := fun _ => .ready
  entry : S → PendingResponse := fun _ => {}
  handler : H → HandlerState S := fun _ => .starting
  shouldRun : H → Bool := fun _ => true
  runningHandlers : Nat

inductive Event (S H : Type)
  /-- `Send` begins, and looks at `stopped`. -/
  | begin (s : S)
  | register (s : S)
  | sendRequestPacket (s : S) (written : Bool)
  /-- `Send` looks at `stopped` again. -/
  | check (s : S)
  | leave (s : S)
  | wake (s : S)
  /-- A handler creates its socket and connects it. -/
  | connect (h : H) (created connected : Bool)
  | receive (h : H) (packet : DataPacket)
  | work (h : H) (body : List Byte) (done : Bool)
  | erase (h : H)
  | complete (h : H)
  /-- Reading has failed too often. -/
  | giveUp (h : H)
  /-- The loop of a handler ends. -/
  | stopRunning (h : H)
  | exit (h : H)
  | finish (h : H)
  | stop
  /-- `StopImpl` stops a handler. -/
  | stopHandler (h : H)

namespace Client

variable {S H : Type} [DecidableEq S] [DecidableEq H]

/-- The entry is on the stack of a `Send` that has not returned. -/
def Alive (c : Client S H) (s : S) : Prop := (c.send s).active = true

instance (c : Client S H) (s : S) : Decidable (c.Alive s) := inferInstanceAs (Decidable (_ = _))

def setSend (c : Client S H) (s : S) (state : SendState) : Client S H :=
  { c with send := Function.update c.send s state }

def setHandler (c : Client S H) (h : H) (state : HandlerState S) : Client S H :=
  { c with handler := Function.update c.handler h state }

def setEntry (c : Client S H) (s : S) (entry : PendingResponse) : Client S H :=
  { c with entry := Function.update c.entry s entry }

def setPending (c : Client S H) (id : Nat) (s : Option S) : Client S H :=
  { c with pendingResponses := Function.update c.pendingResponses id s }

/-- The first section of `StopImpl`: nothing more if the client has stopped. -/
def stop (c : Client S H) : Client S H := { c with stopped := true }

/-- `signal_error` of a handler. -/
def signalError (c : Client S H) (h : H) : Client S H := if c.shouldRun h then c.stop else c

/-- `is_done = true`, and waking the sender. -/
def PendingResponse.complete (entry : PendingResponse) : PendingResponse :=
  { entry with isDone := true, completions := entry.completions + 1 }

/-! ## `Send` -/

section Send

variable (requestId : S → Nat) (c : Client S H) (s : S)

def begin : Option (Client S H) :=
  if c.send s = .ready then
    some (c.setSend s (if c.stopped then .returned none else .registering))
  else none

def register : Option (Client S H) :=
  if c.send s = .registering then
    some (((c.setEntry s {}).setPending (requestId s) (some s)).setSend s .sending)
  else none

/-- Without a socket nothing is sent; when writing fails the client is stopped. -/
def sendRequestPacket (written : Bool) : Option (Client S H) :=
  if c.send s = .sending then
    if c.connected = false then some (c.setSend s (.checking false))
    else if written then some (c.setSend s (.checking true))
    else some (c.stop.setSend s (.checking false))
  else none

def check : Option (Client S H) :=
  match c.send s with
  | .checking sent => some (c.setSend s (if c.stopped ∨ sent = false then .leaving else .waiting))
  | _ => none

def leave : Option (Client S H) :=
  if c.send s = .leaving then
    some ((c.setPending (requestId s) none).setSend s (.returned none))
  else none

def wake : Option (Client S H) :=
  if c.send s = .waiting ∧ (c.entry s).isDone then
    some (c.setSend s (.returned (some (c.entry s).response)))
  else none

end Send

/-! ## Handlers -/

section Handlers

variable (requestId : S → Nat) (c : Client S H) (h : H)

/-- A handler that cannot create its socket just ends. -/
def connect (created connected : Bool) : Option (Client S H) :=
  if c.handler h = .starting then
    if created = false then some (c.setHandler h .leaving)
    else if connected = false then some (c.stop.setHandler h .leaving)
    else some (c.setHandler h .reading)
  else none

def receive (packet : DataPacket) : Option (Client S H) :=
  if c.handler h = .reading ∧ c.shouldRun h then
    match c.pendingResponses packet.requestId with
    | none => some c
    | some s => some (c.setHandler h (.working s packet))
  else none

/-- Reading the buffer of a response or writing the one of a request may fail. -/
def work (body : List Byte) (done : Bool) : Option (Client S H) :=
  match c.handler h with
  | .working s packet =>
    if ¬c.Alive s then none
    else if packet.articResult = provideInput then
      if done then some (c.setHandler h .reading)
      else some ((c.signalError h).setHandler h (.erasing s packet))
    else if packet.articResult = success ∧ packet.bufferSize < 0 then none
    else
      let entry := c.entry s
      let c' := c.setEntry s { entry with
        response := entry.response.fill packet body
        received := (packet, body) :: entry.received }
      let failed := packet.articResult = success ∧ packet.bufferSize ≠ 0 ∧ done = false
      some ((if failed then c'.signalError h else c').setHandler h (.erasing s packet))
  | _ => none

def erase : Option (Client S H) :=
  match c.handler h with
  | .erasing s packet => some ((c.setPending packet.requestId none).setHandler h (.completing s))
  | _ => none

def complete : Option (Client S H) :=
  match c.handler h with
  | .completing s =>
    if c.Alive s then
      some ((c.setEntry s (PendingResponse.complete (c.entry s))).setHandler h .reading)
    else none
  | _ => none

def giveUp : Option (Client S H) :=
  if c.handler h = .reading ∧ c.shouldRun h then some (c.stop.setHandler h .leaving) else none

def stopRunning : Option (Client S H) :=
  if c.handler h = .reading ∧ c.shouldRun h = false then some (c.setHandler h .leaving) else none

/-- The last handler goes on with `OnAllHandlersFinished`. -/
def exit : Option (Client S H) :=
  if c.handler h = .leaving then
    let running := c.runningHandlers - 1
    some ({ c with
      runningHandlers := running
      shouldRun := Function.update c.shouldRun h false }.setHandler h
        (if running = 0 then .finishing else .exited))
  else none

/-- `OnAllHandlersFinished`. An entry is pending under its own request id. -/
def finish : Option (Client S H) :=
  if c.handler h = .finishing then
    some ({ c with
      pendingResponses := fun _ => none
      entry := fun s =>
        if c.pendingResponses (requestId s) = some s then PendingResponse.complete (c.entry s)
        else c.entry s }.setHandler h .exited)
  else none

def stopHandler : Option (Client S H) :=
  if c.stopped then some { c with shouldRun := Function.update c.shouldRun h false } else none

end Handlers

def step (requestId : S → Nat) (c : Client S H) : Event S H → Option (Client S H)
  | .begin s => c.begin s
  | .register s => c.register requestId s
  | .sendRequestPacket s written => c.sendRequestPacket s written
  | .check s => c.check s
  | .leave s => c.leave requestId s
  | .wake s => c.wake s
  | .connect h created connected => c.connect h created connected
  | .receive h packet => c.receive h packet
  | .work h body done => c.work h body done
  | .erase h => c.erase h
  | .complete h => c.complete h
  | .giveUp h => c.giveUp h
  | .stopRunning h => c.stopRunning h
  | .exit h => c.exit h
  | .finish h => c.finish requestId h
  | .stop => some c.stop
  | .stopHandler h => c.stopHandler h

/-- A client with its handlers, which have not started yet. -/
def create [Fintype H] (connected : Bool) : Client S H where
  connected := connected
  runningHandlers := Fintype.card H

end Client

end Artic

end GbaStation.Network
