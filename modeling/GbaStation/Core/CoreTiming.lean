import Mathlib.Algebra.Order.Ring.Int
import Mathlib.Data.Int.Basic
import Mathlib.Data.List.Basic
import Mathlib.Logic.Function.Basic
import Mathlib.Order.Basic

/-!
# Core timing (`core/core_timing.cpp`)

Every core has a timer with a queue of events. `ScheduleEvent` puts an event in the queue of the
current timer, or in the `ts_queue` of a timer when it comes from another core or another thread;
`Advance` moves the latter into the queue and then calls the callbacks of the events that are due.

Ticks are integers: the counter starts below 2^32 and is taken not to overflow. `AddTicks` is given
the cycles after scaling by the clock speed. `serial` and `log` are not in the source: events are
numbered in the order in which they are scheduled, and the log tells what happened to them.
-/

namespace GbaStation.Core

/-- `BASE_CLOCK_RATE_ARM11`. -/
def baseClockRate : Nat := 268111856

/-- `MAX_SLICE_LENGTH`. -/
def maxSliceLength : Int := baseClockRate / 234

/-- `static_cast<int>`. -/
def toInt (x : Int) : Int := x.bmod (2 ^ 32)

structure Event (τ : Type) where
  time : Int
  fifoOrder : Nat
  userData : Nat
  type : τ
  serial : Nat
deriving DecidableEq, Repr

variable {τ σ : Type}

/-- `operator<`: by time, and by the order added to the queue if the times are the same. -/
def Event.before (a b : Event τ) : Prop :=
  a.time < b.time ∨ a.time = b.time ∧ a.fifoOrder < b.fifoOrder

instance (a b : Event τ) : Decidable (a.before b) := inferInstanceAs (Decidable (_ ∨ _))

/-! ## The queue of a timer -/

/-- Put an event behind those that it is not before. -/
def insertEvent (e : Event τ) : List (Event τ) → List (Event τ)
  | [] => [e]
  | x :: xs => if e.before x then e :: x :: xs else x :: insertEvent e xs

theorem insertEvent_perm (e : Event τ) : ∀ xs, (insertEvent e xs).Perm (e :: xs)
  | [] => List.Perm.refl _
  | x :: xs => by
    rw [insertEvent]
    split_ifs
    · exact List.Perm.refl _
    · exact ((insertEvent_perm e xs).cons x).trans (List.Perm.swap e x xs)

/-- An event is before the events of the list, or at the same place. -/
def Ordered (xs : List (Event τ)) : Prop := xs.Pairwise fun a b => ¬b.before a

theorem ordered_insertEvent (e : Event τ) {xs : List (Event τ)} (h : Ordered xs) :
    Ordered (insertEvent e xs) := by
  induction xs with
  | nil => exact List.pairwise_singleton ..
  | cons x xs ih =>
    obtain ⟨hx, hxs⟩ := List.pairwise_cons.mp h
    rw [insertEvent]
    split_ifs with hlt
    · refine List.pairwise_cons.mpr ⟨fun b hb => ?_, h⟩
      rcases List.mem_cons.mp hb with rfl | hb
      · unfold Event.before at *
        omega
      · have := hx b hb
        unfold Event.before at *
        omega
    · refine List.pairwise_cons.mpr ⟨fun b hb => ?_, ih hxs⟩
      rcases List.mem_cons.mp ((insertEvent_perm e xs).mem_iff.mp hb) with rfl | hb
      · exact hlt
      · exact hx b hb

/-- `event_queue`: what a heap keeps, the least event first. -/
structure EventQueue (τ : Type) where
  events : List (Event τ)
  ordered : Ordered events

variable {e x : Event τ}

namespace EventQueue

def empty : EventQueue τ := ⟨[], List.Pairwise.nil⟩

/-- `push_back` and `push_heap`. -/
def push (q : EventQueue τ) (e : Event τ) : EventQueue τ :=
  ⟨insertEvent e q.events, ordered_insertEvent e q.ordered⟩

/-- `pop_heap` and `pop_back`. -/
def pop (q : EventQueue τ) : EventQueue τ := ⟨q.events.tail, q.ordered.tail⟩

/-- `remove_if` and `make_heap`. -/
def removeIf (q : EventQueue τ) (p : Event τ → Bool) : EventQueue τ :=
  ⟨q.events.filter fun e => !p e, q.ordered.filter _⟩

variable {q : EventQueue τ}

@[simp] theorem mem_push : x ∈ (q.push e).events ↔ x = e ∨ x ∈ q.events :=
  (insertEvent_perm e q.events).mem_iff.trans List.mem_cons

@[simp] theorem mem_removeIf {p : Event τ → Bool} :
    x ∈ (q.removeIf p).events ↔ x ∈ q.events ∧ p x = false := by
  simp [removeIf]

theorem mem_of_mem_pop (h : x ∈ q.pop.events) : x ∈ q.events :=
  List.mem_of_mem_tail h

/-- No event is before the first one. -/
theorem front_le {rest : List (Event τ)} (h : q.events = e :: rest) (hx : x ∈ q.events) :
    e.time ≤ x.time := by
  have hq := q.ordered
  rw [h] at hq hx
  rcases List.mem_cons.mp hx with rfl | hx
  · exact Int.le_refl _
  · have := (List.pairwise_cons.mp hq).1 x hx
    unfold Event.before at this
    omega

end EventQueue

/-! ## The timer of a core -/

structure Timer (τ : Type) where
  eventQueue : EventQueue τ := .empty
  eventFifoId : Nat := 0
  /-- The events from other cores and threads. -/
  tsQueue : List (Event τ) := []
  /-- In a call of `Advance`, or before the first one. -/
  isTimerSane : Bool := true
  sliceLength : Int := maxSliceLength
  downcount : Int := maxSliceLength
  executedTicks : Int := 0

namespace Timer

def getTicks (t : Timer τ) : Int :=
  if t.isTimerSane then t.executedTicks else t.executedTicks + (t.sliceLength - t.downcount)

def addTicks (cycles : Nat) (t : Timer τ) : Timer τ := { t with downcount := t.downcount - cycles }

def forceExceptionCheck (cycles : Int) (t : Timer τ) : Timer τ :=
  let cycles := max 0 cycles
  if t.downcount > cycles then
    { t with sliceLength := t.sliceLength - (t.downcount - cycles), downcount := cycles }
  else t

/-- An event that is put in the queue gets the next number of its timer. -/
def enqueue (e : Event τ) (t : Timer τ) : Timer τ :=
  { t with
    eventQueue := t.eventQueue.push { e with fifoOrder := t.eventFifoId }
    eventFifoId := t.eventFifoId + 1 }

def moveEvents (t : Timer τ) : Timer τ :=
  t.tsQueue.foldl (fun t e => t.enqueue e) { t with tsQueue := [] }

/-- `Advance` up to its loop. -/
def beginAdvance (t : Timer τ) : Timer τ :=
  let t := t.moveEvents
  { t with
    executedTicks := t.executedTicks + (t.sliceLength - t.downcount)
    sliceLength := 0
    downcount := 0
    isTimerSane := true }

def setNextSlice (length : Int) (t : Timer τ) : Timer τ :=
  let slice := match t.eventQueue.events with
    | [] => length
    | e :: _ => toInt (min (e.time - t.executedTicks) length)
  { t with sliceLength := slice, downcount := slice }

def idle (t : Timer τ) : Timer τ := { t with downcount := 0 }

end Timer

/-- Forcing an exception check changes the slice only. -/
theorem Timer.forceExceptionCheck_queues (t : Timer τ) (cycles : Int) :
    (t.forceExceptionCheck cycles).eventQueue = t.eventQueue ∧
      (t.forceExceptionCheck cycles).tsQueue = t.tsQueue := by
  unfold Timer.forceExceptionCheck
  simp only
  split_ifs <;> exact ⟨rfl, rfl⟩

/-! ## Events in the queues -/

/-- The event is in the queue of a timer or on its way there. -/
def Timer.Holds (t : Timer τ) (e : Event τ) : Prop := e ∈ t.eventQueue.events ∨ e ∈ t.tsQueue

/-- What an event is but for its place in the queue. -/
def Event.Same (a b : Event τ) : Prop :=
  a.time = b.time ∧ a.userData = b.userData ∧ a.type = b.type ∧ a.serial = b.serial

variable {t : Timer τ}

theorem Timer.mem_enqueue :
    x ∈ (t.enqueue e).eventQueue.events ↔
      x = { e with fifoOrder := t.eventFifoId } ∨ x ∈ t.eventQueue.events :=
  EventQueue.mem_push

/-- Moving events adds those of the `ts_queue`, each with a number of the timer. -/
theorem Timer.mem_foldl_enqueue {es : List (Event τ)} :
    (∀ x ∈ (es.foldl (fun t e => t.enqueue e) t).eventQueue.events,
      x ∈ t.eventQueue.events ∨ ∃ e ∈ es, x.Same e) ∧
    (∀ x ∈ t.eventQueue.events, x ∈ (es.foldl (fun t e => t.enqueue e) t).eventQueue.events) ∧
    ∀ e ∈ es, ∃ x ∈ (es.foldl (fun t e => t.enqueue e) t).eventQueue.events, x.Same e := by
  induction es generalizing t with
  | nil => exact ⟨fun x hx => .inl hx, fun x hx => hx, List.forall_mem_nil _⟩
  | cons e es ih =>
    obtain ⟨hback, hold, hnew⟩ := ih (t := t.enqueue e)
    refine ⟨fun x hx => ?_, fun x hx => hold x (Timer.mem_enqueue.mpr (.inr hx)), ?_⟩
    · rcases hback x hx with hx | ⟨e', he', hsame⟩
      · rcases Timer.mem_enqueue.mp hx with rfl | hx
        · exact .inr ⟨e, List.mem_cons_self, rfl, rfl, rfl, rfl⟩
        · exact .inl hx
      · exact .inr ⟨e', List.mem_cons_of_mem e he', hsame⟩
    · refine List.forall_mem_cons.mpr ⟨?_, hnew⟩
      exact ⟨_, hold _ (Timer.mem_enqueue.mpr (.inl rfl)), rfl, rfl, rfl, rfl⟩

theorem Timer.foldl_enqueue_rest (es : List (Event τ)) (t : Timer τ) :
    (es.foldl (fun t e => t.enqueue e) t).tsQueue = t.tsQueue ∧
      (es.foldl (fun t e => t.enqueue e) t).executedTicks = t.executedTicks ∧
      (es.foldl (fun t e => t.enqueue e) t).sliceLength = t.sliceLength ∧
      (es.foldl (fun t e => t.enqueue e) t).downcount = t.downcount := by
  induction es generalizing t with
  | nil => exact ⟨rfl, rfl, rfl, rfl⟩
  | cons e es ih => exact ih (t.enqueue e)

theorem Timer.tsQueue_beginAdvance (t : Timer τ) : t.beginAdvance.tsQueue = [] :=
  (Timer.foldl_enqueue_rest t.tsQueue { t with tsQueue := [] }).1

theorem Timer.executedTicks_beginAdvance (t : Timer τ) :
    t.beginAdvance.executedTicks = t.executedTicks + (t.sliceLength - t.downcount) := by
  obtain ⟨-, hexec, hslice, hdown⟩ := Timer.foldl_enqueue_rest t.tsQueue { t with tsQueue := [] }
  show t.moveEvents.executedTicks + (t.moveEvents.sliceLength - t.moveEvents.downcount) = _
  unfold Timer.moveEvents
  rw [hexec, hslice, hdown]

/-- What `Advance` finds in the queue was held before. -/
theorem Timer.holds_beginAdvance (h : t.beginAdvance.Holds x) : ∃ e, t.Holds e ∧ x.Same e := by
  rcases h with h | h
  · rcases (Timer.mem_foldl_enqueue (t := { t with tsQueue := [] })).1 x h with h | ⟨e, he, hsame⟩
    · exact ⟨x, .inl h, rfl, rfl, rfl, rfl⟩
    · exact ⟨e, .inr he, hsame⟩
  · rw [Timer.tsQueue_beginAdvance] at h
    cases h

/-! ## All timers -/

/-- What happened, by a call or in `Advance`. -/
inductive Entry (τ : Type) where
  | scheduled (e : Event τ)
  /-- The events that a call of `UnscheduleEvent` or `RemoveEvent` has removed. -/
  | removed (type : τ) (userData : Option Nat) (dropped : List (Event τ))
  /-- The callback of an event was called with the lateness, at the ticks. -/
  | fired (e : Event τ) (cyclesLate ticks : Int)
deriving DecidableEq, Repr

variable {n : Nat}

structure Timing (n : Nat) (τ : Type) where
  timers : Fin n → Timer τ
  /-- `current_timer`. -/
  current : Fin n
  nextSerial : Nat := 0
  /-- The last entry first. -/
  log : List (Entry τ) := []

/-- A call of the timing from a callback. -/
inductive Call (n : Nat) (τ : Type) where
  | schedule (cyclesIntoFuture : Int) (type : τ) (userData : Nat) (core : Option (Fin n))
      (threadSafeMode : Bool)
  | unschedule (type : τ) (userData : Nat)
  | remove (type : τ)

/-- The callbacks of the event types. A callback is given the user data and the lateness, and may
change a state of its own; what it does to the timing are calls. -/
abbrev Callback (n : Nat) (τ σ : Type) := τ → Nat → Int → σ → Timing n τ → σ × List (Call n τ)

variable {core : Fin n}

namespace Timing

/-- A change of the timer of a core. -/
def update (t : Timing n τ) (core : Fin n) (f : Timer τ → Timer τ) : Timing n τ :=
  { t with timers := Function.update t.timers core (f (t.timers core)) }

@[simp] theorem timers_update_self (t : Timing n τ) (core : Fin n) (f : Timer τ → Timer τ) :
    (t.update core f).timers core = f (t.timers core) := Function.update_self ..

theorem timers_update_of_ne (t : Timing n τ) {i : Fin n} (f : Timer τ → Timer τ) (h : i ≠ core) :
    (t.update core f).timers i = t.timers i := Function.update_of_ne h ..

def getTicks (t : Timing n τ) : Int := (t.timers t.current).getTicks

/-- Note an event as scheduled. -/
def note (t : Timing n τ) (e : Event τ) : Timing n τ :=
  { t with nextSerial := t.nextSerial + 1, log := .scheduled e :: t.log }

def scheduleEvent (t : Timing n τ) (cyclesIntoFuture : Int) (type : τ) (userData : Nat)
    (core : Option (Fin n)) (threadSafeMode : Bool) : Timing n τ :=
  let i := core.getD t.current
  let timer := t.timers i
  if threadSafeMode then
    -- Events of other threads come no earlier than the next advance.
    let cyclesIntoFuture := max (maxSliceLength * 2) cyclesIntoFuture
    let e : Event τ := ⟨timer.getTicks + cyclesIntoFuture, 0, userData, type, t.nextSerial⟩
    (t.update i fun timer => { timer with tsQueue := timer.tsQueue ++ [e] }).note e
  else
    let e : Event τ := ⟨timer.getTicks + cyclesIntoFuture, 0, userData, type, t.nextSerial⟩
    if t.current = i then
      -- If this event needs to be scheduled before the next advance, force one early.
      let timer := if timer.isTimerSane then timer else timer.forceExceptionCheck cyclesIntoFuture
      (t.update i fun _ => timer.enqueue e).note e
    else (t.update i fun timer => { timer with tsQueue := timer.tsQueue ++ [e] }).note e

/-- Events of the type, and with the user data if there are any. -/
def matching [DecidableEq τ] (type : τ) (userData : Option Nat) (e : Event τ) : Bool :=
  decide (e.type = type ∧ (userData = none ∨ userData = some e.userData))

/-- The events of the queues of the timers that match. -/
def dropped [DecidableEq τ] (t : Timing n τ) (type : τ) (userData : Option Nat) : List (Event τ) :=
  (List.finRange n).flatMap fun i =>
    (t.timers i).eventQueue.events.filter (matching type userData)

/-- The loop of `UnscheduleEvent` and of `RemoveEvent`; events of a `ts_queue` stay. -/
def removeMatching [DecidableEq τ] (t : Timing n τ) (type : τ) (userData : Option Nat) :
    Timing n τ :=
  { t with
    timers := fun i => { t.timers i with
      eventQueue := (t.timers i).eventQueue.removeIf (matching type userData) }
    log := .removed type userData (t.dropped type userData) :: t.log }

def unscheduleEvent [DecidableEq τ] (t : Timing n τ) (type : τ) (userData : Nat) : Timing n τ :=
  t.removeMatching type (some userData)

def removeEvent [DecidableEq τ] (t : Timing n τ) (type : τ) : Timing n τ :=
  t.removeMatching type none

def setCurrentTimer (t : Timing n τ) (core : Fin n) : Timing n τ := { t with current := core }

/-- A call that a callback makes. -/
def perform [DecidableEq τ] (t : Timing n τ) : Call n τ → Timing n τ
  | .schedule cycles type userData core threadSafeMode =>
    t.scheduleEvent cycles type userData core threadSafeMode
  | .unschedule type userData => t.unscheduleEvent type userData
  | .remove type => t.removeEvent type

/-- `static_cast<int>(executed_ticks - evt.time)`. -/
def lateness (t : Timing n τ) (core : Fin n) (e : Event τ) : Int :=
  toInt ((t.timers core).executedTicks - e.time)

/-- Take the front event out of the queue. -/
def take (t : Timing n τ) (core : Fin n) (e : Event τ) : Timing n τ :=
  { t.update core fun timer => { timer with eventQueue := timer.eventQueue.pop } with
    log := .fired e (t.lateness core e) (t.timers core).executedTicks :: t.log }

@[simp] theorem timers_take_self (t : Timing n τ) (core : Fin n) (e : Event τ) :
    (t.take core e).timers core =
      { t.timers core with eventQueue := (t.timers core).eventQueue.pop } :=
  Function.update_self ..

theorem timers_take_of_ne (t : Timing n τ) {i : Fin n} (e : Event τ) (h : i ≠ core) :
    (t.take core e).timers i = t.timers i := Function.update_of_ne h ..

/-- One turn of the loop of `Advance`, for the front event. -/
def fire [DecidableEq τ] (callback : Callback n τ σ) (core : Fin n) (e : Event τ) (s : σ)
    (t : Timing n τ) : σ × Timing n τ :=
  let (s, calls) := callback e.type e.userData (t.lateness core e) s (t.take core e)
  (s, calls.foldl perform (t.take core e))

/-- The loop of `Advance`. -/
def drain [DecidableEq τ] (callback : Callback n τ σ) (core : Fin n) :
    Nat → σ → Timing n τ → Option (σ × Timing n τ)
  | 0, _, _ => none
  | turns + 1, s, t =>
    match (t.timers core).eventQueue.events with
    | [] => some (s, t)
    | e :: _ =>
      if e.time ≤ (t.timers core).executedTicks then
        let (s, t) := fire callback core e s t
        drain callback core turns s t
      else some (s, t)

/-- `Advance` of the timer of a core. -/
def advance [DecidableEq τ] (callback : Callback n τ σ) (core : Fin n) (turns : Nat) (s : σ)
    (t : Timing n τ) : Option (σ × Timing n τ) :=
  (drain callback core turns s (t.update core Timer.beginAdvance)).map fun (s, t) =>
    (s, t.update core fun timer => { timer with isTimerSane := false })

/-- The timing of a system that starts. -/
def initial (current : Fin n) (baseTicks : Int) : Timing n τ where
  timers := fun _ => { executedTicks := baseTicks }
  current := current

end Timing

/-! ## Runs -/

/-- A call from outside of the callbacks. -/
inductive Step (n : Nat) (τ : Type) where
  | call (c : Call n τ)
  | addTicks (cycles : Nat)
  | forceExceptionCheck (core : Fin n) (cycles : Int)
  | advance (core : Fin n) (turns : Nat)
  | setNextSlice (core : Fin n) (length : Int)
  | idle (core : Fin n)
  | setCurrentTimer (core : Fin n)

/-- What a call does; there is no result if `Advance` does not end in the turns. -/
def Step.run [DecidableEq τ] (callback : Callback n τ σ) (s : σ) (t : Timing n τ) :
    Step n τ → Option (σ × Timing n τ)
  | .call c => some (s, t.perform c)
  | .addTicks cycles => some (s, t.update t.current (Timer.addTicks cycles))
  | .forceExceptionCheck core cycles => some (s, t.update core (Timer.forceExceptionCheck cycles))
  | .advance core turns => t.advance callback core turns s
  | .setNextSlice core length => some (s, t.update core (Timer.setNextSlice length))
  | .idle core => some (s, t.update core Timer.idle)
  | .setCurrentTimer core => some (s, t.setCurrentTimer core)

def runSteps [DecidableEq τ] (callback : Callback n τ σ) :
    List (Step n τ) → σ → Timing n τ → Option (σ × Timing n τ)
  | [], s, t => some (s, t)
  | step :: steps, s, t =>
    match step.run callback s t with
    | none => none
    | some (s, t) => runSteps callback steps s t

variable {s s' : σ}

theorem runSteps_cons [DecidableEq τ] {callback : Callback n τ σ} {step : Step n τ}
    {steps : List (Step n τ)} {t t' : Timing n τ} (h : step.run callback s t = some (s', t')) :
    runSteps callback (step :: steps) s t = runSteps callback steps s' t' := by
  rw [runSteps, h]

/-- Each step of a run meets a condition on the step and the state before it. -/
def EachStep [DecidableEq τ] (callback : Callback n τ σ) (StepOk : Timing n τ → Step n τ → Prop) :
    List (Step n τ) → σ → Timing n τ → Prop
  | [], _, _ => True
  | step :: steps, s, t =>
    StepOk t step ∧
      ∀ s' t', step.run callback s t = some (s', t') → EachStep callback StepOk steps s' t'

theorem eachStep_true [DecidableEq τ] (callback : Callback n τ σ) (steps : List (Step n τ)) (s : σ)
    (t : Timing n τ) : EachStep callback (fun _ _ => True) steps s t := by
  induction steps generalizing s t with
  | nil => trivial
  | cons step steps ih => exact ⟨trivial, fun s' t' _ => ih s' t'⟩

/-! ## Invariants of runs -/

section Invariant

variable [DecidableEq τ]

/-- What an invariant `I` needs, where `J core` takes its place in the loop of `Advance`, the
callbacks make calls with `CallOk`, and a step is only taken with `StepOk`. -/
structure Invariant (callback : Callback n τ σ) (I : Timing n τ → Prop)
    (J : Fin n → Timing n τ → Prop)
    (CallOk : Call n τ → Prop) (StepOk : Timing n τ → Step n τ → Prop) : Prop where
  start : ∀ {t core turns}, I t → StepOk t (.advance core turns) →
    J core (t.update core Timer.beginAdvance)
  take : ∀ {t core e rest}, J core t → (t.timers core).eventQueue.events = e :: rest →
    e.time ≤ (t.timers core).executedTicks → J core (t.take core e)
  call : ∀ {t core c}, J core t → CallOk c → J core (t.perform c)
  stop : ∀ {t core}, J core t →
    (∀ e ∈ (t.timers core).eventQueue.events, (t.timers core).executedTicks < e.time) →
    I (t.update core fun timer => { timer with isTimerSane := false })
  other : ∀ {t s s' t' step}, I t → StepOk t step → (∀ core turns, step ≠ .advance core turns) →
    Step.run callback s t step = some (s', t') → I t'

variable {callback : Callback n τ σ} {I : Timing n τ → Prop} {J : Fin n → Timing n τ → Prop}
  {CallOk : Call n τ → Prop} {StepOk : Timing n τ → Step n τ → Prop}

theorem Invariant.drain (h : Invariant callback I J CallOk StepOk)
    (hcalls : ∀ type userData late s t, ∀ c ∈ (callback type userData late s t).2, CallOk c)
    {turns : Nat} {t t' : Timing n τ} (hJ : J core t)
    (hrun : Timing.drain callback core turns s t = some (s', t')) :
    J core t' ∧
      ∀ e ∈ (t'.timers core).eventQueue.events, (t'.timers core).executedTicks < e.time := by
  induction turns generalizing s t with
  | zero => cases hrun
  | succ turns ih =>
    rw [Timing.drain] at hrun
    cases hevents : (t.timers core).eventQueue.events with
    | nil =>
      rw [hevents] at hrun
      cases hrun
      exact ⟨hJ, by rw [hevents]; exact List.forall_mem_nil _⟩
    | cons e rest =>
      rw [hevents] at hrun
      simp only at hrun
      by_cases hdue : e.time ≤ (t.timers core).executedTicks
      · rw [if_pos hdue] at hrun
        refine ih ?_ hrun
        -- The calls of the callback, one after the other.
        have hfold : ∀ (calls : List (Call n τ)) (t : Timing n τ), (∀ c ∈ calls, CallOk c) →
            J core t → J core (calls.foldl Timing.perform t) := by
          intro calls
          induction calls with
          | nil => exact fun t _ hJ => hJ
          | cons c calls ih =>
            intro t hok hJ
            obtain ⟨hc, hok⟩ := List.forall_mem_cons.mp hok
            exact ih _ hok (h.call hJ hc)
        exact hfold _ _ (hcalls _ _ _ _ _) (h.take hJ hevents hdue)
      · rw [if_neg hdue] at hrun
        cases hrun
        refine ⟨hJ, fun x hx => ?_⟩
        have := EventQueue.front_le hevents hx
        omega

theorem Invariant.advance (h : Invariant callback I J CallOk StepOk)
    (hcalls : ∀ type userData late s t, ∀ c ∈ (callback type userData late s t).2, CallOk c)
    {turns : Nat} {t t' : Timing n τ} (hI : I t) (hok : StepOk t (.advance core turns))
    (hrun : t.advance callback core turns s = some (s', t')) : I t' := by
  obtain ⟨⟨s₁, t₁⟩, hdrain, heq⟩ := Option.map_eq_some_iff.mp hrun
  cases heq
  obtain ⟨hJ, hlate⟩ := h.drain hcalls (h.start hI hok) hdrain
  exact h.stop hJ hlate

theorem Invariant.step (h : Invariant callback I J CallOk StepOk)
    (hcalls : ∀ type userData late s t, ∀ c ∈ (callback type userData late s t).2, CallOk c)
    {step : Step n τ} {s s' : σ} {t t' : Timing n τ} (hI : I t) (hok : StepOk t step)
    (hrun : step.run callback s t = some (s', t')) : I t' := by
  cases step with
  | advance core turns => exact h.advance hcalls hI hok hrun
  | _ => exact h.other hI hok (by simp) hrun

/-- An invariant holds along every run. -/
theorem Invariant.run (h : Invariant callback I J CallOk StepOk)
    (hcalls : ∀ type userData late s t, ∀ c ∈ (callback type userData late s t).2, CallOk c)
    {steps : List (Step n τ)} {s s' : σ} {t t' : Timing n τ} (hI : I t)
    (hsteps : EachStep callback StepOk steps s t)
    (hrun : runSteps callback steps s t = some (s', t')) : I t' := by
  induction steps generalizing s t with
  | nil =>
    cases hrun
    exact hI
  | cons step steps ih =>
    obtain ⟨hok, hsteps⟩ := hsteps
    rw [runSteps] at hrun
    cases hstep : step.run callback s t with
    | none =>
      rw [hstep] at hrun
      cases hrun
    | some next =>
      obtain ⟨s₁, t₁⟩ := next
      rw [hstep] at hrun
      exact ih (h.step hcalls hI hok hstep) (hsteps s₁ t₁ hstep) hrun

end Invariant

end GbaStation.Core
