import GbaStation.Common.Interleaving
import GbaStation.Common.RingCells

/-!
# Bounded queue (`common/bounded_threadsafe_queue.h`)

`MPSCQueue`: a `SPSCQueue` whose producers hold a mutex. A side that has to wait sleeps on a
condition variable with a mutex of its own, and the indices are advanced outside of both mutexes.

- `boundedQueue_correct`: order, bounds, and no lost wake-up.

Of the producers only the one with the write mutex is inside of the queue, so at most one thread
waits on each condition variable. A thread that waits may wake at any time; so a stop request needs
no wake-up of its own. `emplaced` and `popped` are not in the source.
-/

namespace GbaStation.Queues

open RingCells

/-- `Capacity`, with what is asserted of it. -/
structure QueueParams where
  capacity : Nat
  powerOfTwo : ∃ bits < 64, capacity = 2 ^ bits

inductive PushMode where
  | tryPush
  | waitPush
deriving DecidableEq

inductive PopMode where
  | tryPop
  | waitPop
  | waitPopWithStopToken
deriving DecidableEq

/-- A call of `Emplace` of the thread that holds the write mutex, before the step of the name. -/
inductive Emplacing (α : Type) where
  /-- No thread holds the write mutex. -/
  | idle
  | loadWrite (mode : PushMode) (t : α)
  /-- The check for a free slot of `TryEmplace`. -/
  | tryCheck (t : α) (writeIndex : Nat)
  | lockProducer (t : α) (writeIndex : Nat)
  | check (t : α) (writeIndex : Nat)
  /-- There is no free slot; the mutex is given back on going to sleep. -/
  | sleep (t : α) (writeIndex : Nat)
  | asleep (t : α) (writeIndex : Nat)
  | unlockProducer (t : α) (writeIndex : Nat)
  | construct (t : α) (writeIndex : Nat)
  | increment (t : α)
  | lockConsumer
  | notify
  | unlockConsumer
  | unlockWrite

/-- A call of `Pop`, before the step of the name. -/
inductive Popping (α : Type) where
  | idle
  | loadRead (mode : PopMode)
  | tryCheck (readIndex : Nat)
  | lockConsumer (mode : PopMode) (readIndex : Nat)
  | check (mode : PopMode) (readIndex : Nat)
  /-- The queue was empty; a stop request ends the wait as well. -/
  | checkStop (mode : PopMode) (readIndex : Nat)
  | sleep (mode : PopMode) (readIndex : Nat)
  | asleep (mode : PopMode) (readIndex : Nat)
  | unlockConsumer (mode : PopMode) (readIndex : Nat)
  | testStop (readIndex : Nat)
  | move (readIndex : Nat)
  | increment (t : α)
  | lockProducer
  | notify
  | unlockProducer

inductive Side where
  | producer
  | consumer
deriving DecidableEq

structure BoundedQueue (α P : Type) where
  readIndex : Nat := 0
  writeIndex : Nat := 0
  /-- The slots; one is empty until an element is constructed in it and after it was moved. -/
  data : Nat → Option α := fun _ => none
  /-- The producers that wait for the write mutex. -/
  calls : P → Option (PushMode × α) := fun _ => none
  writeMutex : Option P := none
  producer : Emplacing α := .idle
  consumer : Popping α := .idle
  producerCvMutex : Option Side := none
  consumerCvMutex : Option Side := none
  /-- Of the stop token of the last call. -/
  stopRequested : Bool := false
  emplaced : List α := []
  popped : List α := []

/-- What happens next: a call starts, a producer takes the write mutex, a side takes its next step,
a sleeping side wakes, or a stop is requested. -/
inductive QueueAction (α P : Type) where
  | emplace (i : P) (mode : PushMode) (t : α)
  | lockWrite (i : P)
  | producer
  | wakeProducer
  | pop (mode : PopMode) (stopRequested : Bool)
  | consumer
  | wakeConsumer
  | requestStop

/-- Waking from `producer_cv`: the mutex has to be taken again, and the predicate checked. -/
def Emplacing.wake {α : Type} : Emplacing α → Emplacing α
  | .asleep t writeIndex => .lockProducer t writeIndex
  | e => e

/-- Waking from `consumer_cv`. -/
def Popping.wake {α : Type} : Popping α → Popping α
  | .asleep mode readIndex => .lockConsumer mode readIndex
  | c => c

namespace BoundedQueue

variable {α P : Type} [DecidableEq P] (p : QueueParams)

def numStored (q : BoundedQueue α P) : Nat := sub64 q.writeIndex q.readIndex

/-- The next step of the producer with the write mutex. A mutex that is taken has to be waited
for. -/
def stepProducer (q : BoundedQueue α P) : Option (BoundedQueue α P) :=
  match q.producer with
  | .idle => none
  | .loadWrite .tryPush t => some { q with producer := .tryCheck t q.writeIndex }
  | .loadWrite .waitPush t => some { q with producer := .lockProducer t q.writeIndex }
  | .tryCheck t writeIndex =>
    if sub64 writeIndex q.readIndex = p.capacity then some { q with producer := .unlockWrite }
    else some { q with producer := .construct t writeIndex }
  | .lockProducer t writeIndex =>
    if q.producerCvMutex = none then
      some { q with producerCvMutex := some .producer, producer := .check t writeIndex }
    else none
  | .check t writeIndex =>
    if sub64 writeIndex q.readIndex < p.capacity then
      some { q with producer := .unlockProducer t writeIndex }
    else some { q with producer := .sleep t writeIndex }
  | .sleep t writeIndex =>
    some { q with producerCvMutex := none, producer := .asleep t writeIndex }
  | .asleep _ _ => none
  | .unlockProducer t writeIndex =>
    some { q with producerCvMutex := none, producer := .construct t writeIndex }
  | .construct t writeIndex =>
    let pos := writeIndex % p.capacity
    some { q with data := Function.update q.data pos (some t), producer := .increment t }
  | .increment t =>
    some { q with
      writeIndex := (q.writeIndex + 1) % 2 ^ 64
      emplaced := q.emplaced ++ [t]
      producer := .lockConsumer }
  | .lockConsumer =>
    if q.consumerCvMutex = none then
      some { q with consumerCvMutex := some .producer, producer := .notify }
    else none
  | .notify => some { q with consumer := q.consumer.wake, producer := .unlockConsumer }
  | .unlockConsumer => some { q with consumerCvMutex := none, producer := .unlockWrite }
  | .unlockWrite => some { q with writeMutex := none, producer := .idle }

/-- The next step of the consumer in a call. -/
def stepConsumer (q : BoundedQueue α P) : Option (BoundedQueue α P) :=
  match q.consumer with
  | .idle => none
  | .loadRead .tryPop => some { q with consumer := .tryCheck q.readIndex }
  | .loadRead mode => some { q with consumer := .lockConsumer mode q.readIndex }
  | .tryCheck readIndex =>
    if readIndex = q.writeIndex then some { q with consumer := .idle }
    else some { q with consumer := .move readIndex }
  | .lockConsumer mode readIndex =>
    if q.consumerCvMutex = none then
      some { q with consumerCvMutex := some .consumer, consumer := .check mode readIndex }
    else none
  | .check mode readIndex =>
    if readIndex ≠ q.writeIndex then some { q with consumer := .unlockConsumer mode readIndex }
    else some { q with consumer := .checkStop mode readIndex }
  | .checkStop mode readIndex =>
    if mode = .waitPopWithStopToken ∧ q.stopRequested = true then
      some { q with consumer := .unlockConsumer mode readIndex }
    else some { q with consumer := .sleep mode readIndex }
  | .sleep mode readIndex =>
    some { q with consumerCvMutex := none, consumer := .asleep mode readIndex }
  | .asleep _ _ => none
  | .unlockConsumer mode readIndex =>
    if mode = .waitPopWithStopToken then
      some { q with consumerCvMutex := none, consumer := .testStop readIndex }
    else some { q with consumerCvMutex := none, consumer := .move readIndex }
  | .testStop readIndex =>
    if q.stopRequested = true then some { q with consumer := .idle }
    else some { q with consumer := .move readIndex }
  | .move readIndex =>
    let pos := readIndex % p.capacity
    match q.data pos with
    | some t => some { q with data := Function.update q.data pos none, consumer := .increment t }
    | none => none
  | .increment t =>
    some { q with
      readIndex := (q.readIndex + 1) % 2 ^ 64
      popped := q.popped ++ [t]
      consumer := .lockProducer }
  | .lockProducer =>
    if q.producerCvMutex = none then
      some { q with producerCvMutex := some .consumer, consumer := .notify }
    else none
  | .notify => some { q with producer := q.producer.wake, consumer := .unlockProducer }
  | .unlockProducer => some { q with producerCvMutex := none, consumer := .idle }

def step (q : BoundedQueue α P) : QueueAction α P → Option (BoundedQueue α P)
  | .emplace i mode t =>
    if q.calls i = none ∧ q.writeMutex ≠ some i then
      some { q with calls := Function.update q.calls i (some (mode, t)) }
    else none
  | .lockWrite i =>
    match q.calls i, q.writeMutex with
    | some (mode, t), none =>
      some { q with
        calls := Function.update q.calls i none
        writeMutex := some i
        producer := .loadWrite mode t }
    | _, _ => none
  | .producer => q.stepProducer p
  | .wakeProducer => some { q with producer := q.producer.wake }
  | .pop mode stopRequested =>
    match q.consumer with
    | .idle => some { q with stopRequested := stopRequested, consumer := .loadRead mode }
    | _ => none
  | .consumer => q.stepConsumer p
  | .wakeConsumer => some { q with consumer := q.consumer.wake }
  | .requestStop => some { q with stopRequested := true }

end BoundedQueue

/-! ## What holds where -/

variable {α P : Type}

namespace Emplacing

/-- The producer holds `producer_cv_mutex`. -/
def HoldsProducerCv : Emplacing α → Prop
  | .check _ _ | .sleep _ _ | .unlockProducer _ _ => True
  | _ => False

/-- The producer holds `consumer_cv_mutex`. -/
def HoldsConsumerCv : Emplacing α → Prop
  | .notify | .unlockConsumer => True
  | _ => False

/-- The producer has found the queue full, and sleeps or is going to. -/
def Waits : Emplacing α → Prop
  | .sleep _ _ | .asleep _ _ => True
  | _ => False

/-- The producer has pushed an element and is going to notify the consumer. -/
def WillNotify : Emplacing α → Prop
  | .lockConsumer | .notify => True
  | _ => False

/-- The element that is constructed but not counted by the index. -/
def pending : Emplacing α → List α
  | .increment t => [t]
  | _ => []

/-- What the producer knows of the index, and of the room behind it. -/
def Knows (capacity written read : Nat) : Emplacing α → Prop
  | .tryCheck _ writeIndex | .lockProducer _ writeIndex | .check _ writeIndex
  | .sleep _ writeIndex | .asleep _ writeIndex => writeIndex = written % 2 ^ 64
  | .unlockProducer _ writeIndex | .construct _ writeIndex =>
    writeIndex = written % 2 ^ 64 ∧ written < read + capacity
  | .increment _ => written < read + capacity
  | _ => True

variable {e : Emplacing α} {capacity written read : Nat}

/-- More room does not matter to what the producer knows. -/
theorem Knows.succ (h : e.Knows capacity written read) : e.Knows capacity written (read + 1) := by
  cases e with
  | unlockProducer t writeIndex => exact ⟨h.1, by have := h.2; omega⟩
  | construct t writeIndex => exact ⟨h.1, by have := h.2; omega⟩
  | increment t =>
    have h : written < read + capacity := h
    show written < read + 1 + capacity
    omega
  | _ => exact h

theorem Knows.wake (h : e.Knows capacity written read) : e.wake.Knows capacity written read := by
  cases e <;> exact h

@[simp] theorem pending_wake (e : Emplacing α) : e.wake.pending = e.pending := by
  cases e <;> rfl

@[simp] theorem holdsProducerCv_wake (e : Emplacing α) :
    e.wake.HoldsProducerCv = e.HoldsProducerCv := by
  cases e <;> rfl

@[simp] theorem holdsConsumerCv_wake (e : Emplacing α) :
    e.wake.HoldsConsumerCv = e.HoldsConsumerCv := by
  cases e <;> rfl

@[simp] theorem willNotify_wake (e : Emplacing α) : e.wake.WillNotify = e.WillNotify := by
  cases e <;> rfl

theorem idle_wake (h : e = .idle) : e.wake = .idle := by
  subst h
  rfl

/-- A producer that was notified and waits nevertheless is on its way from the check. -/
theorem holds_of_waits_wake (h : e.wake.Waits) : e.HoldsProducerCv := by
  cases e with
  | sleep t writeIndex => trivial
  | _ => exact h.elim

theorem waits_of_waits_wake (h : e.wake.Waits) : e.Waits := by
  cases e with
  | sleep t writeIndex => trivial
  | _ => exact h.elim

end Emplacing

namespace Popping

/-- The consumer holds `consumer_cv_mutex`. -/
def HoldsConsumerCv : Popping α → Prop
  | .check _ _ | .checkStop _ _ | .sleep _ _ | .unlockConsumer _ _ => True
  | _ => False

/-- The consumer holds `producer_cv_mutex`. -/
def HoldsProducerCv : Popping α → Prop
  | .notify | .unlockProducer => True
  | _ => False

/-- The consumer has found the queue empty, and sleeps or is going to. -/
def Waits : Popping α → Prop
  | .checkStop _ _ | .sleep _ _ | .asleep _ _ => True
  | _ => False

/-- The consumer has popped an element and is going to notify the producers. -/
def WillNotify : Popping α → Prop
  | .lockProducer | .notify => True
  | _ => False

/-- The consumer has moved an element out of its slot that the index still counts. -/
def moved : Popping α → Nat
  | .increment _ => 1
  | _ => 0

/-- What the consumer knows of the index, and of the elements behind it. -/
def Knows (stopRequested : Bool) (emplaced : List α) (read : Nat) : Popping α → Prop
  | .tryCheck readIndex | .lockConsumer _ readIndex | .check _ readIndex
  | .checkStop _ readIndex | .sleep _ readIndex | .asleep _ readIndex =>
    readIndex = read % 2 ^ 64
  | .unlockConsumer mode readIndex => readIndex = read % 2 ^ 64 ∧
    (read < emplaced.length ∨ mode = .waitPopWithStopToken ∧ stopRequested = true)
  | .testStop readIndex => readIndex = read % 2 ^ 64 ∧
    (read < emplaced.length ∨ stopRequested = true)
  | .move readIndex => readIndex = read % 2 ^ 64 ∧ read < emplaced.length
  | .increment t => emplaced[read]? = some t
  | _ => True

variable {c : Popping α} {stopRequested : Bool} {emplaced : List α} {read : Nat}

/-- More elements do not matter to what the consumer knows. -/
theorem Knows.append (h : c.Knows stopRequested emplaced read) (t : α) :
    c.Knows stopRequested (emplaced ++ [t]) read := by
  have hlength : (emplaced ++ [t]).length = emplaced.length + 1 := List.length_append
  cases c with
  | unlockConsumer mode readIndex => exact ⟨h.1, h.2.imp (fun hlt => by omega) id⟩
  | testStop readIndex => exact ⟨h.1, h.2.imp (fun hlt => by omega) id⟩
  | move readIndex => exact ⟨h.1, by have := h.2; omega⟩
  | increment t' =>
    obtain ⟨hlt, -⟩ := List.getElem?_eq_some_iff.mp h
    show (emplaced ++ [t])[read]? = some t'
    rw [List.getElem?_append_left hlt]
    exact h
  | _ => exact h

theorem Knows.stop (h : c.Knows stopRequested emplaced read) : c.Knows true emplaced read := by
  cases c with
  | unlockConsumer mode readIndex =>
    exact ⟨h.1, h.2.imp id fun hstop => ⟨hstop.1, rfl⟩⟩
  | testStop readIndex => exact ⟨h.1, h.2.imp id fun _ => rfl⟩
  | _ => exact h

theorem Knows.wake (h : c.Knows stopRequested emplaced read) :
    c.wake.Knows stopRequested emplaced read := by
  cases c <;> exact h

@[simp] theorem moved_wake (c : Popping α) : c.wake.moved = c.moved := by
  cases c <;> rfl

@[simp] theorem holdsProducerCv_wake (c : Popping α) :
    c.wake.HoldsProducerCv = c.HoldsProducerCv := by
  cases c <;> rfl

@[simp] theorem holdsConsumerCv_wake (c : Popping α) :
    c.wake.HoldsConsumerCv = c.HoldsConsumerCv := by
  cases c <;> rfl

@[simp] theorem willNotify_wake (c : Popping α) : c.wake.WillNotify = c.WillNotify := by
  cases c <;> rfl

theorem waits_of_waits_wake (h : c.wake.Waits) : c.Waits := by
  cases c with
  | checkStop mode readIndex => trivial
  | sleep mode readIndex => trivial
  | _ => exact h.elim

/-- A consumer that was notified and waits nevertheless is on its way from the check. -/
theorem holds_of_waits_wake (h : c.wake.Waits) : c.HoldsConsumerCv := by
  cases c with
  | checkStop mode readIndex => trivial
  | sleep mode readIndex => trivial
  | _ => exact h.elim

end Popping

namespace BoundedQueue

/-! ## The invariant -/

/-- The indices and the slots. -/
structure Stored (p : QueueParams) (q : BoundedQueue α P) : Prop where
  writeIndex : q.writeIndex = q.emplaced.length % 2 ^ 64
  readIndex : q.readIndex = q.popped.length % 2 ^ 64
  popped : q.popped <+: q.emplaced
  turn : q.emplaced.length ≤ q.popped.length + p.capacity
  slots : Window q.data p.capacity (q.emplaced ++ q.producer.pending)
    (q.popped.length + q.consumer.moved)
  producer : q.producer.Knows p.capacity q.emplaced.length q.popped.length
  consumer : q.consumer.Knows q.stopRequested q.emplaced q.popped.length

/-- The mutexes, and who is going to notify whom. -/
structure Coordinated (p : QueueParams) (q : BoundedQueue α P) : Prop where
  idle : q.writeMutex = none → q.producer = .idle
  producerCv : (q.producer.HoldsProducerCv → q.producerCvMutex = some .producer) ∧
    (q.consumer.HoldsProducerCv → q.producerCvMutex = some .consumer)
  consumerCv : (q.producer.HoldsConsumerCv → q.consumerCvMutex = some .producer) ∧
    (q.consumer.HoldsConsumerCv → q.consumerCvMutex = some .consumer)
  /-- While the consumer waits and an element is stored, it is going to be notified. -/
  wakesConsumer : q.consumer.Waits → q.popped.length < q.emplaced.length → q.producer.WillNotify
  /-- While the producer waits and a slot is free, it is going to be notified. -/
  wakesProducer : q.producer.Waits → q.emplaced.length < q.popped.length + p.capacity →
    q.consumer.WillNotify

structure Sound (p : QueueParams) (q : BoundedQueue α P) : Prop where
  stored : q.Stored p
  coordinated : q.Coordinated p

/-! ## Indices -/

theorem capacity_le (p : QueueParams) : p.capacity ≤ 2 ^ 63 := by
  obtain ⟨bits, hlt, hbits⟩ := p.powerOfTwo
  exact hbits ▸ Nat.pow_le_pow_right (by decide) (by omega)

/-- The place of an index in the array does not depend on how often it has wrapped. -/
theorem mod_capacity (p : QueueParams) (index : Nat) :
    index % 2 ^ 64 % p.capacity = index % p.capacity := by
  obtain ⟨bits, hlt, hbits⟩ := p.powerOfTwo
  exact hbits ▸ mod_of_mod64 (Nat.le_of_lt hlt) index

variable {p : QueueParams} {q q' : BoundedQueue α P}

theorem Stored.behind (h : q.Stored p) : q.popped.length ≤ q.emplaced.length := h.popped.length_le

/-- The difference that a producer with the index computes. -/
theorem Stored.sub64_read (h : q.Stored p) :
    sub64 (q.emplaced.length % 2 ^ 64) q.readIndex = q.emplaced.length - q.popped.length := by
  have hturn := h.turn
  have hcapacity := capacity_le p
  rw [h.readIndex]
  exact sub64_mod h.behind (by omega)

/-- The indices are the same only if the queue is empty. -/
theorem Stored.index_eq (h : q.Stored p) :
    q.popped.length % 2 ^ 64 = q.writeIndex ↔ q.popped.length = q.emplaced.length := by
  have hturn := h.turn
  have hbehind := h.behind
  have hcapacity := capacity_le p
  rw [h.writeIndex]
  omega

/-- The consumer has taken no more than there is. -/
theorem Stored.lo_le (h : q.Stored p) : q.popped.length + q.consumer.moved ≤ q.emplaced.length := by
  have hknows := h.consumer
  cases hpc : q.consumer with
  | increment t =>
    rw [hpc] at hknows
    obtain ⟨hlt, -⟩ := List.getElem?_eq_some_iff.mp hknows
    exact hlt
  | _ => exact h.behind

/-- An element that is constructed has a slot that was free. -/
theorem Stored.pending_le (h : q.Stored p) :
    (q.emplaced ++ q.producer.pending).length ≤ q.popped.length + p.capacity := by
  have hknows := h.producer
  have hturn := h.turn
  rw [List.length_append]
  cases hpc : q.producer with
  | increment t =>
    rw [hpc] at hknows
    exact hknows
  | _ => exact hturn

/-- A prefix with the next element of the list. -/
theorem append_next {xs ys : List α} (h : xs <+: ys) {t : α} (ht : ys[xs.length]? = some t) :
    xs ++ [t] <+: ys := by
  obtain ⟨rest, rfl⟩ := h
  rw [List.getElem?_append_right (Nat.le_refl _), Nat.sub_self] at ht
  cases rest with
  | nil => cases ht
  | cons x rest =>
    cases ht
    exact ⟨rest, by rw [List.append_assoc]; rfl⟩

/-! ## Steps of a producer -/

/-- A step of the producer that changes its place and the mutexes only. -/
theorem Sound.producer_goto (h : q.Sound p) {e : Emplacing α} {producerCv consumerCv : Option Side}
    (hpending : e.pending = q.producer.pending)
    (hknows : e.Knows p.capacity q.emplaced.length q.popped.length)
    (hbusy : q.producer ≠ .idle)
    (hproducerCv : (e.HoldsProducerCv → producerCv = some .producer) ∧
      (q.consumer.HoldsProducerCv → producerCv = some .consumer))
    (hconsumerCv : (e.HoldsConsumerCv → consumerCv = some .producer) ∧
      (q.consumer.HoldsConsumerCv → consumerCv = some .consumer))
    (hnotifies : q.producer.WillNotify → e.WillNotify)
    (hnotified : e.Waits → q.emplaced.length < q.popped.length + p.capacity →
      q.consumer.WillNotify) :
    ({ q with
      producer := e
      producerCvMutex := producerCv
      consumerCvMutex := consumerCv } : BoundedQueue α P).Sound p := by
  obtain ⟨hwrite, hread, hpopped, hturn, hslots, -, hconsumer⟩ := h.stored
  refine ⟨⟨hwrite, hread, hpopped, hturn, ?_, hknows, hconsumer⟩,
    ⟨fun hnone => absurd (h.coordinated.idle hnone) hbusy, hproducerCv, hconsumerCv,
      fun hwaits hlt => hnotifies (h.coordinated.wakesConsumer hwaits hlt), hnotified⟩⟩
  show Window q.data p.capacity (q.emplaced ++ e.pending) _
  rw [hpending]
  exact hslots

/-- A mutex that a side has cannot be with the other side. -/
theorem other_not_holds {mutex : Option Side} {s : Side} {holds holds' : Prop} {s' : Side}
    (h : holds → mutex = some s) (h' : holds' → mutex = some s') (hne : s ≠ s') (hs : holds) :
    ¬holds' := fun hs' => hne (Option.some.inj ((h hs).symm.trans (h' hs')))

/-- Nobody has a mutex that is free. -/
theorem not_holds_of_free {mutex : Option Side} {s : Side} {holds : Prop}
    (h : holds → mutex = some s) (hfree : mutex = none) : ¬holds := fun hs => by
  cases hfree.symm.trans (h hs)

theorem stepProducer_sound (h : q.Sound p) (hstep : q.stepProducer p = some q') : q'.Sound p := by
  obtain ⟨hidle, hproducerCv, hconsumerCv, hwakesConsumer, hwakesProducer⟩ := h.coordinated
  have hknows := h.stored.producer
  have hsub := h.stored.sub64_read
  have hbehind := h.stored.behind
  have hturn := h.stored.turn
  have hslots := h.stored.slots
  unfold stepProducer at hstep
  cases hpc : q.producer with
  | idle =>
    rw [hpc] at hstep
    cases hstep
  | loadWrite mode t =>
    rw [hpc] at hstep
    cases mode with
    | tryPush =>
      cases hstep
      exact h.producer_goto (hpc ▸ rfl) h.stored.writeIndex (by simp [hpc])
        ⟨nofun, hproducerCv.2⟩ ⟨nofun, hconsumerCv.2⟩ (hpc ▸ nofun) nofun
    | waitPush =>
      cases hstep
      exact h.producer_goto (hpc ▸ rfl) h.stored.writeIndex (by simp [hpc])
        ⟨nofun, hproducerCv.2⟩ ⟨nofun, hconsumerCv.2⟩ (hpc ▸ nofun) nofun
  | tryCheck t writeIndex =>
    rw [hpc] at hstep hknows
    obtain rfl : writeIndex = q.emplaced.length % 2 ^ 64 := hknows
    simp only [hsub] at hstep
    by_cases hfull : q.emplaced.length - q.popped.length = p.capacity
    · rw [if_pos hfull] at hstep
      cases hstep
      exact h.producer_goto (hpc ▸ rfl) trivial (by simp [hpc]) ⟨nofun, hproducerCv.2⟩
        ⟨nofun, hconsumerCv.2⟩ (hpc ▸ nofun) nofun
    · rw [if_neg hfull] at hstep
      cases hstep
      exact h.producer_goto (hpc ▸ rfl) ⟨rfl, by omega⟩ (by simp [hpc]) ⟨nofun, hproducerCv.2⟩
        ⟨nofun, hconsumerCv.2⟩ (hpc ▸ nofun) nofun
  | lockProducer t writeIndex =>
    rw [hpc] at hstep hknows
    simp only [Option.ite_none_right_eq_some, Option.some.injEq] at hstep
    obtain ⟨hfree, rfl⟩ := hstep
    exact h.producer_goto (hpc ▸ rfl) hknows (by simp [hpc])
      ⟨fun _ => rfl, fun hholds => (not_holds_of_free hproducerCv.2 hfree hholds).elim⟩
      ⟨nofun, hconsumerCv.2⟩ (hpc ▸ nofun) nofun
  | check t writeIndex =>
    rw [hpc] at hstep hknows hproducerCv
    obtain rfl : writeIndex = q.emplaced.length % 2 ^ 64 := hknows
    simp only [hsub] at hstep
    by_cases hroom : q.emplaced.length - q.popped.length < p.capacity
    · rw [if_pos hroom] at hstep
      cases hstep
      exact h.producer_goto (hpc ▸ rfl) ⟨rfl, by omega⟩ (by simp [hpc]) hproducerCv
        ⟨nofun, hconsumerCv.2⟩ (hpc ▸ nofun) nofun
    · rw [if_neg hroom] at hstep
      cases hstep
      exact h.producer_goto (hpc ▸ rfl) rfl (by simp [hpc]) hproducerCv ⟨nofun, hconsumerCv.2⟩
        (hpc ▸ nofun) (fun _ hlt => by omega)
  | sleep t writeIndex =>
    rw [hpc] at hstep hwakesProducer hknows hproducerCv
    cases hstep
    exact h.producer_goto (hpc ▸ rfl) hknows (by simp [hpc]) ⟨nofun, fun hholds =>
       (other_not_holds hproducerCv.1 hproducerCv.2 (by decide) trivial hholds).elim⟩
      ⟨nofun, hconsumerCv.2⟩ (hpc ▸ nofun) (fun _ => hwakesProducer trivial)
  | asleep t writeIndex =>
    rw [hpc] at hstep
    cases hstep
  | unlockProducer t writeIndex =>
    rw [hpc] at hstep hknows hproducerCv
    cases hstep
    exact h.producer_goto (hpc ▸ rfl) hknows (by simp [hpc]) ⟨nofun, fun hholds =>
       (other_not_holds hproducerCv.1 hproducerCv.2 (by decide) trivial hholds).elim⟩
      ⟨nofun, hconsumerCv.2⟩ (hpc ▸ nofun) nofun
  | construct t writeIndex =>
    rw [hpc] at hstep hwakesConsumer hknows hslots hidle
    obtain ⟨rfl, hroom⟩ := hknows
    cases hstep
    have hbusy : q.writeMutex ≠ none := fun hnone => by cases hidle hnone
    obtain ⟨hwrite, hread, hpopped, -, -, -, hconsumer⟩ := h.stored
    refine ⟨⟨hwrite, hread, hpopped, hturn, ?_, hroom, hconsumer⟩,
      ⟨fun hnone => absurd hnone hbusy, ⟨nofun, hproducerCv.2⟩, ⟨nofun, hconsumerCv.2⟩,
        fun hwaits hlt => (hwakesConsumer hwaits hlt).elim, nofun⟩⟩
    show Window (Function.update q.data (q.emplaced.length % 2 ^ 64 % p.capacity) (some t))
      p.capacity (q.emplaced ++ [t]) (q.popped.length + q.consumer.moved)
    rw [mod_capacity]
    have hslots : Window q.data p.capacity (q.emplaced ++ []) _ := hslots
    rw [List.append_nil] at hslots
    exact hslots.put h.stored.lo_le (by omega) t
  | increment t =>
    rw [hpc] at hstep hknows hslots hidle
    cases hstep
    have hbusy : q.writeMutex ≠ none := fun hnone => by cases hidle hnone
    obtain ⟨hwrite, hread, hpopped, -, -, -, hconsumer⟩ := h.stored
    refine ⟨⟨?_, hread, hpopped.trans (List.prefix_append _ _), ?_, ?_, trivial,
      hconsumer.append t⟩, ⟨fun hnone => absurd hnone hbusy, ⟨nofun, hproducerCv.2⟩,
        ⟨nofun, hconsumerCv.2⟩, fun _ _ => trivial, nofun⟩⟩
    · show (q.writeIndex + 1) % 2 ^ 64 = (q.emplaced ++ [t]).length % 2 ^ 64
      rw [hwrite, List.length_append, Nat.mod_add_mod]
      rfl
    · show (q.emplaced ++ [t]).length ≤ _
      rw [List.length_append]
      exact hknows
    · show Window q.data p.capacity ((q.emplaced ++ [t]) ++ []) _
      rw [List.append_nil]
      exact hslots
  | lockConsumer =>
    rw [hpc] at hstep
    simp only [Option.ite_none_right_eq_some, Option.some.injEq] at hstep
    obtain ⟨hfree, rfl⟩ := hstep
    exact h.producer_goto (hpc ▸ rfl) trivial (by simp [hpc]) ⟨nofun, hproducerCv.2⟩
      ⟨fun _ => rfl, fun hholds => (not_holds_of_free hconsumerCv.2 hfree hholds).elim⟩
      (fun _ => trivial) nofun
  | notify =>
    rw [hpc] at hstep hconsumerCv hslots hidle
    cases hstep
    have hbusy : q.writeMutex ≠ none := fun hnone => by cases hidle hnone
    obtain ⟨hwrite, hread, hpopped, -, -, -, hconsumer⟩ := h.stored
    -- The consumer is not between its check and its sleep, as it would hold the mutex.
    have hnot := other_not_holds hconsumerCv.1 hconsumerCv.2 (by decide) trivial
    refine ⟨⟨hwrite, hread, hpopped, hturn, ?_, trivial, ?_⟩, ⟨fun hnone => absurd hnone hbusy,
      ⟨nofun, ?_⟩, ⟨fun _ => hconsumerCv.1 trivial, ?_⟩, ?_, nofun⟩⟩
    · show Window q.data p.capacity (q.emplaced ++ []) (q.popped.length + q.consumer.wake.moved)
      rw [Popping.moved_wake]
      exact hslots
    · exact hconsumer.wake
    · rw [Popping.holdsProducerCv_wake]
      exact hproducerCv.2
    · rw [Popping.holdsConsumerCv_wake]
      exact fun hholds => (hnot hholds).elim
    · exact fun hwaits => (hnot (Popping.holds_of_waits_wake hwaits)).elim
  | unlockConsumer =>
    rw [hpc] at hstep hconsumerCv
    cases hstep
    exact h.producer_goto (hpc ▸ rfl) trivial (by simp [hpc]) ⟨nofun, hproducerCv.2⟩
      ⟨nofun, fun hholds => (other_not_holds hconsumerCv.1 hconsumerCv.2 (by decide) trivial
       hholds).elim⟩ (hpc ▸ nofun) nofun
  | unlockWrite =>
    rw [hpc] at hstep hwakesConsumer hslots
    cases hstep
    obtain ⟨hwrite, hread, hpopped, -, -, -, hconsumer⟩ := h.stored
    exact ⟨⟨hwrite, hread, hpopped, hturn, hslots, trivial, hconsumer⟩,
      ⟨fun _ => rfl, ⟨nofun, hproducerCv.2⟩, ⟨nofun, hconsumerCv.2⟩,
        fun hwaits hlt => (hwakesConsumer hwaits hlt).elim, nofun⟩⟩

/-! ## Steps of the consumer -/

/-- A step of the consumer that changes its place and the mutexes only. -/
theorem Sound.consumer_goto (h : q.Sound p) {c : Popping α} {producerCv consumerCv : Option Side}
    (hmoved : c.moved = q.consumer.moved)
    (hknows : c.Knows q.stopRequested q.emplaced q.popped.length)
    (hproducerCv : (q.producer.HoldsProducerCv → producerCv = some .producer) ∧
      (c.HoldsProducerCv → producerCv = some .consumer))
    (hconsumerCv : (q.producer.HoldsConsumerCv → consumerCv = some .producer) ∧
      (c.HoldsConsumerCv → consumerCv = some .consumer))
    (hnotified : c.Waits → q.popped.length < q.emplaced.length → q.producer.WillNotify)
    (hnotifies : q.consumer.WillNotify → c.WillNotify) :
    ({ q with
      consumer := c
      producerCvMutex := producerCv
      consumerCvMutex := consumerCv } : BoundedQueue α P).Sound p := by
  obtain ⟨hwrite, hread, hpopped, hturn, hslots, hproducer, -⟩ := h.stored
  refine ⟨⟨hwrite, hread, hpopped, hturn, ?_, hproducer, hknows⟩,
    ⟨h.coordinated.idle, hproducerCv, hconsumerCv, hnotified, fun hwaits hlt =>
      hnotifies (h.coordinated.wakesProducer hwaits hlt)⟩⟩
  show Window q.data p.capacity _ (q.popped.length + c.moved)
  rw [hmoved]
  exact hslots

theorem stepConsumer_sound (h : q.Sound p) (hstep : q.stepConsumer p = some q') : q'.Sound p := by
  obtain ⟨hidle, hproducerCv, hconsumerCv, hwakesConsumer, hwakesProducer⟩ := h.coordinated
  have hknows := h.stored.consumer
  have hindex := h.stored.index_eq
  have hbehind := h.stored.behind
  have hturn := h.stored.turn
  have hslots := h.stored.slots
  unfold stepConsumer at hstep
  cases hpc : q.consumer with
  | idle =>
    rw [hpc] at hstep
    cases hstep
  | loadRead mode =>
    rw [hpc] at hstep
    cases mode with
    | tryPop =>
      cases hstep
      exact h.consumer_goto (hpc ▸ rfl) h.stored.readIndex ⟨hproducerCv.1, nofun⟩
        ⟨hconsumerCv.1, nofun⟩ nofun (hpc ▸ nofun)
    | waitPop =>
      cases hstep
      exact h.consumer_goto (hpc ▸ rfl) h.stored.readIndex ⟨hproducerCv.1, nofun⟩
        ⟨hconsumerCv.1, nofun⟩ nofun (hpc ▸ nofun)
    | waitPopWithStopToken =>
      cases hstep
      exact h.consumer_goto (hpc ▸ rfl) h.stored.readIndex ⟨hproducerCv.1, nofun⟩
        ⟨hconsumerCv.1, nofun⟩ nofun (hpc ▸ nofun)
  | tryCheck readIndex =>
    rw [hpc] at hstep hknows
    obtain rfl : readIndex = q.popped.length % 2 ^ 64 := hknows
    simp only [hindex] at hstep
    by_cases hempty : q.popped.length = q.emplaced.length
    · rw [if_pos hempty] at hstep
      cases hstep
      exact h.consumer_goto (hpc ▸ rfl) trivial ⟨hproducerCv.1, nofun⟩
        ⟨hconsumerCv.1, nofun⟩ nofun (hpc ▸ nofun)
    · rw [if_neg hempty] at hstep
      cases hstep
      exact h.consumer_goto (hpc ▸ rfl) ⟨rfl, by omega⟩ ⟨hproducerCv.1, nofun⟩
        ⟨hconsumerCv.1, nofun⟩ nofun (hpc ▸ nofun)
  | lockConsumer mode readIndex =>
    rw [hpc] at hstep hknows
    simp only [Option.ite_none_right_eq_some, Option.some.injEq] at hstep
    obtain ⟨hfree, rfl⟩ := hstep
    exact h.consumer_goto (hpc ▸ rfl) hknows ⟨hproducerCv.1, nofun⟩
      ⟨fun hholds => (not_holds_of_free hconsumerCv.1 hfree hholds).elim, fun _ => rfl⟩ nofun
      (hpc ▸ nofun)
  | check mode readIndex =>
    rw [hpc] at hstep hknows hconsumerCv
    obtain rfl : readIndex = q.popped.length % 2 ^ 64 := hknows
    simp only [ne_eq, hindex] at hstep
    by_cases hempty : q.popped.length = q.emplaced.length
    · rw [if_neg (not_not.mpr hempty)] at hstep
      cases hstep
      exact h.consumer_goto (hpc ▸ rfl) rfl ⟨hproducerCv.1, nofun⟩ hconsumerCv
        (fun _ hlt => by omega) (hpc ▸ nofun)
    · rw [if_pos hempty] at hstep
      cases hstep
      exact h.consumer_goto (hpc ▸ rfl) ⟨rfl, .inl (by omega)⟩ ⟨hproducerCv.1, nofun⟩
        hconsumerCv nofun (hpc ▸ nofun)
  | checkStop mode readIndex =>
    rw [hpc] at hstep hwakesConsumer hknows hconsumerCv
    by_cases hstop : mode = .waitPopWithStopToken ∧ q.stopRequested = true
    · simp only [if_pos hstop] at hstep
      cases hstep
      exact h.consumer_goto (hpc ▸ rfl) ⟨hknows, .inr hstop⟩ ⟨hproducerCv.1, nofun⟩ hconsumerCv
        nofun (hpc ▸ nofun)
    · simp only [if_neg hstop] at hstep
      cases hstep
      exact h.consumer_goto (hpc ▸ rfl) hknows ⟨hproducerCv.1, nofun⟩ hconsumerCv
        (fun _ => hwakesConsumer trivial) (hpc ▸ nofun)
  | sleep mode readIndex =>
    rw [hpc] at hstep hwakesConsumer hknows hconsumerCv
    cases hstep
    exact h.consumer_goto (hpc ▸ rfl) hknows ⟨hproducerCv.1, nofun⟩ ⟨fun hholds =>
       (other_not_holds hconsumerCv.2 hconsumerCv.1 (by decide) trivial hholds).elim, nofun⟩
      (fun _ => hwakesConsumer trivial) (hpc ▸ nofun)
  | asleep mode readIndex =>
    rw [hpc] at hstep
    cases hstep
  | unlockConsumer mode readIndex =>
    rw [hpc] at hstep hknows hconsumerCv
    obtain ⟨hread, havailable⟩ := hknows
    have hgive : q.producer.HoldsConsumerCv → none = some Side.producer := fun hholds =>
      (other_not_holds hconsumerCv.2 hconsumerCv.1 (by decide) trivial hholds).elim
    by_cases hmode : mode = .waitPopWithStopToken
    · simp only [if_pos hmode] at hstep
      cases hstep
      exact h.consumer_goto (hpc ▸ rfl) ⟨hread, havailable.imp id And.right⟩
        ⟨hproducerCv.1, nofun⟩ ⟨hgive, nofun⟩ nofun (hpc ▸ nofun)
    · simp only [if_neg hmode] at hstep
      cases hstep
      exact h.consumer_goto (hpc ▸ rfl) ⟨hread, havailable.resolve_right fun hstop => hmode hstop.1⟩
        ⟨hproducerCv.1, nofun⟩ ⟨hgive, nofun⟩ nofun (hpc ▸ nofun)
  | testStop readIndex =>
    rw [hpc] at hstep hknows
    obtain ⟨hread, havailable⟩ := hknows
    by_cases hstop : q.stopRequested = true
    · simp only [if_pos hstop] at hstep
      cases hstep
      exact h.consumer_goto (hpc ▸ rfl) trivial ⟨hproducerCv.1, nofun⟩
        ⟨hconsumerCv.1, nofun⟩ nofun (hpc ▸ nofun)
    · simp only [if_neg hstop] at hstep
      cases hstep
      exact h.consumer_goto (hpc ▸ rfl) ⟨hread, havailable.resolve_right hstop⟩
        ⟨hproducerCv.1, nofun⟩ ⟨hconsumerCv.1, nofun⟩ nofun (hpc ▸ nofun)
  | move readIndex =>
    rw [hpc] at hstep hwakesProducer hknows hslots
    obtain ⟨rfl, hlt⟩ := hknows
    obtain ⟨hwrite, hread, hpopped, -, -, hproducer, -⟩ := h.stored
    -- The slot holds the next element.
    have hslot : q.data (q.popped.length % p.capacity) = some q.emplaced[q.popped.length] := by
      have hfirst := hslots q.popped.length (Nat.le_refl _)
        (show q.popped.length < q.popped.length + p.capacity by omega)
      rw [hfirst, List.getElem?_append_left hlt, List.getElem?_eq_getElem hlt]
    simp only [mod_capacity, hslot] at hstep
    cases hstep
    refine ⟨⟨hwrite, hread, hpopped, hturn, ?_, hproducer, List.getElem?_eq_getElem hlt⟩,
      ⟨hidle, ⟨hproducerCv.1, nofun⟩, ⟨hconsumerCv.1, nofun⟩, nofun,
        fun hwaits hlt => (hwakesProducer hwaits hlt).elim⟩⟩
    exact hslots.take h.stored.pending_le
  | increment t =>
    rw [hpc] at hstep hknows hslots
    cases hstep
    obtain ⟨hwrite, hread, hpopped, -, -, hproducer, -⟩ := h.stored
    have hknows : q.emplaced[q.popped.length]? = some t := hknows
    obtain ⟨hlt, hget⟩ := List.getElem?_eq_some_iff.mp hknows
    have hlength : (q.popped ++ [t]).length = q.popped.length + 1 := List.length_append
    refine ⟨⟨hwrite, ?_, ?_, ?_, ?_, ?_, trivial⟩, ⟨hidle, ⟨hproducerCv.1, nofun⟩,
      ⟨hconsumerCv.1, nofun⟩, nofun, fun _ _ => trivial⟩⟩
    · show (q.readIndex + 1) % 2 ^ 64 = (q.popped ++ [t]).length % 2 ^ 64
      rw [hread, hlength, Nat.mod_add_mod]
    · exact append_next hpopped hknows
    · show q.emplaced.length ≤ (q.popped ++ [t]).length + p.capacity
      omega
    · show Window q.data p.capacity _ ((q.popped ++ [t]).length + 0)
      rw [hlength]
      exact hslots
    · show q.producer.Knows p.capacity q.emplaced.length (q.popped ++ [t]).length
      rw [hlength]
      exact hproducer.succ
  | lockProducer =>
    rw [hpc] at hstep
    simp only [Option.ite_none_right_eq_some, Option.some.injEq] at hstep
    obtain ⟨hfree, rfl⟩ := hstep
    exact h.consumer_goto (hpc ▸ rfl) trivial
      ⟨fun hholds => (not_holds_of_free hproducerCv.1 hfree hholds).elim, fun _ => rfl⟩
      ⟨hconsumerCv.1, nofun⟩ nofun (fun _ => trivial)
  | notify =>
    rw [hpc] at hstep hproducerCv hslots
    cases hstep
    obtain ⟨hwrite, hread, hpopped, -, -, hproducer, -⟩ := h.stored
    -- The producer is not between its check and its sleep, as it would hold the mutex.
    have hnot := other_not_holds hproducerCv.2 hproducerCv.1 (by decide) trivial
    refine ⟨⟨hwrite, hread, hpopped, hturn, ?_, hproducer.wake, trivial⟩,
      ⟨fun hnone => Emplacing.idle_wake (hidle hnone), ⟨?_, fun _ => hproducerCv.2 trivial⟩,
        ⟨?_, nofun⟩, nofun, ?_⟩⟩
    · show Window q.data p.capacity (q.emplaced ++ q.producer.wake.pending) (q.popped.length + 0)
      rw [Emplacing.pending_wake]
      exact hslots
    · rw [Emplacing.holdsProducerCv_wake]
      exact fun hholds => (hnot hholds).elim
    · rw [Emplacing.holdsConsumerCv_wake]
      exact hconsumerCv.1
    · exact fun hwaits => (hnot (Emplacing.holds_of_waits_wake hwaits)).elim
  | unlockProducer =>
    rw [hpc] at hstep hproducerCv
    cases hstep
    exact h.consumer_goto (hpc ▸ rfl) trivial ⟨fun hholds => (other_not_holds hproducerCv.2
       hproducerCv.1 (by decide) trivial hholds).elim, nofun⟩ ⟨hconsumerCv.1, nofun⟩
      nofun (hpc ▸ nofun)

/-! ## Runs -/

variable [DecidableEq P]

/-- Every step keeps the invariant. -/
theorem step_sound {a : QueueAction α P} (h : q.Sound p) (hstep : q.step p a = some q') :
    q'.Sound p := by
  obtain ⟨hidle, hproducerCv, hconsumerCv, hwakesConsumer, hwakesProducer⟩ := h.coordinated
  obtain ⟨hwrite, hread, hpopped, hturn, hslots, hproducer, hconsumer⟩ := h.stored
  cases a with
  | emplace i mode t =>
    simp only [step, Option.ite_none_right_eq_some, Option.some.injEq] at hstep
    obtain ⟨-, rfl⟩ := hstep
    exact ⟨⟨hwrite, hread, hpopped, hturn, hslots, hproducer, hconsumer⟩,
      ⟨hidle, hproducerCv, hconsumerCv, hwakesConsumer, hwakesProducer⟩⟩
  | lockWrite i =>
    simp only [step] at hstep
    split at hstep
    · -- Nobody was in the queue.
      rename_i mode t _ hfree
      cases hstep
      have hnobody := hidle hfree
      rw [hnobody] at hslots hwakesConsumer
      exact ⟨⟨hwrite, hread, hpopped, hturn, hslots, trivial, hconsumer⟩,
        ⟨fun hnone => absurd hnone (Option.some_ne_none i), ⟨nofun, hproducerCv.2⟩,
          ⟨nofun, hconsumerCv.2⟩, fun hwaits hlt => (hwakesConsumer hwaits hlt).elim,
            nofun⟩⟩
    · cases hstep
  | producer => exact stepProducer_sound h hstep
  | wakeProducer =>
    cases hstep
    refine ⟨⟨hwrite, hread, hpopped, hturn, ?_, hproducer.wake, hconsumer⟩,
      ⟨fun hnone => Emplacing.idle_wake (hidle hnone), ⟨?_, hproducerCv.2⟩, ⟨?_, hconsumerCv.2⟩,
        ?_, fun hwaits => hwakesProducer (Emplacing.waits_of_waits_wake hwaits)⟩⟩
    · show Window q.data p.capacity (q.emplaced ++ q.producer.wake.pending) _
      rw [Emplacing.pending_wake]
      exact hslots
    · exact fun hholds => hproducerCv.1 (Emplacing.holdsProducerCv_wake q.producer ▸ hholds)
    · exact fun hholds => hconsumerCv.1 (Emplacing.holdsConsumerCv_wake q.producer ▸ hholds)
    · exact fun hwaits hlt =>
        (Emplacing.willNotify_wake q.producer).symm ▸ hwakesConsumer hwaits hlt
  | pop mode stopRequested =>
    simp only [step] at hstep
    cases hpc : q.consumer with
    | idle =>
      rw [hpc] at hstep hwakesProducer hslots
      cases hstep
      exact ⟨⟨hwrite, hread, hpopped, hturn, hslots, hproducer, trivial⟩,
        ⟨hidle, ⟨hproducerCv.1, nofun⟩, ⟨hconsumerCv.1, nofun⟩, nofun,
          fun hwaits hlt => (hwakesProducer hwaits hlt).elim⟩⟩
    | _ =>
      rw [hpc] at hstep
      cases hstep
  | consumer => exact stepConsumer_sound h hstep
  | wakeConsumer =>
    cases hstep
    refine ⟨⟨hwrite, hread, hpopped, hturn, ?_, hproducer, hconsumer.wake⟩,
      ⟨hidle, ⟨hproducerCv.1, ?_⟩, ⟨hconsumerCv.1, ?_⟩,
        fun hwaits => hwakesConsumer (Popping.waits_of_waits_wake hwaits), ?_⟩⟩
    · show Window q.data p.capacity _ (q.popped.length + q.consumer.wake.moved)
      rw [Popping.moved_wake]
      exact hslots
    · exact fun hholds => hproducerCv.2 (Popping.holdsProducerCv_wake q.consumer ▸ hholds)
    · exact fun hholds => hconsumerCv.2 (Popping.holdsConsumerCv_wake q.consumer ▸ hholds)
    · exact fun hwaits hlt =>
        (Popping.willNotify_wake q.consumer).symm ▸ hwakesProducer hwaits hlt
  | requestStop =>
    cases hstep
    exact ⟨⟨hwrite, hread, hpopped, hturn, hslots, hproducer, hconsumer.stop⟩,
      ⟨hidle, hproducerCv, hconsumerCv, hwakesConsumer, hwakesProducer⟩⟩

omit [DecidableEq P] in
theorem sound_empty (p : QueueParams) : ({} : BoundedQueue α P).Sound p :=
  ⟨⟨rfl, rfl, List.nil_prefix, Nat.zero_le _, fun _ _ _ => List.getElem?_nil.symm, trivial,
    trivial⟩, ⟨fun _ => rfl, ⟨nofun, nofun⟩, ⟨nofun, nofun⟩, nofun,
      nofun⟩⟩

/-- In every state that producers, the consumer, wake-ups and stop requests reach: the elements are
popped in the order in which they were emplaced, each once; there are no more than the capacity;
an element is constructed in an empty slot, and one is moved from a slot that holds the next
element; and neither side sleeps, or is about to, when it has something to do and nobody is going to
notify it. -/
theorem boundedQueue_correct (p : QueueParams) (q : BoundedQueue α P)
    (hreach : Reaches (step p) {} q) :
    q.popped <+: q.emplaced ∧ q.numStored = q.emplaced.length - q.popped.length ∧
      q.numStored ≤ p.capacity ∧
      (∀ t writeIndex, q.producer = .construct t writeIndex →
        q.data (writeIndex % p.capacity) = none) ∧
      (∀ readIndex, q.consumer = .move readIndex →
        q.data (readIndex % p.capacity) = q.emplaced[q.popped.length]? ∧
          q.popped.length < q.emplaced.length) ∧
      (q.consumer.Waits → 0 < q.numStored → q.producer.WillNotify) ∧
      (q.producer.Waits → q.numStored < p.capacity → q.consumer.WillNotify) := by
  have h := hreach.invariant (sound_empty p) fun h hs => step_sound h hs
  have hstored := h.stored
  have hturn := hstored.turn
  have hnum : q.numStored = q.emplaced.length - q.popped.length := by
    unfold numStored
    rw [hstored.writeIndex]
    exact hstored.sub64_read
  refine ⟨hstored.popped, hnum, by omega, fun t writeIndex hpc => ?_, fun readIndex hpc => ?_,
    fun hwaits hlt => h.coordinated.wakesConsumer hwaits (by omega),
    fun hwaits hlt => h.coordinated.wakesProducer hwaits (by omega)⟩
  · have hknows := hstored.producer
    have hslots := hstored.slots
    rw [hpc] at hknows hslots
    obtain ⟨rfl, hroom⟩ := hknows
    have hslots : Window q.data p.capacity (q.emplaced ++ []) _ := hslots
    rw [List.append_nil] at hslots
    rw [mod_capacity]
    exact hslots.empty hstored.lo_le (by omega)
  · have hknows := hstored.consumer
    have hslots := hstored.slots
    rw [hpc] at hknows hslots
    obtain ⟨rfl, hlt⟩ := hknows
    refine ⟨?_, hlt⟩
    have hfirst := hslots q.popped.length (Nat.le_refl _)
      (show q.popped.length < q.popped.length + p.capacity by omega)
    rw [mod_capacity, hfirst, List.getElem?_append_left hlt]

/-- Two producers and a consumer that sleeps until the first element. -/
theorem boundedQueue_correct_run :
    ∃ q : BoundedQueue Nat Bool, q.popped = [7] ∧ q.popped <+: q.emplaced := by
  let p : QueueParams := ⟨1, 0, by decide, rfl⟩
  let actions : List (QueueAction Nat Bool) := [.pop .waitPop false, .consumer, .consumer,
    .consumer, .consumer, .consumer, .emplace true .tryPush 7, .emplace false .waitPush 8,
    .lockWrite true, .producer, .producer, .producer, .producer, .producer, .producer, .producer,
    .consumer, .consumer, .consumer, .consumer, .consumer]
  have hrun : (actions.foldlM (step p) {}).map popped = some [7] := by
    decide +kernel
  obtain ⟨q, hq, hpopped⟩ := Option.map_eq_some_iff.mp hrun
  exact ⟨q, hpopped, (boundedQueue_correct p q (Reaches.of_foldlM hq)).1⟩

end BoundedQueue

end GbaStation.Queues
