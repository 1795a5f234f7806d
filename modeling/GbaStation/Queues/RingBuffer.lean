import GbaStation.Common.Interleaving
import GbaStation.Common.RingCells
import Mathlib.Tactic.Ring

/-!
# Ring buffer (`common/ring_buffer.h`)

A ring buffer between one thread that pushes and one that pops. Both indices count on without
ever being reduced to the capacity, and wrap around `size_t`.

- `ringBuffer_correct`: what is popped is a prefix of what was pushed, the threads never touch the
  same element, and no call transfers less than it could have at its start.

`accepted`, `popped` and the logs of the calls are not in the source.
-/

namespace GbaStation.Queues

open RingCells

/-- The template arguments of `RingBuffer`, with what is asserted of them. -/
structure RingParams where
  capacity : Nat
  granularity : Nat
  sensible : capacity < (2 ^ 64 - 1) / 2 / granularity
  powerOfTwo : ∃ bits, capacity = 2 ^ bits

namespace RingParams

theorem granularity_pos (p : RingParams) : 0 < p.granularity := by
  refine Nat.pos_of_ne_zero fun hzero => ?_
  have := p.sensible
  rw [hzero, Nat.div_zero] at this
  exact Nat.not_lt_zero _ this

theorem capacity_pos (p : RingParams) : 0 < p.capacity := by
  obtain ⟨bits, hbits⟩ := p.powerOfTwo
  exact hbits ▸ Nat.two_pow_pos bits

theorem capacity_lt (p : RingParams) : p.capacity < 2 ^ 63 :=
  Nat.lt_of_lt_of_le p.sensible (Nat.le_trans (Nat.div_le_self _ _) (by decide))

/-- The place of an index in the array does not depend on how often it has wrapped. -/
theorem mod_capacity (p : RingParams) (index : Nat) :
    index % 2 ^ 64 % p.capacity = index % p.capacity := by
  have hlt := p.capacity_lt
  obtain ⟨bits, hbits⟩ := p.powerOfTwo
  rw [hbits] at hlt ⊢
  exact mod_of_mod64 (Nat.le_of_lt ((Nat.pow_lt_pow_iff_right (by decide)).mp
    (Nat.lt_trans hlt (by decide)))) index

end RingParams

/-- A call of `Push`, with the slots that are free when it starts. -/
structure PushCall (α : Type) where
  newSlots : List α
  slotCount : Nat
  freeAtStart : Nat

/-- A call of `Pop`, with the slots that are filled when it starts. -/
structure PopCall where
  maxSlots : Nat
  filledAtStart : Nat

/-- The pushing thread, before the load, the copy or the store of its name. -/
inductive Producer (α : Type) where
  | idle
  | loadWrite (c : PushCall α)
  | loadRead (c : PushCall α) (writeIndex : Nat)
  | firstCopy (c : PushCall α) (writeIndex pushCount : Nat)
  | secondCopy (c : PushCall α) (writeIndex pushCount : Nat)
  | store (c : PushCall α) (writeIndex pushCount : Nat)

/-- The popping thread, with the output so far. -/
inductive Consumer (α : Type) where
  | idle
  | loadRead (c : PopCall)
  | loadWrite (c : PopCall) (readIndex : Nat)
  | firstCopy (c : PopCall) (readIndex popCount : Nat)
  | secondCopy (c : PopCall) (readIndex popCount : Nat) (out : List α)
  | store (c : PopCall) (readIndex popCount : Nat) (out : List α)

/-- A call that has returned: the slots asked for, those there were at its start, and the result. -/
structure Returned where
  requested : Nat
  atStart : Nat
  count : Nat
deriving DecidableEq

structure RingBuffer (α : Type) where
  readIndex : Nat := 0
  writeIndex : Nat := 0
  data : Nat → α
  producer : Producer α := .idle
  consumer : Consumer α := .idle
  accepted : List α := []
  popped : List α := []
  pushes : List Returned := []
  pops : List Returned := []

namespace RingBuffer

variable {α : Type} (p : RingParams)

/-- Number of slots used. -/
def numStored (b : RingBuffer α) : Nat := sub64 b.writeIndex b.readIndex

/-- `first_copy`: up to the end of the array. -/
def firstCount (index count : Nat) : Nat := min (p.capacity - index % p.capacity) count

/-- What a thread does next. A call of `Push` is given as many slots as it says. -/
inductive Action (α : Type) where
  | push (newSlots : List α) (slotCount : Nat)
  | pop (maxSlots : Nat)
  | producer
  | consumer

/-- The next step of the pushing thread, in a call. -/
def stepProducer (b : RingBuffer α) : Option (RingBuffer α) :=
  match b.producer with
  | .idle => none
  | .loadWrite c => some { b with producer := .loadRead c b.writeIndex }
  | .loadRead c writeIndex =>
    let slotsFree := sub64 (p.capacity + b.readIndex) writeIndex
    some { b with producer := .firstCopy c writeIndex (min c.slotCount slotsFree) }
  | .firstCopy c writeIndex pushCount =>
    let pos := writeIndex % p.capacity
    let first := firstCount p writeIndex pushCount
    some { b with
      data := copyInto b.data (pos * p.granularity) (c.newSlots.take (first * p.granularity))
      producer := .secondCopy c writeIndex pushCount }
  | .secondCopy c writeIndex pushCount =>
    let first := firstCount p writeIndex pushCount
    let second := pushCount - first
    let rest := (c.newSlots.drop (first * p.granularity)).take (second * p.granularity)
    some { b with data := copyInto b.data 0 rest, producer := .store c writeIndex pushCount }
  | .store c writeIndex pushCount =>
    some { b with
      writeIndex := (writeIndex + pushCount) % 2 ^ 64
      producer := .idle
      accepted := b.accepted ++ c.newSlots.take (pushCount * p.granularity)
      pushes := ⟨c.slotCount, c.freeAtStart, pushCount⟩ :: b.pushes }

/-- The next step of the popping thread, in a call. -/
def stepConsumer (b : RingBuffer α) : Option (RingBuffer α) :=
  match b.consumer with
  | .idle => none
  | .loadRead c => some { b with consumer := .loadWrite c b.readIndex }
  | .loadWrite c readIndex =>
    let slotsFilled := sub64 b.writeIndex readIndex
    some { b with consumer := .firstCopy c readIndex (min slotsFilled c.maxSlots) }
  | .firstCopy c readIndex popCount =>
    let pos := readIndex % p.capacity
    let first := firstCount p readIndex popCount
    let out := copyFrom b.data (pos * p.granularity) (first * p.granularity)
    some { b with consumer := .secondCopy c readIndex popCount out }
  | .secondCopy c readIndex popCount out =>
    let second := popCount - firstCount p readIndex popCount
    let out := out ++ copyFrom b.data 0 (second * p.granularity)
    some { b with consumer := .store c readIndex popCount out }
  | .store c readIndex popCount out =>
    some { b with
      readIndex := (readIndex + popCount) % 2 ^ 64
      consumer := .idle
      popped := b.popped ++ out
      pops := ⟨c.maxSlots, c.filledAtStart, popCount⟩ :: b.pops }

def step (b : RingBuffer α) : Action α → Option (RingBuffer α)
  | .push newSlots slotCount =>
    match b.producer with
    | .idle =>
      if slotCount * p.granularity ≤ newSlots.length then
        some { b with producer := .loadWrite ⟨newSlots, slotCount, p.capacity - b.numStored⟩ }
      else none
    | _ => none
  | .pop maxSlots =>
    match b.consumer with
    | .idle => some { b with consumer := .loadRead ⟨maxSlots, b.numStored⟩ }
    | _ => none
  | .producer => b.stepProducer p
  | .consumer => b.stepConsumer p

/-! ## The elements that a copy touches -/

/-- The elements of `m_data` of the copies that are left of a transfer of `count` slots from
`index`, where the first one may be done. -/
def Touches (index count : Nat) (firstDone : Bool) (i : Nat) : Prop :=
  let pos := index % p.capacity
  let first := firstCount p index count
  (firstDone = false ∧ pos * p.granularity ≤ i ∧ i < (pos + first) * p.granularity) ∨
    i < (count - first) * p.granularity

/-- The elements that the pushing thread may write before its next store. -/
def producerTouches (b : RingBuffer α) (i : Nat) : Prop :=
  match b.producer with
  | .firstCopy _ writeIndex pushCount => Touches p writeIndex pushCount false i
  | .secondCopy _ writeIndex pushCount => Touches p writeIndex pushCount true i
  | _ => False

/-- The elements that the popping thread may read before its next store. -/
def consumerTouches (b : RingBuffer α) (i : Nat) : Prop :=
  match b.consumer with
  | .firstCopy _ readIndex popCount => Touches p readIndex popCount false i
  | .secondCopy _ readIndex popCount _ => Touches p readIndex popCount true i
  | _ => False

/-! ## The invariant -/

/-- The number of cells of the ring of elements. -/
def size (p : RingParams) : Nat := p.capacity * p.granularity

/-- What holds of the pushing thread when `written` slots were pushed and `read` slots popped in
all. -/
def ProducerSound (b : RingBuffer α) (written read : Nat) : Prop :=
  let fits (c : PushCall α) (count : Nat) := c.slotCount * p.granularity ≤ c.newSlots.length ∧
    count + written ≤ read + p.capacity
  let chosen (c : PushCall α) (writeIndex pushCount : Nat) := fits c pushCount ∧
    writeIndex = written % 2 ^ 64 ∧ pushCount ≤ c.slotCount ∧
    min c.slotCount c.freeAtStart ≤ pushCount
  let copied (c : PushCall α) (slots : Nat) := ∀ j x, j < slots * p.granularity →
    c.newSlots[j]? = some x → b.data ((written * p.granularity + j) % size p) = x
  match b.producer with
  | .idle => True
  | .loadWrite c => fits c c.freeAtStart
  | .loadRead c writeIndex => fits c c.freeAtStart ∧ writeIndex = written % 2 ^ 64
  | .firstCopy c writeIndex pushCount => chosen c writeIndex pushCount
  | .secondCopy c writeIndex pushCount =>
    chosen c writeIndex pushCount ∧ copied c (firstCount p writeIndex pushCount)
  | .store c writeIndex pushCount => chosen c writeIndex pushCount ∧ copied c pushCount

/-- The same of the popping thread. -/
def ConsumerSound (b : RingBuffer α) (written read : Nat) : Prop :=
  let chosen (c : PopCall) (readIndex popCount : Nat) :=
    popCount + read ≤ written ∧ readIndex = read % 2 ^ 64 ∧
    min c.maxSlots c.filledAtStart ≤ popCount
  let taken (slots : Nat) :=
    (b.accepted.drop (read * p.granularity)).take (slots * p.granularity)
  match b.consumer with
  | .idle => True
  | .loadRead c => c.filledAtStart + read ≤ written
  | .loadWrite c readIndex => c.filledAtStart + read ≤ written ∧ readIndex = read % 2 ^ 64
  | .firstCopy c readIndex popCount => chosen c readIndex popCount
  | .secondCopy c readIndex popCount out =>
    chosen c readIndex popCount ∧ out = taken (firstCount p readIndex popCount)
  | .store c readIndex popCount out => chosen c readIndex popCount ∧ out = taken popCount

/-- No call transferred less than it could have at its start. -/
def Generous (calls : List Returned) : Prop := ∀ r ∈ calls, min r.requested r.atStart ≤ r.count

/-- What holds when `written` slots were pushed and `read` slots popped in all. -/
structure SoundAt (b : RingBuffer α) (written read : Nat) : Prop where
  writeIndex : b.writeIndex = written % 2 ^ 64
  readIndex : b.readIndex = read % 2 ^ 64
  behind : read ≤ written
  turn : written ≤ read + p.capacity
  length : b.accepted.length = written * p.granularity
  popped : b.popped = b.accepted.take (read * p.granularity)
  holds : Holds b.data (size p) b.accepted (read * p.granularity)
  producer : b.ProducerSound p written read
  consumer : b.ConsumerSound p written read
  pushes : Generous b.pushes
  pops : Generous b.pops

/-- The invariant of the ring buffer. -/
def Sound (b : RingBuffer α) : Prop := ∃ written read, b.SoundAt p written read

/-! ## Places of elements -/

variable {p}

theorem firstCount_le (index count : Nat) : firstCount p index count ≤ count :=
  Nat.min_le_right _ _

theorem firstCount_mod (index count : Nat) :
    firstCount p (index % 2 ^ 64) count = firstCount p index count := by
  unfold firstCount
  rw [p.mod_capacity]

theorem place_index (index : Nat) :
    index * p.granularity % size p = index % p.capacity * p.granularity :=
  Nat.mul_mod_mul_right _ _ _

/-- The first copy is of the next elements. -/
theorem place_first (index count : Nat) {j : Nat}
    (hj : j < firstCount p index count * p.granularity) :
    index % 2 ^ 64 % p.capacity * p.granularity + j = (index * p.granularity + j) % size p := by
  have hfirst : firstCount p index count ≤ p.capacity - index % p.capacity := Nat.min_le_left _ _
  have hpos := Nat.mod_lt index p.capacity_pos
  have hend : (index % p.capacity + firstCount p index count) * p.granularity ≤ size p :=
    Nat.mul_le_mul_right _ (by omega)
  rw [Nat.add_mul] at hend
  rw [place_add (by rw [place_index]; omega), place_index, p.mod_capacity]

/-- The second copy is of the elements after those of the first one. -/
theorem place_second (index : Nat) {count j : Nat} (hcount : count ≤ p.capacity)
    (hj : j < (count - firstCount p index count) * p.granularity) :
    0 + j = (index * p.granularity + firstCount p index count * p.granularity + j) % size p := by
  -- There is a second copy only when the first one goes to the end of the array.
  have hpos := Nat.mod_lt index p.capacity_pos
  have hfirst : index % p.capacity + firstCount p index count = p.capacity := by
    have : count - firstCount p index count ≠ 0 := fun hzero => by
      rw [hzero, Nat.zero_mul] at hj
      exact Nat.not_lt_zero _ hj
    unfold firstCount at this ⊢
    omega
  have hend : index % p.capacity * p.granularity + firstCount p index count * p.granularity =
      size p := by
    rw [← Nat.add_mul, hfirst]
    rfl
  have hle : (count - firstCount p index count) * p.granularity ≤ size p :=
    Nat.mul_le_mul_right _ (by omega)
  rw [Nat.add_assoc, place_wrap (by rw [place_index]; omega) (by rw [place_index]; omega),
    place_index]
  omega

/-- The copies of a transfer touch the places of its elements. -/
theorem Touches.place {index count i : Nat} {firstDone : Bool} (hcount : count ≤ p.capacity)
    (h : Touches p (index % 2 ^ 64) count firstDone i) :
    ∃ j < count * p.granularity, i = (index * p.granularity + j) % size p := by
  have hle := Nat.mul_le_mul_right p.granularity (firstCount_le (p := p) index count)
  unfold Touches at h
  simp only [firstCount_mod] at h
  rcases h with ⟨-, hstart, hend⟩ | hend
  · rw [Nat.add_mul] at hend
    have hj : i - index % 2 ^ 64 % p.capacity * p.granularity <
        firstCount p index count * p.granularity := by omega
    exact ⟨_, Nat.lt_of_lt_of_le hj hle, by rw [← place_first _ _ hj]; omega⟩
  · refine ⟨firstCount p index count * p.granularity + i, ?_, ?_⟩
    · rw [Nat.sub_mul] at hend
      omega
    · rw [← Nat.add_assoc, ← place_second index hcount hend, Nat.zero_add]

/-! ## Steps of the pushing thread -/

variable {b b' : RingBuffer α} {written read : Nat}

/-- A change that leaves the popping thread, the indices and what was transferred as they are. -/
theorem SoundAt.producer_local (h : b.SoundAt p written read) {data : Nat → α}
    {producer : Producer α} (hholds : Holds data (size p) b.accepted (read * p.granularity))
    (hproducer : ({ b with data := data, producer := producer } : RingBuffer α).ProducerSound p
      written read) :
    ({ b with data := data, producer := producer } : RingBuffer α).SoundAt p written read :=
  ⟨h.writeIndex, h.readIndex, h.behind, h.turn, h.length, h.popped, hholds, hproducer, h.consumer,
    h.pushes, h.pops⟩

/-- The free slots that the pushing thread computes are those there are. -/
theorem SoundAt.slotsFree (h : b.SoundAt p written read) :
    sub64 (p.capacity + b.readIndex) (written % 2 ^ 64) = p.capacity + read - written := by
  have hlt := p.capacity_lt
  have hbehind := h.behind
  have hturn := h.turn
  rw [h.readIndex]
  unfold sub64
  omega

theorem SoundAt.numStored (h : b.SoundAt p written read) : b.numStored = written - read := by
  have hlt := p.capacity_lt
  have hbehind := h.behind
  have hturn := h.turn
  unfold RingBuffer.numStored
  rw [h.writeIndex, h.readIndex]
  exact sub64_mod hbehind (by omega)

/-- The elements of a transfer are at most a turn ahead of what is not read yet. -/
theorem fits_elements {count : Nat} (hfits : count + written ≤ read + p.capacity) :
    written * p.granularity + count * p.granularity ≤ read * p.granularity + size p := by
  have := Nat.mul_le_mul_right p.granularity hfits
  rw [Nat.add_mul, Nat.add_mul] at this
  unfold size
  omega

/-- What the popping thread takes is not changed by more slots that are pushed. -/
theorem taken_append {slots : Nat} (h : b.SoundAt p written read) (hslots : slots + read ≤ written)
    (xs : List α) :
    ((b.accepted ++ xs).drop (read * p.granularity)).take (slots * p.granularity) =
      (b.accepted.drop (read * p.granularity)).take (slots * p.granularity) := by
  have hle := Nat.mul_le_mul_right p.granularity hslots
  have hlength := h.length
  rw [Nat.add_mul] at hle
  rw [List.drop_append_of_le_length (by omega), List.take_append_of_le_length]
  rw [List.length_drop]
  omega

theorem ConsumerSound.grow (h : b.SoundAt p written read) {count : Nat} (c' : RingBuffer α)
    {xs : List α} (haccepted : c'.accepted = b.accepted ++ xs) (hsame : c'.consumer = b.consumer) :
    c'.ConsumerSound p (written + count) read := by
  have hconsumer := h.consumer
  unfold ConsumerSound at hconsumer ⊢
  rw [hsame, haccepted]
  cases hpc : b.consumer with
  | idle => trivial
  | loadRead c =>
    rw [hpc] at hconsumer
    exact Nat.le_trans hconsumer (Nat.le_add_right _ _)
  | loadWrite c readIndex =>
    rw [hpc] at hconsumer
    exact ⟨Nat.le_trans hconsumer.1 (Nat.le_add_right _ _), hconsumer.2⟩
  | firstCopy c readIndex popCount =>
    rw [hpc] at hconsumer
    exact ⟨Nat.le_trans hconsumer.1 (Nat.le_add_right _ _), hconsumer.2⟩
  | secondCopy c readIndex popCount out =>
    rw [hpc] at hconsumer
    obtain ⟨⟨hle, hchosen⟩, rfl⟩ := hconsumer
    have hfirst := firstCount_le (p := p) readIndex popCount
    exact ⟨⟨Nat.le_trans hle (Nat.le_add_right _ _), hchosen⟩, (taken_append h (by omega) xs).symm⟩
  | store c readIndex popCount out =>
    rw [hpc] at hconsumer
    obtain ⟨⟨hle, hchosen⟩, rfl⟩ := hconsumer
    exact ⟨⟨Nat.le_trans hle (Nat.le_add_right _ _), hchosen⟩, (taken_append h hle xs).symm⟩

theorem stepProducer_sound (h : b.SoundAt p written read) (hstep : b.stepProducer p = some b') :
    b'.Sound p := by
  have hproducer := h.producer
  unfold ProducerSound at hproducer
  unfold stepProducer at hstep
  cases hpc : b.producer with
  | idle =>
    rw [hpc] at hstep
    cases hstep
  | loadWrite c =>
    rw [hpc] at hstep hproducer
    cases hstep
    exact ⟨written, read, h.producer_local h.holds ⟨hproducer, h.writeIndex⟩⟩
  | loadRead c writeIndex =>
    rw [hpc] at hstep hproducer
    cases hstep
    obtain ⟨⟨hslots, hfree⟩, rfl⟩ := hproducer
    refine ⟨written, read, h.producer_local h.holds ?_⟩
    have hbehind := h.behind
    have hturn := h.turn
    show (c.slotCount * p.granularity ≤ c.newSlots.length ∧
      min c.slotCount (sub64 (p.capacity + b.readIndex) (written % 2 ^ 64)) + written ≤
        read + p.capacity) ∧ _ ∧ _ ∧ _
    rw [h.slotsFree]
    exact ⟨⟨hslots, by omega⟩, rfl, Nat.min_le_left _ _, by omega⟩
  | firstCopy c writeIndex pushCount =>
    rw [hpc] at hstep hproducer
    cases hstep
    have hchosen := hproducer
    obtain ⟨⟨hslots, hfits⟩, rfl, hcount, hgenerous⟩ := hproducer
    have hle := Nat.mul_le_mul_right p.granularity (firstCount_le (p := p) written pushCount)
    have hturn := fits_elements hfits
    have hlength := h.length
    refine ⟨written, read, h.producer_local ?_ ⟨hchosen, fun j x hj hx => ?_⟩⟩
    · rw [firstCount_mod]
      refine h.holds.copyInto (a := written * p.granularity)
        (fun j hj => place_first written pushCount ?_)
        (Nat.le_of_eq hlength) ?_
      · rw [List.length_take] at hj
        omega
      · rw [List.length_take]
        omega
    · rw [firstCount_mod] at hj
      show copyInto b.data _ _ ((written * p.granularity + j) % size p) = x
      rw [firstCount_mod, ← place_first _ _ hj]
      exact copyInto_at (by rw [List.getElem?_take_of_lt hj, hx])
  | secondCopy c writeIndex pushCount =>
    rw [hpc] at hstep hproducer
    cases hstep
    obtain ⟨hchosen, hcopied⟩ := hproducer
    have hchosen' := hchosen
    obtain ⟨⟨hslots, hfits⟩, rfl, hcount, hgenerous⟩ := hchosen'
    rw [firstCount_mod] at hcopied
    have hbehind := h.behind
    have hcapacity : pushCount ≤ p.capacity := by omega
    have hsize : pushCount * p.granularity ≤ size p := Nat.mul_le_mul_right _ hcapacity
    have hturn := fits_elements hfits
    have hlength := h.length
    have hsplit : firstCount p written pushCount * p.granularity +
        (pushCount - firstCount p written pushCount) * p.granularity =
          pushCount * p.granularity := by
      rw [← Nat.add_mul, Nat.add_sub_cancel' (firstCount_le written pushCount)]
    refine ⟨written, read, h.producer_local ?_ ⟨hchosen, fun j x hj hx => ?_⟩⟩
    · rw [firstCount_mod]
      refine h.holds.copyInto
        (a := written * p.granularity + firstCount p written pushCount * p.granularity)
        (fun j hj => place_second written hcapacity ?_) (by omega) ?_
      · rw [List.length_take] at hj
        omega
      · rw [List.length_take]
        omega
    · show copyInto b.data 0 _ ((written * p.granularity + j) % size p) = x
      rw [firstCount_mod]
      by_cases hfirst : j < firstCount p written pushCount * p.granularity
      · -- The second copy does not touch what the first one has written.
        rw [copyInto_off, hcopied j x hfirst hx]
        intro i hi
        rw [List.length_take] at hi
        rw [place_second written hcapacity (j := i) (by omega)]
        exact place_ne (by omega) (by omega)
      · have hrest : j - firstCount p written pushCount * p.granularity <
            (pushCount - firstCount p written pushCount) * p.granularity := by omega
        have hplace := place_second written hcapacity hrest
        rw [Nat.add_assoc, Nat.add_sub_cancel' (Nat.not_lt.mp hfirst)] at hplace
        rw [← hplace]
        refine copyInto_at ?_
        rw [List.getElem?_take_of_lt hrest, List.getElem?_drop,
          Nat.add_sub_cancel' (Nat.not_lt.mp hfirst), hx]
  | store c writeIndex pushCount =>
    rw [hpc] at hstep hproducer
    cases hstep
    obtain ⟨⟨⟨hslots, hfits⟩, rfl, hcount, hgenerous⟩, hcopied⟩ := hproducer
    have hbehind := h.behind
    have hlength := h.length
    have hread := Nat.mul_le_mul_right p.granularity hbehind
    have hpushed : (c.newSlots.take (pushCount * p.granularity)).length =
        pushCount * p.granularity := by
      rw [List.length_take]
      have := Nat.mul_le_mul_right p.granularity hcount
      omega
    refine ⟨written + pushCount, read, ?_, h.readIndex, by omega, by omega, ?_, ?_, ?_, trivial, ?_,
      ?_, h.pops⟩
    · exact Nat.mod_add_mod written (2 ^ 64) pushCount
    · rw [List.length_append, hlength, hpushed, Nat.add_mul]
    · rw [List.take_append_of_le_length (by omega)]
      exact h.popped
    · refine h.holds.append fun j x hx => ?_
      rw [hlength]
      obtain ⟨hj, -⟩ := List.getElem?_eq_some_iff.mp hx
      rw [hpushed] at hj
      rw [List.getElem?_take_of_lt hj] at hx
      exact hcopied j x hj hx
    · exact ConsumerSound.grow h _ rfl rfl
    · exact List.forall_mem_cons.mpr ⟨hgenerous, h.pushes⟩

/-! ## Steps of the popping thread -/

/-- A change that leaves the pushing thread, the indices and what was transferred as they are. -/
theorem SoundAt.consumer_local (h : b.SoundAt p written read) {consumer : Consumer α}
    (hconsumer : ({ b with consumer := consumer } : RingBuffer α).ConsumerSound p written read) :
    ({ b with consumer := consumer } : RingBuffer α).SoundAt p written read :=
  ⟨h.writeIndex, h.readIndex, h.behind, h.turn, h.length, h.popped, h.holds, h.producer, hconsumer,
    h.pushes, h.pops⟩

/-- The pushing thread finds no less room when slots were popped. -/
theorem ProducerSound.grow (h : b.SoundAt p written read) {count : Nat} (c' : RingBuffer α)
    (hdata : c'.data = b.data) (hsame : c'.producer = b.producer) :
    c'.ProducerSound p written (read + count) := by
  have hproducer := h.producer
  unfold ProducerSound at hproducer ⊢
  rw [hsame, hdata]
  cases hpc : b.producer with
  | idle => trivial
  | loadWrite c =>
    rw [hpc] at hproducer
    obtain ⟨hslots, hfits⟩ := hproducer
    exact ⟨hslots, by omega⟩
  | loadRead c writeIndex =>
    rw [hpc] at hproducer
    obtain ⟨⟨hslots, hfits⟩, hindex⟩ := hproducer
    exact ⟨⟨hslots, by omega⟩, hindex⟩
  | firstCopy c writeIndex pushCount =>
    rw [hpc] at hproducer
    obtain ⟨⟨hslots, hfits⟩, hrest⟩ := hproducer
    exact ⟨⟨hslots, by omega⟩, hrest⟩
  | secondCopy c writeIndex pushCount =>
    rw [hpc] at hproducer
    obtain ⟨⟨⟨hslots, hfits⟩, hrest⟩, hcopied⟩ := hproducer
    exact ⟨⟨⟨hslots, by omega⟩, hrest⟩, hcopied⟩
  | store c writeIndex pushCount =>
    rw [hpc] at hproducer
    obtain ⟨⟨⟨hslots, hfits⟩, hrest⟩, hcopied⟩ := hproducer
    exact ⟨⟨⟨hslots, by omega⟩, hrest⟩, hcopied⟩

theorem stepConsumer_sound (h : b.SoundAt p written read) (hstep : b.stepConsumer p = some b') :
    b'.Sound p := by
  have hconsumer := h.consumer
  have hbehind := h.behind
  have hturn := h.turn
  have hlength := h.length
  unfold ConsumerSound at hconsumer
  unfold stepConsumer at hstep
  cases hpc : b.consumer with
  | idle =>
    rw [hpc] at hstep
    cases hstep
  | loadRead c =>
    rw [hpc] at hstep hconsumer
    cases hstep
    exact ⟨written, read, h.consumer_local ⟨hconsumer, h.readIndex⟩⟩
  | loadWrite c readIndex =>
    rw [hpc] at hstep hconsumer
    cases hstep
    obtain ⟨hfilled, rfl⟩ := hconsumer
    have hlt := p.capacity_lt
    have hcount : sub64 b.writeIndex (read % 2 ^ 64) = written - read := by
      rw [h.writeIndex]
      exact sub64_mod hbehind (by omega)
    refine ⟨written, read, h.consumer_local ?_⟩
    show min (sub64 b.writeIndex (read % 2 ^ 64)) c.maxSlots + read ≤ written ∧ _ ∧ _
    rw [hcount]
    exact ⟨by omega, rfl, by omega⟩
  | firstCopy c readIndex popCount =>
    rw [hpc] at hstep hconsumer
    cases hstep
    have hchosen := hconsumer
    obtain ⟨hfits, rfl, -⟩ := hconsumer
    have hle := Nat.mul_le_mul_right p.granularity
      (Nat.add_le_add_right (firstCount_le (p := p) read popCount) read)
    have hfits := Nat.mul_le_mul_right p.granularity hfits
    rw [Nat.add_mul] at hle
    refine ⟨written, read, h.consumer_local ⟨hchosen, ?_⟩⟩
    rw [firstCount_mod]
    exact h.holds.copyFrom (fun j hj => place_first read popCount hj) (Nat.le_refl _) (by omega)
  | secondCopy c readIndex popCount out =>
    rw [hpc] at hstep hconsumer
    cases hstep
    obtain ⟨hchosen, rfl⟩ := hconsumer
    have hchosen' := hchosen
    obtain ⟨hfits, rfl, -⟩ := hchosen'
    have hsplit : firstCount p read popCount * p.granularity +
        (popCount - firstCount p read popCount) * p.granularity = popCount * p.granularity := by
      rw [← Nat.add_mul, Nat.add_sub_cancel' (firstCount_le read popCount)]
    have hfits' := Nat.mul_le_mul_right p.granularity hfits
    rw [Nat.add_mul] at hfits'
    refine ⟨written, read, h.consumer_local ⟨hchosen, ?_⟩⟩
    rw [firstCount_mod, h.holds.copyFrom
      (a := read * p.granularity + firstCount p read popCount * p.granularity)
      (fun j hj => place_second read (by omega) hj) (by omega) (by omega)]
    show (b.accepted.drop (read * p.granularity)).take _ ++ _ =
      (b.accepted.drop (read * p.granularity)).take (popCount * p.granularity)
    rw [← hsplit, List.take_add, List.drop_drop]
  | store c readIndex popCount out =>
    rw [hpc] at hstep hconsumer
    cases hstep
    obtain ⟨⟨hfits, rfl, hgenerous⟩, rfl⟩ := hconsumer
    refine ⟨written, read + popCount, h.writeIndex, Nat.mod_add_mod read (2 ^ 64) popCount,
      by omega, by omega, hlength, ?_, h.holds.mono (Nat.mul_le_mul_right _ (by omega)),
      ProducerSound.grow h _ rfl rfl, trivial, h.pushes,
      List.forall_mem_cons.mpr ⟨hgenerous, h.pops⟩⟩
    show b.popped ++ _ = _
    rw [h.popped, Nat.add_mul, List.take_add]

/-! ## Runs -/

/-- Every step keeps the invariant. -/
theorem step_sound {a : Action α} (h : b.Sound p) (hstep : b.step p a = some b') : b'.Sound p := by
  obtain ⟨written, read, h⟩ := h
  cases a with
  | push newSlots slotCount =>
    unfold step at hstep
    cases hpc : b.producer with
    | idle =>
      simp only [hpc] at hstep
      by_cases hslots : slotCount * p.granularity ≤ newSlots.length
      · rw [if_pos hslots] at hstep
        cases hstep
        refine ⟨written, read, h.producer_local h.holds ⟨hslots, ?_⟩⟩
        have hturn := h.turn
        have hbehind := h.behind
        show p.capacity - b.numStored + written ≤ read + p.capacity
        rw [h.numStored]
        omega
      · rw [if_neg hslots] at hstep
        cases hstep
    | _ =>
      simp only [hpc] at hstep
      cases hstep
  | pop maxSlots =>
    unfold step at hstep
    cases hpc : b.consumer with
    | idle =>
      simp only [hpc] at hstep
      cases hstep
      refine ⟨written, read, h.consumer_local ?_⟩
      have hbehind := h.behind
      show b.numStored + read ≤ written
      rw [h.numStored]
      omega
    | _ =>
      simp only [hpc] at hstep
      cases hstep
  | producer => exact stepProducer_sound h hstep
  | consumer => exact stepConsumer_sound h hstep

/-- An empty ring buffer, whatever its indices and its array hold. -/
theorem sound_empty (p : RingParams) (data : Nat → α) :
    ({ data := data } : RingBuffer α).Sound p :=
  ⟨0, 0, rfl, rfl, Nat.le_refl _, Nat.zero_le _, (Nat.zero_mul _).symm, List.take_nil.symm,
    fun i x _ hx => absurd hx (by simp), trivial, trivial, List.forall_mem_nil _,
    List.forall_mem_nil _⟩

/-- The threads never touch the same element, and none that is not in the array. -/
theorem SoundAt.touches (h : b.SoundAt p written read) (i : Nat) :
    (b.producerTouches p i → i < size p) ∧ (b.consumerTouches p i → i < size p) ∧
      ¬(b.producerTouches p i ∧ b.consumerTouches p i) := by
  have hsize : 0 < size p := Nat.mul_pos p.capacity_pos p.granularity_pos
  have hbehind := h.behind
  have hturn := h.turn
  have hproducer : b.producerTouches p i → ∃ count j, count + written ≤ read + p.capacity ∧
      j < count * p.granularity ∧ i = (written * p.granularity + j) % size p := by
    have hsound := h.producer
    unfold ProducerSound at hsound
    unfold producerTouches
    cases hpc : b.producer with
    | firstCopy c writeIndex pushCount =>
      rw [hpc] at hsound
      obtain ⟨⟨-, hfits⟩, rfl, -⟩ := hsound
      intro htouches
      obtain ⟨j, hj, hplace⟩ := Touches.place (by omega) htouches
      exact ⟨pushCount, j, hfits, hj, hplace⟩
    | secondCopy c writeIndex pushCount =>
      rw [hpc] at hsound
      obtain ⟨⟨⟨-, hfits⟩, rfl, -⟩, -⟩ := hsound
      intro htouches
      obtain ⟨j, hj, hplace⟩ := Touches.place (by omega) htouches
      exact ⟨pushCount, j, hfits, hj, hplace⟩
    | _ => exact False.elim
  have hconsumer : b.consumerTouches p i → ∃ count j, count + read ≤ written ∧
      j < count * p.granularity ∧ i = (read * p.granularity + j) % size p := by
    have hsound := h.consumer
    unfold ConsumerSound at hsound
    unfold consumerTouches
    cases hpc : b.consumer with
    | firstCopy c readIndex popCount =>
      rw [hpc] at hsound
      obtain ⟨hfits, rfl, -⟩ := hsound
      intro htouches
      obtain ⟨j, hj, hplace⟩ := Touches.place (by omega) htouches
      exact ⟨popCount, j, hfits, hj, hplace⟩
    | secondCopy c readIndex popCount out =>
      rw [hpc] at hsound
      obtain ⟨⟨hfits, rfl, -⟩, -⟩ := hsound
      intro htouches
      obtain ⟨j, hj, hplace⟩ := Touches.place (by omega) htouches
      exact ⟨popCount, j, hfits, hj, hplace⟩
    | _ => exact False.elim
  refine ⟨fun htouches => ?_, fun htouches => ?_, fun ⟨hwrites, hreads⟩ => ?_⟩
  · obtain ⟨_, _, -, -, rfl⟩ := hproducer htouches
    exact Nat.mod_lt _ hsize
  · obtain ⟨_, _, -, -, rfl⟩ := hconsumer htouches
    exact Nat.mod_lt _ hsize
  · obtain ⟨count, j, hfits, hj, hplace⟩ := hproducer hwrites
    obtain ⟨count', j', hfits', hj', rfl⟩ := hconsumer hreads
    have hwritten := fits_elements hfits
    have hread := Nat.mul_le_mul_right p.granularity hfits'
    rw [Nat.add_mul] at hread
    exact place_ne (by omega) (by omega) hplace

/-- In every state that calls of `Push` and `Pop` reach: what was popped is a prefix of what was
accepted; the threads touch no element at once, and none outside of the array; there are no more
slots than the capacity; and no call that returned has transferred less than it could have when it
started. -/
theorem ringBuffer_correct (p : RingParams) (data : Nat → α) (b : RingBuffer α)
    (hreach : Reaches (step p) { data := data } b) :
    b.popped <+: b.accepted ∧
      (∀ i, (b.producerTouches p i → i < size p) ∧ (b.consumerTouches p i → i < size p) ∧
        ¬(b.producerTouches p i ∧ b.consumerTouches p i)) ∧
      b.numStored ≤ p.capacity ∧ Generous b.pushes ∧ Generous b.pops := by
  obtain ⟨written, read, h⟩ := hreach.invariant (sound_empty p data) fun h hs => step_sound h hs
  refine ⟨?_, h.touches, ?_, h.pushes, h.pops⟩
  · rw [h.popped]
    exact List.take_prefix _ _
  · have := h.turn
    rw [h.numStored]
    omega

/-- Three slots are pushed to a buffer of two; one is popped. -/
theorem ringBuffer_correct_run :
    ∃ b : RingBuffer Nat, b.popped = [5] ∧ b.popped <+: b.accepted := by
  let p : RingParams := ⟨2, 1, by decide, 1, rfl⟩
  let calls : List (Action Nat) := [.push [5, 6, 7] 3, .producer, .producer, .pop 1, .producer,
    .producer, .producer, .consumer, .consumer, .consumer, .consumer, .consumer]
  have hrun : (calls.foldlM (step p) { data := fun _ => 0 }).map popped = some [5] := by
    decide +kernel
  obtain ⟨b, hb, hpopped⟩ := Option.map_eq_some_iff.mp hrun
  exact ⟨b, hpopped, (ringBuffer_correct p (fun _ => 0) b (Reaches.of_foldlM hb)).1⟩

end RingBuffer

end GbaStation.Queues
