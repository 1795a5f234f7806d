import Mathlib.Data.Fin.VecNotation
import GbaStation.Common.FlatMemory

/-!
# Packed attributes (`video_core/pica/packed_attribute.h`)

Uniforms and fixed attributes are written word by word, and a full vector is decoded from three
words (float24) or four words (float32).
-/

namespace GbaStation.Pica

/-- `Common::Vec4`. -/
structure Vec4 (α : Type*) where
  x : α
  y : α
  z : α
  w : α

/-- `f24::FromRaw`, and `f24::FromFloat32` of the bits of a float. -/
structure F24Codec (F : Type*) where
  fromRaw : Word → F
  fromFloat32 : Word → F

structure PackedAttribute where
  buffer : Fin 4 → Word := fun _ => 0
  index : Nat := 0

namespace PackedAttribute

/-- `Push`: the queue, and whether it is full. There is no result behind the end of the buffer. -/
def push (queue : PackedAttribute) (word : Word) (isFloat32 : Bool) :
    Option (PackedAttribute × Bool) :=
  if h : queue.index < 4 then
    let index := queue.index + 1
    some (⟨Function.update queue.buffer ⟨queue.index, h⟩ word, index⟩,
      (decide (4 ≤ index) && isFloat32) || (decide (3 ≤ index) && !isFloat32))
  else none

def reset (queue : PackedAttribute) : PackedAttribute := { queue with index := 0 }

variable {F : Type*} (codec : F24Codec F)

def asFloat24 (buffer : Fin 4 → Word) : Vec4 F where
  x := codec.fromRaw (buffer 2 &&& 0xFFFFFF)
  y := codec.fromRaw (((buffer 1 &&& 0xFFFF) <<< 8) ||| ((buffer 2 >>> 24) &&& 0xFF))
  z := codec.fromRaw (((buffer 0 &&& 0xFF) <<< 16) ||| ((buffer 1 >>> 16) &&& 0xFFFF))
  w := codec.fromRaw (buffer 0 >>> 8)

def asFloat32 (buffer : Fin 4 → Word) : Vec4 F where
  x := codec.fromFloat32 (buffer 3)
  y := codec.fromFloat32 (buffer 2)
  z := codec.fromFloat32 (buffer 1)
  w := codec.fromFloat32 (buffer 0)

/-- What `Get` decodes; it also resets the queue. -/
def get (queue : PackedAttribute) (isFloat32 : Bool) : Vec4 F :=
  if isFloat32 then asFloat32 codec queue.buffer else asFloat24 codec queue.buffer

end PackedAttribute

/-! ## Logs -/

inductive ShaderKind
  | gs
  | vs
  deriving DecidableEq

/-- The queue of `SubmitImmediate` and those of the shader units. -/
inductive AttributeQueue
  | immediate
  | uniform (unit : ShaderKind)
  deriving DecidableEq

inductive QueueEvent (F : Type*)
  | pushed (queue : AttributeQueue) (word : Word)
  | reset (queue : AttributeQueue)
  | decoded (queue : AttributeQueue) (isFloat32 : Bool) (vector : Vec4 F)

section Logs

variable {F : Type*} {codec : F24Codec F} {pending : AttributeQueue → List Word}
  {log rest : List (QueueEvent F)} {queue : PackedAttribute} {words : List Word}
  {isFloat32 : Bool}

/-- The attribute of exactly three (float24) or four (float32) words. -/
def decodeWords (codec : F24Codec F) : (isFloat32 : Bool) → List Word → Option (Vec4 F)
  | false, [w0, w1, w2] => some (PackedAttribute.asFloat24 codec ![w0, w1, w2, 0])
  | true, [w0, w1, w2, w3] => some (PackedAttribute.asFloat32 codec ![w0, w1, w2, w3])
  | _, _ => none

/-- The words that are pending in each queue behind an event. -/
def QueueEvent.after (pending : AttributeQueue → List Word) :
    QueueEvent F → AttributeQueue → List Word
  | .pushed queue word => Function.update pending queue (pending queue ++ [word])
  | .reset queue => Function.update pending queue []
  | .decoded queue _ _ => Function.update pending queue []

/-- Those behind a log. -/
def pendingAfter (pending : AttributeQueue → List Word) (log : List (QueueEvent F)) :
    AttributeQueue → List Word := log.foldl QueueEvent.after pending

/-- Every attribute is decoded from exactly the words that are pending. -/
def Exact (codec : F24Codec F) : (AttributeQueue → List Word) → List (QueueEvent F) → Prop
  | _, [] => True
  | pending, event :: log =>
    (∀ queue isFloat32 vector, event = .decoded queue isFloat32 vector →
      decodeWords codec isFloat32 (pending queue) = some vector) ∧
    Exact codec (event.after pending) log

theorem exact_append : Exact codec pending (log ++ rest) ↔
    Exact codec pending log ∧ Exact codec (pendingAfter pending log) rest := by
  induction log generalizing pending with
  | nil => exact ⟨fun h => ⟨trivial, h⟩, fun h => h.2⟩
  | cons event log ih =>
    show _ ∧ Exact codec _ (log ++ rest) ↔ (_ ∧ Exact codec _ log) ∧ Exact codec _ rest
    rw [ih, and_assoc]
    rfl

theorem pendingAfter_append :
    pendingAfter pending (log ++ rest) = pendingAfter (pendingAfter pending log) rest :=
  List.foldl_append

/-- An attribute is decoded from three or from four words. -/
theorem length_of_decodeWords {vector : Vec4 F}
    (h : decodeWords codec isFloat32 words = some vector) :
    words.length = if isFloat32 then 4 else 3 := by
  unfold decodeWords at h
  split at h
  · rfl
  · rfl
  · cases h

/-! ## Queues -/

/-- The words of a queue. -/
structure PackedAttribute.Holds (queue : PackedAttribute) (words : List Word) : Prop where
  length : words.length = queue.index
  word : ∀ i : Fin 4, i.val < queue.index → words[i.val]? = some (queue.buffer i)

theorem PackedAttribute.holds_reset : queue.reset.Holds [] :=
  ⟨rfl, fun _ hi => absurd hi (Nat.not_lt_zero _)⟩

/-- A push either adds a word or is behind the end of the buffer. -/
theorem PackedAttribute.Holds.push (h : queue.Holds words) (word : Word)
    (hindex : queue.index < 4) :
    ∃ queue', queue.push word isFloat32 = some (queue',
        (decide (4 ≤ queue.index + 1) && isFloat32) ||
          (decide (3 ≤ queue.index + 1) && !isFloat32)) ∧
      queue'.Holds (words ++ [word]) ∧ queue'.index = queue.index + 1 := by
  refine ⟨_, dif_pos hindex, ⟨?_, fun i hi => ?_⟩, rfl⟩
  · rw [List.length_append, h.length]
    rfl
  · rcases Nat.lt_or_eq_of_le (Nat.le_of_lt_succ hi) with hlt | heq
    · have hne : i ≠ ⟨queue.index, hindex⟩ := fun heq => absurd (congrArg Fin.val heq) hlt.ne
      rw [List.getElem?_append_left (h.length ▸ hlt), h.word i hlt]
      exact congrArg some (Function.update_of_ne hne _ _).symm
    · obtain rfl : i = ⟨queue.index, hindex⟩ := Fin.ext heq
      rw [List.getElem?_append_right h.length.le, h.length, Nat.sub_self]
      exact congrArg some (Function.update_self (β := fun _ => Word) _ _ queue.buffer).symm

theorem PackedAttribute.push_eq_none (hindex : ¬queue.index < 4) (word : Word) :
    queue.push word isFloat32 = none := dif_neg hindex

/-- What `Get` decodes are the pending words, if they are three or four. -/
theorem PackedAttribute.Holds.decodeWords_eq (h : queue.Holds words)
    (hlength : words.length = if isFloat32 then 4 else 3) :
    decodeWords codec isFloat32 words = some (queue.get codec isFloat32) := by
  have hword : ∀ i : Fin 4, i.val < words.length → words[i.val]? = some (queue.buffer i) :=
    fun i hi => h.word i (h.length ▸ hi)
  cases isFloat32 with
  | false =>
    obtain ⟨w0, w1, w2, rfl⟩ := List.length_eq_three.mp hlength
    have h0 := hword 0 (by simp)
    have h1 := hword 1 (by simp)
    have h2 := hword 2 (by simp)
    obtain rfl : w0 = queue.buffer 0 := Option.some.inj h0
    obtain rfl : w1 = queue.buffer 1 := Option.some.inj h1
    obtain rfl : w2 = queue.buffer 2 := Option.some.inj h2
    rfl
  | true =>
    match words, hlength with
    | [w0, w1, w2, w3], _ =>
      have h0 := hword 0 (by simp)
      have h1 := hword 1 (by simp)
      have h2 := hword 2 (by simp)
      have h3 := hword 3 (by simp)
      obtain rfl : w0 = queue.buffer 0 := Option.some.inj h0
      obtain rfl : w1 = queue.buffer 1 := Option.some.inj h1
      obtain rfl : w2 = queue.buffer 2 := Option.some.inj h2
      obtain rfl : w3 = queue.buffer 3 := Option.some.inj h3
      rfl

end Logs

end GbaStation.Pica
