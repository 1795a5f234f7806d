import Mathlib.Data.List.Perm.Basic
import GbaStation.Common.FlatMemory
import GbaStation.Audio.Resampling

/-!
# Audio sources (`audio_core/hle/source.cpp`)

One of the sources that the DSP mixes. The guest puts buffers on its queue; a tick takes a
configuration of the guest over and fills a frame from the buffers.

- The queue is a `std::priority_queue`. Its order is that of the buffer ids; which of two buffers
  with the same id comes first is not specified, so that `Pops` is a relation.
- A result that is `none` is an `erase` behind the end of a buffer (`eraseFront`).
- What is written to the guest is left out, and so are gains, filters and the sync count.
-/

namespace GbaStation.Audio

/-! ## State -/

inductive Format where
  | pcm8
  | pcm16
  | adpcm
  /-- The value of the two bits that is no format. -/
  | other
deriving DecidableEq, Repr

inductive MonoOrStereo where
  | mono
  | stereo
  | other
deriving DecidableEq, Repr

inductive InterpolationMode where
  | polyphase
  | linear
  | none
  /-- Any other value of the byte. -/
  | other
deriving DecidableEq, Repr

/-- `num_channels`. -/
def MonoOrStereo.numChannels (m : MonoOrStereo) : Nat := if m = .stereo then 2 else 1

/-- `Source::Buffer`. -/
structure Buffer where
  physicalAddress : Word
  length : Word
  adpcmYn : Halfword × Halfword
  adpcmDirty : Bool
  isLooping : Bool
  bufferId : Halfword
  monoOrStereo : MonoOrStereo
  format : Format
  fromQueue : Bool
  playPosition : Word
  hasPlayed : Bool

/-- A positive rate multiplier, as the fixed-point step of the resampler and as the samples that a
number of positions in the frame are counted for. -/
structure RateMultiplier where
  stepSize : BitVec 64
  samples : Nat → Word
  samples_zero : samples 0 = 0

/-- The rate `1.0f`. -/
def RateMultiplier.one : RateMultiplier := ⟨scaleFactor, .ofNat 32, rfl⟩

/-- `Source::SourceState`. -/
structure SourceState where
  enabled : Bool
  inputQueue : List Buffer
  monoOrStereo : MonoOrStereo
  format : Format
  currentSampleNumber : Word
  currentBufferPhysicalAddress : Word
  currentBuffer : List Sample
  bufferUpdate : Bool
  lastBufferId : Halfword
  currentBufferId : Halfword
  adpcmCoeffs : Nat → Int
  adpcmState : ADPCMState
  rateMultiplier : RateMultiplier
  interpolationMode : InterpolationMode
  interpState : InterpState

/-- `Reset`. -/
def SourceState.initial : SourceState where
  enabled := false
  inputQueue := []
  monoOrStereo := .mono
  format := .adpcm
  currentSampleNumber := 0
  currentBufferPhysicalAddress := 0
  currentBuffer := []
  bufferUpdate := false
  lastBufferId := 0
  currentBufferId := 0
  adpcmCoeffs := fun _ => 0
  adpcmState := ⟨0, 0⟩
  rateMultiplier := .one
  interpolationMode := .polyphase
  interpState := ⟨(0, 0), (0, 0), 0⟩

/-- The physical memory: the addresses that have memory, and the bytes from an address on. -/
structure PhysicalMemory where
  valid : Word → Bool
  bytes : Word → Nat → Byte

/-- `GetPhysicalPointer` of an address of the DSP. -/
def PhysicalMemory.getPhysicalPointer (memory : PhysicalMemory) (address : Word) :
    Option (Nat → Byte) :=
  if memory.valid (address &&& 0xFFFFFFFC) then some (memory.bytes (address &&& 0xFFFFFFFC))
  else none

/-! ## Buffers -/

/-- What the formats make of a buffer; the samples, and the state of the ADPCM decoder. -/
def Buffer.decode (buf : Buffer) (data : Nat → Byte) (coeffs : Nat → Int) (adpcm : ADPCMState) :
    List Sample × ADPCMState :=
  match buf.format with
  | .pcm8 => (decodePCM8 buf.monoOrStereo.numChannels data buf.length.toNat, adpcm)
  | .pcm16 => (decodePCM16 buf.monoOrStereo.numChannels data buf.length.toNat, adpcm)
  | .adpcm => decodeADPCM data buf.length.toNat coeffs adpcm
  | .other => ([], adpcm)

/-- How many samples a format makes of a length. -/
def Format.decodedLength (format : Format) (length : Word) : Nat :=
  match format with
  | .pcm8 | .pcm16 => length.toNat
  | .adpcm => length.toNat + length.toNat % 2
  | .other => 0

/-- `top` and `pop`: a buffer with the least id, and the other buffers. -/
def Pops (queue : List Buffer) (buf : Buffer) (rest : List Buffer) : Prop :=
  (buf :: rest).Perm queue ∧ ∀ b ∈ rest, buf.bufferId ≤ b.bufferId

/-- The samples of a buffer that have been played before it is started. -/
def Buffer.start (buf : Buffer) : Word := if buf.hasPlayed then 0 else buf.playPosition

/-- The state of the ADPCM decoder at the start of a buffer. -/
def Buffer.adpcm (buf : Buffer) (adpcm : ADPCMState) : ADPCMState :=
  if buf.adpcmDirty then ⟨toS16 buf.adpcmYn.1.toNat, toS16 buf.adpcmYn.2.toNat⟩ else adpcm

/-- `erase` of so many samples at the front; `none` if there are not so many. -/
def eraseFront (buffer : List Sample) (n : Nat) : Option (List Sample) :=
  if buffer.length < n then none else some (buffer.drop n)

/-- `DequeueBuffer`, with the buffer that is popped and the others. The current buffer is empty. -/
def dequeueBuffer (memory : PhysicalMemory) (s : SourceState) (buf : Buffer) (rest : List Buffer) :
    Option SourceState :=
  let adpcm := buf.adpcm s.adpcmState
  match memory.getPhysicalPointer buf.physicalAddress with
  | none => some { s with inputQueue := rest, adpcmState := adpcm, currentBuffer := [] }
  | some data =>
    let decoded := buf.decode data s.adpcmCoeffs adpcm
    -- a buffer that loops goes back on the queue
    let queue := if buf.isLooping then { buf with hasPlayed := true } :: rest else rest
    (eraseFront decoded.1 buf.start.toNat).map fun buffer =>
      { s with
        inputQueue := queue
        currentSampleNumber := buf.start
        currentBufferPhysicalAddress := buf.physicalAddress
        currentBuffer := buffer
        bufferUpdate := buf.fromQueue && !buf.hasPlayed
        lastBufferId := 0
        currentBufferId := buf.bufferId
        adpcmState := decoded.2 }

/-- The samples that the format makes of the buffer. -/
def Buffer.decodedLength (buf : Buffer) : Nat := buf.format.decodedLength buf.length

theorem length_decode (buf : Buffer) (data : Nat → Byte) (coeffs : Nat → Int)
    (adpcm : ADPCMState) :
    (buf.decode data coeffs adpcm).1.length = buf.decodedLength := by
  rw [Buffer.decodedLength]
  cases hformat : buf.format with
  | pcm8 => simp [Buffer.decode, hformat, Format.decodedLength]
  | pcm16 => simp [Buffer.decode, hformat, Format.decodedLength]
  | adpcm => simp [Buffer.decode, hformat, Format.decodedLength, length_decodeADPCM]
  | other => simp [Buffer.decode, hformat, Format.decodedLength]

namespace Buffer

variable (memory : PhysicalMemory) (buf : Buffer)

/-- There is memory at the address of the buffer. -/
def Valid : Prop := memory.valid (buf.physicalAddress &&& 0xFFFFFFFC) = true

instance : Decidable (buf.Valid memory) := inferInstanceAs (Decidable (_ = _))

/-- The samples of the buffer, without what has been played. -/
def samples : Nat := if buf.Valid memory then buf.decodedLength - buf.start.toNat else 0

/-- The buffer as it goes back on the queue. -/
def played : Buffer := { buf with hasPlayed := true }

/-- The queue behind a buffer that has been popped. -/
def requeue (rest : List Buffer) : List Buffer :=
  if buf.Valid memory ∧ buf.isLooping = true then buf.played :: rest else rest

end Buffer

/-- What neither a buffer nor a turn of the resampler changes. -/
def SameRate (s s' : SourceState) : Prop :=
  s'.rateMultiplier = s.rateMultiplier ∧ s'.interpolationMode = s.interpolationMode ∧
    s'.format = s.format ∧ s'.monoOrStereo = s.monoOrStereo ∧ s'.enabled = s.enabled

section Dequeue

variable {memory : PhysicalMemory} {buf : Buffer}

/-- A buffer without memory. -/
theorem dequeueBuffer_invalid (s : SourceState) (rest : List Buffer) (h : ¬buf.Valid memory) :
    ∃ adpcm, dequeueBuffer memory s buf rest =
      some { s with inputQueue := rest, adpcmState := adpcm, currentBuffer := [] } := by
  have hpointer : memory.getPhysicalPointer buf.physicalAddress = none := if_neg h
  simp only [dequeueBuffer, hpointer]
  exact ⟨_, rfl⟩

/-- A buffer with memory, whose samples that have been played are inside of it. -/
theorem dequeueBuffer_valid (s : SourceState) (rest : List Buffer) (h : buf.Valid memory)
    (hstart : buf.start.toNat ≤ buf.decodedLength) :
    ∃ (samples : List Sample) (adpcm : ADPCMState), samples.length = buf.decodedLength ∧
      dequeueBuffer memory s buf rest =
      some { s with
        inputQueue := buf.requeue memory rest
        currentSampleNumber := buf.start
        currentBufferPhysicalAddress := buf.physicalAddress
        currentBuffer := samples.drop buf.start.toNat
        bufferUpdate := buf.fromQueue && !buf.hasPlayed
        lastBufferId := 0
        currentBufferId := buf.bufferId
        adpcmState := adpcm } := by
  have hpointer : memory.getPhysicalPointer buf.physicalAddress =
      some (memory.bytes (buf.physicalAddress &&& 0xFFFFFFFC)) := if_pos h
  simp only [dequeueBuffer, hpointer, eraseFront, length_decode]
  rw [if_neg (not_lt.mpr hstart)]
  let decoded := buf.decode (memory.bytes (buf.physicalAddress &&& 0xFFFFFFFC)) s.adpcmCoeffs
    (buf.adpcm s.adpcmState)
  refine ⟨decoded.1, decoded.2, length_decode _ _ _ _, ?_⟩
  simp only [Buffer.requeue, h, true_and]
  rfl

variable {s s' : SourceState} {rest : List Buffer}

/-- The only `erase` behind the end. -/
theorem dequeueBuffer_eq_none :
    dequeueBuffer memory s buf rest = none ↔
      buf.Valid memory ∧ buf.decodedLength < buf.start.toNat := by
  by_cases h : buf.Valid memory
  · by_cases hstart : buf.start.toNat ≤ buf.decodedLength
    · obtain ⟨samples, adpcm, -, hsome⟩ := dequeueBuffer_valid s rest h hstart
      rw [hsome]
      exact iff_of_false (Option.some_ne_none _) fun h => absurd h.2 (not_lt.mpr hstart)
    · have hpointer : memory.getPhysicalPointer buf.physicalAddress =
          some (memory.bytes (buf.physicalAddress &&& 0xFFFFFFFC)) := if_pos h
      refine iff_of_true ?_ ⟨h, not_le.mp hstart⟩
      simp only [dequeueBuffer, hpointer, eraseFront, length_decode]
      rw [if_pos (not_le.mp hstart)]
      rfl
  · obtain ⟨adpcm, hsome⟩ := dequeueBuffer_invalid s rest h
    rw [hsome]
    exact iff_of_false (Option.some_ne_none _) fun hvalid => h hvalid.1

/-- What dequeuing a buffer does to the queue and to the samples that are there. -/
theorem dequeueBuffer_spec (h : dequeueBuffer memory s buf rest = some s') :
    SameRate s s' ∧ s'.interpState = s.interpState ∧ s'.inputQueue = buf.requeue memory rest ∧
      s'.currentBuffer.length = buf.samples memory ∧
      s'.currentSampleNumber =
        if buf.Valid memory then buf.start else s.currentSampleNumber := by
  by_cases hvalid : buf.Valid memory
  · have hstart : buf.start.toNat ≤ buf.decodedLength := by
      by_contra hlong
      rw [dequeueBuffer_eq_none.mpr ⟨hvalid, not_le.mp hlong⟩] at h
      cases h
    obtain ⟨samples, adpcm, hlength, hsome⟩ := dequeueBuffer_valid s rest hvalid hstart
    rw [hsome] at h
    cases h
    refine ⟨⟨rfl, rfl, rfl, rfl, rfl⟩, rfl, rfl, ?_, (if_pos hvalid).symm⟩
    rw [List.length_drop, hlength, Buffer.samples, if_pos hvalid]
  · obtain ⟨adpcm, hsome⟩ := dequeueBuffer_invalid s rest hvalid
    rw [hsome] at h
    cases h
    refine ⟨⟨rfl, rfl, rfl, rfl, rfl⟩, rfl, ?_, ?_, (if_neg hvalid).symm⟩
    · exact (if_neg fun hand => hvalid hand.1).symm
    · rw [Buffer.samples, if_neg hvalid]
      rfl

end Dequeue

/-! ## Frames -/

/-- A frame that is being filled: the source, and the samples so far. -/
structure Frame where
  source : SourceState
  output : List Sample

/-- `StepOverSamples` of the current buffer. -/
def Frame.stepOver (frame : Frame) (fn : Nat → Sample → Sample → Sample → Sample) : Frame :=
  let result := stepOverSamples fn frame.source.rateMultiplier.stepSize frame.source.interpState
    frame.source.currentBuffer frame.output
  ⟨{ frame.source with interpState := result.1, currentBuffer := result.2.1 }, result.2.2⟩

/-- The turn of the loop of `GenerateFrame` that steps over the current buffer. -/
def Frame.resample (frame : Frame) : Frame :=
  match frame.source.interpolationMode with
  | .none => frame.stepOver noInterpolation
  | .linear | .polyphase => frame.stepOver linearInterpolation
  -- logged
  | .other => frame

/-- The loop of `GenerateFrame`, one turn. -/
inductive Turn (memory : PhysicalMemory) : Frame → Frame → Prop where
  /-- The current buffer goes on. -/
  | resample {frame : Frame} (hroom : frame.output.length < samplesPerFrame)
      (hbuffer : frame.source.currentBuffer ≠ []) : Turn memory frame frame.resample
  /-- It is empty, and another one is taken. -/
  | dequeue {frame : Frame} {buf : Buffer} {rest : List Buffer} {s : SourceState}
      (hroom : frame.output.length < samplesPerFrame) (hbuffer : frame.source.currentBuffer = [])
      (hpops : Pops frame.source.inputQueue buf rest)
      (hdequeue : dequeueBuffer memory frame.source buf rest = some s) :
      Turn memory frame (Frame.resample ⟨s, frame.output⟩)

/-- The loop of `GenerateFrame` is over: the frame is full, or there are no more buffers. -/
def Frame.Done (frame : Frame) : Prop :=
  samplesPerFrame ≤ frame.output.length ∨
    (frame.source.currentBuffer = [] ∧ frame.source.inputQueue = [])

/-- The end of `GenerateFrame` behind the loop. -/
def Frame.finish (frame : Frame) : SourceState :=
  { frame.source with
    currentSampleNumber := frame.source.currentSampleNumber +
      frame.source.rateMultiplier.samples frame.output.length }

/-- `GenerateFrame` of a source that has nothing to play. -/
def SourceState.stop (s : SourceState) : SourceState :=
  { s with
    enabled := false
    bufferUpdate := true
    lastBufferId := s.currentBufferId
    currentBufferId := 0 }

section Resample

variable {frame : Frame}

/-- What a turn does not change. -/
theorem resample_frame (frame : Frame) : SameRate frame.source frame.resample.source ∧
    frame.resample.source.inputQueue = frame.source.inputQueue ∧
    frame.resample.source.currentSampleNumber = frame.source.currentSampleNumber := by
  rw [Frame.resample]
  cases frame.source.interpolationMode with
  | none => exact ⟨⟨rfl, rfl, rfl, rfl, rfl⟩, rfl, rfl⟩
  | linear => exact ⟨⟨rfl, rfl, rfl, rfl, rfl⟩, rfl, rfl⟩
  | polyphase => exact ⟨⟨rfl, rfl, rfl, rfl, rfl⟩, rfl, rfl⟩
  | other => exact ⟨⟨rfl, rfl, rfl, rfl, rfl⟩, rfl, rfl⟩

/-- Nothing happens to an empty buffer, and in a mode that is none. -/
theorem resample_empty
    (h : frame.source.currentBuffer = [] ∨ frame.source.interpolationMode = .other) :
    frame.resample = frame := by
  have hstep : ∀ fn, frame.source.currentBuffer = [] → frame.stepOver fn = frame := by
    intro fn hbuffer
    rw [Frame.stepOver, stepOverSamples, if_pos hbuffer]
  rw [Frame.resample]
  cases hmode : frame.source.interpolationMode with
  | none => exact hstep _ (h.resolve_right (by simp [hmode]))
  | linear => exact hstep _ (h.resolve_right (by simp [hmode]))
  | polyphase => exact hstep _ (h.resolve_right (by simp [hmode]))
  | other => rfl

end Resample

end GbaStation.Audio
