import Mathlib.Logic.Relation
import GbaStation.Audio.Source

/-!
# Play positions

The guest may start the buffer of a configuration behind its first sample, and may extend the buffer
that is playing. In both cases the samples that have been played are erased from the front of what
has been decoded.

- `parseConfig` is `ParseConfig`, and `Step` a source tick by tick: a configuration, then buffers
  of a frame. Which configurations the guest writes is a parameter.
- `reached_safe`: the erases are inside of it at every point of every run if no configuration
  starts a buffer behind its end (`Configuration.InBounds`).
-/

namespace GbaStation.Audio

open Relation

/-! ## Configurations -/

/-- A buffer for the queue in a configuration. -/
structure ConfigBuffer where
  physicalAddress : Word
  length : Word
  adpcmYn : Halfword × Halfword
  adpcmDirty : Bool
  isLooping : Bool
  bufferId : Halfword

/-- `SourceConfiguration::Configuration`, without what is left out of the state. A rate that is not
positive is `none`. -/
structure Configuration where
  formatDirty : Bool
  monoOrStereoDirty : Bool
  adpcmCoefficientsDirty : Bool
  partialEmbeddedBufferDirty : Bool
  partialResetFlag : Bool
  enableDirty : Bool
  interpolationDirty : Bool
  rateMultiplierDirty : Bool
  bufferQueueDirty : Bool
  playPositionDirty : Bool
  resetFlag : Bool
  embeddedBufferDirty : Bool
  rateMultiplier : Option RateMultiplier
  interpolationMode : InterpolationMode
  buffersDirty : Fin 4 → Bool
  buffers : Fin 4 → ConfigBuffer
  enable : Bool
  playPosition : Word
  embedded : ConfigBuffer
  monoOrStereo : MonoOrStereo
  format : Format

namespace Configuration

variable (config : Configuration)

/-- The reset flags in `ParseConfig`. -/
def reset (s : SourceState) : SourceState :=
  let s := if config.resetFlag then .initial else s
  if config.partialResetFlag then { s with inputQueue := [] } else s

/-- The fields in `ParseConfig`. An embedded buffer has its format and channels with it. -/
def update (coeffs : Nat → Int) (s : SourceState) : SourceState :=
  { s with
    enabled := if config.enableDirty then config.enable else s.enabled
    rateMultiplier :=
      if config.rateMultiplierDirty then config.rateMultiplier.getD .one else s.rateMultiplier
    adpcmCoeffs := if config.adpcmCoefficientsDirty then coeffs else s.adpcmCoeffs
    interpolationMode :=
      if config.interpolationDirty then config.interpolationMode else s.interpolationMode
    format :=
      if config.formatDirty || config.embeddedBufferDirty then config.format else s.format
    monoOrStereo :=
      if config.monoOrStereoDirty || config.embeddedBufferDirty then config.monoOrStereo
      else s.monoOrStereo }

/-- The play position of the embedded buffer. -/
def startPosition : Word := if config.playPositionDirty then config.playPosition else 0

/-- The partial update of the buffer that is playing. Only PCM16 is handled. -/
def partialUpdate (memory : PhysicalMemory) (s : SourceState) : Option SourceState :=
  if config.partialEmbeddedBufferDirty then
    match memory.getPhysicalPointer s.currentBufferPhysicalAddress, s.format with
    | some data, .pcm16 =>
      let buffer := decodePCM16 s.monoOrStereo.numChannels data config.embedded.length.toNat
      if buffer.length < s.currentSampleNumber.toNat then
        some { s with currentBuffer := buffer, currentSampleNumber := 0 }
      else
        (eraseFront buffer s.currentSampleNumber.toNat).map fun buffer =>
          { s with currentBuffer := buffer }
    | _, _ => some s
  else some s

/-- A buffer as it is put on the queue. -/
def buffer (s : SourceState) (b : ConfigBuffer) (fromQueue : Bool) (playPosition : Word) :
    Buffer where
  physicalAddress := b.physicalAddress
  length := b.length
  adpcmYn := b.adpcmYn
  adpcmDirty := b.adpcmDirty
  isLooping := b.isLooping
  bufferId := b.bufferId
  monoOrStereo := s.monoOrStereo
  format := s.format
  fromQueue := fromQueue
  playPosition := playPosition
  hasPlayed := false

/-- A buffer is put on the queue unless its length is negative. -/
def enqueue (s : SourceState) (b : ConfigBuffer) (fromQueue : Bool) (playPosition : Word) :
    SourceState :=
  if b.length.msb then s
  else { s with inputQueue := buffer s b fromQueue playPosition :: s.inputQueue }

/-- The embedded buffer in `ParseConfig`. -/
def enqueueEmbedded (s : SourceState) : SourceState :=
  if config.embeddedBufferDirty then enqueue s config.embedded false config.startPosition else s

/-- The buffers of the queue in `ParseConfig`. -/
def enqueueBuffers (s : SourceState) : SourceState :=
  if config.bufferQueueDirty then
    (List.finRange 4).foldl
      (fun s i => if config.buffersDirty i then enqueue s (config.buffers i) true 0 else s) s
  else s

/-- `ParseConfig`. A configuration without a dirty flag changes nothing. -/
def parseConfig (memory : PhysicalMemory) (coeffs : Nat → Int) (s : SourceState) :
    Option SourceState :=
  (config.partialUpdate memory (config.update coeffs (config.reset s))).map fun s =>
    config.enqueueBuffers (config.enqueueEmbedded s)

/-- The embedded buffer, if it is put on the queue and has memory, does not start behind its end. -/
def InBounds (valid : Word → Bool) : Prop :=
  config.embeddedBufferDirty = true → config.embedded.length.msb = false →
    valid (config.embedded.physicalAddress &&& 0xFFFFFFFC) = true →
    config.startPosition.toNat ≤ config.format.decodedLength config.embedded.length

/-- The partial update decodes the buffer that is playing again. -/
def Redecodes (valid : Word → Bool) (s : SourceState) : Prop :=
  config.partialEmbeddedBufferDirty = true ∧
    valid (s.currentBufferPhysicalAddress &&& 0xFFFFFFFC) = true ∧ s.format = .pcm16

instance (valid : Word → Bool) (s : SourceState) : Decidable (config.Redecodes valid s) :=
  inferInstanceAs (Decidable (_ ∧ _ ∧ _))

end Configuration

/-! ## Ticks -/

/-- A source between two calls, with the length of the buffer that was decoded last. The length is
gone when samples of the buffer have been resampled. -/
inductive Point where
  | idle (s : SourceState) (decoded : Option Nat)
  /-- The configuration has been taken over. -/
  | parsed (s : SourceState) (decoded : Option Nat)
  /-- At the head of the loop of a frame. -/
  | loop (frame : Frame) (decoded : Option Nat)
  /-- In the loop, with the buffer to be resampled. -/
  | ready (frame : Frame) (decoded : Option Nat)

namespace Point

def source : Point → SourceState
  | idle s _ | parsed s _ => s
  | loop frame _ | ready frame _ => frame.source

def decoded : Point → Option Nat
  | idle _ decoded | parsed _ decoded | loop _ decoded | ready _ decoded => decoded

end Point

/-- The length of the buffer behind `ParseConfig`. A source that is reset has no samples. -/
def Configuration.decodedAfter (config : Configuration) (valid : Word → Bool)
    (coeffs : Nat → Int) (s : SourceState) (decoded : Option Nat) : Option Nat :=
  if config.Redecodes valid (config.update coeffs (config.reset s)) then
    some config.embedded.length.toNat
  else if config.resetFlag then some 0
  else decoded

open Audio.Configuration (partialUpdate enqueue enqueueBuffers reset update parseConfig
  enqueueEmbedded)

/-- And behind `DequeueBuffer`. A buffer without memory is not decoded. -/
def Buffer.decodedAfter (buf : Buffer) (memory : PhysicalMemory) (decoded : Option Nat) :
    Option Nat :=
  if buf.Valid memory then some buf.decodedLength else decoded

/-- And behind the resampler, which does nothing to an empty buffer. -/
def Frame.decodedAfter (frame : Frame) (decoded : Option Nat) : Option Nat :=
  if frame.source.currentBuffer = [] ∨ frame.source.interpolationMode = .other then decoded
  else none

/-- `Tick`, in parts. The guest writes configurations and memory. -/
inductive Step (valid : Word → Bool) (Writes : Configuration → Prop) : Point → Point → Prop where
  /-- `ParseConfig`. -/
  | parse {s s' : SourceState} {decoded : Option Nat} (config : Configuration)
      (coeffs : Nat → Int) (bytes : Word → Nat → Byte) (hwrites : Writes config)
      (hparse : config.parseConfig ⟨valid, bytes⟩ coeffs s = some s') :
      Step valid Writes (.idle s decoded)
        (.parsed s' (config.decodedAfter valid coeffs s decoded))
  | skip {s : SourceState} {decoded : Option Nat} (henabled : s.enabled = false) :
      Step valid Writes (.parsed s decoded) (.idle s decoded)
  /-- A frame of a source that has nothing to play. -/
  | stop {s : SourceState} {decoded : Option Nat} (henabled : s.enabled = true)
      (hbuffer : s.currentBuffer = []) (hqueue : s.inputQueue = []) :
      Step valid Writes (.parsed s decoded) (.idle s.stop decoded)
  /-- A frame that only dequeues a buffer. -/
  | first {s s' : SourceState} {decoded : Option Nat} {buf : Buffer} {rest : List Buffer}
      (bytes : Word → Nat → Byte) (henabled : s.enabled = true) (hbuffer : s.currentBuffer = [])
      (hpops : Pops s.inputQueue buf rest)
      (hdequeue : dequeueBuffer ⟨valid, bytes⟩ s buf rest = some s') :
      Step valid Writes (.parsed s decoded)
        (.idle s' (buf.decodedAfter ⟨valid, bytes⟩ decoded))
  | start {s : SourceState} {decoded : Option Nat} (henabled : s.enabled = true)
      (hbuffer : s.currentBuffer ≠ []) :
      Step valid Writes (.parsed s decoded) (.loop ⟨s, []⟩ decoded)
  | keep {frame : Frame} {decoded : Option Nat} (hroom : frame.output.length < samplesPerFrame)
      (hbuffer : frame.source.currentBuffer ≠ []) :
      Step valid Writes (.loop frame decoded) (.ready frame decoded)
  | dequeue {frame : Frame} {s' : SourceState} {decoded : Option Nat} {buf : Buffer}
      {rest : List Buffer} (bytes : Word → Nat → Byte)
      (hroom : frame.output.length < samplesPerFrame) (hbuffer : frame.source.currentBuffer = [])
      (hpops : Pops frame.source.inputQueue buf rest)
      (hdequeue : dequeueBuffer ⟨valid, bytes⟩ frame.source buf rest = some s') :
      Step valid Writes (.loop frame decoded)
        (.ready ⟨s', frame.output⟩ (buf.decodedAfter ⟨valid, bytes⟩ decoded))
  | resample {frame : Frame} {decoded : Option Nat} :
      Step valid Writes (.ready frame decoded)
        (.loop frame.resample (frame.decodedAfter decoded))
  /-- The samples of the frame are counted. -/
  | finish {frame : Frame} {decoded : Option Nat} (hdone : frame.Done) :
      Step valid Writes (.loop frame decoded)
        (.idle frame.finish (if frame.output = [] then decoded else none))

/-- The next call erases behind the end of a buffer. -/
def Point.Faults (valid : Word → Bool) (Writes : Configuration → Prop) : Point → Prop
  | .idle s _ => ∃ config coeffs bytes, Writes config ∧
      config.parseConfig ⟨valid, bytes⟩ coeffs s = none
  | .parsed s _ => s.enabled = true ∧ s.currentBuffer = [] ∧ ∃ buf rest bytes,
      Pops s.inputQueue buf rest ∧ dequeueBuffer ⟨valid, bytes⟩ s buf rest = none
  | .loop frame _ => frame.output.length < samplesPerFrame ∧ frame.source.currentBuffer = [] ∧
      ∃ buf rest bytes, Pops frame.source.inputQueue buf rest ∧
        dequeueBuffer ⟨valid, bytes⟩ frame.source buf rest = none
  | .ready _ _ => False

/-- The samples that have been played and the others are those that were decoded. -/
def Point.Counts (p : Point) : Prop :=
  ∀ n, p.decoded = some n →
    p.source.currentSampleNumber.toNat + p.source.currentBuffer.length = n

/-- Every erase is inside of the decoded buffer, and none has been lost. -/
def Point.Safe (valid : Word → Bool) (Writes : Configuration → Prop) (p : Point) : Prop :=
  ¬p.Faults valid Writes ∧ p.Counts

/-- A point that is reached when the guest writes such configurations. -/
def Reached (valid : Word → Bool) (Writes : Configuration → Prop) (p : Point) : Prop :=
  ReflTransGen (Step valid Writes) (.idle .initial (some 0)) p

/-! ## The invariant -/

variable {valid : Word → Bool} {Writes : Configuration → Prop} {config : Configuration}
  {s s' : SourceState} {p p' : Point} {buf : Buffer} {rest : List Buffer} {decoded : Option Nat}

/-- The buffers on the queue do not start behind their ends. -/
def QueueInBounds (valid : Word → Bool) (s : SourceState) : Prop :=
  ∀ b ∈ s.inputQueue, valid (b.physicalAddress &&& 0xFFFFFFFC) = true →
    b.start.toNat ≤ b.decodedLength

/-- The invariant of a run. -/
structure Point.Inv (valid : Word → Bool) (p : Point) : Prop where
  queue : QueueInBounds valid p.source
  counts : p.Counts

theorem partialUpdate_spec (valid : Word → Bool) (config : Configuration)
    (bytes : Word → Nat → Byte) (s : SourceState) :
    ∃ s', config.partialUpdate ⟨valid, bytes⟩ s = some s' ∧ s'.inputQueue = s.inputQueue ∧
      s'.format = s.format ∧
      (config.Redecodes valid s →
        s'.currentSampleNumber.toNat + s'.currentBuffer.length = config.embedded.length.toNat) ∧
      (¬config.Redecodes valid s → s' = s) := by
  rw [partialUpdate]
  by_cases hredecodes : config.Redecodes valid s
  · obtain ⟨hdirty, hvalid, hformat⟩ := hredecodes
    have hpointer : PhysicalMemory.getPhysicalPointer ⟨valid, bytes⟩
        s.currentBufferPhysicalAddress =
          some (bytes (s.currentBufferPhysicalAddress &&& 0xFFFFFFFC)) := if_pos hvalid
    rw [if_pos hdirty, hpointer, hformat]
    simp only [eraseFront, length_decodePCM16]
    -- the position is set back if it is behind the new end
    split_ifs with hbehind
    · exact ⟨_, rfl, rfl, rfl, fun _ => by simp, fun h => absurd ⟨hdirty, hvalid, hformat⟩ h⟩
    · refine ⟨_, rfl, rfl, rfl, fun _ => ?_, fun h => absurd ⟨hdirty, hvalid, hformat⟩ h⟩
      simp only [List.length_drop, length_decodePCM16]
      omega
  · refine ⟨s, ?_, rfl, rfl, fun h => absurd h hredecodes, fun _ => rfl⟩
    split_ifs with hdirty
    · cases hpointer : PhysicalMemory.getPhysicalPointer ⟨valid, bytes⟩
          s.currentBufferPhysicalAddress with
      | none => rfl
      | some data =>
        have hvalid : valid (s.currentBufferPhysicalAddress &&& 0xFFFFFFFC) = true := by
          by_contra hinvalid
          rw [PhysicalMemory.getPhysicalPointer, if_neg hinvalid] at hpointer
          cases hpointer
        cases hformat : s.format with
        | pcm16 => exact absurd ⟨hdirty, hvalid, hformat⟩ hredecodes
        | pcm8 => rfl
        | adpcm => rfl
        | other => rfl
    · rfl

/-- What putting buffers on the queue does not change. -/
def SameBuffer (s s' : SourceState) : Prop :=
  s'.currentSampleNumber = s.currentSampleNumber ∧ s'.currentBuffer = s.currentBuffer ∧
    s'.format = s.format

theorem SameBuffer.trans {s'' : SourceState} (h : SameBuffer s s') (h' : SameBuffer s' s'') :
    SameBuffer s s'' :=
  ⟨h'.1.trans h.1, h'.2.1.trans h.2.1, h'.2.2.trans h.2.2⟩

theorem enqueue_spec (b : ConfigBuffer) (fromQueue : Bool) (playPosition : Word)
    (hqueue : QueueInBounds valid s)
    (hstart : b.length.msb = false → valid (b.physicalAddress &&& 0xFFFFFFFC) = true →
      playPosition.toNat ≤ s.format.decodedLength b.length) :
    SameBuffer s (enqueue s b fromQueue playPosition) ∧
      QueueInBounds valid (enqueue s b fromQueue playPosition) := by
  rw [enqueue]
  split_ifs with hnegative
  · exact ⟨⟨rfl, rfl, rfl⟩, hqueue⟩
  · refine ⟨⟨rfl, rfl, rfl⟩, fun b' hb' hvalid => ?_⟩
    rcases List.mem_cons.mp hb' with rfl | hb'
    · exact hstart (by simpa using hnegative) hvalid
    · exact hqueue b' hb' hvalid

theorem enqueueBuffers_spec (config : Configuration) (hqueue : QueueInBounds valid s) :
    SameBuffer s (config.enqueueBuffers s) ∧ QueueInBounds valid (config.enqueueBuffers s) := by
  rw [enqueueBuffers]
  split_ifs with hdirty
  · generalize List.finRange 4 = indices
    induction indices generalizing s with
    | nil => exact ⟨⟨rfl, rfl, rfl⟩, hqueue⟩
    | cons i indices ih =>
      rw [List.foldl_cons]
      split_ifs with hi
      · -- a buffer of the queue starts at its first sample
        obtain ⟨hsame, hnext⟩ :=
          enqueue_spec (config.buffers i) true 0 hqueue fun _ _ => Nat.zero_le _
        obtain ⟨hsame', hlast⟩ := ih hnext
        exact ⟨hsame.trans hsame', hlast⟩
      · exact ih hqueue
  · exact ⟨⟨rfl, rfl, rfl⟩, hqueue⟩

theorem parse_inv {coeffs : Nat → Int} {bytes : Word → Nat → Byte}
    (hinv : (Point.idle s decoded).Inv valid) (hconfig : config.InBounds valid)
    (hparse : config.parseConfig ⟨valid, bytes⟩ coeffs s = some s') :
    (Point.parsed s' (config.decodedAfter valid coeffs s decoded)).Inv valid := by
  have hreset : QueueInBounds valid (config.update coeffs (config.reset s)) ∧
      ∀ n, (if config.resetFlag then some 0 else decoded) = some n →
        (config.reset s).currentSampleNumber.toNat + (config.reset s).currentBuffer.length = n := by
    rw [reset]
    constructor
    · intro b hb
      by_cases hreset : config.resetFlag = true <;>
        by_cases hpartial : config.partialResetFlag = true <;>
        simp [update, hreset, hpartial, SourceState.initial] at hb
      exact hinv.queue b hb
    · intro n hn
      split_ifs at hn with hreset
      · cases hn
        split_ifs <;> rfl
      · split_ifs <;> exact hinv.counts n hn
  obtain ⟨hqueue, hcounts⟩ := hreset
  obtain ⟨s₁, hs₁, hqueue₁, hformat₁, hagain, hsame⟩ :=
    partialUpdate_spec valid config bytes (config.update coeffs (config.reset s))
  rw [parseConfig, hs₁, Option.map_some] at hparse
  obtain rfl := Option.some.inj hparse
  have hq₁ : QueueInBounds valid s₁ := by
    intro b hb
    rw [hqueue₁] at hb
    exact hqueue b hb
  -- the embedded buffer has the format of the configuration
  have hembedded : SameBuffer s₁ (config.enqueueEmbedded s₁) ∧
      QueueInBounds valid (config.enqueueEmbedded s₁) := by
    rw [enqueueEmbedded]
    split_ifs with hdirty
    · refine enqueue_spec config.embedded false config.startPosition hq₁ fun hlength hvalid => ?_
      have hformat : s₁.format = config.format := by
        rw [hformat₁]
        simp [update, hdirty]
      rw [hformat]
      exact hconfig hdirty hlength hvalid
    · exact ⟨⟨rfl, rfl, rfl⟩, hq₁⟩
  obtain ⟨hsame₂, hq₂⟩ := hembedded
  obtain ⟨hsame₃, hq₃⟩ := enqueueBuffers_spec config hq₂
  obtain ⟨hnumber, hbuffer, -⟩ := hsame₂.trans hsame₃
  refine ⟨hq₃, fun n hn => ?_⟩
  simp only [Point.source, Point.decoded, Configuration.decodedAfter] at hn ⊢
  rw [hnumber, hbuffer]
  split_ifs at hn with hredecodes
  · rw [hagain hredecodes]
    exact Option.some.inj hn
  all_goals
    rw [hsame hredecodes]
    exact hcounts n (by simp [*])

/-- A buffer that is dequeued is played from its start. -/
theorem dequeue_inv {memory : PhysicalMemory} (hqueue : QueueInBounds memory.valid s)
    (hcounts : ∀ n, decoded = some n → s.currentSampleNumber.toNat + s.currentBuffer.length = n)
    (hbuffer : s.currentBuffer = []) (hpops : Pops s.inputQueue buf rest)
    (hdequeue : dequeueBuffer memory s buf rest = some s') :
    QueueInBounds memory.valid s' ∧ ∀ n, buf.decodedAfter memory decoded = some n →
      s'.currentSampleNumber.toNat + s'.currentBuffer.length = n := by
  obtain ⟨-, -, hqueue', hlength, hnumber⟩ := dequeueBuffer_spec hdequeue
  constructor
  · intro b hb hvalid
    have hrest : ∀ b ∈ rest, b ∈ s.inputQueue := fun b hb =>
      hpops.1.mem_iff.mp (List.mem_cons_of_mem _ hb)
    rw [hqueue', Buffer.requeue] at hb
    split_ifs at hb
    · rcases List.mem_cons.mp hb with rfl | hb
      · exact Nat.zero_le _
      · exact hqueue b (hrest b hb) hvalid
    · exact hqueue b (hrest b hb) hvalid
  · intro n hn
    rw [Buffer.decodedAfter] at hn
    rw [hnumber, hlength, Buffer.samples]
    split_ifs at hn ⊢ with hvalid
    · have hstart := hqueue buf (hpops.1.mem_iff.mp List.mem_cons_self) hvalid
      have hn := Option.some.inj hn
      omega
    · rw [← hcounts n hn, hbuffer]
      rfl

theorem step_inv (h : Step valid (Configuration.InBounds · valid) p p') (hinv : p.Inv valid) :
    p'.Inv valid := by
  obtain ⟨hqueue, hcounts⟩ := hinv
  cases h with
  | parse config coeffs bytes hwrites hparse => exact parse_inv ⟨hqueue, hcounts⟩ hwrites hparse
  | skip _ => exact ⟨hqueue, hcounts⟩
  | stop _ _ _ => exact ⟨hqueue, hcounts⟩
  | start _ _ => exact ⟨hqueue, hcounts⟩
  | keep _ _ => exact ⟨hqueue, hcounts⟩
  | first bytes _ hbuffer hpops hdequeue =>
    obtain ⟨hqueue', hcounts'⟩ := dequeue_inv hqueue hcounts hbuffer hpops hdequeue
    exact ⟨hqueue', hcounts'⟩
  | dequeue bytes _ hbuffer hpops hdequeue =>
    obtain ⟨hqueue', hcounts'⟩ := dequeue_inv hqueue hcounts hbuffer hpops hdequeue
    exact ⟨hqueue', hcounts'⟩
  | @resample frame decoded =>
    obtain ⟨-, hqueue', -⟩ := resample_frame frame
    refine ⟨fun b hb => hqueue b (hqueue' ▸ hb), fun n hn => ?_⟩
    simp only [Point.decoded, Frame.decodedAfter] at hn
    split_ifs at hn with hempty
    simp only [Point.source, resample_empty hempty]
    exact hcounts n hn
  | @finish frame decoded hdone =>
    refine ⟨hqueue, fun n hn => ?_⟩
    simp only [Point.decoded] at hn
    split_ifs at hn with hempty
    rw [← hcounts n hn]
    simp [Point.source, Frame.finish, hempty, RateMultiplier.samples_zero]

/-- No call erases behind the end of a buffer. -/
theorem Point.Inv.not_faults (hinv : p.Inv valid) : ¬p.Faults valid Writes := by
  have hinside : ∀ {s : SourceState} {buf rest bytes}, QueueInBounds valid s →
      Pops s.inputQueue buf rest → dequeueBuffer ⟨valid, bytes⟩ s buf rest ≠ none := by
    intro s buf rest bytes hqueue hpops hnone
    obtain ⟨hvalid, hlong⟩ := dequeueBuffer_eq_none.mp hnone
    have hstart := hqueue buf (hpops.1.mem_iff.mp List.mem_cons_self) hvalid
    exact absurd hlong (not_lt.mpr hstart)
  cases p with
  | idle s decoded =>
    rintro ⟨config, coeffs, bytes, -, hnone⟩
    obtain ⟨s₁, hs₁, -⟩ :=
      partialUpdate_spec valid config bytes (config.update coeffs (config.reset s))
    rw [parseConfig, hs₁] at hnone
    cases hnone
  | parsed s decoded =>
    rintro ⟨-, -, buf, rest, bytes, hpops, hnone⟩
    exact hinside hinv.queue hpops hnone
  | loop frame decoded =>
    rintro ⟨-, -, buf, rest, bytes, hpops, hnone⟩
    exact hinside hinv.queue hpops hnone
  | ready frame decoded => exact id

/-- If no configuration starts a buffer behind its end, then every erase of every run is inside of
the decoded buffer, and no sample of it is lost before it is resampled. -/
theorem reached_safe (valid : Word → Bool) (p : Point)
    (h : Reached valid (Configuration.InBounds · valid) p) :
    p.Safe valid (Configuration.InBounds · valid) := by
  have hinv : p.Inv valid := by
    induction h with
    | refl =>
      refine ⟨fun b hb => absurd hb List.not_mem_nil, fun n hn => ?_⟩
      cases hn
      rfl
    | tail _ hstep ih => exact step_inv hstep ih
  exact ⟨hinv.not_faults, hinv.counts⟩

/-- A configuration that enables the source with an embedded PCM16 buffer. -/
def playAt (position length : Word) : Configuration where
  formatDirty := false
  monoOrStereoDirty := false
  adpcmCoefficientsDirty := false
  partialEmbeddedBufferDirty := false
  partialResetFlag := false
  enableDirty := true
  interpolationDirty := false
  rateMultiplierDirty := false
  bufferQueueDirty := false
  playPositionDirty := true
  resetFlag := false
  embeddedBufferDirty := true
  rateMultiplier := none
  interpolationMode := .polyphase
  buffersDirty := fun _ => false
  buffers := fun _ => ⟨0, 0, (0, 0), false, false, 0⟩
  enable := true
  playPosition := position
  embedded := ⟨0x20000000, length, (0, 0), false, false, 1⟩
  monoOrStereo := .mono
  format := .pcm16

/-- The source behind such a configuration. -/
def playing (position length : Word) : SourceState :=
  let s := (playAt position length).update (fun _ => 0) .initial
  { s with
    inputQueue :=
      [Configuration.buffer s ⟨0x20000000, length, (0, 0), false, false, 1⟩ false position] }

/-- The configuration is taken over. -/
theorem parse_playAt (Writes : Configuration → Prop) (position length : Word)
    (hlength : length.msb = false) (hwrites : Writes (playAt position length)) :
    Reached (fun _ => true) Writes (.parsed (playing position length) (some 0)) := by
  refine .tail .refl (.parse (playAt position length) (fun _ => 0) (fun _ _ => 0) hwrites ?_)
  simp [parseConfig, partialUpdate, reset,
    enqueueBuffers, enqueueEmbedded, enqueue, playAt,
    playing, hlength, Configuration.startPosition, update, SourceState.initial]

/-- A buffer of eight samples that starts at its fifth one. -/
theorem reached_safe_inside :
    (Point.parsed (playing 5 8) (some 0)).Safe (fun _ => true)
      (Configuration.InBounds · fun _ => true) :=
  reached_safe _ _ (parse_playAt _ 5 8 (by decide) (by intro _ _ _; decide))

/-- A buffer of one sample that starts at its fifth one. -/
theorem not_safe_behind : ∃ p, Reached (fun _ => true) (fun _ => True) p ∧
    ¬p.Safe (fun _ => true) fun _ => True := by
  refine ⟨_, parse_playAt (fun _ => True) 5 1 (by decide) trivial, fun h => h.1 ?_⟩
  have hpops : Pops (playing 5 1).inputQueue _ [] := ⟨List.Perm.refl _, by simp⟩
  exact ⟨rfl, rfl, _, [], fun _ _ => 0, hpops, dequeueBuffer_eq_none.mpr ⟨rfl, by decide⟩⟩

end GbaStation.Audio
