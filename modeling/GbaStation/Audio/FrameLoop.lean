import Mathlib.Algebra.BigOperators.Group.List.Basic
import Mathlib.Data.Prod.Lex
import GbaStation.Common.FiniteWalks
import GbaStation.Audio.Source

/-!
# The loop of a frame

`GenerateFrame` steps over buffers until the frame is full. A turn has progress if the frame gets
fuller, the position goes back, or a buffer is gone from the queue. A buffer that loops and has no
samples is none of these: it goes back on the queue at once, before all others.

- `generateFrame_ends_iff`: this, and an interpolation mode that is one, is when the loop ends.
-/

namespace GbaStation.Audio

open FiniteWalks

variable (memory : PhysicalMemory)

namespace Buffer

variable (buf : Buffer)

/-- The buffer is taken off the queue, and what has been played is inside of it. -/
def Passes : Prop :=
  buf.Valid memory →
    buf.isLooping = false ∧ buf.start.toNat ≤ buf.decodedLength

/-- The buffer loops, and there is nothing in it. -/
def Stuck : Prop :=
  buf.Valid memory ∧ buf.isLooping = true ∧ buf.decodedLength = 0 ∧ buf.start = 0

end Buffer

/-- Buffers are popped off a queue one after the other. -/
inductive Taken : List Buffer → List Buffer → List Buffer → Prop where
  | nil {queue : List Buffer} : Taken queue [] queue
  | cons {queue rest bufs rest' : List Buffer} {buf : Buffer} (hpops : Pops queue buf rest)
      (htaken : Taken rest bufs rest') : Taken queue (buf :: bufs) rest'

/-- However buffers are popped, the frame is full before one that is stuck. -/
def FilledBefore (s : SourceState) (room : Nat) : Prop :=
  ∀ bufs rest buf rest', Taken s.inputQueue bufs rest → (∀ b ∈ bufs, b.Passes memory) →
    Pops rest buf rest' → buf.Stuck memory →
    Fills s.rateMultiplier.stepSize (s.currentBuffer.length :: bufs.map fun b => b.samples memory)
      room s.interpState.fposition

/-- The loop of `GenerateFrame` ends; there is none if the current buffer is empty. -/
def GenerateFrameEnds (s : SourceState) : Prop :=
  s.currentBuffer ≠ [] → Ends (Turn memory) ⟨s, []⟩

/-! ## Turns -/

variable {memory} {s s' : SourceState} {buf : Buffer} {rest bufs queue : List Buffer}
  {frame frame' : Frame} {room : Nat}

/-- The room and the position behind the current buffer. -/
def SourceState.behind (s : SourceState) (room : Nat) : Nat × BitVec 64 :=
  advance s.rateMultiplier.stepSize s.currentBuffer.length room s.interpState.fposition

/-- What a turn does to the room, and to the position where room is left. -/
theorem resample_spec (frame : Frame) (hmode : frame.source.interpolationMode ≠ .other)
    (houtput : frame.output.length + room = samplesPerFrame) :
    frame.resample.output.length + (frame.source.behind room).1 = samplesPerFrame ∧
      ((frame.source.behind room).1 ≠ 0 →
        frame.resample.source.currentBuffer = [] ∧
        frame.resample.source.interpState.fposition = (frame.source.behind room).2) := by
  rw [Frame.resample]
  cases hcase : frame.source.interpolationMode with
  | none => exact stepOverSamples_spec _ _ _ _ houtput
  | linear => exact stepOverSamples_spec _ _ _ _ houtput
  | polyphase => exact stepOverSamples_spec _ _ _ _ houtput
  | other => exact absurd hcase hmode

/-- An empty buffer changes neither. -/
theorem behind_empty (h : s.currentBuffer = []) (room : Nat) :
    s.behind room = (room, s.interpState.fposition) := by
  rw [SourceState.behind, h]
  exact advance_none

theorem pops_of_mem (hmem : buf ∈ queue) (hleast : ∀ b ∈ queue, buf.bufferId ≤ b.bufferId) :
    ∃ rest, Pops queue buf rest := by
  obtain ⟨front, back, rfl⟩ := List.append_of_mem hmem
  refine ⟨front ++ back, List.perm_middle.symm, fun b hb => hleast b ?_⟩
  rcases List.mem_append.mp hb with hb | hb
  · exact List.mem_append_left _ hb
  · exact List.mem_append_right _ (List.mem_cons_of_mem _ hb)

theorem Pops.least (h : Pops queue buf rest) {b : Buffer} (hb : b ∈ queue) :
    buf.bufferId ≤ b.bufferId := by
  rcases List.mem_cons.mp (h.1.mem_iff.mpr hb) with rfl | hb
  · exact BitVec.le_refl _
  · exact h.2 b hb

/-- Every buffer is taken or left, and no other one is left. -/
theorem Taken.mem (h : Taken queue bufs rest) {b : Buffer} : b ∈ queue ↔ b ∈ bufs ∨ b ∈ rest := by
  induction h with
  | nil => simp
  | cons hpops _ ih => rw [← hpops.1.mem_iff, List.mem_cons, ih, List.mem_cons, or_assoc]

/-! ## Frames that are filled -/

/-- No buffer that is stuck is the first one while there is room. -/
theorem FilledBefore.not_stuck (h : FilledBefore memory s room) (hbuffer : s.currentBuffer = [])
    (hroom : room ≠ 0) (hpops : Pops s.inputQueue buf rest) : ¬buf.Stuck memory := by
  intro hstuck
  have hfills := h [] _ buf rest .nil (by simp) hpops hstuck
  rw [hbuffer] at hfills
  simp only [List.length_nil, List.map_nil, Fills, advance_none] at hfills
  exact hroom hfills

theorem FilledBefore.resample (h : FilledBefore memory frame.source room)
    (hmode : frame.source.interpolationMode ≠ .other)
    (houtput : frame.output.length + room = samplesPerFrame)
    (hroom : (frame.source.behind room).1 ≠ 0) :
    FilledBefore memory frame.resample.source (frame.source.behind room).1 := by
  obtain ⟨⟨hrate, -⟩, hqueue, -⟩ := resample_frame frame
  obtain ⟨hbuffer, hposition⟩ := (resample_spec frame hmode houtput).2 hroom
  intro bufs rest buf rest' htaken hpasses hpops hstuck
  rw [hqueue] at htaken
  have hfills := h bufs rest buf rest' htaken hpasses hpops hstuck
  rw [hrate, hbuffer, hposition, List.length_nil, Fills, advance_none]
  exact hfills

/-- A buffer that is not stuck is taken off, or another one of the least id is stuck. -/
theorem FilledBefore.dequeue (h : FilledBefore memory s room) (hbuffer : s.currentBuffer = [])
    (hroom : room ≠ 0) (hpops : Pops s.inputQueue buf rest)
    (hdequeue : dequeueBuffer memory s buf rest = some s') : FilledBefore memory s' room := by
  obtain ⟨⟨hrate, -⟩, hinterp, hqueue, hlength, -⟩ := dequeueBuffer_spec hdequeue
  have hstart : buf.Valid memory → buf.start.toNat ≤ buf.decodedLength := by
    intro hvalid
    by_contra hlong
    rw [dequeueBuffer_eq_none.mpr ⟨hvalid, not_le.mp hlong⟩] at hdequeue
    cases hdequeue
  intro bufs rest₁ next rest₂ htaken hpasses hnext hstuck
  rw [hqueue, Buffer.requeue] at htaken
  split_ifs at htaken with hloops
  · -- the buffer is back on the queue, and does not leave it
    have hleft : buf.played ∈ rest₁ := by
      rcases htaken.mem.mp List.mem_cons_self with hmem | hmem
      · exact absurd ((hpasses _ hmem hloops.1).1) (by simp [Buffer.played, hloops.2])
      · exact hmem
    have hid : next.bufferId ≤ buf.played.bufferId := hnext.least hleft
    have hmem : next ∈ buf.played :: rest :=
      htaken.mem.mpr (.inr (hnext.1.mem_iff.mp List.mem_cons_self))
    rcases List.mem_cons.mp hmem with rfl | hmem
    · -- it is stuck itself, and was before it had been played
      refine absurd ?_ (h.not_stuck hbuffer hroom hpops)
      have hempty : buf.decodedLength = 0 := hstuck.2.2.1
      have hzero := hstart hloops.1
      exact ⟨hloops.1, hloops.2, hempty, by bv_omega⟩
    · have hleast : ∀ b ∈ s.inputQueue, next.bufferId ≤ b.bufferId := fun b hb =>
        BitVec.le_trans hid (hpops.least hb)
      obtain ⟨rest', hpops'⟩ :=
        pops_of_mem (hpops.1.mem_iff.mp (List.mem_cons_of_mem _ hmem)) hleast
      exact absurd hstuck (h.not_stuck hbuffer hroom hpops')
  · have hpass : buf.Passes memory := by
      intro hvalid
      exact ⟨Bool.eq_false_iff.mpr fun hloop => hloops ⟨hvalid, hloop⟩, hstart hvalid⟩
    have hfills := h (buf :: bufs) rest₁ next rest₂ (.cons hpops htaken)
      (List.forall_mem_cons.mpr ⟨hpass, hpasses⟩) hnext hstuck
    rw [hbuffer, List.length_nil, Fills, advance_none, List.map_cons] at hfills
    rw [hrate, hinterp, hlength]
    exact hfills

/-! ## Progress -/

/-- The buffers that are still to be played count twice. -/
def weight (queue : List Buffer) : Nat := (queue.map fun b => if b.hasPlayed then 1 else 2).sum

theorem Pops.weight (h : Pops queue buf rest) :
    weight queue = (if buf.hasPlayed then 1 else 2) + weight rest := by
  rw [Audio.weight, ← (h.1.map _).sum_eq, List.map_cons, List.sum_cons]
  rfl

/-- What gets less with every turn: the room, the position, and the buffers. -/
def Frame.rank (frame : Frame) : Nat ×ₗ Nat ×ₗ Nat :=
  toLex (samplesPerFrame - frame.output.length,
    toLex (frame.source.interpState.fposition.toNat, weight frame.source.inputQueue))

/-- The invariant of the loop. -/
def Frame.Good (memory : PhysicalMemory) (frame : Frame) : Prop :=
  ∃ room, frame.output.length + room = samplesPerFrame ∧
    (room ≠ 0 →
      frame.source.interpolationMode ≠ .other ∧ FilledBefore memory frame.source room)

/-- A buffer with samples: there is less room, or the position goes back. -/
theorem resample_good (frame : Frame) (houtput : frame.output.length + room = samplesPerFrame)
    (hmode : frame.source.interpolationMode ≠ .other)
    (hfilled : FilledBefore memory frame.source room) :
    frame.resample.Good memory := by
  refine ⟨(frame.source.behind room).1, (resample_spec frame hmode houtput).1, fun hroom => ?_⟩
  refine ⟨?_, hfilled.resample hmode houtput hroom⟩
  rw [(resample_frame frame).1.2.1]
  exact hmode

theorem resample_rank (frame : Frame) (houtput : frame.output.length + room = samplesPerFrame)
    (hroom : room ≠ 0) (hmode : frame.source.interpolationMode ≠ .other) :
    frame.resample.rank < frame.rank ∨
      (frame.source.currentBuffer = [] ∧ frame.resample.rank = frame.rank) := by
  obtain ⟨hlength, hposition⟩ := resample_spec frame hmode houtput
  have hqueue := (resample_frame frame).2.1
  have hroom' : samplesPerFrame - frame.output.length = room := by omega
  have hroom'' : samplesPerFrame - frame.resample.output.length = (frame.source.behind room).1 := by
    omega
  rw [Frame.rank, Frame.rank, hroom', hroom'', hqueue]
  by_cases hbuffer : frame.source.currentBuffer = []
  · rw [behind_empty hbuffer] at hposition ⊢
    exact .inr ⟨hbuffer, by rw [(hposition hroom).2]⟩
  · left
    rw [Prod.Lex.toLex_lt_toLex]
    have hcount : frame.source.currentBuffer.length ≠ 0 := fun h =>
      hbuffer (List.eq_nil_of_length_eq_zero h)
    rcases advance_cases frame.source.rateMultiplier.stepSize frame.source.interpState.fposition
        hroom hcount with hless | ⟨hsame, hback⟩
    · exact .inl hless
    · refine .inr ⟨hsame, ?_⟩
      rw [Prod.Lex.toLex_lt_toLex]
      have hpast : (frame.source.behind room).1 ≠ 0 := by
        rw [SourceState.behind, hsame]
        exact hroom
      rw [(hposition hpast).2]
      exact .inl hback

/-- A buffer that is dequeued leaves the queue, or has been played now, or has samples. -/
theorem dequeue_weight (hfilled : FilledBefore memory s room) (hbuffer : s.currentBuffer = [])
    (hroom : room ≠ 0) (hpops : Pops s.inputQueue buf rest)
    (hdequeue : dequeueBuffer memory s buf rest = some s') :
    weight s'.inputQueue ≤ weight s.inputQueue ∧
      (s'.currentBuffer = [] → weight s'.inputQueue < weight s.inputQueue) := by
  obtain ⟨-, -, hqueue, hlength, -⟩ := dequeueBuffer_spec hdequeue
  rw [hqueue, hpops.weight, Buffer.requeue]
  split_ifs with hloops hplayed
  · -- it has been played, so that its samples are all of it
    have hsame : weight (buf.played :: rest) = 1 + weight rest := rfl
    refine ⟨by omega, fun hempty => ?_⟩
    refine absurd ?_ (hfilled.not_stuck hbuffer hroom hpops)
    have hstart : buf.start = 0 := if_pos hplayed
    rw [hempty, Buffer.samples, if_pos hloops.1, hstart] at hlength
    exact ⟨hloops.1, hloops.2, hlength.symm, hstart⟩
  · have hless : weight (buf.played :: rest) = 1 + weight rest := rfl
    omega
  · omega
  · omega

/-- A turn keeps the invariant, and the rank gets less. -/
theorem Turn.good (h : Turn memory frame frame') (hgood : frame.Good memory) :
    frame'.Good memory ∧ frame'.rank < frame.rank := by
  obtain ⟨room, houtput, hfilled⟩ := hgood
  cases h with
  | resample hspace hbuffer =>
    have hroom : room ≠ 0 := by omega
    obtain ⟨hmode, hfilled⟩ := hfilled hroom
    refine ⟨resample_good frame houtput hmode hfilled, ?_⟩
    exact (resample_rank frame houtput hroom hmode).resolve_right fun h => hbuffer h.1
  | @dequeue buf rest s hspace hbuffer hpops hdequeue =>
    have hroom : room ≠ 0 := by omega
    obtain ⟨hmode, hfilled⟩ := hfilled hroom
    obtain ⟨⟨-, hmode', -⟩, hinterp, -⟩ := dequeueBuffer_spec hdequeue
    rw [← hmode'] at hmode
    have hnext := hfilled.dequeue hbuffer hroom hpops hdequeue
    obtain ⟨hle, hlt⟩ := dequeue_weight hfilled hbuffer hroom hpops hdequeue
    refine ⟨resample_good ⟨s, frame.output⟩ houtput hmode hnext, ?_⟩
    -- the samples give the progress, or the queue if there are none
    have hrank : Frame.rank ⟨s, frame.output⟩ ≤ frame.rank ∧
        (s.currentBuffer = [] → Frame.rank ⟨s, frame.output⟩ < frame.rank) := by
      rw [Frame.rank, Frame.rank, hinterp, Prod.Lex.toLex_le_toLex, Prod.Lex.toLex_lt_toLex,
        Prod.Lex.toLex_le_toLex, Prod.Lex.toLex_lt_toLex]
      exact ⟨.inr ⟨rfl, .inr ⟨rfl, hle⟩⟩, fun hempty => .inr ⟨rfl, .inr ⟨rfl, hlt hempty⟩⟩⟩
    rcases resample_rank ⟨s, frame.output⟩ houtput hroom hmode with hless | ⟨hempty, hsame⟩
    · exact lt_of_lt_of_le hless hrank.1
    · rw [hsame]
      exact hrank.2 hempty

/-- The loop ends for frames with the invariant. -/
theorem Frame.Good.ends (h : frame.Good memory) : Ends (Turn memory) frame := by
  have hwf : WellFounded fun a b : Frame => a.rank < b.rank := InvImage.wf Frame.rank wellFounded_lt
  induction frame using hwf.induction with
  | h frame ih =>
    constructor
    intro frame' hturn
    obtain ⟨hgood, hless⟩ := Turn.good hturn h
    exact ih frame' hless hgood

/-! ## Loops that go on -/

/-- There is room, the current buffer is empty, and the next one is stuck. -/
def Frame.Hangs (memory : PhysicalMemory) (frame : Frame) : Prop :=
  frame.output.length < samplesPerFrame ∧ frame.source.currentBuffer = [] ∧
    ∃ buf rest, Pops frame.source.inputQueue buf rest ∧ buf.Stuck memory

/-- A buffer that is stuck comes first again. -/
theorem Frame.Hangs.next (h : frame.Hangs memory) :
    ∃ frame', Turn memory frame frame' ∧ frame'.Hangs memory := by
  obtain ⟨hspace, hbuffer, buf, rest, hpops, hstuck⟩ := h
  obtain ⟨hvalid, hloop, hempty, hstart⟩ := hstuck
  have hsome : dequeueBuffer memory frame.source buf rest ≠ none := by
    rw [Ne, dequeueBuffer_eq_none, hempty, hstart]
    exact fun h => absurd h.2 (by decide)
  obtain ⟨s, hs⟩ := Option.ne_none_iff_exists'.mp hsome
  obtain ⟨-, -, hqueue, hlength, -⟩ := dequeueBuffer_spec hs
  have hnone : s.currentBuffer = [] := by
    refine List.eq_nil_of_length_eq_zero ?_
    rw [hlength, Buffer.samples, if_pos hvalid, hempty, Nat.zero_sub]
  have hturn := Turn.dequeue hspace hbuffer hpops hs
  rw [resample_empty (.inl hnone)] at hturn
  refine ⟨⟨s, frame.output⟩, hturn, hspace, hnone, buf.played, rest, ?_, hvalid, hloop, hempty, rfl⟩
  rw [hqueue, Buffer.requeue, if_pos ⟨hvalid, hloop⟩]
  exact ⟨List.Perm.refl _, hpops.2⟩

/-- The buffers before one that is stuck do not fill the frame. -/
theorem not_ends_of_taken {rest' : List Buffer} (htaken : Taken queue bufs rest)
    (hpasses : ∀ b ∈ bufs, b.Passes memory) (hpops : Pops rest buf rest')
    (hstuck : buf.Stuck memory) (hqueue : frame.source.inputQueue = queue)
    (hbuffer : frame.source.currentBuffer = [])
    (hmode : frame.source.interpolationMode ≠ .other)
    (houtput : frame.output.length + room = samplesPerFrame)
    (hfills : ¬Fills frame.source.rateMultiplier.stepSize (bufs.map fun b => b.samples memory) room
      frame.source.interpState.fposition) : ¬Ends (Turn memory) frame := by
  induction htaken generalizing frame room with
  | nil =>
    have hroom : room ≠ 0 := hfills
    subst hqueue
    exact not_ends_of_next (fun _ h => Frame.Hangs.next h)
      ⟨by omega, hbuffer, buf, rest', hpops, hstuck⟩
  | @cons queue rest₁ bufs _ b hb _ ih =>
    obtain ⟨hpass, hpasses⟩ := List.forall_mem_cons.mp hpasses
    have hroom : room ≠ 0 := by
      rintro rfl
      exact hfills fills_no_room
    have hsome : dequeueBuffer memory frame.source b rest₁ ≠ none := by
      rw [Ne, dequeueBuffer_eq_none]
      exact fun h => absurd h.2 (not_lt.mpr (hpass h.1).2)
    obtain ⟨s, hs⟩ := Option.ne_none_iff_exists'.mp hsome
    subst hqueue
    obtain ⟨⟨hrate, hmode', -⟩, hinterp, hqueue, hlength, -⟩ := dequeueBuffer_spec hs
    rw [Buffer.requeue, if_neg fun h => absurd h.2 (by simp [(hpass h.1).1])] at hqueue
    have hturn := Turn.dequeue (by omega) hbuffer hb hs
    intro hends
    -- the samples of the buffer leave room, so that it is empty afterwards
    rw [List.map_cons, Fills, ← hrate, ← hinterp, ← hlength] at hfills
    have hpast : (s.behind room).1 ≠ 0 := by
      intro hfull
      rw [SourceState.behind] at hfull
      rw [hfull] at hfills
      exact hfills fills_no_room
    obtain ⟨hout, hrest⟩ := resample_spec ⟨s, frame.output⟩ (hmode' ▸ hmode) houtput
    obtain ⟨hnone, hposition⟩ := hrest hpast
    obtain ⟨⟨hrate', hmode'', -⟩, hqueue', -⟩ := resample_frame ⟨s, frame.output⟩
    refine ih hpasses hpops (hqueue'.trans hqueue) hnone ?_ hout ?_ (hends.next hturn)
    · rw [hmode'', hmode']
      exact hmode
    · rw [hrate', hposition]
      exact hfills

/-- A mode that is none does nothing to the buffer. -/
theorem not_ends_of_mode (hbuffer : s.currentBuffer ≠ []) (hmode : s.interpolationMode = .other) :
    ¬Ends (Turn memory) ⟨s, []⟩ := by
  have hsame : Frame.resample ⟨s, []⟩ = ⟨s, []⟩ := resample_empty (.inr hmode)
  have hspace : ([] : List Sample).length < samplesPerFrame := by decide
  refine not_ends_of_next (p := fun frame => frame = ⟨s, []⟩) ?_ rfl
  rintro _ rfl
  have hturn : Turn memory ⟨s, []⟩ (Frame.resample ⟨s, []⟩) := .resample hspace hbuffer
  rw [hsame] at hturn
  exact ⟨_, hturn, rfl⟩

theorem not_ends_of_not_filledBefore (hbuffer : s.currentBuffer ≠ [])
    (hmode : s.interpolationMode ≠ .other) (h : ¬FilledBefore memory s samplesPerFrame) :
    ¬Ends (Turn memory) ⟨s, []⟩ := by
  rw [FilledBefore] at h
  push Not at h
  obtain ⟨bufs, rest, buf, rest', htaken, hpasses, hpops, hstuck, hfills⟩ := h
  have hspace : ([] : List Sample).length < samplesPerFrame := by decide
  have hturn : Turn memory ⟨s, []⟩ (Frame.resample ⟨s, []⟩) := .resample hspace hbuffer
  -- the current buffer leaves room
  rw [Fills] at hfills
  have hpast : (s.behind samplesPerFrame).1 ≠ 0 := by
    intro hfull
    rw [SourceState.behind] at hfull
    rw [hfull] at hfills
    exact hfills fills_no_room
  obtain ⟨hout, hrest⟩ := resample_spec ⟨s, []⟩ hmode (Nat.zero_add _)
  obtain ⟨hnone, hposition⟩ := hrest hpast
  obtain ⟨⟨hrate, hmode', -⟩, hqueue, -⟩ := resample_frame ⟨s, []⟩
  intro hends
  refine not_ends_of_taken htaken hpasses hpops hstuck hqueue hnone ?_ hout ?_ (hends.next hturn)
  · rw [hmode']
    exact hmode
  · rw [hrate, hposition]
    exact hfills

/-- The loop of a frame ends exactly if the interpolation mode is one of the three and, however
buffers are taken off the queue, the frame is full before one that loops and has no samples. -/
theorem generateFrame_ends_iff (memory : PhysicalMemory) (s : SourceState) :
    GenerateFrameEnds memory s ↔
      (s.currentBuffer ≠ [] →
        s.interpolationMode ≠ .other ∧ FilledBefore memory s samplesPerFrame) := by
  refine forall_congr' fun hbuffer => ?_
  constructor
  · intro hends
    have hmode : s.interpolationMode ≠ .other := fun hmode =>
      not_ends_of_mode hbuffer hmode hends
    refine ⟨hmode, ?_⟩
    by_contra hfilled
    exact not_ends_of_not_filledBefore hbuffer hmode hfilled hends
  · rintro ⟨hmode, hfilled⟩
    exact Frame.Good.ends ⟨samplesPerFrame, Nat.zero_add _, fun _ => ⟨hmode, hfilled⟩⟩

/-- A buffer of the configuration that loops and has no samples. -/
def emptyLoop : Buffer where
  physicalAddress := 0x20000000
  length := 0
  adpcmYn := (0, 0)
  adpcmDirty := false
  isLooping := true
  bufferId := 2
  monoOrStereo := .mono
  format := .pcm16
  fromQueue := false
  playPosition := 0
  hasPlayed := false

/-- A source that plays one last sample. -/
def lastSample : SourceState :=
  { SourceState.initial with enabled := true, currentBuffer := [(0, 0)] }

/-- The buffer is taken from the queue again and again, and a mode that is none never ends. -/
theorem not_generateFrameEnds :
    ¬GenerateFrameEnds ⟨fun _ => true, fun _ _ => 0⟩ { lastSample with inputQueue := [emptyLoop] } ∧
      ¬GenerateFrameEnds ⟨fun _ => true, fun _ _ => 0⟩
        { lastSample with interpolationMode := .other } := by
  constructor
  · intro hends
    refine not_ends_of_not_filledBefore ?_ ?_ ?_ (hends ?_)
    · exact List.cons_ne_nil _ _
    · exact InterpolationMode.noConfusion
    · intro hfilled
      have hpops : Pops [emptyLoop] emptyLoop [] := ⟨List.Perm.refl _, by simp⟩
      have hfills := hfilled [] _ emptyLoop [] .nil (by simp) hpops ⟨rfl, rfl, rfl, rfl⟩
      exact absurd hfills (by decide : ¬(advance scaleFactor 1 160 0).1 = 0)
    · exact List.cons_ne_nil _ _
  · intro hends
    exact not_ends_of_mode (List.cons_ne_nil _ _) rfl (hends (List.cons_ne_nil _ _))

end GbaStation.Audio
