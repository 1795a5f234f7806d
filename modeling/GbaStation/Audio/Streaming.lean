import Mathlib.Data.Int.Order.Basic
import GbaStation.Audio.Adpcm

/-!
# Resampling of a stream (`audio_core/interpolate.cpp`)

The resampler is given a stream in buffers and fills frames one after the other. How the stream is
cut into buffers and frames makes no difference, as long as no position leaves `u64`.

- `stepOver` is `StepOverSamples` for a frame with any room, with every index checked, and gives what
  `stepOverSamples` does (`stepOverSamples_of_stepOver`). `fillFrame` is the loop of `GenerateFrame`,
  and `fillFrames` what it does frame by frame.
-/

namespace GbaStation.Audio

/-! ## Calls and frames -/

/-- The loop of `StepOverSamples`, with so much room in the frame. -/
def stepOverLoop (fn : Nat → Sample → Sample → Sample → Sample) (stepSize : BitVec 64)
    (input : List Sample) :
    (room inputi : Nat) → BitVec 64 → List Sample → Option (Nat × BitVec 64 × List Sample)
  | 0, inputi, fposition, output => some (inputi, fposition, output)
  | room + 1, _, fposition, output =>
    let inputi := (fposition / scaleFactor).toNat
    if inputi + 2 ≥ input.length then some (input.length - 2, fposition, output)
    else do
      let fraction := (fposition % scaleFactor).toNat
      let x0 ← input[inputi]?
      let x1 ← input[inputi + 1]?
      let x2 ← input[inputi + 2]?
      stepOverLoop fn stepSize input room inputi (fposition + stepSize)
        (output ++ [fn fraction x0 x1 x2])

/-- `StepOverSamples` with so much room in the frame: the state, what is left of the input, and the
outputs. There is no result if an index is outside of the extended buffer. -/
def stepOver (fn : Nat → Sample → Sample → Sample → Sample) (stepSize : BitVec 64) (room : Nat)
    (state : InterpState) (input : List Sample) :
    Option (InterpState × List Sample × List Sample) :=
  if input = [] then some (state, [], [])
  else do
    let input := state.xn2 :: state.xn1 :: input
    let (inputi, fposition, output) ← stepOverLoop fn stepSize input room 0 state.fposition []
    let xn2 ← input[inputi]?
    let xn1 ← input[inputi + 1]?
    let rest ← eraseFirst input (inputi + 2)
    return ({ xn2, xn1, fposition := fposition - .ofNat 64 inputi * scaleFactor }, rest, output)
where
  /-- `erase` of so many samples at the front. -/
  eraseFirst (input : List Sample) (n : Nat) : Option (List Sample) :=
    if n ≤ input.length then some (input.drop n) else none

/-- A stream that is resampled: the current buffer and the buffers behind it. -/
structure Stream where
  interp : InterpState
  buffer : List Sample
  queue : List (List Sample)

/-- The loop of `GenerateFrame`: the next buffer is taken when the one before it is used up. There is
no result if a buffer has samples left and the frame has room. -/
def fillFrame (fn : Nat → Sample → Sample → Sample → Sample) (stepSize : BitVec 64) :
    (queue : List (List Sample)) → (room : Nat) → InterpState → List Sample →
      Option (Stream × List Sample)
  | [], room, interp, buffer => do
    let (interp, buffer, output) ← stepOver fn stepSize room interp buffer
    if output.length = room ∨ buffer = [] then some (⟨interp, buffer, []⟩, output) else none
  | next :: queue, room, interp, buffer => do
    let (interp, buffer, output) ← stepOver fn stepSize room interp buffer
    if output.length = room then some (⟨interp, buffer, next :: queue⟩, output)
    else if buffer = [] then do
      let (stream, rest) ← fillFrame fn stepSize queue (room - output.length) interp next
      return (stream, output ++ rest)
    else none

/-- Frames of the given sizes, one after the other, and all of their outputs. -/
def fillFrames (fn : Nat → Sample → Sample → Sample → Sample) (stepSize : BitVec 64) :
    (frames : List Nat) → Stream → Option (Stream × List Sample)
  | [], stream => some (stream, [])
  | room :: frames, stream => do
    let (stream, output) ← fillFrame fn stepSize stream.queue room stream.interp stream.buffer
    let (stream, rest) ← fillFrames fn stepSize frames stream
    return (stream, output ++ rest)

/-! ## Outputs -/

section Outputs

variable (fn : Nat → Sample → Sample → Sample → Sample) (input : List Sample)

/-- The output at a position of the extended input. -/
def outputAt (position : Nat) : Sample :=
  fn (position % 2 ^ 24) (sampleAt input (position / 2 ^ 24))
    (sampleAt input (position / 2 ^ 24 + 1)) (sampleAt input (position / 2 ^ 24 + 2))

/-- So many outputs from a position on. -/
def outputsFrom (position step count : Nat) : List Sample :=
  (List.range count).map fun k => outputAt fn input (position + k * step)

/-- No position leaves `u64` in an input of so many samples. -/
def Fits64 (position step samples : Nat) : Prop :=
  ∀ k, position + k * step < samples * 2 ^ 24 → position + (k + 1) * step < 2 ^ 64

/-- How many outputs there are for an input of so many samples. -/
def outputCount (position step samples : Nat) : Nat :=
  (samples * 2 ^ 24 - position + (step - 1)) / step

variable {fn input} {position step samples count k : Nat}

@[simp] theorem length_outputsFrom :
    (outputsFrom fn input position step count).length = count := by
  simp [outputsFrom]

theorem outputsFrom_add (m : Nat) : outputsFrom fn input position step (count + m) =
    outputsFrom fn input position step count ++
      outputsFrom fn input (position + count * step) step m := by
  simp only [outputsFrom, List.range_add, List.map_append, List.map_map]
  refine congrArg _ (List.map_congr_left fun k _ => ?_)
  show outputAt fn input (position + (count + k) * step) = _
  rw [Nat.add_mul, ← Nat.add_assoc]

theorem outputsFrom_succ : outputsFrom fn input position step (count + 1) =
    outputAt fn input position :: outputsFrom fn input (position + step) step count := by
  rw [Nat.add_comm, outputsFrom_add, Nat.one_mul]
  simp [outputsFrom]

theorem take_outputsFrom (m : Nat) : (outputsFrom fn input position step count).take m =
    outputsFrom fn input position step (min m count) := by
  rw [outputsFrom, outputsFrom, ← List.map_take, List.take_range]

/-- An output is there exactly if its position is before the end of the input. -/
theorem lt_outputCount (hstep : 1 ≤ step) :
    k < outputCount position step samples ↔ position + k * step < samples * 2 ^ 24 := by
  rw [outputCount, ← Nat.succ_le_iff, Nat.le_div_iff_mul_le (by omega), Nat.succ_mul]
  omega

end Outputs

/-! ## One call -/

section Calls

variable {fn : Nat → Sample → Sample → Sample → Sample} {stepSize fposition : BitVec 64}
  {input whole output : List Sample} {state : InterpState} {samples room inputi c n : Nat}

theorem toNat_div_scaleFactor (fposition : BitVec 64) :
    (fposition / scaleFactor).toNat = fposition.toNat / 2 ^ 24 := by
  rw [BitVec.toNat_udiv, toNat_scaleFactor]

theorem toNat_mod_scaleFactor (fposition : BitVec 64) :
    (fposition % scaleFactor).toNat = fposition.toNat % 2 ^ 24 := by
  rw [BitVec.toNat_umod, toNat_scaleFactor]

theorem getElem?_eq_sampleAt (h : n < input.length) : input[n]? = some (sampleAt input n) := by
  rw [sampleAt, List.getD_eq_getElem?_getD, List.getElem?_eq_getElem h]
  rfl

theorem Fits64.next {position step : Nat} (h : Fits64 position step samples) :
    Fits64 (position + step) step samples := by
  intro k hk
  have hnext := h (k + 1) (by rw [Nat.succ_mul]; omega)
  rw [Nat.succ_mul] at hnext
  omega

/-- A turn of the loop that gives an output. -/
theorem stepOverLoop_next (h : fposition.toNat / 2 ^ 24 + 2 < input.length) :
    stepOverLoop fn stepSize input (room + 1) inputi fposition output =
      stepOverLoop fn stepSize input room (fposition.toNat / 2 ^ 24) (fposition + stepSize)
        (output ++ [outputAt fn input fposition.toNat]) := by
  rw [stepOverLoop]
  simp only [toNat_div_scaleFactor, toNat_mod_scaleFactor]
  rw [if_neg (by omega), getElem?_eq_sampleAt (by omega), getElem?_eq_sampleAt (by omega),
    getElem?_eq_sampleAt (by omega)]
  rfl

/-- The turn that finds the input used up. -/
theorem stepOverLoop_end (h : input.length ≤ fposition.toNat / 2 ^ 24 + 2) :
    stepOverLoop fn stepSize input (room + 1) inputi fposition output =
      some (input.length - 2, fposition, output) := by
  rw [stepOverLoop, toNat_div_scaleFactor]
  exact if_pos h

/-- The loop with the checks leaves what the one without them leaves, behind any outputs. -/
theorem stepLoop_of_stepOverLoop {before : List Sample} {result : Nat × BitVec 64 × List Sample}
    (h : stepOverLoop fn stepSize input room inputi fposition output = some result) :
    stepLoop fn stepSize input room inputi fposition (before ++ output) =
      (result.1, result.2.1, before ++ result.2.2) := by
  induction room generalizing inputi fposition output with
  | zero =>
    cases h
    rfl
  | succ room ih =>
    rw [stepLoop]
    by_cases hend : input.length ≤ fposition.toNat / 2 ^ 24 + 2
    · rw [stepOverLoop_end hend] at h
      cases h
      exact if_pos (by rw [toNat_div_scaleFactor]; exact hend)
    · rw [stepOverLoop_next (Nat.not_le.mp hend)] at h
      simp only [toNat_div_scaleFactor, toNat_mod_scaleFactor]
      rw [if_neg hend, List.append_assoc]
      exact ih h

/-- What the loop leaves: outputs until the frame is full or the input used up, and the last index
into the input, which is not behind the position. -/
theorem stepOverLoop_spec (hinput : input.length = samples + 2) (hinputi : inputi ≤ samples)
    (hbehind : inputi * 2 ^ 24 ≤ fposition.toNat)
    (hfits : Fits64 fposition.toNat stepSize.toNat samples) :
    ∃ count last next, stepOverLoop fn stepSize input room inputi fposition output =
        some (last, next, output ++ outputsFrom fn input fposition.toNat stepSize.toNat count) ∧
      next.toNat = fposition.toNat + count * stepSize.toNat ∧ last ≤ samples ∧
      last * 2 ^ 24 ≤ next.toNat ∧ count ≤ room ∧
      (∀ k < count, fposition.toNat + k * stepSize.toNat < samples * 2 ^ 24) ∧
      (count < room → last = samples ∧ samples * 2 ^ 24 ≤ next.toNat) := by
  induction room generalizing inputi fposition output with
  | zero =>
    refine ⟨0, inputi, fposition, ?_, by omega, hinputi, hbehind, Nat.le_refl 0, by omega, by omega⟩
    simp [stepOverLoop, outputsFrom]
  | succ room ih =>
    have hdown : fposition.toNat / 2 ^ 24 * 2 ^ 24 ≤ fposition.toNat := Nat.div_mul_le_self _ _
    by_cases hend : input.length ≤ fposition.toNat / 2 ^ 24 + 2
    · -- the position is behind the samples
      have hbehind : samples * 2 ^ 24 ≤ fposition.toNat :=
        (Nat.mul_le_mul_right _ (by omega)).trans hdown
      have hlast : input.length - 2 = samples := by omega
      rw [stepOverLoop_end hend, hlast]
      refine ⟨0, samples, fposition, ?_, by omega, Nat.le_refl _, hbehind, Nat.zero_le _, by omega,
        fun _ => ⟨rfl, hbehind⟩⟩
      simp [outputsFrom]
    · have hin : fposition.toNat < samples * 2 ^ 24 :=
        (Nat.div_lt_iff_lt_mul (by decide)).mp (by omega)
      have hnext : (fposition + stepSize).toNat = fposition.toNat + stepSize.toNat := by
        have hlt := hfits 0 (by omega)
        rw [BitVec.toNat_add, Nat.mod_eq_of_lt (by omega)]
      obtain ⟨count, last, next, hloop, hposition, hlast, hle, hcount, hinside, hpast⟩ :=
        @ih (fposition + stepSize) (output ++ [outputAt fn input fposition.toNat])
          (fposition.toNat / 2 ^ 24) (by omega)
          (hdown.trans (by omega)) (by rw [hnext]; exact hfits.next)
      refine ⟨count + 1, last, next, ?_, ?_, hlast, hle, by omega, ?_, fun h => hpast (by omega)⟩
      · rw [stepOverLoop_next (Nat.not_le.mp hend), hloop, outputsFrom_succ, ← hnext,
          List.append_assoc, List.singleton_append]
      · rw [hposition, hnext, Nat.succ_mul]
        omega
      · intro k hk
        cases k with
        | zero => omega
        | succ k =>
          have hk' := hinside k (by omega)
          rw [hnext] at hk'
          rw [Nat.succ_mul]
          omega

/-- The input with the two carried samples in front. -/
def InterpState.extend (state : InterpState) (input : List Sample) : List Sample :=
  state.xn2 :: state.xn1 :: input

/-- A call by what its loop leaves. -/
theorem stepOver_of_loop {next : BitVec 64} {last : Nat} (hempty : input ≠ [])
    (hlast : last ≤ input.length)
    (hloop : stepOverLoop fn stepSize (state.extend input) room 0 state.fposition [] =
      some (last, next, output)) :
    stepOver fn stepSize room state input = some (⟨sampleAt (state.extend input) (last + 1),
      sampleAt (state.extend input) last, next - .ofNat 64 last * scaleFactor⟩,
      (state.extend input).drop (last + 2), output) := by
  have hlength : (state.extend input).length = input.length + 2 := rfl
  have herase : stepOver.eraseFirst (state.extend input) (last + 2) =
      some ((state.extend input).drop (last + 2)) := if_pos (by omega)
  rw [stepOver, if_neg hempty]
  show (stepOverLoop fn stepSize (state.extend input) room 0 state.fposition []).bind _ = _
  rw [hloop, Option.bind_some]
  show (state.extend input)[last]?.bind _ = _
  rw [getElem?_eq_sampleAt (by omega), Option.bind_some]
  show (state.extend input)[last + 1]?.bind _ = _
  rw [getElem?_eq_sampleAt (by omega)]
  show (stepOver.eraseFirst (state.extend input) (last + 2)).bind _ = _
  rw [herase]
  rfl

/-- What one call leaves: the outputs from the position on, and a tail of the extended input with
the position relative to it. -/
theorem stepOver_eq (hfits : Fits64 state.fposition.toNat stepSize.toNat input.length) :
    ∃ count last state' rest, stepOver fn stepSize room state input = some (state', rest,
        outputsFrom fn (state.extend input) state.fposition.toNat stepSize.toNat count) ∧
      state'.extend rest = (state.extend input).drop last ∧ last ≤ input.length ∧
      state'.fposition.toNat + last * 2 ^ 24 =
        state.fposition.toNat + count * stepSize.toNat ∧ count ≤ room ∧
      (∀ k < count, state.fposition.toNat + k * stepSize.toNat < input.length * 2 ^ 24) ∧
      (count < room → rest = [] ∧
        input.length * 2 ^ 24 ≤ state.fposition.toNat + count * stepSize.toNat) := by
  by_cases hempty : input = []
  · subst hempty
    refine ⟨0, 0, state, [], ?_, rfl, Nat.le_refl 0, by omega, Nat.zero_le _, by omega,
      fun _ => ⟨rfl, by simp⟩⟩
    simp [stepOver, outputsFrom]
  · obtain ⟨count, last, next, hloop, hposition, hlast, hle, hcount, hinside, hpast⟩ :=
      (@stepOverLoop_spec fn _ _ (state.extend input) [] _ room 0) rfl (Nat.zero_le _) (by omega)
        hfits
    have hlength : (state.extend input).length = input.length + 2 := rfl
    have hsub : (next - .ofNat 64 last * scaleFactor).toNat + last * 2 ^ 24 = next.toNat :=
      toNat_sub_scaleFactor (by rw [toNat_div_scaleFactor]; omega)
    refine ⟨count, last, ⟨sampleAt (state.extend input) (last + 1),
      sampleAt (state.extend input) last, next - .ofNat 64 last * scaleFactor⟩,
      (state.extend input).drop (last + 2), stepOver_of_loop hempty hlast hloop, ?_, hlast,
      hsub.trans hposition, hcount, hinside, ?_⟩
    · have hhead : ∀ i < (state.extend input).length, (state.extend input).drop i =
          sampleAt (state.extend input) i :: (state.extend input).drop (i + 1) := by
        intro i hi
        rw [List.drop_eq_getElem_cons hi, sampleAt, List.getD_eq_getElem?_getD,
          List.getElem?_eq_getElem hi]
        rfl
      rw [hhead last (by omega), hhead (last + 1) (by omega)]
      rfl
    · intro hroom
      obtain ⟨hall, hbehind⟩ := hpast hroom
      have hnone : (state.extend input).length ≤ last + 2 := by omega
      exact ⟨List.drop_eq_nil_of_le hnone, hposition ▸ hbehind⟩

/-- A call for what is left of a frame is the one that sources make. -/
theorem stepOverSamples_of_stepOver {state' : InterpState} {rest more : List Sample}
    (h : stepOver fn stepSize (samplesPerFrame - output.length) state input =
      some (state', rest, more)) :
    stepOverSamples fn stepSize state input output = (state', rest, output ++ more) := by
  rw [stepOverSamples]
  by_cases hempty : input = []
  · subst hempty
    cases h
    simp
  rw [stepOver, if_neg hempty] at h
  obtain ⟨⟨last, next, outputs⟩, hloop, h⟩ := Option.bind_eq_some_iff.mp h
  obtain ⟨xn2, hxn2, h⟩ := Option.bind_eq_some_iff.mp h
  obtain ⟨xn1, hxn1, h⟩ := Option.bind_eq_some_iff.mp h
  obtain ⟨left, hleft, h⟩ := Option.bind_eq_some_iff.mp h
  cases h
  obtain rfl := Option.some.inj (Option.ite_none_right_eq_some.mp hleft).2
  have hsame := @stepLoop_of_stepOverLoop _ _ _ _ _ _ _ output _ hloop
  rw [List.append_nil] at hsame
  rw [if_neg hempty]
  simp only [hsame, sampleAt, List.getD_eq_getElem?_getD, hxn2, hxn1, Option.getD_some]

/-- A call whose loop finds the input used up. -/
theorem stepOver_end {next : BitVec 64} (hempty : input ≠ [])
    (hloop : stepOverLoop fn stepSize (state.extend input) room 0 state.fposition [] =
      some (input.length, next, output)) :
    ∃ state', stepOver fn stepSize room state input = some (state', [], output) ∧
      state'.fposition = next - .ofNat 64 input.length * scaleFactor := by
  have hcall := stepOver_of_loop hempty (Nat.le_refl _) hloop
  rw [List.drop_eq_nil_of_le (show (state.extend input).length ≤ input.length + 2 from
    Nat.le_refl _)] at hcall
  exact ⟨_, hcall, rfl⟩

end Calls

/-! ## Streams -/

section Streams

variable {fn : Nat → Sample → Sample → Sample → Sample} {stepSize : BitVec 64}
  {whole : List Sample} {stream : Stream} {buffers : List (List Sample)}
  {position samples room c n : Nat}

/-- What a stream still has in front of it. -/
def Stream.ahead (stream : Stream) : List Sample :=
  stream.interp.extend (stream.buffer ++ stream.queue.flatten)

/-- The stream is where `count` outputs have been given: what is ahead is a tail of the whole input,
and the position is that of the next output relative to it. -/
def Tracks (whole : List Sample) (position step : Nat) (stream : Stream) (count : Nat) : Prop :=
  ∃ c, stream.ahead = whole.drop c ∧ c + 2 ≤ whole.length ∧
    stream.interp.fposition.toNat + c * 2 ^ 24 = position + count * step

/-- The samples at the front of what is ahead. -/
theorem sampleAt_ahead {i : Nat} (hahead : stream.ahead = whole.drop c)
    (hi : i < stream.buffer.length + 2) :
    sampleAt (stream.interp.extend stream.buffer) i = sampleAt whole (c + i) := by
  have hsplit : stream.ahead = stream.interp.extend stream.buffer ++ stream.queue.flatten := rfl
  have hget : whole[c + i]? = (stream.interp.extend stream.buffer)[i]? := by
    rw [← List.getElem?_drop, ← hahead, hsplit, List.getElem?_append_left hi]
  rw [sampleAt, sampleAt, List.getD_eq_getElem?_getD, List.getD_eq_getElem?_getD, hget]

/-- The outputs of a buffer are outputs of the whole input. -/
theorem outputsFrom_ahead {x step count : Nat} (hahead : stream.ahead = whole.drop c)
    (hinside : ∀ k < count, x + k * step < stream.buffer.length * 2 ^ 24) :
    outputsFrom fn (stream.interp.extend stream.buffer) x step count =
      outputsFrom fn whole (x + c * 2 ^ 24) step count := by
  refine List.map_congr_left fun k hk => ?_
  have hlt := hinside k (List.mem_range.mp hk)
  generalize hy : x + k * step = y at hlt
  have hsum : x + c * 2 ^ 24 + k * step = y + c * 2 ^ 24 := by omega
  rw [hsum, outputAt, outputAt, Nat.add_mul_mod_self_right,
    Nat.add_mul_div_right _ _ (by decide : 0 < 2 ^ 24), sampleAt_ahead hahead (by omega),
    sampleAt_ahead hahead (by omega), sampleAt_ahead hahead (by omega)]
  simp only [Nat.add_comm, Nat.add_left_comm]

/-- A call gives the next outputs of the whole input. -/
theorem Tracks.stepOver {count : Nat}
    (htracks : Tracks whole position stepSize.toNat stream count)
    (hlength : whole.length = samples + 2) (hfits : Fits64 position stepSize.toNat samples) :
    ∃ more state rest, Audio.stepOver fn stepSize room stream.interp stream.buffer =
        some (state, rest,
          outputsFrom fn whole (position + count * stepSize.toNat) stepSize.toNat more) ∧
      Tracks whole position stepSize.toNat ⟨state, rest, stream.queue⟩ (count + more) ∧
      more ≤ room ∧
      (∀ k < more, position + (count + k) * stepSize.toNat < samples * 2 ^ 24) ∧
      (more < room → rest = [] ∧ (stream.queue.flatten = [] →
        samples * 2 ^ 24 ≤ position + (count + more) * stepSize.toNat)) := by
  obtain ⟨c, hahead, hc, hposition⟩ := htracks
  have hsize : stream.buffer.length + stream.queue.flatten.length + c = samples := by
    have heq := congrArg List.length hahead
    simp only [Stream.ahead, InterpState.extend, List.length_cons, List.length_append,
      List.length_drop] at heq
    omega
  have hfit : stream.buffer.length + c ≤ samples := by omega
  have hplace : ∀ k, position + (count + k) * stepSize.toNat =
      stream.interp.fposition.toNat + k * stepSize.toNat + c * 2 ^ 24 := by
    intro k
    rw [Nat.add_mul]
    omega
  have hlocal : Fits64 stream.interp.fposition.toNat stepSize.toNat stream.buffer.length := by
    intro k hk
    have hnext := hfits (count + k) (by rw [hplace]; omega)
    rw [Nat.add_assoc, hplace] at hnext
    omega
  obtain ⟨more, last, state, rest, hcall, htail, hlast, hnext, hroom, hinside, hpast⟩ :=
    (@stepOver_eq fn _ _ _ room) hlocal
  rw [outputsFrom_ahead hahead hinside, hposition] at hcall
  refine ⟨more, state, rest, hcall, ⟨c + last, ?_, by omega, ?_⟩, hroom, fun k hk => ?_,
    fun h => ?_⟩
  · have hsplit : Stream.ahead ⟨state, rest, stream.queue⟩ =
        state.extend rest ++ stream.queue.flatten := rfl
    have hwhole : stream.ahead = stream.interp.extend stream.buffer ++ stream.queue.flatten := rfl
    have hle : last ≤ (stream.interp.extend stream.buffer).length :=
      hlast.trans (Nat.le_add_right _ 2)
    rw [hsplit, htail, ← List.drop_drop, ← hahead, hwhole, List.drop_append_of_le_length hle]
  · rw [hplace]
    show state.fposition.toNat + (c + last) * 2 ^ 24 = _
    rw [Nat.add_mul, ← hnext, Nat.add_assoc, Nat.add_comm (c * _)]
  · rw [hplace]
    calc _ < stream.buffer.length * 2 ^ 24 + c * 2 ^ 24 := Nat.add_lt_add_right (hinside k hk) _
      _ = (stream.buffer.length + c) * 2 ^ 24 := (Nat.add_mul ..).symm
      _ ≤ samples * 2 ^ 24 := Nat.mul_le_mul_right _ hfit
  · obtain ⟨hrest, hend⟩ := hpast h
    refine ⟨hrest, fun hqueue => ?_⟩
    rw [hqueue, List.length_nil] at hsize
    rw [hplace]
    calc samples * 2 ^ 24 = stream.buffer.length * 2 ^ 24 + c * 2 ^ 24 := by
          rw [← Nat.add_mul, ← hsize, Nat.add_zero]
      _ ≤ _ := Nat.add_le_add_right hend _

/-- Outputs that are inside of the input are among those that there are. -/
theorem add_le_outputCount {step count more : Nat} (hstep : 1 ≤ step)
    (hinside : ∀ k < more, position + (count + k) * step < samples * 2 ^ 24)
    (hcount : count ≤ outputCount position step samples) :
    count + more ≤ outputCount position step samples := by
  cases more with
  | zero => exact hcount
  | succ more => exact (lt_outputCount hstep).mpr (hinside more (Nat.lt_succ_self more))

/-- A frame gets the next outputs, as many as there is room for or as there are. -/
theorem Tracks.fillFrame (hlength : whole.length = samples + 2)
    (hfits : Fits64 position stepSize.toNat samples) (hstep : 1 ≤ stepSize.toNat)
    {queue : List (List Sample)} {room count : Nat} {interp : InterpState} {buffer : List Sample}
    (htracks : Tracks whole position stepSize.toNat ⟨interp, buffer, queue⟩ count)
    (hcount : count ≤ outputCount position stepSize.toNat samples) :
    ∃ stream more, Audio.fillFrame fn stepSize queue room interp buffer =
        some (stream, outputsFrom fn whole (position + count * stepSize.toNat) stepSize.toNat
          more) ∧
      Tracks whole position stepSize.toNat stream (count + more) ∧
      count + more = min (count + room) (outputCount position stepSize.toNat samples) := by
  induction queue generalizing room count interp buffer with
  | nil =>
    obtain ⟨more, state, rest, hcall, hnext, hroom, hinside, hpast⟩ :=
      (@Tracks.stepOver fn _ _ _ _ _ room) htracks hlength hfits
    have hle := add_le_outputCount hstep hinside hcount
    have hcall' : Audio.stepOver fn stepSize room interp buffer = _ := hcall
    refine ⟨⟨state, rest, []⟩, more, ?_, hnext, ?_⟩
    · rw [Audio.fillFrame, hcall']
      refine if_pos ?_
      rw [length_outputsFrom]
      exact (Nat.lt_or_eq_of_le hroom).symm.imp_right fun h => (hpast h).1
    · rcases Nat.lt_or_eq_of_le hroom with hlt | rfl
      · have hend : ¬count + more < outputCount position stepSize.toNat samples := fun h =>
          absurd ((lt_outputCount hstep).mp h) (Nat.not_lt.mpr ((hpast hlt).2 rfl))
        omega
      · omega
  | cons next queue ih =>
    obtain ⟨more, state, rest, hcall, hnext, hroom, hinside, hpast⟩ :=
      (@Tracks.stepOver fn _ _ _ _ _ room) htracks hlength hfits
    have hle := add_le_outputCount hstep hinside hcount
    have hcall' : Audio.stepOver fn stepSize room interp buffer = _ := hcall
    rcases Nat.lt_or_eq_of_le hroom with hlt | rfl
    · -- the buffer is used up, and the next one is appended
      obtain rfl := (hpast hlt).1
      obtain ⟨c, hahead, hc, hposition⟩ := hnext
      obtain ⟨stream, rest, hfill, hlast, hmin⟩ := @ih (room - more) _ state next ⟨c, hahead, hc, hposition⟩ hle
      refine ⟨stream, more + rest, ?_, by rwa [← Nat.add_assoc], by omega⟩
      rw [Audio.fillFrame, hcall']
      simp only [Option.bind_eq_bind, Option.bind_some, length_outputsFrom, if_neg hlt.ne,
        if_pos, hfill]
      rw [outputsFrom_add, Nat.add_mul, Nat.add_assoc]
      rfl
    · refine ⟨⟨state, rest, next :: queue⟩, more, ?_, hnext, by omega⟩
      rw [Audio.fillFrame, hcall']
      exact if_pos length_outputsFrom

/-- Frames get the outputs in order. -/
theorem Tracks.fillFrames (hlength : whole.length = samples + 2)
    (hfits : Fits64 position stepSize.toNat samples) (hstep : 1 ≤ stepSize.toNat)
    {frames : List Nat} {stream : Stream} {count : Nat}
    (htracks : Tracks whole position stepSize.toNat stream count)
    (hcount : count ≤ outputCount position stepSize.toNat samples) :
    ∃ stream' more, Audio.fillFrames fn stepSize frames stream =
        some (stream', outputsFrom fn whole (position + count * stepSize.toNat) stepSize.toNat
          more) ∧
      Tracks whole position stepSize.toNat stream' (count + more) ∧
      count + more = min (count + frames.sum) (outputCount position stepSize.toNat samples) := by
  induction frames generalizing stream count with
  | nil =>
    refine ⟨stream, 0, rfl, htracks, ?_⟩
    rw [List.sum_nil, Nat.add_zero, Nat.min_eq_left hcount]
  | cons room frames ih =>
    obtain ⟨stream', more, hfill, hnext, hmin⟩ :=
      (@Tracks.fillFrame fn) hlength hfits hstep htracks hcount
    obtain ⟨last, rest, hframes, hlast, hsum⟩ := ih hnext (hmin ▸ Nat.min_le_right _ _)
    refine ⟨last, more + rest, ?_, by rwa [← Nat.add_assoc], ?_⟩
    · rw [Audio.fillFrames, hfill]
      simp only [Option.bind_eq_bind, Option.bind_some, hframes]
      rw [outputsFrom_add, Nat.add_mul, Nat.add_assoc]
      rfl
    · rw [List.sum_cons]
      omega

/-- One call with the whole input gives as many outputs as there is room for or as there are. -/
theorem stepOver_whole {state : InterpState} {input : List Sample} {room : Nat}
    (hstep : 1 ≤ stepSize.toNat)
    (hfits : Fits64 state.fposition.toNat stepSize.toNat input.length) :
    ∃ state' rest, stepOver fn stepSize room state input = some (state', rest,
        outputsFrom fn (state.extend input) state.fposition.toNat stepSize.toNat
          (min room (outputCount state.fposition.toNat stepSize.toNat input.length))) ∧
      (outputCount state.fposition.toNat stepSize.toNat input.length < room → rest = []) := by
  obtain ⟨count, last, state', rest, hcall, -, -, -, hroom, hinside, hpast⟩ :=
    (@stepOver_eq fn _ _ _ room) hfits
  have hle := (@add_le_outputCount _ _ _ 0) hstep (by simpa using hinside) (Nat.zero_le _)
  have hmin : count =
      min room (outputCount state.fposition.toNat stepSize.toNat input.length) := by
    rcases Nat.lt_or_eq_of_le hroom with hlt | rfl
    · have hend := mt (lt_outputCount hstep).mp (Nat.not_lt.mpr (hpast hlt).2)
      omega
    · omega
  exact ⟨state', rest, hmin ▸ hcall, fun h => (hpast (by omega)).1⟩

end Streams

/-! ## Linear interpolation -/

section Linear

/-- The value between two samples, over the integers. -/
def interpolated (fraction : Nat) (y0 y1 : Int) : Int :=
  y0 + fraction * clamp16 (y1 - y0) / 2 ^ 24

variable {fraction position : Nat} {y0 y1 delta : Int} {x0 x1 x2 : Sample} {input : List Sample}

/-- The part of the delta is between zero and the delta. -/
theorem part_bounds (hfraction : fraction < 2 ^ 24) :
    min 0 delta ≤ fraction * delta / 2 ^ 24 ∧ fraction * delta / 2 ^ 24 ≤ max 0 delta := by
  have hcast : (fraction : Int) < 2 ^ 24 := by exact_mod_cast hfraction
  have hnonneg : (0 : Int) ≤ fraction := Int.natCast_nonneg _
  constructor
  · rw [Int.le_ediv_iff_mul_le (by decide)]
    rcases Int.le_total 0 delta with h | h
    · rw [Int.min_eq_left h, Int.zero_mul]
      exact Int.mul_nonneg hnonneg h
    · rw [Int.min_eq_right h, Int.mul_comm]
      exact Int.mul_le_mul_of_nonpos_right hcast.le h
  · rw [← Int.lt_add_one_iff, Int.ediv_lt_iff_lt_mul (by decide)]
    rcases Int.le_total 0 delta with h | h
    · rw [Int.max_eq_right h, Int.mul_comm]
      have hle := Int.mul_le_mul_of_nonneg_left hcast.le h
      omega
    · rw [Int.max_eq_left h]
      have hle := Int.mul_nonpos_of_nonneg_of_nonpos hnonneg h
      omega

theorem isS16_interpolated (hfraction : fraction < 2 ^ 24) (h0 : IsS16 y0) (h1 : IsS16 y1) :
    IsS16 (interpolated fraction y0 y1) := by
  have hpart := (@part_bounds _ (clamp16 (y1 - y0))) hfraction
  unfold interpolated
  unfold IsS16 clamp16 at *
  omega

/-- The unsigned division of the wrapped product is the division over the integers, up to a
multiple of `2 ^ 40`. -/
theorem wrapped_part :
    ∃ m : Int, fraction * delta % 2 ^ 64 / 2 ^ 24 = fraction * delta / 2 ^ 24 + m * 2 ^ 40 := by
  refine ⟨-(fraction * delta / 2 ^ 64), ?_⟩
  generalize (fraction : Int) * delta = product
  omega

/-- `AudioInterp::Linear` gives the values over the integers. -/
theorem linearInterpolation_eq (hfraction : fraction < 2 ^ 24) (hx0 : IsS16 x0.1 ∧ IsS16 x0.2)
    (hx1 : IsS16 x1.1 ∧ IsS16 x1.2) : linearInterpolation fraction x0 x1 x2 =
      (interpolated fraction x0.1 x1.1, interpolated fraction x0.2 x1.2) := by
  have hchannel : ∀ {y0 y1 : Int}, IsS16 y0 → IsS16 y1 →
      toS16 (y0 + fraction * max (-32768) (min (y1 - y0) 32767) % 2 ^ 64 / 2 ^ 24) =
        interpolated fraction y0 y1 := by
    intro y0 y1 h0 h1
    obtain ⟨m, hm⟩ := (@wrapped_part fraction (clamp16 (y1 - y0)))
    have hfits := isS16_interpolated hfraction h0 h1
    unfold interpolated at *
    change toS16 (y0 + fraction * clamp16 (y1 - y0) % 2 ^ 64 / 2 ^ 24) = _
    rw [hm]
    generalize fraction * clamp16 (y1 - y0) / 2 ^ 24 = part at hfits ⊢
    unfold IsS16 at hfits
    rw [toS16, Int.bmod_def]
    omega
  exact Prod.ext (hchannel hx0.1 hx1.1) (hchannel hx0.2 hx1.2)

/-- The samples of the input and the carried ones are `s16`. -/
def AllS16 (input : List Sample) : Prop := ∀ x ∈ input, IsS16 x.1 ∧ IsS16 x.2

theorem AllS16.sampleAt (h : AllS16 input) (i : Nat) :
    IsS16 (sampleAt input i).1 ∧ IsS16 (sampleAt input i).2 := by
  rw [Audio.sampleAt, List.getD_eq_getElem?_getD]
  rcases Nat.lt_or_ge i input.length with hi | hi
  · rw [List.getElem?_eq_getElem hi]
    exact h _ (List.getElem_mem hi)
  · rw [List.getElem?_eq_none hi]
    exact ⟨⟨by decide, by decide⟩, ⟨by decide, by decide⟩⟩

/-- Every output of `AudioInterp::Linear` is the one over the integers, and is `s16`. -/
theorem AllS16.outputAt (h : AllS16 input) (position : Nat) :
    outputAt linearInterpolation input position =
        (interpolated (position % 2 ^ 24) (Audio.sampleAt input (position / 2 ^ 24)).1
            (Audio.sampleAt input (position / 2 ^ 24 + 1)).1,
          interpolated (position % 2 ^ 24) (Audio.sampleAt input (position / 2 ^ 24)).2
            (Audio.sampleAt input (position / 2 ^ 24 + 1)).2) ∧
      IsS16 (Audio.outputAt linearInterpolation input position).1 ∧
      IsS16 (Audio.outputAt linearInterpolation input position).2 := by
  have hfraction : position % 2 ^ 24 < 2 ^ 24 := Nat.mod_lt _ (by decide)
  have heq := (@linearInterpolation_eq _ _ _ (Audio.sampleAt input (position / 2 ^ 24 + 2)))
    hfraction (h.sampleAt (position / 2 ^ 24)) (h.sampleAt (position / 2 ^ 24 + 1))
  refine ⟨heq, ?_⟩
  rw [Audio.outputAt, heq]
  exact ⟨isS16_interpolated hfraction (h.sampleAt _).1 (h.sampleAt _).1,
    isS16_interpolated hfraction (h.sampleAt _).2 (h.sampleAt _).2⟩

end Linear

/-! ## Streaming -/

section Streaming

variable {fn : Nat → Sample → Sample → Sample → Sample} {stepSize : BitVec 64}

/-- A call with the whole input and enough room gives these outputs, and uses up the input. -/
def GivesWhole (fn : Nat → Sample → Sample → Sample → Sample) (stepSize : BitVec 64)
    (state : InterpState) (input all : List Sample) : Prop :=
  ∃ enough, ∀ room ≥ enough, ∃ state', stepOver fn stepSize room state input =
    some (state', [], all)

/-- However the input is cut into buffers and the output into frames, the frames get what one call
gives for the whole input. -/
theorem fillFrames_eq_take (state : InterpState) (buffers : List (List Sample))
    (hstep : 1 ≤ stepSize.toNat)
    (hfits : Fits64 state.fposition.toNat stepSize.toNat buffers.flatten.length) :
    ∃ all, GivesWhole fn stepSize state buffers.flatten all ∧
      (∀ frames, ∃ stream, fillFrames fn stepSize frames ⟨state, [], buffers⟩ =
          some (stream, all.take frames.sum) ∧
        Tracks (state.extend buffers.flatten) state.fposition.toNat stepSize.toNat stream
          (min frames.sum all.length)) ∧
      (∀ k, all[k]? = if state.fposition.toNat + k * stepSize.toNat < buffers.flatten.length * 2 ^ 24
        then some (outputAt fn (state.extend buffers.flatten)
          (state.fposition.toNat + k * stepSize.toNat)) else none) ∧
      (AllS16 (state.extend buffers.flatten) → ∀ position,
        outputAt linearInterpolation (state.extend buffers.flatten) position =
            (interpolated (position % 2 ^ 24)
                (sampleAt (state.extend buffers.flatten) (position / 2 ^ 24)).1
                (sampleAt (state.extend buffers.flatten) (position / 2 ^ 24 + 1)).1,
              interpolated (position % 2 ^ 24)
                (sampleAt (state.extend buffers.flatten) (position / 2 ^ 24)).2
                (sampleAt (state.extend buffers.flatten) (position / 2 ^ 24 + 1)).2) ∧
          IsS16 (outputAt linearInterpolation (state.extend buffers.flatten) position).1 ∧
          IsS16 (outputAt linearInterpolation (state.extend buffers.flatten) position).2) := by
  generalize htotal :
    outputCount state.fposition.toNat stepSize.toNat buffers.flatten.length = total
  refine ⟨outputsFrom fn (state.extend buffers.flatten) state.fposition.toNat stepSize.toNat total,
    ⟨total + 1, fun room hroom => ?_⟩, fun frames => ?_, fun k => ?_, fun h => h.outputAt⟩
  · obtain ⟨state', rest, hcall, hrest⟩ := (@stepOver_whole fn _ _ _ room) hstep hfits
    rw [htotal] at hcall hrest
    rw [Nat.min_eq_right (by omega), hrest (by omega)] at hcall
    exact ⟨state', hcall⟩
  · have htracks : Tracks (state.extend buffers.flatten) state.fposition.toNat stepSize.toNat
        ⟨state, [], buffers⟩ 0 :=
      ⟨0, rfl, Nat.le_add_left 2 _, by rw [Nat.zero_mul, Nat.zero_mul]⟩
    obtain ⟨stream, more, hfill, hlast, hmin⟩ :=
      (@Tracks.fillFrames fn) rfl hfits hstep htracks (Nat.zero_le _)
    rw [Nat.zero_mul, Nat.add_zero] at hfill
    rw [Nat.zero_add] at hlast hmin
    rw [Nat.zero_add, htotal] at hmin
    refine ⟨stream, ?_, ?_⟩
    · rw [hfill, take_outputsFrom, hmin]
    · rwa [length_outputsFrom, ← hmin]
  · rw [outputsFrom, List.getElem?_map]
    have hiff := (@lt_outputCount state.fposition.toNat _ buffers.flatten.length k) hstep
    rw [htotal] at hiff
    by_cases hk : k < total
    · rw [if_pos (hiff.mp hk), List.getElem?_range hk]
      rfl
    · rw [if_neg (mt hiff.mpr hk), List.getElem?_eq_none (by simpa using hk)]
      rfl

/-- Two buffers of one sample, at a step of one and a half samples, into frames of one. -/
theorem fillFrames_eq_take_pair :
    ∃ all,
      GivesWhole linearInterpolation 0x1800000 ⟨(5, 6), (1, 2), 0⟩ [(9, 8), (100, -100)] all ∧
      ∃ stream, fillFrames linearInterpolation 0x1800000 [1, 1]
        ⟨⟨(5, 6), (1, 2), 0⟩, [], [[(9, 8)], [(100, -100)]]⟩ = some (stream, all.take 2) := by
  have hfits : Fits64 0 0x1800000 2 := by
    intro k hk
    have hlt : k + 1 ≤ 2 := by omega
    rw [Nat.zero_add]
    exact (Nat.mul_le_mul_right _ hlt).trans_lt (by decide)
  obtain ⟨all, hall, hframes, -⟩ := (@fillFrames_eq_take linearInterpolation 0x1800000)
    ⟨(5, 6), (1, 2), 0⟩ [[(9, 8)], [(100, -100)]] (by decide) hfits
  obtain ⟨stream, hfill, -⟩ := hframes [1, 1]
  exact ⟨all, hall, stream, hfill⟩

/-- Where a position wraps around, a call with the whole input gives two outputs, where the frame
gets one output of the two buffers: the position is behind the first of them. -/
theorem not_streaming : ∃ (stepSize : BitVec 64) (state : InterpState)
    (buffers : List (List Sample)), 1 ≤ stepSize.toNat ∧ (∀ buffer ∈ buffers, buffer ≠ []) ∧
      (∃ stream output, fillFrames noInterpolation stepSize [160] ⟨state, [], buffers⟩ =
        some (stream, output) ∧ output.length = 1 ∧ stream.buffer = [] ∧ stream.queue = []) ∧
      ∀ room ≥ 3, ∃ state' output, stepOver noInterpolation stepSize room state buffers.flatten =
        some (state', [], output) ∧ output.length = 2 := by
  obtain ⟨samples, hsamples⟩ : ∃ samples : List Sample, samples.length = 2 ^ 16 :=
    ⟨List.replicate (2 ^ 16) (0, 0), List.length_replicate⟩
  have hempty : samples ≠ [] := by
    rintro rfl
    exact absurd hsamples (by decide)
  have hflatten : [samples, [(0, 0)]].flatten.length = 2 ^ 16 + 1 := by
    rw [List.flatten_cons, List.length_append, hsamples]
    rfl
  have hlength : ∀ (state : InterpState) (input : List Sample),
      (state.extend input).length = input.length + 2 := fun _ _ => rfl
  refine ⟨0xFFFFFF0000000000, ⟨(0, 0), (0, 0), 0x10000000000⟩, [samples, [(0, 0)]], by decide, ?_,
    ?_, fun room hroom => ?_⟩
  · intro buffer hbuffer
    rcases List.mem_pair.mp hbuffer with rfl | rfl
    · exact hempty
    · exact List.cons_ne_nil _ _
  · obtain ⟨first, hfirst, hstart⟩ := (@stepOver_end noInterpolation 0xFFFFFF0000000000 _ _
      ⟨(0, 0), (0, 0), 0x10000000000⟩ 160 _) hempty
      (stepOverLoop_end (by rw [hlength, hsamples]; decide))
    rw [hsamples] at hstart
    have hzero : first.fposition = 0 := hstart.trans (by decide)
    obtain ⟨second, hsecond, -⟩ := (@stepOver_end noInterpolation 0xFFFFFF0000000000 [(0, 0)] _
      first 160 _) (List.cons_ne_nil _ _)
      ((stepOverLoop_next (by rw [hlength, hzero]; decide)).trans
        (stepOverLoop_end (by rw [hlength, hzero]; decide)))
    have hnone : stepOver noInterpolation 0xFFFFFF0000000000 160
        ⟨(0, 0), (0, 0), 0x10000000000⟩ [] = some (⟨(0, 0), (0, 0), 0x10000000000⟩, [], []) := rfl
    refine ⟨⟨second, [], []⟩, [outputAt noInterpolation (first.extend [(0, 0)]) 0], ?_, rfl, rfl, rfl⟩
    simp only [fillFrames, fillFrame, hnone, hfirst, hsecond, hzero, Option.bind_eq_bind,
      Option.bind_some, List.length_nil, List.nil_append, List.append_nil, Option.pure_def,
      if_true, if_false, or_true, Nat.sub_zero, reduceCtorEq]
    rfl
  · obtain ⟨room, rfl⟩ : ∃ n, room = n + 3 := ⟨room - 3, by omega⟩
    obtain ⟨state', hcall, -⟩ := (@stepOver_end noInterpolation 0xFFFFFF0000000000
      [samples, [(0, 0)]].flatten _ ⟨(0, 0), (0, 0), 0x10000000000⟩ (room + 3) _)
      (List.ne_nil_of_length_pos (by omega))
      ((stepOverLoop_next (by rw [hlength, hflatten]; decide)).trans
        ((stepOverLoop_next (by rw [hlength, hflatten]; decide)).trans
          (stepOverLoop_end (by rw [hlength, hflatten]; decide))))
    exact ⟨state', _, hcall, rfl⟩

end Streaming

end GbaStation.Audio
