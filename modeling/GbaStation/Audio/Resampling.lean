import Mathlib.Data.List.Basic
import Mathlib.Data.BitVec
import GbaStation.Common.PagedMemory

/-!
# Decoding and resampling (`audio_core/codec.cpp`, `audio_core/interpolate.cpp`)

Buffers of the guest are decoded to stereo samples, and these are stepped over at a rate to fill a
frame.

- Samples are integers, and a position in the input is a fixed-point number in `u64`.
-/

namespace GbaStation.Audio

/-- The two channels of a sample. -/
abbrev Sample := Int × Int

/-- `static_cast<s16>`. -/
def toS16 (n : Int) : Int := n.bmod (2 ^ 16)

def samplesPerFrame : Nat := 160

/-! ## Codecs -/

/-- `Codec::ADPCMState`: the last two samples. -/
structure ADPCMState where
  yn1 : Int
  yn2 : Int

/-- `SIGNED_NIBBLES`. -/
def signedNibble (nibble : Nat) : Int := if nibble < 8 then nibble else nibble - 16

/-- `decode_sample` of `DecodeADPCM`, with an `int` that wraps around. -/
def decodeNibble (scale coef1 coef2 : Int) (nibble : Nat) (state : ADPCMState) : ADPCMState :=
  let xn := signedNibble nibble * scale
  let sum := xn * 2 ^ 11 + 0x400 + coef1 * state.yn1 + coef2 * state.yn2
  let val := sum.bmod (2 ^ 32) / 2 ^ 11
  ⟨max (-32768) (min val 32767), state.yn1⟩

/-- One byte of `DecodeADPCM`, with two samples. A frame has a header and seven such bytes. -/
def decodeADPCMByte (data : Nat → Byte) (coeffs : Nat → Int) (ret : List Sample × ADPCMState)
    (j : Nat) : List Sample × ADPCMState :=
  let header := (data (j / 7 * 8)).toNat
  let byte := (data (j / 7 * 8 + 1 + j % 7)).toNat
  let scale : Int := 2 ^ (header % 16)
  let idx := header / 16 % 8
  let state1 := decodeNibble scale (coeffs (idx * 2)) (coeffs (idx * 2 + 1)) (byte / 16) ret.2
  let state2 := decodeNibble scale (coeffs (idx * 2)) (coeffs (idx * 2 + 1)) (byte % 16) state1
  (ret.1 ++ [(state1.yn1, state1.yn1), (state2.yn1, state2.yn1)], state2)

/-- `Codec::DecodeADPCM`. An odd number of samples is rounded up. -/
def decodeADPCM (data : Nat → Byte) (sampleCount : Nat) (coeffs : Nat → Int)
    (state : ADPCMState) : List Sample × ADPCMState :=
  (List.range ((sampleCount + 1) / 2)).foldl (decodeADPCMByte data coeffs) ([], state)

/-- `Codec::DecodePCM8`. -/
def decodePCM8 (numChannels : Nat) (data : Nat → Byte) (sampleCount : Nat) : List Sample :=
  let sample (i : Nat) : Int := toS16 ((data i).toNat * 2 ^ 8)
  (List.range sampleCount).map fun i =>
    if numChannels = 1 then (sample i, sample i) else (sample (i * 2), sample (i * 2 + 1))

/-- `Codec::DecodePCM16`. -/
def decodePCM16 (numChannels : Nat) (data : Nat → Byte) (sampleCount : Nat) : List Sample :=
  let sample (i : Nat) : Int := toS16 ((data (i * 2)).toNat + (data (i * 2 + 1)).toNat * 2 ^ 8)
  (List.range sampleCount).map fun i =>
    if numChannels = 1 then (sample i, sample i) else (sample (i * 2), sample (i * 2 + 1))

theorem length_decodeADPCM (data : Nat → Byte) (sampleCount : Nat) (coeffs : Nat → Int)
    (state : ADPCMState) :
    (decodeADPCM data sampleCount coeffs state).1.length = sampleCount + sampleCount % 2 := by
  have hfold : ∀ pairs, ((List.range pairs).foldl (decodeADPCMByte data coeffs)
      ([], state)).1.length = 2 * pairs := by
    intro pairs
    induction pairs with
    | zero => rfl
    | succ pairs ih =>
      rw [List.range_succ, List.foldl_append, List.foldl_cons, List.foldl_nil, decodeADPCMByte,
        List.length_append, ih]
      rfl
  rw [decodeADPCM, hfold]
  omega

@[simp] theorem length_decodePCM8 (numChannels : Nat) (data : Nat → Byte) (sampleCount : Nat) :
    (decodePCM8 numChannels data sampleCount).length = sampleCount := by
  simp [decodePCM8]

@[simp] theorem length_decodePCM16 (numChannels : Nat) (data : Nat → Byte) (sampleCount : Nat) :
    (decodePCM16 numChannels data sampleCount).length = sampleCount := by
  simp [decodePCM16]

/-! ## Resampling -/

/-- `AudioInterp::State`. -/
structure InterpState where
  xn1 : Sample
  xn2 : Sample
  fposition : BitVec 64

def scaleFactor : BitVec 64 := 0x1000000

/-- The sample at an index of the input. -/
def sampleAt (input : List Sample) (i : Nat) : Sample := input.getD i (0, 0)

/-- The loop of `StepOverSamples`, with so much room in the frame; the last index into the input,
the position and the frame. -/
def stepLoop (fn : Nat → Sample → Sample → Sample → Sample) (stepSize : BitVec 64)
    (input : List Sample) :
    (room inputi : Nat) → BitVec 64 → List Sample → Nat × BitVec 64 × List Sample
  | 0, inputi, fposition, output => (inputi, fposition, output)
  | room + 1, _, fposition, output =>
    let inputi := (fposition / scaleFactor).toNat
    if inputi + 2 ≥ input.length then (input.length - 2, fposition, output)
    else
      let fraction := (fposition % scaleFactor).toNat
      let sample := fn fraction (sampleAt input inputi) (sampleAt input (inputi + 1))
        (sampleAt input (inputi + 2))
      stepLoop fn stepSize input room inputi (fposition + stepSize) (output ++ [sample])

/-- `StepOverSamples`: the state, what is left of the input, and the frame. -/
def stepOverSamples (fn : Nat → Sample → Sample → Sample → Sample) (stepSize : BitVec 64)
    (state : InterpState) (input output : List Sample) :
    InterpState × List Sample × List Sample :=
  if input = [] then (state, input, output)
  else
    let input := state.xn2 :: state.xn1 :: input
    let (inputi, fposition, output) :=
      stepLoop fn stepSize input (samplesPerFrame - output.length) 0 state.fposition output
    ({ xn2 := sampleAt input inputi
       xn1 := sampleAt input (inputi + 1)
       fposition := fposition - .ofNat 64 inputi * scaleFactor },
      input.drop (inputi + 2), output)

/-- The function of `AudioInterp::None`. -/
def noInterpolation (_fraction : Nat) (x0 _x1 _x2 : Sample) : Sample := x0

/-- The function of `AudioInterp::Linear`. The product is in `u64`. -/
def linearInterpolation (fraction : Nat) (x0 x1 _x2 : Sample) : Sample :=
  let channel (y0 y1 : Int) : Int :=
    let delta := max (-32768) (min (y1 - y0) 32767)
    toS16 (y0 + fraction * delta % 2 ^ 64 / 2 ^ 24)
  (channel x0.1 x1.1, channel x0.2 x1.2)

/-! ## Positions -/

/-- The room in the frame and the position after so many samples. -/
def advance (stepSize : BitVec 64) (n : Nat) : Nat → BitVec 64 → Nat × BitVec 64
  | 0, fposition => (0, fposition)
  | room + 1, fposition =>
    if n ≤ (fposition / scaleFactor).toNat then
      (room + 1, fposition - .ofNat 64 n * scaleFactor)
    else advance stepSize n room (fposition + stepSize)

/-- Buffers with so many samples, one after the other, leave no room in the frame. -/
def Fills (stepSize : BitVec 64) : List Nat → Nat → BitVec 64 → Prop
  | [], room, _ => room = 0
  | n :: counts, room, fposition =>
    Fills stepSize counts (advance stepSize n room fposition).1
      (advance stepSize n room fposition).2

variable {fn : Nat → Sample → Sample → Sample → Sample} {stepSize fposition : BitVec 64}
  {input output : List Sample} {state : InterpState} {n room inputi : Nat} {counts : List Nat}

@[simp] theorem advance_no_room : advance stepSize n 0 fposition = (0, fposition) := rfl

/-- No samples do nothing. -/
@[simp] theorem advance_none : advance stepSize 0 room fposition = (room, fposition) := by
  cases room with
  | zero => rfl
  | succ room => simp [advance]

theorem fills_no_room : Fills stepSize counts 0 fposition := by
  induction counts with
  | nil => rfl
  | cons n counts ih => exact ih

theorem toNat_scaleFactor : scaleFactor.toNat = 2 ^ 24 := by
  rw [scaleFactor]
  rfl

/-- A position goes back by the samples that have been passed. -/
theorem toNat_sub_scaleFactor (h : n ≤ (fposition / scaleFactor).toNat) :
    (fposition - .ofNat 64 n * scaleFactor).toNat + n * 2 ^ 24 = fposition.toNat := by
  rw [BitVec.toNat_udiv, toNat_scaleFactor] at h
  rw [BitVec.toNat_sub, BitVec.toNat_mul, BitVec.toNat_ofNat, toNat_scaleFactor]
  have hn : n < 2 ^ 40 := by omega
  rw [Nat.mod_eq_of_lt (by omega : n < 2 ^ 64), Nat.mod_eq_of_lt (by omega : n * 2 ^ 24 < 2 ^ 64)]
  omega

/-- Room that is left means that all samples have been stepped over. -/
theorem advance_cases (stepSize fposition : BitVec 64) (hroom : room ≠ 0) (hn : n ≠ 0) :
    (advance stepSize n room fposition).1 < room ∨
      ((advance stepSize n room fposition).1 = room ∧
        (advance stepSize n room fposition).2.toNat < fposition.toNat) := by
  induction room generalizing fposition with
  | zero => exact absurd rfl hroom
  | succ room ih =>
    rw [advance]
    split_ifs with hpassed
    · have hback := toNat_sub_scaleFactor hpassed
      refine .inr ⟨rfl, ?_⟩
      show (fposition - .ofNat 64 n * scaleFactor).toNat < fposition.toNat
      omega
    · left
      by_cases hzero : room = 0
      · simp [hzero]
      · rcases ih (fposition + stepSize) hzero with h | ⟨h, -⟩
        · omega
        · omega

theorem length_stepLoop (fn : Nat → Sample → Sample → Sample → Sample) (stepSize : BitVec 64)
    (hinput : input.length = n + 2) (inputi : Nat) (fposition : BitVec 64) (output : List Sample) :
    (stepLoop fn stepSize input room inputi fposition output).2.2.length +
        (advance stepSize n room fposition).1 = output.length + room ∧
      ((advance stepSize n room fposition).1 ≠ 0 →
        (stepLoop fn stepSize input room inputi fposition output).1 = n ∧
        (stepLoop fn stepSize input room inputi fposition output).2.1 -
          .ofNat 64 n * scaleFactor = (advance stepSize n room fposition).2) := by
  induction room generalizing inputi fposition output with
  | zero => exact ⟨rfl, fun h => absurd rfl h⟩
  | succ room ih =>
    have hpassed : (fposition / scaleFactor).toNat + 2 ≥ input.length ↔
        n ≤ (fposition / scaleFactor).toNat := by omega
    rw [stepLoop, advance]
    simp only [hpassed]
    split_ifs with h
    · exact ⟨rfl, fun _ => ⟨by omega, rfl⟩⟩
    · obtain ⟨hlength, hpast⟩ := ih (fposition / scaleFactor).toNat (fposition + stepSize)
        (output ++ [fn (fposition % scaleFactor).toNat
          (sampleAt input (fposition / scaleFactor).toNat)
          (sampleAt input ((fposition / scaleFactor).toNat + 1))
          (sampleAt input ((fposition / scaleFactor).toNat + 2))])
      rw [List.length_append, List.length_singleton] at hlength
      exact ⟨by omega, hpast⟩

/-- What `StepOverSamples` does to the room, and to the position where room is left. -/
theorem stepOverSamples_spec (fn : Nat → Sample → Sample → Sample → Sample) (stepSize : BitVec 64)
    (state : InterpState) (input : List Sample) (houtput : output.length + room = samplesPerFrame) :
    (stepOverSamples fn stepSize state input output).2.2.length +
        (advance stepSize input.length room state.fposition).1 = samplesPerFrame ∧
      ((advance stepSize input.length room state.fposition).1 ≠ 0 →
        (stepOverSamples fn stepSize state input output).2.1 = [] ∧
        (stepOverSamples fn stepSize state input output).1.fposition =
          (advance stepSize input.length room state.fposition).2) := by
  have hroom : samplesPerFrame - output.length = room := by omega
  rw [stepOverSamples]
  split_ifs with hempty
  · subst hempty
    simp [houtput]
  · have hinput : (state.xn2 :: state.xn1 :: input).length = input.length + 2 := rfl
    obtain ⟨hlength, hpast⟩ := @length_stepLoop _ _ room fn stepSize hinput 0 state.fposition output
    simp only [hroom]
    refine ⟨hlength.trans houtput, fun h => ?_⟩
    obtain ⟨hinputi, hposition⟩ := hpast h
    refine ⟨List.drop_eq_nil_of_le ?_, ?_⟩
    · simp [hinputi]
    · simp only [hinputi, hposition]

end GbaStation.Audio
