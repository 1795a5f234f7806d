import Mathlib.Tactic.Linarith
import GbaStation.Common.FlatMemory
import GbaStation.Audio.Resampling

/-!
# The arithmetic of the ADPCM decoder (`audio_core/codec.cpp`)

`Codec::DecodeADPCM` runs a second order filter over the nibbles of its frames. The filter is
computed in `int`, from coefficients of the guest.

- `decodeADPCMInt` is the decoder with every read and every `int` checked; a result that is `none`
  is a read behind the data or an `int` that overflows.
- The decoder follows the recurrence up to the first sum that is no `int` (`decodeADPCMInt_eq`), and
  so does the one of the sources (`decodeADPCM_eq`). `Fits` says which coefficients have no such sum.
-/

namespace GbaStation.Audio

open Option (bind_eq_bind bind_some)

/-- `adpcm_coeff`. -/
abbrev AdpcmCoefficients := Fin 16 → Halfword

/-! ## The decoder -/

/-- The value fits in an `int`. -/
def IsInt (n : Int) : Prop := -2 ^ 31 ≤ n ∧ n < 2 ^ 31

instance (n : Int) : Decidable (IsInt n) := inferInstanceAs (Decidable (_ ∧ _))

/-- An `int` that has been computed. -/
def toInt (n : Int) : Option Int := if IsInt n then some n else none

/-- `std::clamp(val, -32768, 32767)`. -/
def clamp16 (val : Int) : Int := max (-32768) (min val 32767)

/-- `decode_sample`. -/
def decodeSample (scale coef1 coef2 nibble : Int) (state : ADPCMState) : Option ADPCMState := do
  let xn ← toInt (nibble * scale)
  let shifted ← toInt (xn * 2 ^ 11)
  let rounded ← toInt (shifted + 0x400)
  let product1 ← toInt (coef1 * state.yn1)
  let sum1 ← toInt (rounded + product1)
  let product2 ← toInt (coef2 * state.yn2)
  let sum ← toInt (sum1 + product2)
  return ⟨clamp16 (sum / 2 ^ 11), state.yn1⟩

/-- `ret[i].fill(sample)`. -/
def fillSample (ret : List Sample) (i : Nat) (sample : Int) : Option (List Sample) :=
  if i < ret.length then some (ret.set i (sample, sample)) else none

/-- The body of the loop over the bytes of a frame: two samples. -/
def decodeByte (data : List Byte) (scale coef1 coef2 : Int) (outputi datai : Nat)
    (ret : List Sample) (state : ADPCMState) : Option (List Sample × ADPCMState) := do
  let byte ← data[datai]?
  let state ← decodeSample scale coef1 coef2 (signedNibble (byte.toNat / 16)) state
  let ret ← fillSample ret outputi state.yn1
  let state ← decodeSample scale coef1 coef2 (signedNibble (byte.toNat % 16)) state
  let ret ← fillSample ret (outputi + 1) state.yn1
  return (ret, state)

/-- The loop over the bytes of a frame, of which so many are left. -/
def decodeFrameLoop (data : List Byte) (sampleCount : Nat) (scale coef1 coef2 : Int) :
    (bytes outputi datai : Nat) → List Sample × ADPCMState → Option (List Sample × ADPCMState)
  | 0, _, _, ret => some ret
  | bytes + 1, outputi, datai, ret =>
    if outputi < sampleCount then do
      let ret ← decodeByte data scale coef1 coef2 outputi datai ret.1 ret.2
      decodeFrameLoop data sampleCount scale coef1 coef2 bytes (outputi + 2) (datai + 1) ret
    else some ret

/-- One of the two coefficients that a frame header selects. -/
def AdpcmCoefficients.select (coeffs : AdpcmCoefficients) (header i : Nat) : Int :=
  (coeffs (.ofNat 16 (header / 16 % 8 * 2 + i))).toInt

/-- The body of the loop over the frames. -/
def decodeFrame (data : List Byte) (sampleCount : Nat) (coeffs : AdpcmCoefficients)
    (ret : List Sample × ADPCMState) (framei : Nat) : Option (List Sample × ADPCMState) := do
  let header ← data[framei * 8]?
  let scale := 2 ^ (header.toNat % 16)
  decodeFrameLoop data sampleCount scale (coeffs.select header.toNat 0)
    (coeffs.select header.toNat 1) 7 (framei * 14) (framei * 8 + 1) ret

/-- `NUM_FRAMES`. -/
def numFrames (sampleCount : Nat) : Nat := (sampleCount + 13) / 14

/-- `Codec::DecodeADPCM`. -/
def decodeADPCMInt (data : List Byte) (sampleCount : Nat) (coeffs : AdpcmCoefficients)
    (state : ADPCMState) : Option (List Sample × ADPCMState) :=
  let retSize := if sampleCount % 2 = 0 then sampleCount else sampleCount + 1
  (List.range (numFrames sampleCount)).foldlM (decodeFrame data sampleCount coeffs)
    (List.replicate retSize (0, 0), state)

/-! ## The recurrence -/

/-- The header of the frame of a sample. -/
def headerOf (data : List Byte) (k : Nat) : Nat := (data.getD (k / 14 * 8) 0).toNat

/-- The nibble of a sample; the high one of a byte comes first. -/
def nibbleOf (data : List Byte) (k : Nat) : Int :=
  let byte := (data.getD (k / 14 * 8 + 1 + k % 14 / 2) 0).toNat
  signedNibble (if k % 2 = 0 then byte / 16 else byte % 16)

/-- What is shifted right and clamped for sample `k`, from the two samples before it. -/
def filterSum (data : List Byte) (coeffs : AdpcmCoefficients) (k : Nat) (y1 y2 : Int) : Int :=
  nibbleOf data k * 2 ^ (headerOf data k % 16) * 2 ^ 11 + 0x400 +
    coeffs.select (headerOf data k) 0 * y1 + coeffs.select (headerOf data k) 1 * y2

/-- The samples over the integers, behind the two samples of the carried state. -/
def recurrence (data : List Byte) (coeffs : AdpcmCoefficients) (state : ADPCMState) : Nat → Int
  | 0 => state.yn2
  | 1 => state.yn1
  | k + 2 => clamp16 (filterSum data coeffs k (recurrence data coeffs state (k + 1))
      (recurrence data coeffs state k) / 2 ^ 11)

/-- The sum for sample `k` of the recurrence. -/
def recurrenceSum (data : List Byte) (coeffs : AdpcmCoefficients) (state : ADPCMState)
    (k : Nat) : Int :=
  filterSum data coeffs k (recurrence data coeffs state (k + 1)) (recurrence data coeffs state k)

/-- The first `n` samples of the recurrence. -/
def recurrenceSamples (data : List Byte) (coeffs : AdpcmCoefficients) (state : ADPCMState)
    (n : Nat) : List Sample :=
  (List.range n).map fun k =>
    (recurrence data coeffs state (k + 2), recurrence data coeffs state (k + 2))

/-- The state that is carried behind `n` samples. -/
def carried (data : List Byte) (coeffs : AdpcmCoefficients) (state : ADPCMState) (n : Nat) :
    ADPCMState :=
  ⟨recurrence data coeffs state (n + 1), recurrence data coeffs state n⟩

/-- The value of an `s16`. -/
def IsS16 (n : Int) : Prop := -32768 ≤ n ∧ n ≤ 32767

/-- The samples of the state are `s16`. -/
def ADPCMState.Valid (state : ADPCMState) : Prop := IsS16 state.yn1 ∧ IsS16 state.yn2

/-- An odd number of samples is rounded up. -/
def roundedCount (sampleCount : Nat) : Nat := sampleCount + sampleCount % 2

section Filter

variable {data : List Byte} {coeffs : AdpcmCoefficients} {state : ADPCMState} {n k : Nat}

theorem toInt_of_isInt {n : Int} (h : IsInt n) : toInt n = some n := if_pos h

theorem toInt_of_not_isInt {n : Int} (h : ¬IsInt n) : toInt n = none := if_neg h

theorem isS16_clamp16 (val : Int) : IsS16 (clamp16 val) := by
  unfold IsS16 clamp16
  omega

theorem isS16_toInt (c : Halfword) : IsS16 c.toInt := by
  have hlow := BitVec.le_toInt c
  have hhigh := BitVec.toInt_lt (x := c)
  unfold IsS16
  omega

theorem isS16_select (coeffs : AdpcmCoefficients) (header i : Nat) :
    IsS16 (coeffs.select header i) := isS16_toInt _

/-- A product of two samples. -/
theorem mul_bounds {c y : Int} (hc : IsS16 c) (hy : IsS16 y) :
    -2 ^ 30 ≤ c * y ∧ c * y ≤ 2 ^ 30 := by
  obtain ⟨hc0, hc1⟩ := hc
  obtain ⟨hy0, hy1⟩ := hy
  constructor <;> nlinarith

theorem signedNibble_bounds {nibble : Nat} (h : nibble < 16) :
    -8 ≤ signedNibble nibble ∧ signedNibble nibble ≤ 7 := by
  unfold signedNibble
  split_ifs <;> omega

theorem nibbleOf_bounds (data : List Byte) (k : Nat) :
    -8 ≤ nibbleOf data k ∧ nibbleOf data k ≤ 7 := by
  refine signedNibble_bounds ?_
  split_ifs <;> omega

theorem scaled_bounds {nibble : Int} {e : Nat} (hnibble : -8 ≤ nibble ∧ nibble ≤ 7) (he : e < 16) :
    -2 ^ 18 ≤ nibble * 2 ^ e ∧ nibble * 2 ^ e < 2 ^ 18 := by
  have hpow : (2 : Int) ^ e ≤ 2 ^ 15 := pow_le_pow_right₀ (by norm_num) (by omega)
  have hpos : (0 : Int) < 2 ^ e := by positivity
  constructor <;> nlinarith

/-- Of all intermediate values, only the last sum can be too large for an `int`. -/
theorem decodeSample_eq {nibble c1 c2 : Int} {e : Nat} (hnibble : -8 ≤ nibble ∧ nibble ≤ 7)
    (he : e < 16) (hc1 : IsS16 c1) (hc2 : IsS16 c2) (hstate : state.Valid) :
    decodeSample (2 ^ e) c1 c2 nibble state =
      if IsInt (nibble * 2 ^ e * 2 ^ 11 + 0x400 + c1 * state.yn1 + c2 * state.yn2) then
        some ⟨clamp16 ((nibble * 2 ^ e * 2 ^ 11 + 0x400 + c1 * state.yn1 + c2 * state.yn2) / 2 ^ 11),
          state.yn1⟩
      else none := by
  obtain ⟨hx0, hx1⟩ := scaled_bounds hnibble he
  obtain ⟨hp0, hp1⟩ := mul_bounds hc1 hstate.1
  obtain ⟨hq0, hq1⟩ := mul_bounds hc2 hstate.2
  have hxn : IsInt (nibble * 2 ^ e) := ⟨by omega, by omega⟩
  have hshifted : IsInt (nibble * 2 ^ e * 2 ^ 11) := ⟨by omega, by omega⟩
  have hrounded : IsInt (nibble * 2 ^ e * 2 ^ 11 + 0x400) := ⟨by omega, by omega⟩
  have hproduct1 : IsInt (c1 * state.yn1) := ⟨by omega, by omega⟩
  have hsum1 : IsInt (nibble * 2 ^ e * 2 ^ 11 + 0x400 + c1 * state.yn1) := ⟨by omega, by omega⟩
  have hproduct2 : IsInt (c2 * state.yn2) := ⟨by omega, by omega⟩
  simp only [decodeSample, toInt_of_isInt hxn, toInt_of_isInt hshifted, toInt_of_isInt hrounded,
    toInt_of_isInt hproduct1, toInt_of_isInt hsum1, toInt_of_isInt hproduct2, bind_eq_bind,
    bind_some]
  split_ifs with hsum
  · rw [toInt_of_isInt hsum]
    rfl
  · rw [toInt_of_not_isInt hsum]
    rfl

theorem isS16_recurrence (data : List Byte) (coeffs : AdpcmCoefficients) (hstate : state.Valid) :
    ∀ k, IsS16 (recurrence data coeffs state k)
  | 0 => hstate.2
  | 1 => hstate.1
  | _ + 2 => isS16_clamp16 _

theorem valid_carried (data : List Byte) (coeffs : AdpcmCoefficients) (hstate : state.Valid)
    (k : Nat) : (carried data coeffs state k).Valid :=
  ⟨isS16_recurrence data coeffs hstate (k + 1), isS16_recurrence data coeffs hstate k⟩

/-- One sample of the decoder is one of the recurrence, if the sum is an `int`. -/
theorem decodeSample_carried (hstate : state.Valid) (k : Nat) :
    decodeSample (2 ^ (headerOf data k % 16)) (coeffs.select (headerOf data k) 0)
        (coeffs.select (headerOf data k) 1) (nibbleOf data k) (carried data coeffs state k) =
      if IsInt (recurrenceSum data coeffs state k) then some (carried data coeffs state (k + 1))
      else none :=
  decodeSample_eq (nibbleOf_bounds data k) (Nat.mod_lt _ (by decide)) (isS16_select ..)
    (isS16_select ..) (valid_carried data coeffs hstate k)

end Filter

/-! ## The loops -/

section Loops

variable (data : List Byte) (coeffs : AdpcmCoefficients) (state : ADPCMState)

/-- The sums for the samples from `i` up to `j` are values of an `int`. -/
def FitsBetween (i j : Nat) : Prop :=
  ∀ k, k < j → i ≤ k → IsInt (recurrenceSum data coeffs state k)

instance (i j : Nat) : Decidable (FitsBetween data coeffs state i j) :=
  inferInstanceAs (Decidable (∀ k, k < j → i ≤ k → _))

/-- What the decoder has after `k` samples, of `size`. -/
def decodedUpTo (size k : Nat) : List Sample × ADPCMState :=
  (recurrenceSamples data coeffs state k ++ List.replicate (size - k) (0, 0),
    carried data coeffs state k)

variable {data coeffs state} {i j k n size f bytes : Nat}

theorem fitsBetween_empty (h : j ≤ i) : FitsBetween data coeffs state i j :=
  fun k hk hi => absurd hk (by omega)

theorem fitsBetween_cons (h : i < j) : FitsBetween data coeffs state i j ↔
    IsInt (recurrenceSum data coeffs state i) ∧ FitsBetween data coeffs state (i + 1) j := by
  constructor
  · exact fun hfits => ⟨hfits i h (Nat.le_refl i), fun k hk hi => hfits k hk (by omega)⟩
  · rintro ⟨hhead, htail⟩ k hk hi
    rcases Nat.eq_or_lt_of_le hi with rfl | hlt
    · exact hhead
    · exact htail k hk hlt

theorem fitsBetween_append (hij : i ≤ j) (hjk : j ≤ k) : FitsBetween data coeffs state i k ↔
    FitsBetween data coeffs state i j ∧ FitsBetween data coeffs state j k := by
  constructor
  · exact fun h => ⟨fun l hl hi => h l (by omega) hi, fun l hl hj => h l hl (by omega)⟩
  · rintro ⟨hleft, hright⟩ l hl hi
    by_cases hlj : l < j
    · exact hleft l hlj hi
    · exact hright l hl (by omega)

@[simp] theorem length_recurrenceSamples :
    (recurrenceSamples data coeffs state n).length = n := by
  simp [recurrenceSamples]

theorem recurrenceSamples_succ : recurrenceSamples data coeffs state (n + 1) =
    recurrenceSamples data coeffs state n ++
      [(recurrence data coeffs state (n + 2), recurrence data coeffs state (n + 2))] := by
  rw [recurrenceSamples, List.range_succ, List.map_append]
  rfl

/-- The next sample is filled in. -/
theorem fillSample_decodedUpTo (h : k < size) :
    fillSample (decodedUpTo data coeffs state size k).1 k (recurrence data coeffs state (k + 2)) =
      some (decodedUpTo data coeffs state size (k + 1)).1 := by
  obtain ⟨r, hr⟩ : ∃ r, size - k = r + 1 := ⟨size - k - 1, by omega⟩
  have hr' : size - (k + 1) = r := by omega
  have hlength : k < (decodedUpTo data coeffs state size k).1.length := by
    simp only [decodedUpTo, List.length_append, length_recurrenceSamples, List.length_replicate]
    omega
  rw [fillSample, if_pos hlength, decodedUpTo, decodedUpTo, hr, hr', recurrenceSamples_succ,
    List.set_append_right _ _ (by simp), length_recurrenceSamples, Nat.sub_self,
    List.replicate_succ, List.set_cons_zero, List.append_assoc]
  rfl

/-- A result that is there under a condition, and one that is made of it. -/
theorem bind_guarded {α β : Type} {p q : Prop} [Decidable p] [Decidable q] {x : α} {y : β}
    {g : α → Option β} (h : g x = if q then some y else none) :
    ((if p then some x else none) >>= g) = if p ∧ q then some y else none := by
  by_cases hp : p
  · rw [if_pos hp, bind_eq_bind, bind_some, h]
    exact if_congr (by simp [hp]) rfl rfl
  · rw [if_neg hp, if_neg fun hpq => hp hpq.1]
    rfl

/-- One byte of the data, for the samples `k` and `k + 1`. -/
theorem decodeByte_eq (hstate : state.Valid) (hk : k % 2 = 0) (hsize : k + 1 < size)
    (hdata : k / 14 * 8 + 1 + k % 14 / 2 < data.length) :
    decodeByte data (2 ^ (headerOf data k % 16)) (coeffs.select (headerOf data k) 0)
        (coeffs.select (headerOf data k) 1) k (k / 14 * 8 + 1 + k % 14 / 2)
        (decodedUpTo data coeffs state size k).1 (carried data coeffs state k) =
      if IsInt (recurrenceSum data coeffs state k) ∧
          IsInt (recurrenceSum data coeffs state (k + 1)) then
        some (decodedUpTo data coeffs state size (k + 2))
      else none := by
  have hbyte : data[k / 14 * 8 + 1 + k % 14 / 2]? =
      some (data.getD (k / 14 * 8 + 1 + k % 14 / 2) 0) := by
    rw [List.getD_eq_getElem?_getD, List.getElem?_eq_getElem hdata]
    rfl
  -- both samples are in the same frame and of the same byte
  have hframe : (k + 1) / 14 = k / 14 := by omega
  have hpair : (k + 1) % 14 / 2 = k % 14 / 2 := by omega
  have hheader : headerOf data k = headerOf data (k + 1) := by
    rw [headerOf, headerOf, hframe]
  have hnibble0 : signedNibble ((data.getD (k / 14 * 8 + 1 + k % 14 / 2) 0).toNat / 16) =
      nibbleOf data k := by
    rw [nibbleOf, if_pos hk]
  have hnibble1 : signedNibble ((data.getD (k / 14 * 8 + 1 + k % 14 / 2) 0).toNat % 16) =
      nibbleOf data (k + 1) := by
    rw [nibbleOf, if_neg (by omega), hframe, hpair]
  have hnext0 := (@decodeSample_carried data coeffs) hstate k
  have hnext1 := (@decodeSample_carried data coeffs) hstate (k + 1)
  have hfill0 := (@fillSample_decodedUpTo data coeffs state) (by omega : k < size)
  have hfill1 := (@fillSample_decodedUpTo data coeffs state) hsize
  rw [← hheader] at hnext1
  rw [decodeByte, hbyte, bind_eq_bind, bind_some, hnibble0, hnibble1, hnext0]
  refine bind_guarded ?_
  simp only [carried] at hnext1 ⊢
  rw [hfill0, bind_eq_bind, bind_some, hnext1]
  by_cases hfit : IsInt (recurrenceSum data coeffs state (k + 1))
  · simp only [if_pos hfit, bind_eq_bind, bind_some]
    rw [hfill1]
    rfl
  · rw [if_neg hfit, if_neg hfit]
    rfl

/-- The bytes of a frame that are left, from sample `k` on. -/
theorem decodeFrameLoop_eq (hstate : state.Valid) (hdata : (f + 1) * 8 ≤ data.length)
    (hk : k = f * 14 + 2 * i) (hi : i + bytes = 7) (hle : k ≤ roundedCount n) :
    decodeFrameLoop data n (2 ^ (headerOf data (f * 14) % 16))
        (coeffs.select (headerOf data (f * 14)) 0) (coeffs.select (headerOf data (f * 14)) 1)
        bytes k (f * 8 + 1 + i) (decodedUpTo data coeffs state (roundedCount n) k) =
      if FitsBetween data coeffs state k (min ((f + 1) * 14) (roundedCount n)) then
        some (decodedUpTo data coeffs state (roundedCount n)
          (min ((f + 1) * 14) (roundedCount n)))
      else none := by
  induction bytes generalizing i k with
  | zero =>
    have hend : min ((f + 1) * 14) (roundedCount n) = k := by omega
    rw [hend, if_pos (fitsBetween_empty (Nat.le_refl _))]
    rfl
  | succ bytes ih =>
    rw [decodeFrameLoop]
    by_cases hmore : k < n
    · have hround : k + 1 < roundedCount n := by
        unfold roundedCount
        omega
      have hheader : headerOf data (f * 14) = headerOf data k := by
        rw [headerOf, headerOf, show f * 14 / 14 = k / 14 by omega]
      have hplace : f * 8 + 1 + i = k / 14 * 8 + 1 + k % 14 / 2 := by omega
      have hbyte := (@decodeByte_eq data coeffs) hstate (by omega : k % 2 = 0) hround (by omega)
      have hrest := ih (i := i + 1) (k := k + 2) (by omega) (by omega) (by omega)
      rw [← hheader, ← hplace] at hbyte
      have hsplit : FitsBetween data coeffs state k (min ((f + 1) * 14) (roundedCount n)) ↔
          (IsInt (recurrenceSum data coeffs state k) ∧
            IsInt (recurrenceSum data coeffs state (k + 1))) ∧
          FitsBetween data coeffs state (k + 2) (min ((f + 1) * 14) (roundedCount n)) := by
        rw [fitsBetween_cons (by omega), fitsBetween_cons (by omega), and_assoc]
      rw [if_pos hmore]
      show (decodeByte data _ _ _ k (f * 8 + 1 + i) _ (carried data coeffs state k) >>= _) = _
      rw [hbyte]
      exact (bind_guarded hrest).trans (if_congr hsplit.symm rfl rfl)
    · have hend : min ((f + 1) * 14) (roundedCount n) = k := by
        unfold roundedCount at hle ⊢
        omega
      rw [if_neg hmore, hend, if_pos (fitsBetween_empty (Nat.le_refl _))]

/-- The first frames. -/
theorem foldlM_decodeFrame (hstate : state.Valid) (hdata : f * 8 ≤ data.length)
    (hf : f ≤ numFrames n) :
    (List.range f).foldlM (decodeFrame data n coeffs)
        (decodedUpTo data coeffs state (roundedCount n) 0) =
      if FitsBetween data coeffs state 0 (min (f * 14) (roundedCount n)) then
        some (decodedUpTo data coeffs state (roundedCount n) (min (f * 14) (roundedCount n)))
      else none := by
  induction f with
  | zero =>
    rw [Nat.zero_mul, Nat.zero_min, if_pos (fitsBetween_empty (Nat.le_refl _))]
    rfl
  | succ f ih =>
    have hbefore := ih (by omega) (by omega)
    have hstart : min (f * 14) (roundedCount n) = f * 14 := by
      unfold roundedCount numFrames at *
      omega
    have hheader : data[f * 8]? = some (data.getD (f * 8) 0) := by
      have hlt : f * 8 < data.length := by omega
      rw [List.getD_eq_getElem?_getD, List.getElem?_eq_getElem hlt]
      rfl
    have hheaderOf : (data.getD (f * 8) 0).toNat = headerOf data (f * 14) := by
      rw [headerOf, Nat.mul_div_cancel _ (by decide)]
    have hframe :=
      (@decodeFrameLoop_eq data coeffs _ 0 (f * 14) n _ 7) hstate hdata rfl rfl (by omega)
    rw [List.range_succ, List.foldlM_append, hbefore, hstart]
    simp only [List.foldlM_cons, List.foldlM_nil]
    rw [bind_guarded (q := FitsBetween data coeffs state (f * 14)
      (min ((f + 1) * 14) (roundedCount n)))]
    · exact if_congr (fitsBetween_append (Nat.zero_le _) (by omega)).symm rfl rfl
    · rw [bind_pure, decodeFrame, hheader, bind_eq_bind, bind_some, hheaderOf]
      exact hframe

/-- The decoder follows the recurrence if no sum is too large for an `int`, and stops otherwise. -/
theorem decodeADPCMInt_eq (hstate : state.Valid) (hdata : numFrames n * 8 ≤ data.length) :
    decodeADPCMInt data n coeffs state =
      if FitsBetween data coeffs state 0 (roundedCount n) then
        some (recurrenceSamples data coeffs state (roundedCount n),
          carried data coeffs state (roundedCount n))
      else none := by
  have hsize : (if n % 2 = 0 then n else n + 1) = roundedCount n := by
    unfold roundedCount
    split_ifs <;> omega
  have hall : min (numFrames n * 14) (roundedCount n) = roundedCount n := by
    unfold numFrames roundedCount
    omega
  have hloop := (@foldlM_decodeFrame _ coeffs) hstate hdata (Nat.le_refl (numFrames n))
  rw [hall] at hloop
  simp only [decodedUpTo, Nat.sub_self, List.replicate_zero, List.append_nil, Nat.sub_zero] at hloop
  rw [decodeADPCMInt, hsize]
  exact hloop

end Loops

/-! ## Data in parts -/

section Parts

variable {data : List Byte} {coeffs : AdpcmCoefficients} {state : ADPCMState} {m n k : Nat}

theorem headerOf_drop (hm : m % 14 = 0) (k : Nat) :
    headerOf (data.drop (m / 14 * 8)) k = headerOf data (m + k) := by
  have hplace : m / 14 * 8 + k / 14 * 8 = (m + k) / 14 * 8 := by omega
  rw [headerOf, headerOf, List.getD_eq_getElem?_getD, List.getD_eq_getElem?_getD,
    List.getElem?_drop, hplace]

theorem nibbleOf_drop (hm : m % 14 = 0) (k : Nat) :
    nibbleOf (data.drop (m / 14 * 8)) k = nibbleOf data (m + k) := by
  have hplace : m / 14 * 8 + (k / 14 * 8 + 1 + k % 14 / 2) =
      (m + k) / 14 * 8 + 1 + (m + k) % 14 / 2 := by omega
  have hparity : (m + k) % 2 = k % 2 := by omega
  rw [nibbleOf, nibbleOf, List.getD_eq_getElem?_getD, List.getD_eq_getElem?_getD,
    List.getElem?_drop, hplace, hparity]

theorem headerOf_take (hm : m % 14 = 0) (hk : k < m) :
    headerOf (data.take (m / 14 * 8)) k = headerOf data k := by
  rw [headerOf, headerOf, List.getD_eq_getElem?_getD, List.getD_eq_getElem?_getD,
    List.getElem?_take_of_lt (by omega)]

theorem nibbleOf_take (hm : m % 14 = 0) (hk : k < m) :
    nibbleOf (data.take (m / 14 * 8)) k = nibbleOf data k := by
  rw [nibbleOf, nibbleOf, List.getD_eq_getElem?_getD, List.getD_eq_getElem?_getD,
    List.getElem?_take_of_lt (by omega)]

/-- The recurrence goes on from the carried state. -/
theorem recurrence_drop (hm : m % 14 = 0) : ∀ k,
    recurrence (data.drop (m / 14 * 8)) coeffs (carried data coeffs state m) k =
      recurrence data coeffs state (m + k)
  | 0 => rfl
  | 1 => rfl
  | k + 2 => by
    rw [recurrence, recurrence_drop hm (k + 1), recurrence_drop hm k, filterSum,
      headerOf_drop hm, nibbleOf_drop hm]
    rfl

/-- The first samples only depend on the first frames. -/
theorem recurrence_take (hm : m % 14 = 0) : ∀ k, k ≤ m + 1 →
    recurrence (data.take (m / 14 * 8)) coeffs state k = recurrence data coeffs state k
  | 0, _ => rfl
  | 1, _ => rfl
  | k + 2, hk => by
    rw [recurrence, recurrence_take hm (k + 1) (by omega), recurrence_take hm k (by omega),
      filterSum, headerOf_take hm (by omega), nibbleOf_take hm (by omega)]
    rfl

theorem recurrenceSum_drop (hm : m % 14 = 0) (k : Nat) :
    recurrenceSum (data.drop (m / 14 * 8)) coeffs (carried data coeffs state m) k =
      recurrenceSum data coeffs state (m + k) := by
  rw [recurrenceSum, recurrence_drop hm, recurrence_drop hm, filterSum, headerOf_drop hm,
    nibbleOf_drop hm]
  rfl

theorem recurrenceSum_take (hm : m % 14 = 0) (hk : k < m) :
    recurrenceSum (data.take (m / 14 * 8)) coeffs state k = recurrenceSum data coeffs state k := by
  rw [recurrenceSum, recurrence_take hm _ (by omega), recurrence_take hm _ (by omega), filterSum,
    headerOf_take hm hk, nibbleOf_take hm hk]
  rfl

/-- Decoding follows the recurrence, at once or in two parts of whole frames. The data ends with the
last frame, so that no read is behind it. -/
structure Decodes (data : List Byte) (n : Nat) (coeffs : AdpcmCoefficients) (state : ADPCMState) :
    Prop where
  samples : decodeADPCMInt data n coeffs state =
    some (recurrenceSamples data coeffs state (roundedCount n),
      carried data coeffs state (roundedCount n))
  parts : ∀ m ≤ n, m % 14 = 0 → ∃ first rest middle last,
    decodeADPCMInt (data.take (m / 14 * 8)) m coeffs state = some (first, middle) ∧
      decodeADPCMInt (data.drop (m / 14 * 8)) (n - m) coeffs middle = some (rest, last) ∧
      decodeADPCMInt data n coeffs state = some (first ++ rest, last)

/-- Decoding follows the recurrence exactly if none of its sums is too large for an `int`. -/
theorem decodes_iff (hstate : state.Valid) (hdata : data.length = numFrames n * 8) :
    Decodes data n coeffs state ↔ FitsBetween data coeffs state 0 (roundedCount n) := by
  have hwhole := (@decodeADPCMInt_eq _ coeffs) hstate (Nat.le_of_eq hdata.symm)
  constructor
  · intro h
    by_contra hfits
    rw [if_neg hfits, h.samples] at hwhole
    cases hwhole
  · intro hfits
    rw [if_pos hfits] at hwhole
    refine ⟨hwhole, fun m hmn hm => ?_⟩
    have hround : roundedCount m = m := by
      unfold roundedCount
      omega
    have hsum : m + roundedCount (n - m) = roundedCount n := by
      unfold roundedCount
      omega
    have hframes : numFrames m = m / 14 ∧ numFrames (n - m) = numFrames n - m / 14 := by
      unfold numFrames
      omega
    have hle : m / 14 ≤ numFrames n := by
      unfold numFrames
      omega
    have hleft : FitsBetween (data.take (m / 14 * 8)) coeffs state 0 (roundedCount m) := by
      intro k hk _
      rw [recurrenceSum_take hm (by omega)]
      exact hfits k (by omega) (Nat.zero_le k)
    have hright : FitsBetween (data.drop (m / 14 * 8)) coeffs (carried data coeffs state m) 0
        (roundedCount (n - m)) := by
      intro k hk _
      rw [recurrenceSum_drop hm]
      exact hfits (m + k) (by omega) (Nat.zero_le _)
    have htake : carried (data.take (m / 14 * 8)) coeffs state m = carried data coeffs state m := by
      rw [carried, recurrence_take hm _ (by omega), recurrence_take hm _ (by omega), carried]
    have hfirst := (@decodeADPCMInt_eq (data.take (m / 14 * 8)) coeffs _ m)
      hstate (by rw [List.length_take]; omega)
    have hrest := (@decodeADPCMInt_eq (data.drop (m / 14 * 8)) coeffs _ (n - m))
      (valid_carried data coeffs hstate m) (by rw [List.length_drop]; omega)
    rw [if_pos hleft, hround, htake] at hfirst
    rw [if_pos hright] at hrest
    refine ⟨_, _, _, _, hfirst, hrest, ?_⟩
    rw [hwhole, ← hsum]
    simp only [recurrenceSamples, List.range_add, List.map_append, List.map_map]
    refine congrArg some (Prod.ext ?_ ?_)
    · refine congrArg₂ (· ++ ·) (List.map_congr_left fun k hk => ?_) (List.map_congr_left fun k _ => ?_)
      · rw [recurrence_take hm _ (by have := List.mem_range.mp hk; omega)]
      · rw [recurrence_drop hm]
        rfl
    · rw [carried, Nat.add_assoc]
      exact congrArg₂ ADPCMState.mk (recurrence_drop hm (roundedCount (n - m) + 1)).symm
        (recurrence_drop hm (roundedCount (n - m))).symm

/-- A sum that does not wrap around is the one of the recurrence. -/
theorem decodeNibble_carried {nibble : Nat} (hnibble : signedNibble nibble = nibbleOf data k)
    (hfits : IsInt (recurrenceSum data coeffs state k)) :
    decodeNibble (2 ^ (headerOf data k % 16)) (coeffs.select (headerOf data k) 0)
        (coeffs.select (headerOf data k) 1) nibble (carried data coeffs state k) =
      carried data coeffs state (k + 1) := by
  have hwrap : (recurrenceSum data coeffs state k).bmod (2 ^ 32) =
      recurrenceSum data coeffs state k := by
    obtain ⟨hlow, hhigh⟩ := hfits
    exact Int.bmod_eq_of_le (by omega) (by omega)
  rw [decodeNibble, hnibble]
  exact congrArg (fun sum => ADPCMState.mk (clamp16 (sum / 2 ^ 11)) _) hwrap

/-- Where no sum is too large for an `int`, sources are given the recurrence. -/
theorem decodeADPCM_recurrence (hfits : FitsBetween data coeffs state 0 (roundedCount n)) :
    decodeADPCM (fun i => data.getD i 0) n (fun i => (coeffs (.ofNat 16 i)).toInt) state =
      (recurrenceSamples data coeffs state (roundedCount n),
        carried data coeffs state (roundedCount n)) := by
  have hpairs : (n + 1) / 2 * 2 = roundedCount n := by
    unfold roundedCount
    omega
  rw [← hpairs] at hfits ⊢
  rw [decodeADPCM]
  generalize (n + 1) / 2 = pairs at hfits
  induction pairs with
  | zero => rfl
  | succ j ih =>
    have hframe0 : j * 2 / 14 = j / 7 := by omega
    have hframe1 : (j * 2 + 1) / 14 = j / 7 := by omega
    have hbyte0 : j * 2 % 14 / 2 = j % 7 := by omega
    have hbyte1 : (j * 2 + 1) % 14 / 2 = j % 7 := by omega
    have hfirst := (@decodeNibble_carried data coeffs state (j * 2) _)
      (by rw [nibbleOf, if_pos (by omega)]) (hfits _ (by omega) (Nat.zero_le _))
    have hsecond := (@decodeNibble_carried data coeffs state (j * 2 + 1) _)
      (by rw [nibbleOf, if_neg (by omega)]) (hfits _ (by omega) (Nat.zero_le _))
    rw [headerOf, hframe0, hbyte0] at hfirst
    rw [headerOf, hframe1, hbyte1] at hsecond
    rw [List.range_succ, List.foldl_append, ih fun k hk => hfits k (by omega), List.foldl_cons,
      List.foldl_nil, Nat.add_mul, Nat.one_mul, recurrenceSamples_succ, recurrenceSamples_succ,
      List.append_assoc]
    have hbyte : decodeADPCMByte (fun i => data.getD i 0) (fun i => (coeffs (.ofNat 16 i)).toInt)
        (recurrenceSamples data coeffs state (j * 2), carried data coeffs state (j * 2)) j =
        (recurrenceSamples data coeffs state (j * 2) ++
          [((carried data coeffs state (j * 2 + 1)).yn1, (carried data coeffs state (j * 2 + 1)).yn1),
            ((carried data coeffs state (j * 2 + 1 + 1)).yn1,
              (carried data coeffs state (j * 2 + 1 + 1)).yn1)],
          carried data coeffs state (j * 2 + 1 + 1)) := by
      rw [← hsecond, ← hfirst]
      rfl
    exact hbyte

/-- Where the sums are values of an `int`, sources are given the recurrence, and the checked decoder
gives the same; it stops where an `int` would wrap around. -/
theorem decodeADPCM_eq (data : List Byte) (coeffs : AdpcmCoefficients) (state : ADPCMState)
    (n : Nat) :
    (FitsBetween data coeffs state 0 (roundedCount n) →
      decodeADPCM (fun i => data.getD i 0) n (fun i => (coeffs (.ofNat 16 i)).toInt) state =
        (recurrenceSamples data coeffs state (roundedCount n),
          carried data coeffs state (roundedCount n))) ∧
    (state.Valid → numFrames n * 8 ≤ data.length → decodeADPCMInt data n coeffs state =
      if FitsBetween data coeffs state 0 (roundedCount n) then
        some (decodeADPCM (fun i => data.getD i 0) n (fun i => (coeffs (.ofNat 16 i)).toInt) state)
      else none) := by
  refine ⟨decodeADPCM_recurrence, fun hstate hdata => ?_⟩
  rw [decodeADPCMInt_eq hstate hdata]
  exact if_ctx_congr Iff.rfl (fun hfits => by rw [decodeADPCM_recurrence hfits]) fun _ => rfl

/-- Two samples whose sums are values of an `int`. -/
theorem decodeADPCM_eq_two :
    decodeADPCM (fun i => [0x1C, 0x7F, 0, 0, 0, 0, 0, 0].getD i 0) 2 (fun _ => 1024) ⟨100, -50⟩ =
      ([(28697, 28697), (10303, 10303)], ⟨10303, 28697⟩) ∧
    decodeADPCMInt [0x1C, 0x7F, 0, 0, 0, 0, 0, 0] 2 (fun _ => 1024) ⟨100, -50⟩ =
      some ([(28697, 28697), (10303, 10303)], ⟨10303, 28697⟩) := by
  obtain ⟨hsamples, hchecked⟩ :=
    decodeADPCM_eq [0x1C, 0x7F, 0, 0, 0, 0, 0, 0] (fun _ => 1024) ⟨100, -50⟩ 2
  have heq := (hsamples (by decide)).trans (show _ = ([(28697, 28697), (10303, 10303)], _) from rfl)
  refine ⟨heq, (hchecked (by unfold ADPCMState.Valid IsS16; decide) (by decide)).trans ?_⟩
  rw [if_pos (by decide), heq]
  rfl

end Parts

/-! ## The coefficients -/

/-- The largest product of a coefficient with a sample. -/
def maxProduct (c : Int) : Int := max (c * -32768) (c * 32767)

/-- The smallest product of a coefficient with a sample. -/
def minProduct (c : Int) : Int := min (c * -32768) (c * 32767)

/-- With these two coefficients every sum is an `int`. -/
def Fits (c1 c2 : Int) : Prop :=
  7 * 2 ^ 26 + 0x400 + maxProduct c1 + maxProduct c2 < 2 ^ 31 ∧
    -2 ^ 31 ≤ -8 * 2 ^ 26 + 0x400 + minProduct c1 + minProduct c2

section Table

variable {coeffs : AdpcmCoefficients} {c y : Int}

theorem mul_le_maxProduct (hy : IsS16 y) : c * y ≤ maxProduct c := by
  obtain ⟨hlow, hhigh⟩ := hy
  rcases le_total 0 c with hc | hc
  · exact le_max_of_le_right (mul_le_mul_of_nonneg_left hhigh hc)
  · exact le_max_of_le_left (mul_le_mul_of_nonpos_left hlow hc)

theorem minProduct_le_mul (hy : IsS16 y) : minProduct c ≤ c * y := by
  obtain ⟨hlow, hhigh⟩ := hy
  rcases le_total 0 c with hc | hc
  · exact min_le_of_left_le (mul_le_mul_of_nonneg_left hlow hc)
  · exact min_le_of_right_le (mul_le_mul_of_nonpos_left hhigh hc)

theorem exists_maxProduct (c : Int) : ∃ y, IsS16 y ∧ c * y = maxProduct c := by
  rcases max_choice (c * -32768) (c * 32767) with h | h
  · exact ⟨-32768, ⟨by decide, by decide⟩, h.symm⟩
  · exact ⟨32767, ⟨by decide, by decide⟩, h.symm⟩

theorem exists_minProduct (c : Int) : ∃ y, IsS16 y ∧ c * y = minProduct c := by
  rcases min_choice (c * -32768) (c * 32767) with h | h
  · exact ⟨-32768, ⟨by decide, by decide⟩, h.symm⟩
  · exact ⟨32767, ⟨by decide, by decide⟩, h.symm⟩

theorem select_mod (coeffs : AdpcmCoefficients) (header i : Nat) :
    coeffs.select header i = coeffs.select (header / 16 % 8 * 16) i := by
  have hidx : header / 16 % 8 * 16 / 16 % 8 = header / 16 % 8 := by omega
  rw [AdpcmCoefficients.select, AdpcmCoefficients.select, hidx]

/-- Coefficients that fit have no sum that is too large, whatever the data and the state. -/
theorem isInt_recurrenceSum (hfits : ∀ idx : Fin 8,
    Fits (coeffs.select (idx * 16) 0) (coeffs.select (idx * 16) 1)) (data : List Byte)
    {state : ADPCMState} (hstate : state.Valid) (k : Nat) :
    IsInt (recurrenceSum data coeffs state k) := by
  obtain ⟨hhigh, hlow⟩ := hfits ⟨headerOf data k / 16 % 8, Nat.mod_lt _ (by decide)⟩
  rw [← select_mod, ← select_mod] at hhigh hlow
  have hy1 := isS16_recurrence data coeffs hstate (k + 1)
  have hy2 := isS16_recurrence data coeffs hstate k
  have hmax1 := mul_le_maxProduct (c := coeffs.select (headerOf data k) 0) hy1
  have hmax2 := mul_le_maxProduct (c := coeffs.select (headerOf data k) 1) hy2
  have hmin1 := minProduct_le_mul (c := coeffs.select (headerOf data k) 0) hy1
  have hmin2 := minProduct_le_mul (c := coeffs.select (headerOf data k) 1) hy2
  obtain ⟨hn0, hn1⟩ := nibbleOf_bounds data k
  have hpow : (2 : Int) ^ (headerOf data k % 16) ≤ 2 ^ 15 :=
    pow_le_pow_right₀ (by norm_num) (by omega)
  have hpos : (0 : Int) < 2 ^ (headerOf data k % 16) := by positivity
  have hscaled : -8 * 2 ^ 15 ≤ nibbleOf data k * 2 ^ (headerOf data k % 16) ∧
      nibbleOf data k * 2 ^ (headerOf data k % 16) ≤ 7 * 2 ^ 15 := by
    constructor <;> nlinarith
  unfold IsInt recurrenceSum filterSum
  constructor <;> linarith

/-- A frame with one byte of samples. -/
def shortFrame (header byte : Byte) : List Byte := [header, byte, 0, 0, 0, 0, 0, 0]

/-- The first sum for a frame of the largest scale. -/
theorem recurrenceSum_shortFrame (idx : Fin 8) (byte : Byte) (state : ADPCMState) :
    recurrenceSum (shortFrame (.ofNat 8 (idx * 16 + 15)) byte) coeffs state 0 =
      signedNibble (byte.toNat / 16) * 2 ^ 26 + 0x400 + coeffs.select (idx * 16) 0 * state.yn1 +
        coeffs.select (idx * 16) 1 * state.yn2 := by
  have hheader : headerOf (shortFrame (.ofNat 8 (idx * 16 + 15)) byte) 0 = idx * 16 + 15 := by
    show (BitVec.ofNat 8 (idx * 16 + 15)).toNat = _
    rw [BitVec.toNat_ofNat]
    omega
  have hnibble : nibbleOf (shortFrame (.ofNat 8 (idx * 16 + 15)) byte) 0 =
      signedNibble (byte.toNat / 16) := rfl
  have hselect : ∀ i, coeffs.select (idx * 16 + 15) i = coeffs.select (idx * 16) i := by
    intro i
    rw [select_mod, show (idx * 16 + 15 : Nat) / 16 % 8 * 16 = idx * 16 by omega]
  have hscale : ((idx : Nat) * 16 + 15) % 16 = 15 := by omega
  rw [recurrenceSum, filterSum, hheader, hnibble, hselect, hselect, hscale]
  show signedNibble (byte.toNat / 16) * 2 ^ 15 * 2 ^ 11 + _ + _ * state.yn1 + _ * state.yn2 = _
  omega

/-- Coefficients for which every sum is an `int` fit. -/
theorem fits_of_decodes (h : ∀ data n state, ADPCMState.Valid state →
    data.length = numFrames n * 8 → Decodes data n coeffs state) (idx : Fin 8) :
    Fits (coeffs.select (idx * 16) 0) (coeffs.select (idx * 16) 1) := by
  have hsum : ∀ byte state, ADPCMState.Valid state →
      IsInt (recurrenceSum (shortFrame (.ofNat 8 (idx * 16 + 15)) byte) coeffs state 0) := by
    intro byte state hstate
    have hdecodes := h (shortFrame (.ofNat 8 (idx * 16 + 15)) byte) 1 state hstate rfl
    exact (decodes_iff hstate rfl).mp hdecodes 0 (by decide) (Nat.le_refl 0)
  constructor
  · obtain ⟨y1, hy1, hmax1⟩ := exists_maxProduct (coeffs.select (idx * 16) 0)
    obtain ⟨y2, hy2, hmax2⟩ := exists_maxProduct (coeffs.select (idx * 16) 1)
    have hint := (hsum 0x70 ⟨y1, y2⟩ ⟨hy1, hy2⟩).2
    rw [recurrenceSum_shortFrame, hmax1, hmax2] at hint
    exact hint
  · obtain ⟨y1, hy1, hmin1⟩ := exists_minProduct (coeffs.select (idx * 16) 0)
    obtain ⟨y2, hy2, hmin2⟩ := exists_minProduct (coeffs.select (idx * 16) 1)
    have hint := (hsum 0x80 ⟨y1, y2⟩ ⟨hy1, hy2⟩).1
    rw [recurrenceSum_shortFrame, hmin1, hmin2] at hint
    exact hint

/-- Decoding follows the recurrence for all data and states exactly if the coefficients fit; for one
call, exactly if no sum of its samples is too large for an `int`. -/
theorem decodeADPCM_iff (coeffs : AdpcmCoefficients) :
    ((∀ data n state, ADPCMState.Valid state → data.length = numFrames n * 8 →
        Decodes data n coeffs state) ↔
      ∀ idx : Fin 8, Fits (coeffs.select (idx * 16) 0) (coeffs.select (idx * 16) 1)) ∧
    ∀ data n state, ADPCMState.Valid state → data.length = numFrames n * 8 →
      (Decodes data n coeffs state ↔
        ∀ k < roundedCount n, IsInt (recurrenceSum data coeffs state k)) := by
  refine ⟨⟨fits_of_decodes, fun hfits data n state hstate hdata => ?_⟩,
    fun data n state hstate hdata => ?_⟩
  · rw [decodes_iff hstate hdata]
    exact fun k _ _ => isInt_recurrenceSum hfits data hstate k
  · rw [decodes_iff hstate hdata]
    exact ⟨fun h k hk => h k hk (Nat.zero_le k), fun h k hk _ => h k hk⟩

/-- With the least coefficients and samples, two products alone add up to `2 ^ 31`. -/
theorem not_decodes : ¬∀ (coeffs : AdpcmCoefficients) (data : List Byte) (n : Nat)
    (state : ADPCMState), state.Valid → data.length = numFrames n * 8 →
    Decodes data n coeffs state := by
  intro h
  have hdecodes := h (fun _ => 0x8000) (List.replicate 8 0) 1 ⟨-32768, -32768⟩
    ⟨⟨by decide, by decide⟩, ⟨by decide, by decide⟩⟩ rfl
  have hnone : decodeADPCMInt (List.replicate 8 0) 1 (fun _ => 0x8000) ⟨-32768, -32768⟩ = none := by
    rfl
  have hsome := hdecodes.samples
  rw [hnone] at hsome
  cases hsome

end Table

end GbaStation.Audio
