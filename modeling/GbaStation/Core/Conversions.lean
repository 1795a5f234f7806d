import GbaStation.Core.CoreTiming
import Mathlib.Tactic.Linarith

/-!
# Cycles and time (`core/core_timing.h`)

Durations become cycles with products in `u64`, which are avoided when they would be too large: a
long duration is rounded to whole seconds first, and a longer one saturates.

- `cycle_conversions`: for both conversions, and the clock as long as its product fits in `s64`.
-/

namespace GbaStation.Core

/-! ## Machine integers -/

def s64Max : Int := 2 ^ 63 - 1

/-- The conversion to `u64`. -/
def toU64 (x : Int) : Int := x % 2 ^ 64

/-- The conversion from `u64` to `s64`. -/
def toS64 (x : Int) : Int := if x < 2 ^ 63 then x else x - 2 ^ 64

theorem toS64_toU64 {x : Int} (h : 0 ≤ x) (hx : x ≤ s64Max) : toS64 (toU64 x) = x := by
  unfold s64Max at hx
  unfold toS64 toU64
  omega

/-! ## Conversions -/

/-- `MAX_VALUE_TO_MULTIPLY`. -/
def maxValueToMultiply : Int := s64Max / baseClockRate

theorem maxValueToMultiply_eq : maxValueToMultiply = 34401209161 := rfl

/-- A duration in `s64`, with `perSecond` units in a second. The product with
`BASE_CLOCK_RATE_ARM11` is one in `u64`, as is the division of it. -/
def unitsToCycles (perSecond t : Int) : Int :=
  if t.tdiv perSecond > maxValueToMultiply then s64Max
  else if t > maxValueToMultiply then
    -- rounded to whole seconds
    toS64 (toU64 (baseClockRate * toU64 (t.tdiv perSecond)))
  else toS64 (toU64 (baseClockRate * toU64 t) / perSecond)

/-- `usToCycles(s64)`. -/
def usToCycles (us : Int) : Int := unitsToCycles 1000000 us

/-- `nsToCycles(s64)`. -/
def nsToCycles (ns : Int) : Int := unitsToCycles 1000000000 ns

/-- `cyclesToUs`: the product is one in `s64`, the division one in `u64`. -/
def cyclesToUs (cycles : Int) : Int := toS64 (toU64 (cycles * 1000000) / baseClockRate)

namespace Timing

variable {n : Nat} {τ : Type}

/-- `GetGlobalTicks`: the ticks of the timer that is ahead. -/
def getGlobalTicks (t : Timing n τ) : Int :=
  ((List.finRange n).map fun core => (t.timers core).getTicks).max?.getD 0

/-- `GetGlobalTimeUs`. -/
def getGlobalTimeUs (t : Timing n τ) : Int := cyclesToUs t.getGlobalTicks

end Timing

/-! ## How close they are -/

/-- A conversion to cycles of durations that are not negative: exact up to
`MAX_VALUE_TO_MULTIPLY`, rounded to whole seconds above it, and saturated behind. -/
structure Converts (perSecond : Int) (toCycles : Int → Int) : Prop where
  exact : ∀ t, 0 ≤ t → t ≤ maxValueToMultiply → toCycles t = baseClockRate * t / perSecond
  rounded : ∀ t, maxValueToMultiply < t → t / perSecond ≤ maxValueToMultiply →
    toCycles t = baseClockRate * (t / perSecond)
  saturated : ∀ t, maxValueToMultiply < t / perSecond → toCycles t = s64Max
  fits : ∀ t, 0 ≤ t → 0 ≤ toCycles t ∧ toCycles t ≤ s64Max
  close : ∀ t, 0 ≤ t → t / perSecond ≤ maxValueToMultiply →
    toCycles t ≤ baseClockRate * t / perSecond ∧
      baseClockRate * t / perSecond < toCycles t + baseClockRate
  monotone : ∀ t t', 0 ≤ t → t ≤ t' → t' ≤ maxValueToMultiply ∨ maxValueToMultiply < t →
    toCycles t ≤ toCycles t'
  monotoneUpTo : ∀ t t', 0 ≤ t → t ≤ t' → toCycles t < toCycles t' + baseClockRate

/-- The three cases of a duration that is not negative: no product is too large for `s64`. -/
theorem unitsToCycles_eq {p t : Int} (hp : 0 < p) (ht : 0 ≤ t) :
    unitsToCycles p t =
      if maxValueToMultiply < t / p then s64Max
      else if maxValueToMultiply < t then baseClockRate * (t / p)
      else baseClockRate * t / p := by
  unfold unitsToCycles
  rw [Int.tdiv_eq_ediv_of_nonneg ht]
  have hq : 0 ≤ t / p := Int.ediv_nonneg ht hp.le
  have hmax := maxValueToMultiply_eq
  rw [show (baseClockRate : Int) = 268111856 from rfl]
  split_ifs with hlarge hlong
  · rfl
  · have hsmall : toU64 (t / p) = t / p := by
      unfold toU64
      omega
    rw [hsmall]
    exact toS64_toU64 (by omega) (by unfold s64Max; omega)
  · have hsmall : toU64 t = t := by
      unfold toU64
      omega
    have hprod : toU64 (268111856 * t) = 268111856 * t := by
      unfold toU64
      omega
    have hle : 268111856 * t / p ≤ 268111856 * t := Int.ediv_le_self _ (by omega)
    rw [hsmall, hprod]
    unfold toS64
    rw [if_pos (by omega)]

/-- Rounding to whole seconds loses less than a second. -/
theorem rounded_close {p t : Int} (hp : 0 < p) :
    baseClockRate * (t / p) ≤ baseClockRate * t / p ∧
      baseClockRate * t / p < baseClockRate * (t / p) + baseClockRate := by
  have hbase : (0 : Int) < baseClockRate := by decide
  have hdiv := Int.mul_ediv_add_emod t p
  have hlt := Int.emod_lt_of_pos t hp
  have hpos := Int.emod_nonneg t hp.ne'
  constructor
  · refine Int.le_ediv_of_mul_le hp ?_
    nlinarith
  · refine Int.ediv_lt_of_lt_mul hp ?_
    nlinarith

/-- A product that is not too large, divided, fits in `s64`. -/
theorem product_fits {p t : Int} (hp : 0 < p) (ht : 0 ≤ t) (hle : t ≤ maxValueToMultiply) :
    0 ≤ baseClockRate * t / p ∧ baseClockRate * t / p ≤ s64Max := by
  have hmax := maxValueToMultiply_eq
  have hprod : 0 ≤ (baseClockRate : Int) * t ∧ (baseClockRate : Int) * t ≤ s64Max := by
    rw [show (baseClockRate : Int) = 268111856 from rfl, show s64Max = 9223372036854775807 from rfl]
    omega
  exact ⟨Int.ediv_nonneg hprod.1 hp.le, (Int.ediv_le_self _ hprod.1).trans hprod.2⟩

theorem converts {p : Int} (hp : 0 < p) : Converts p (unitsToCycles p) := by
  have hmax := maxValueToMultiply_eq
  have hbase : (baseClockRate : Int) = 268111856 := rfl
  have hs64 : s64Max = 9223372036854775807 := rfl
  have hquot : ∀ t : Int, 0 ≤ t → 0 ≤ t / p ∧ t / p ≤ t := fun t ht =>
    ⟨Int.ediv_nonneg ht hp.le, Int.ediv_le_self p ht⟩
  have hfits : ∀ t, 0 ≤ t → 0 ≤ unitsToCycles p t ∧ unitsToCycles p t ≤ s64Max := by
    intro t ht
    have := hquot t ht
    rw [unitsToCycles_eq hp ht]
    split_ifs with hlarge hlong
    · omega
    · rw [hbase]
      omega
    · exact product_fits hp ht (not_lt.mp hlong)
  have hmul : ∀ x y : Int, x ≤ y → baseClockRate * x ≤ baseClockRate * y := fun x y hxy =>
    Int.mul_le_mul_of_nonneg_left hxy (by decide)
  have hmono : ∀ t t', t ≤ t' → t / p ≤ t' / p ∧
      baseClockRate * (t / p) ≤ baseClockRate * (t' / p) ∧
      baseClockRate * t / p ≤ baseClockRate * t' / p := fun t t' hle =>
    ⟨Int.ediv_le_ediv hp hle, hmul _ _ (Int.ediv_le_ediv hp hle),
      Int.ediv_le_ediv hp (hmul t t' hle)⟩
  refine ⟨fun t ht hle => ?_, fun t hlt hle => ?_, fun t hlt => ?_, hfits, fun t ht hle => ?_,
    fun t t' ht hle hside => ?_, fun t t' ht hle => ?_⟩
  · have := hquot t ht
    rw [unitsToCycles_eq hp ht, if_neg (by omega), if_neg (by omega)]
  · rw [unitsToCycles_eq hp (by omega), if_neg (by omega), if_pos hlt]
  · have ht : 0 ≤ t := by
      by_contra hneg
      have := Int.ediv_neg_of_neg_of_pos (not_le.mp hneg) hp
      omega
    rw [unitsToCycles_eq hp ht, if_pos hlt]
  · rw [unitsToCycles_eq hp ht, if_neg (by omega)]
    split_ifs with hlong
    · exact rounded_close hp
    · omega
  · have ht' : 0 ≤ t' := ht.trans hle
    have := hmono t t' hle
    have hfit := (hfits t ht).2
    rw [unitsToCycles_eq hp ht] at hfit ⊢
    rw [unitsToCycles_eq hp ht']
    split_ifs at hfit ⊢ <;> omega
  · have ht' : 0 ≤ t' := ht.trans hle
    have := hmono t t' hle
    have hfit := (hfits t ht).2
    have := rounded_close (t := t') hp
    rw [unitsToCycles_eq hp ht] at hfit ⊢
    rw [unitsToCycles_eq hp ht']
    split_ifs at hfit ⊢ <;> omega

theorem cyclesToUs_eq {ticks : Int} (h : 0 ≤ ticks) (hfits : ticks * 1000000 ≤ s64Max) :
    cyclesToUs ticks = ticks * 1000000 / baseClockRate := by
  unfold cyclesToUs
  have hprod : toU64 (ticks * 1000000) = ticks * 1000000 := by
    unfold s64Max at hfits
    unfold toU64
    omega
  have hle : ticks * 1000000 / baseClockRate ≤ ticks * 1000000 := Int.ediv_le_self _ (by omega)
  rw [hprod]
  unfold s64Max at hfits
  unfold toS64
  rw [if_pos (by omega)]

/-- Durations are exact up to `MAX_VALUE_TO_MULTIPLY`, whole seconds above and saturated behind, and
the clock is exact as long as its product fits in `s64`. -/
theorem cycle_conversions :
    Converts 1000000 usToCycles ∧ Converts 1000000000 nsToCycles ∧
    ∀ (n : Nat) (τ : Type) (t : Timing n τ), 0 ≤ t.getGlobalTicks →
      t.getGlobalTicks * 1000000 ≤ s64Max →
      t.getGlobalTimeUs = t.getGlobalTicks * 1000000 / baseClockRate ∧
      ∀ t' : Timing n τ, 0 ≤ t'.getGlobalTicks → t'.getGlobalTicks ≤ t.getGlobalTicks →
        t'.getGlobalTimeUs ≤ t.getGlobalTimeUs := by
  refine ⟨converts (by decide), converts (by decide), fun n τ t ht hfits => ?_⟩
  have heq : t.getGlobalTimeUs = t.getGlobalTicks * 1000000 / baseClockRate :=
    cyclesToUs_eq ht hfits
  refine ⟨heq, fun t' ht' hle => ?_⟩
  have heq' : t'.getGlobalTimeUs = t'.getGlobalTicks * 1000000 / baseClockRate :=
    cyclesToUs_eq ht' (by omega)
  rw [heq, heq']
  exact Int.ediv_le_ediv (by decide) (by omega)

/-- A clock that has one core, which has run for some ticks. -/
def clockAt (ticks : Int) : Timing 1 Unit :=
  { timers := fun _ => { executedTicks := ticks }, current := 0 }

/-- An hour on the clock. -/
theorem cycle_conversions_hour :
    (clockAt (baseClockRate * 3600)).getGlobalTimeUs = 3600000000 :=
  (cycle_conversions.2.2 1 Unit (clockAt (baseClockRate * 3600)) (by decide) (by decide)).1

/-- A nanosecond more than what is multiplied becomes fewer cycles; a duration loses almost a
second; and the clock of a system that ran for twenty hours shows less than two. -/
theorem rounding_not_monotone :
    nsToCycles 34401209162 < nsToCycles 34401209161 ∧
    nsToCycles 34999999999 + 268111000 < baseClockRate * 34999999999 / 1000000000 ∧
    (clockAt (baseClockRate * 72000)).getGlobalTimeUs <
      (clockAt (baseClockRate * 3600)).getGlobalTimeUs + 3600000000 := by
  decide

end GbaStation.Core
