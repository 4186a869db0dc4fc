import Asr2Pass.TwoPass.LinearResample
import Mathlib.Algebra.Group.Nat.Defs

/-! # Ticks in 32 and 64 bits

The common tick of the two rates is an `int32_t`, a length in ticks an `int64_t`.  Both are products
of numbers that the client chooses.
-/

namespace Asr2Pass.TwoPass

open Library

/-- A number that an `int32_t` holds. -/
def int32 (value : Nat) : Option Nat := if value < 2 ^ 31 then some value else none

/-- A number that an `int64_t` holds. -/
def int64 (value : Nat) : Option Nat := if value < 2 ^ 63 then some value else none

/-- A quotient; none by zero. -/
def divide (dividend divisor : Nat) : Option Nat :=
  if divisor = 0 then none else some (dividend / divisor)

/-- `Lcm` of two `int32_t`. -/
def lcm32 (m n : Nat) : Option Nat := do
  let gcd := gcd m n
  let product ← int32 (gcd * (← divide m gcd))
  int32 (product * (← divide n gcd))

/-- `GetNumOutputSamples` with `flush`; none where a product overflows or a divisor is zero. -/
def getNumOutputSamples64 (sampRateIn sampRateOut inputNumSamp : Nat) : Option Nat := do
  let tickFreq ← lcm32 sampRateIn sampRateOut
  let ticksPerInputPeriod ← divide tickFreq sampRateIn
  let intervalLengthInTicks ← int64 (inputNumSamp * ticksPerInputPeriod)
  if intervalLengthInTicks = 0 then return 0
  else
    let ticksPerOutputPeriod ← divide tickFreq sampRateOut
    let lastOutputSamp ← divide intervalLengthInTicks ticksPerOutputPeriod
    let ticks ← int64 (lastOutputSamp * ticksPerOutputPeriod)
    int64 ((if ticks = intervalLengthInTicks then lastOutputSamp - 1 else lastOutputSamp) + 1)

theorem divide_of_pos {divisor : Nat} (positive : 0 < divisor) (dividend : Nat) :
    divide dividend divisor = some (dividend / divisor) :=
  if_neg (by omega)

/-- Only the last product can be too large. -/
theorem lcm32_eq {m : Nat} (positive : 0 < m) (isInt : m < 2 ^ 31) (n : Nat) :
    lcm32 m n = lcm m n := by
  have common : 0 < gcd m n := by
    rw [gcd_eq]
    exact Nat.gcd_pos_of_pos_left n positive
  have whole : gcd m n * (m / gcd m n) = m := by
    rw [gcd_eq, Nat.mul_div_cancel' (Nat.gcd_dvd_left m n)]
  simp only [lcm32, lcm, divide_of_pos common, Option.bind_eq_bind, Option.bind_some, whole]
  rw [int32, if_pos isInt, Option.bind_some, int32]

/-- A sample more than the last one is not too many, and neither are its ticks. -/
theorem points_below_int64 {length period : Nat} (positive : 0 < period) (some : length ≠ 0)
    (isInt : length < 2 ^ 63) :
    length / period * period < 2 ^ 63 ∧
      (if length / period * period = length then length / period - 1 else length / period) + 1 <
        2 ^ 63 := by
  have ticks := Nat.div_mul_le_self length period
  have quotient := Nat.div_le_self length period
  refine ⟨by omega, ?_⟩
  split
  · omega
  · rename_i between
    -- A period of one tick leaves nothing between.
    have longer : 1 < period := by
      by_contra one
      obtain rfl : period = 1 := by omega
      rw [Nat.div_one, Nat.mul_one] at between
      exact between rfl
    have less := Nat.div_lt_self (Nat.pos_of_ne_zero some) longer
    omega

namespace LinearResample

/-- While the length in ticks is an `int64_t`, the exact number is computed. -/
theorem getNumOutputSamples64_eq {α : Type} (resampler : LinearResample α)
    (isInt : resampler.sampRateIn < 2 ^ 31) (inputNumSamp : Nat) :
    getNumOutputSamples64 resampler.sampRateIn resampler.sampRateOut inputNumSamp =
      if inputNumSamp * (resampler.sampRateIn.lcm resampler.sampRateOut / resampler.sampRateIn) < 2 ^ 63
      then resampler.getNumOutputSamples inputNumSamp true else none := by
  have inPos := resampler.inPos
  have outPos := resampler.outPos
  have period : 0 < resampler.sampRateIn.lcm resampler.sampRateOut / resampler.sampRateOut :=
    Nat.div_pos (Nat.le_of_dvd (Nat.lcm_pos inPos outPos) (Nat.dvd_lcm_right _ _)) outPos
  rw [getNumOutputSamples64, getNumOutputSamples, lcm32_eq inPos isInt, lcm_eq]
  by_cases tick : resampler.sampRateIn.lcm resampler.sampRateOut < 2 ^ 31
  · rw [if_pos tick]
    simp only [Option.bind_eq_bind, Option.bind_some, divide_of_pos inPos, divide_of_pos outPos,
      divide_of_pos period, if_true, Nat.sub_zero, int64]
    generalize resampler.sampRateIn.lcm resampler.sampRateOut / resampler.sampRateOut = ticks at period
    generalize inputNumSamp *
      (resampler.sampRateIn.lcm resampler.sampRateOut / resampler.sampRateIn) = length
    by_cases fits : length < 2 ^ 63
    · rw [if_pos fits, if_pos fits, Option.bind_some]
      split
      · rfl
      · rename_i some
        obtain ⟨product, count⟩ := points_below_int64 period some fits
        rw [if_pos product, Option.bind_some, if_pos count]
        rfl
    · rw [if_neg fits, if_neg fits, Option.bind_none]
  · rw [if_neg tick, Option.bind_eq_bind, Option.bind_none, Option.bind_none, ite_self]

end LinearResample

/-- A resampler of the rate; what its filter is does not matter for the number of samples. -/
def resamplerTo16000 {rate : Nat} (positive : 0 < rate) : LinearResample Nat where
  sampRateIn := rate
  sampRateOut := 16000
  inPos := positive
  outPos := by decide
  filter := ⟨fun _ => 0, fun _ => [], 0, 0⟩

/-- The number is right exactly where the common tick is an `int32_t` and the length in ticks an
    `int64_t`. -/
theorem getNumOutputSamples64_iff {rate : Nat} (positive : 0 < rate) (isInt : rate < 2 ^ 31)
    (inputNumSamp : Nat) :
    getNumOutputSamples64 rate 16000 inputNumSamp = some ((inputNumSamp * 16000) ⌈/⌉ rate) ↔
      rate.lcm 16000 < 2 ^ 31 ∧ inputNumSamp * (rate.lcm 16000 / rate) < 2 ^ 63 := by
  have exact' := (resamplerTo16000 positive).getNumOutputSamples64_eq isInt inputNumSamp
  rw [LinearResample.getNumOutputSamples_flush] at exact'
  change getNumOutputSamples64 rate 16000 inputNumSamp =
    if inputNumSamp * (rate.lcm 16000 / rate) < 2 ^ 63 then
      if rate.lcm 16000 < 2 ^ 31 then some ((inputNumSamp * 16000) ⌈/⌉ rate) else none
    else none at exact'
  rw [exact']
  by_cases fits : inputNumSamp * (rate.lcm 16000 / rate) < 2 ^ 63
  · by_cases tick : rate.lcm 16000 < 2 ^ 31
    · rw [if_pos fits, if_pos tick]
      exact iff_of_true rfl ⟨tick, fits⟩
    · rw [if_pos fits, if_neg tick]
      exact iff_of_false nofun fun both => tick both.1
  · rw [if_neg fits]
    exact iff_of_false nofun fun both => fits both.2

/-- A second at 44100 Hz. -/
theorem getNumOutputSamples64_iff_44100 : getNumOutputSamples64 44100 16000 44100 = some 16000 :=
  (getNumOutputSamples64_iff (by decide) (by decide) 44100).mpr ⟨by decide, by decide⟩

/-- The common tick of 134219 Hz and 16000 Hz is no `int32_t`. -/
theorem not_getNumOutputSamples64_134219 : getNumOutputSamples64 134219 16000 1 = none := by
  have tick : lcm32 134219 16000 = none := by
    rw [lcm32_eq (by decide) (by decide), lcm_eq, if_neg (by decide)]
  rw [getNumOutputSamples64, tick]
  rfl

end Asr2Pass.TwoPass
