import Asr2Pass.Library.Roundings
import Mathlib.Data.Nat.GCD.Basic

/-! # `LinearResample`

The number of samples is computed exactly, in ticks of the least common multiple of the two rates;
filter and window are computed in floating point and are parameters.  A function answers `none`
where a product or a number of samples is no `int32_t`, or an assertion fails.
-/

namespace Asr2Pass.TwoPass

open Library

/-- `Gcd`; one turn of the loop takes both remainders. -/
def gcd (m n : Nat) : Nat :=
  if m = 0 then n
  else if n = 0 then m
  else if m % n = 0 then n
  else if n % (m % n) = 0 then m % n
  else gcd (m % n) (n % (m % n))
termination_by n
decreasing_by
  have := Nat.mod_lt n (show 0 < m % n by omega)
  have := Nat.mod_lt m (show 0 < n by omega)
  omega

/-- `Lcm`. -/
def lcm (m n : Nat) : Option Nat :=
  let gcd := gcd m n
  let product := gcd * (m / gcd) * (n / gcd)
  if product < 2 ^ 31 then some product else none

/-- What the constructor computes in floating point, and the sizes that other functions do. -/
structure ResampleFilter (α : Type) where
  firstIndex : Nat → Int
  weights : Nat → List α
  windowWidthTicks : Nat
  maxRemainderNeeded : Nat

structure LinearResample (α : Type) where
  sampRateIn : Nat
  sampRateOut : Nat
  inPos : 0 < sampRateIn
  outPos : 0 < sampRateOut
  filter : ResampleFilter α
  inputSampleOffset : Nat := 0
  outputSampleOffset : Nat := 0
  inputRemainder : List α := []

/-- `DotProduct`. -/
def dotProduct {α : Type} [Zero α] [Add α] [Mul α] (a b : List α) : α :=
  (List.zipWith (· * ·) a b).foldl (· + ·) 0

def sampleAt {α : Type} (samples : List α) (index : Int) : Option α :=
  if 0 ≤ index then samples[index.toNat]? else none

namespace LinearResample

variable {α : Type} (resampler : LinearResample α)

def inputSamplesInUnit : Nat := resampler.sampRateIn / gcd resampler.sampRateIn resampler.sampRateOut

def outputSamplesInUnit : Nat :=
  resampler.sampRateOut / gcd resampler.sampRateIn resampler.sampRateOut

def reset : LinearResample α :=
  { resampler with inputSampleOffset := 0, outputSampleOffset := 0, inputRemainder := [] }

def getNumOutputSamples (inputNumSamp : Nat) (flush : Bool) : Option Nat := do
  let tickFreq ← lcm resampler.sampRateIn resampler.sampRateOut
  let ticksPerInputPeriod := tickFreq / resampler.sampRateIn
  -- an interval that the window makes negative counts as empty
  let intervalLengthInTicks := inputNumSamp * ticksPerInputPeriod -
    if flush then 0 else resampler.filter.windowWidthTicks
  if intervalLengthInTicks = 0 then return 0
  else
    let ticksPerOutputPeriod := tickFreq / resampler.sampRateOut
    let lastOutputSamp := intervalLengthInTicks / ticksPerOutputPeriod
    return (if lastOutputSamp * ticksPerOutputPeriod = intervalLengthInTicks then lastOutputSamp - 1
      else lastOutputSamp) + 1

def getIndexes (sampOut : Nat) : Int × Nat :=
  let unitIndex := sampOut / resampler.outputSamplesInUnit
  let sampOutWrapped := sampOut - unitIndex * resampler.outputSamplesInUnit
  (resampler.filter.firstIndex sampOutWrapped + unitIndex * resampler.inputSamplesInUnit,
    sampOutWrapped)

section
variable [Zero α] [Add α] [Mul α]

/-- One sample of the output.  Past the input nothing is added; that only the last piece of a
    signal gets there is asserted in the source. -/
def thisOutput (input : List α) (sampOut : Nat) : α :=
  let (firstSampIn, sampOutWrapped) := resampler.getIndexes sampOut
  let weights := resampler.filter.weights sampOutWrapped
  let firstInputIndex := firstSampIn - resampler.inputSampleOffset
  if 0 ≤ firstInputIndex ∧ firstInputIndex + weights.length ≤ input.length then
    dotProduct (input.drop firstInputIndex.toNat) weights
  else
    -- In front of the buffer lies what the last one has left, behind it nothing yet.
    weights.zipIdx.foldl (fun thisOutput (weight, i) =>
      let inputIndex := firstInputIndex + i
      let sample :=
        if inputIndex < 0 then
          sampleAt resampler.inputRemainder (resampler.inputRemainder.length + inputIndex)
        else sampleAt input inputIndex
      sample.elim thisOutput fun sample => thisOutput + weight * sample) 0

/-- `SetRemainder`: the end of what has come in so far, after zeros. -/
def setRemainder (input : List α) : List α :=
  let seen := List.replicate resampler.filter.maxRemainderNeeded 0 ++ resampler.inputRemainder ++
    input
  seen.drop (seen.length - resampler.filter.maxRemainderNeeded)

/-- `Resample`. -/
def resample (input : List α) (flush : Bool) : Option (List α × LinearResample α) := do
  let totInputSamp := resampler.inputSampleOffset + input.length
  let totOutputSamp ← resampler.getNumOutputSamples totInputSamp flush
  if totOutputSamp < resampler.outputSampleOffset then none
  -- `input_dim` and `output_index` are `int32_t`s; a larger index would be written as a negative one.
  else if 2 ^ 31 ≤ input.length ∨ 2 ^ 31 < totOutputSamp - resampler.outputSampleOffset then none
  else
    let output := (List.range' resampler.outputSampleOffset
      (totOutputSamp - resampler.outputSampleOffset)).map (resampler.thisOutput input)
    return (output, if flush then resampler.reset else { resampler with
      inputRemainder := resampler.setRemainder input
      inputSampleOffset := totInputSamp
      outputSampleOffset := totOutputSamp })

end

end LinearResample

/-! ## The number of samples -/

/-- A turn of the loop. -/
theorem gcd_turn (m n : Nat) : (n % (m % n)).gcd (m % n) = m.gcd n := by
  rw [← Nat.gcd_rec, ← Nat.gcd_rec, Nat.gcd_comm]

theorem gcd_eq (m n : Nat) : gcd m n = m.gcd n := by
  fun_induction gcd m n with
  | case1 n => simp
  | case2 m some => simp
  | case3 m n someM someN whole => exact (Nat.gcd_eq_right (Nat.dvd_of_mod_eq_zero whole)).symm
  | case4 m n someM someN rest whole => rw [← gcd_turn, whole, Nat.gcd_zero_left]
  | case5 m n someM someN rest rest' inductionHypothesis =>
    rw [inductionHypothesis, Nat.gcd_comm, gcd_turn]

theorem lcm_eq (m n : Nat) : lcm m n = if m.lcm n < 2 ^ 31 then some (m.lcm n) else none := by
  have product : gcd m n * (m / gcd m n) * (n / gcd m n) = m.lcm n := by
    rw [gcd_eq, Nat.mul_div_cancel' (Nat.gcd_dvd_left m n),
      ← Nat.mul_div_assoc m (Nat.gcd_dvd_right m n)]
    rfl
  rw [lcm, product]

namespace LinearResample

variable {α : Type} (resampler : LinearResample α)

/-- The points `0`, `period`, … below `length`. -/
theorem points_below {length period : Nat} (positive : 0 < period) (some : length ≠ 0) :
    (if length / period * period = length then length / period - 1 else length / period) + 1 =
      length ⌈/⌉ period := by
  have split := Nat.div_add_mod length period
  have below := Nat.mod_lt length positive
  rw [Nat.mul_comm] at split
  rw [Nat.ceilDiv_eq_add_pred_div, eq_comm, Nat.div_eq_iff positive]
  split
  · rename_i whole
    obtain ⟨quotient, same⟩ : ∃ quotient, length / period = quotient + 1 := by
      refine Nat.exists_eq_add_one.mpr (Nat.pos_of_ne_zero fun none => some ?_)
      rw [← whole, none, Nat.zero_mul]
    rw [same] at whole ⊢
    rw [Nat.add_sub_cancel]
    omega
  · rw [Nat.add_mul]
    omega

/-- At the end of a signal: its length in periods of the output, rounded up. -/
theorem getNumOutputSamples_flush (inputNumSamp : Nat) :
    resampler.getNumOutputSamples inputNumSamp true =
      if resampler.sampRateIn.lcm resampler.sampRateOut < 2 ^ 31 then
        some ((inputNumSamp * resampler.sampRateOut) ⌈/⌉ resampler.sampRateIn)
      else none := by
  have inPos := resampler.inPos
  have outPos := resampler.outPos
  simp only [getNumOutputSamples, lcm_eq]
  generalize resampler.sampRateIn = rateIn at *
  generalize resampler.sampRateOut = rateOut at *
  split
  · -- both rates in units of their greatest common divisor
    obtain ⟨factor, input, output, factorPos, coprime, rfl, rfl⟩ :=
      Nat.exists_coprime' (Nat.gcd_pos_of_pos_left rateOut inPos)
    have inputPos : 0 < input := Nat.pos_of_mul_pos_right inPos
    have outputPos : 0 < output := Nat.pos_of_mul_pos_right outPos
    have ticks : (input * factor).lcm (output * factor) = input * output * factor := by
      rw [Nat.lcm_mul_right, coprime.lcm_eq_mul]
    have perInput : input * output * factor / (input * factor) = output := by
      rw [show input * output * factor = output * (input * factor) by ring]
      exact Nat.mul_div_cancel _ inPos
    have perOutput : input * output * factor / (output * factor) = input := by
      rw [show input * output * factor = input * (output * factor) by ring]
      exact Nat.mul_div_cancel _ outPos
    have units : (inputNumSamp * (output * factor)) ⌈/⌉ (input * factor) =
        (inputNumSamp * output) ⌈/⌉ input := by
      rw [← mul_ceilDiv_mul factorPos inputPos, ← Nat.mul_assoc, Nat.mul_comm _ factor,
        Nat.mul_comm input]
    simp only [ticks, perInput, perOutput, units, if_true, Nat.sub_zero, Option.bind_eq_bind,
      Option.bind_some, Option.pure_def]
    split
    · rename_i none
      rw [none, zero_ceilDiv]
    · rename_i some
      rw [points_below inputPos some]
  · rfl

variable [Zero α] [Add α] [Mul α]

/-- A whole signal in one call. -/
theorem resample_flush (fresh : resampler.outputSampleOffset = 0)
    (fresh' : resampler.inputSampleOffset = 0) (input : List α) :
    (resampler.resample input true).map (fun result => result.1.length) =
      if resampler.sampRateIn.lcm resampler.sampRateOut < 2 ^ 31 ∧ input.length < 2 ^ 31 ∧
          (input.length * resampler.sampRateOut) ⌈/⌉ resampler.sampRateIn ≤ 2 ^ 31 then
        some ((input.length * resampler.sampRateOut) ⌈/⌉ resampler.sampRateIn)
      else none := by
  rw [resample, getNumOutputSamples_flush, fresh, fresh', Nat.zero_add]
  by_cases tick : resampler.sampRateIn.lcm resampler.sampRateOut < 2 ^ 31
  · generalize (input.length * resampler.sampRateOut) ⌈/⌉ resampler.sampRateIn = count
    by_cases sizes : 2 ^ 31 ≤ input.length ∨ 2 ^ 31 < count
    · rw [if_pos tick, if_neg (by omega), Option.bind_eq_bind, Option.bind_some,
        if_neg (Nat.not_lt_zero _), Nat.sub_zero, if_pos sizes]
      rfl
    · rw [if_pos tick, if_pos (by omega), Option.bind_eq_bind, Option.bind_some,
        if_neg (Nat.not_lt_zero _), Nat.sub_zero, if_neg sizes]
      simp
  · rw [if_neg tick, if_neg fun all => tick all.1]
    rfl

/-- Pieces of a signal that one object resamples one after the other, the last one to its end. -/
def resamplePieces (resampler : LinearResample α) : List (List α) → List α → Option (List α)
  | [], last => (resampler.resample last true).map Prod.fst
  | piece :: rest, last => do
    let (output, resampler) ← resampler.resample piece false
    let outputs ← resamplePieces resampler rest last
    return output ++ outputs

/-- A call with `flush` unset goes on where the one before stopped. -/
theorem resample_open {resampler' : LinearResample α} {piece output : List α}
    (resampled : resampler.resample piece false = some (output, resampler')) :
    resampler'.sampRateIn = resampler.sampRateIn ∧
      resampler'.sampRateOut = resampler.sampRateOut ∧
      resampler'.inputSampleOffset = resampler.inputSampleOffset + piece.length ∧
      resampler'.outputSampleOffset = resampler.outputSampleOffset + output.length := by
  obtain ⟨totOutputSamp, -, ends⟩ := Option.bind_eq_some_iff.mp resampled
  simp only at ends
  split at ends
  · cases ends
  · split at ends
    · cases ends
    · cases ends
      refine ⟨rfl, rfl, rfl, ?_⟩
      simp only [Bool.false_eq_true, if_false, List.length_map, List.length_range']
      omega

/-- In pieces the signal has as many samples as at once. -/
theorem length_resamplePieces {pieces : List (List α)} {last outputs : List α}
    (resampled : resampler.resamplePieces pieces last = some outputs) :
    resampler.outputSampleOffset + outputs.length =
      ((resampler.inputSampleOffset + (pieces.flatten ++ last).length) * resampler.sampRateOut) ⌈/⌉
        resampler.sampRateIn := by
  induction pieces generalizing resampler outputs with
  | nil =>
    obtain ⟨result, whole, rfl⟩ := Option.map_eq_some_iff.mp resampled
    obtain ⟨totOutputSamp, count, ends⟩ := Option.bind_eq_some_iff.mp whole
    rw [getNumOutputSamples_flush] at count
    split at count
    · cases count
      simp only at ends
      split at ends
      · cases ends
      · split at ends
        · cases ends
        · cases ends
          simp only [List.length_map, List.length_range', List.flatten_nil, List.nil_append]
          omega
    · cases count
  | cons piece rest inductionHypothesis =>
    simp only [resamplePieces, Option.bind_eq_bind, Option.bind_eq_some_iff] at resampled
    obtain ⟨⟨output, resampler'⟩, first, more, later, same⟩ := resampled
    cases same
    obtain ⟨rateIn, rateOut, input, offset⟩ := resampler.resample_open first
    have counted := inductionHypothesis resampler' later
    rw [rateIn, rateOut, input, offset] at counted
    rw [List.length_append, ← Nat.add_assoc, counted, List.flatten_cons, List.append_assoc,
      @List.length_append _ piece, Nat.add_assoc]

end LinearResample

end Asr2Pass.TwoPass
