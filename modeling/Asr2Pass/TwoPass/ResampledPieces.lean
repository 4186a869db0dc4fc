import Asr2Pass.TwoPass.LinearResample
import Mathlib.Data.Rat.Floor

/-! # A signal in pieces

`Resample` keeps as much of its input as the filter can look back to, and it does not make a sample
before all input that the filter looks at is there.  So the pieces of a signal give the samples that
the signal gives at once, each with the same additions.
-/

namespace Asr2Pass.TwoPass

open Library

/-- `SetIndexesAndWeights`, and the widths that `GetNumOutputSamples` and `SetRemainder` compute from
    the same numbers, in exact arithmetic; `weight` is `FilterFunc` divided by the rate. -/
def setIndexesAndWeights {α : Type} (sampRateIn sampRateOut numZeros : Nat) (filterCutoff : ℚ)
    (weight : ℚ → α) : ResampleFilter α :=
  let windowWidth : ℚ := numZeros / (2 * filterCutoff)
  let minInputIndex (i : Nat) : Int := ⌈((i : ℚ) / sampRateOut - windowWidth) * sampRateIn⌉
  let maxInputIndex (i : Nat) : Int := ⌊((i : ℚ) / sampRateOut + windowWidth) * sampRateIn⌋
  { firstIndex := minInputIndex
    weights i := (List.range (maxInputIndex i - minInputIndex i + 1).toNat).map fun (j : Nat) =>
      weight ((minInputIndex i + j : Int) / sampRateIn - (i : ℚ) / sampRateOut)
    windowWidthTicks := ⌊windowWidth * sampRateIn.lcm sampRateOut⌋.toNat
    maxRemainderNeeded := ⌈(sampRateIn * numZeros : ℚ) / filterCutoff⌉.toNat }

namespace LinearResample

variable {α : Type} (resampler : LinearResample α)

/-! ## Ticks -/

theorem inputSamplesInUnit_pos : 0 < resampler.inputSamplesInUnit := by
  rw [inputSamplesInUnit, gcd_eq]
  exact Nat.div_pos (Nat.gcd_le_left _ resampler.inPos) (Nat.gcd_pos_of_pos_left _ resampler.inPos)

theorem outputSamplesInUnit_pos : 0 < resampler.outputSamplesInUnit := by
  rw [outputSamplesInUnit, gcd_eq]
  exact Nat.div_pos (Nat.gcd_le_right _ resampler.outPos)
    (Nat.gcd_pos_of_pos_left _ resampler.inPos)

/-- A sample of the input takes as many ticks as a unit has samples of the output, and the other way
    round. -/
theorem lcm_ticks :
    resampler.sampRateIn.lcm resampler.sampRateOut =
        resampler.sampRateIn * resampler.outputSamplesInUnit ∧
      resampler.sampRateIn.lcm resampler.sampRateOut =
        resampler.sampRateOut * resampler.inputSamplesInUnit := by
  rw [inputSamplesInUnit, outputSamplesInUnit, gcd_eq, Nat.lcm_eq_mul_div]
  refine ⟨Nat.mul_div_assoc _ (Nat.gcd_dvd_right _ _), ?_⟩
  rw [Nat.mul_comm resampler.sampRateIn]
  exact Nat.mul_div_assoc _ (Nat.gcd_dvd_left _ _)

/-- How many samples there are: those whose tick lies in the interval. -/
theorem getNumOutputSamples_eq (inputNumSamp : Nat) (flush : Bool) :
    resampler.getNumOutputSamples inputNumSamp flush =
      if resampler.sampRateIn.lcm resampler.sampRateOut < 2 ^ 31 then
        some ((inputNumSamp * resampler.outputSamplesInUnit -
          if flush then 0 else resampler.filter.windowWidthTicks) ⌈/⌉ resampler.inputSamplesInUnit)
      else none := by
  obtain ⟨perInput, perOutput⟩ := resampler.lcm_ticks
  have ticksIn : resampler.sampRateIn.lcm resampler.sampRateOut / resampler.sampRateIn =
      resampler.outputSamplesInUnit := by
    rw [perInput, Nat.mul_div_cancel_left _ resampler.inPos]
  have ticksOut : resampler.sampRateIn.lcm resampler.sampRateOut / resampler.sampRateOut =
      resampler.inputSamplesInUnit := by
    rw [perOutput, Nat.mul_div_cancel_left _ resampler.outPos]
  simp only [getNumOutputSamples, lcm_eq]
  split
  · simp only [Option.bind_eq_bind, Option.bind_some, Option.pure_def, ticksIn, ticksOut]
    generalize (inputNumSamp * resampler.outputSamplesInUnit -
      if flush = true then 0 else resampler.filter.windowWidthTicks) = length
    split
    · rename_i none
      rw [none, zero_ceilDiv]
    · rename_i some
      rw [points_below resampler.inputSamplesInUnit_pos some]
  · rfl

/-- The samples that are made of `inputNumSamp` samples when more of them can follow. -/
def openCount (inputNumSamp : Nat) : Nat :=
  (inputNumSamp * resampler.outputSamplesInUnit - resampler.filter.windowWidthTicks) ⌈/⌉
    resampler.inputSamplesInUnit

/-- The samples of a signal that has ended. -/
def closedCount (inputNumSamp : Nat) : Nat :=
  (inputNumSamp * resampler.outputSamplesInUnit) ⌈/⌉ resampler.inputSamplesInUnit

theorem closedCount_eq (inputNumSamp : Nat) : resampler.closedCount inputNumSamp =
    (inputNumSamp * resampler.sampRateOut) ⌈/⌉ resampler.sampRateIn := by
  obtain ⟨factor, input, output, factorPos, coprime, rateIn, rateOut⟩ :=
    Nat.exists_coprime' (Nat.gcd_pos_of_pos_left resampler.sampRateOut resampler.inPos)
  have inputPos : 0 < input := Nat.pos_of_mul_pos_right (rateIn ▸ resampler.inPos)
  have common : gcd resampler.sampRateIn resampler.sampRateOut = factor := by
    rw [gcd_eq, rateIn, rateOut, Nat.gcd_mul_right, coprime.gcd_eq_one, Nat.one_mul]
  have units : resampler.inputSamplesInUnit = input ∧ resampler.outputSamplesInUnit = output := by
    rw [inputSamplesInUnit, outputSamplesInUnit, common, rateIn, rateOut]
    exact ⟨Nat.mul_div_cancel _ factorPos, Nat.mul_div_cancel _ factorPos⟩
  rw [closedCount, units.1, units.2, rateIn, rateOut, ← mul_ceilDiv_mul factorPos inputPos,
    Nat.mul_comm input, Nat.mul_comm output, Nat.mul_left_comm]

theorem lt_ceilDiv {length period n : Nat} (positive : 0 < period) :
    n < length ⌈/⌉ period ↔ n * period < length := by
  rw [← not_le, ceilDiv_le_iff_le_mul positive, not_le, Nat.mul_comm]

theorem lt_openCount {inputNumSamp n : Nat} : n < resampler.openCount inputNumSamp ↔
    n * resampler.inputSamplesInUnit + resampler.filter.windowWidthTicks <
      inputNumSamp * resampler.outputSamplesInUnit := by
  rw [openCount, lt_ceilDiv resampler.inputSamplesInUnit_pos]
  omega

theorem openCount_mono {fewer more : Nat} (le : fewer ≤ more) :
    resampler.openCount fewer ≤ resampler.openCount more := by
  by_contra above
  rw [not_le, lt_openCount] at above
  have longer := Nat.mul_le_mul_right resampler.outputSamplesInUnit le
  have last := (not_iff_not.mpr resampler.lt_openCount).mp
    (lt_irrefl (resampler.openCount more))
  omega

theorem openCount_le_closedCount {fewer more : Nat} (le : fewer ≤ more) :
    resampler.openCount fewer ≤ resampler.closedCount more := by
  by_contra above
  rw [not_le, lt_openCount] at above
  have longer := Nat.mul_le_mul_right resampler.outputSamplesInUnit le
  have last := (not_iff_not.mpr (lt_ceilDiv resampler.inputSamplesInUnit_pos)).mp
    (lt_irrefl (resampler.closedCount more))
  omega

/-! ## What the filter looks at -/

/-- The widths are those of the window: no weight is farther from its sample than the window, and
    what is remembered is as long as the window from side to side. -/
structure Fits : Prop where
  near : ∀ i < resampler.outputSamplesInUnit, ∀ j < (resampler.filter.weights i).length,
    |(resampler.filter.firstIndex i + j) * resampler.outputSamplesInUnit -
        i * resampler.inputSamplesInUnit| ≤ (resampler.filter.windowWidthTicks : Int)
  wide : 2 * resampler.filter.windowWidthTicks ≤
    resampler.filter.maxRemainderNeeded * resampler.outputSamplesInUnit

variable {resampler}

theorem getIndexes_near (fits : resampler.Fits) (sampOut : Nat) {j : Nat}
    (inside : j < (resampler.filter.weights (resampler.getIndexes sampOut).2).length) :
    |((resampler.getIndexes sampOut).1 + j) * resampler.outputSamplesInUnit -
        sampOut * resampler.inputSamplesInUnit| ≤ (resampler.filter.windowWidthTicks : Int) := by
  have split := Nat.div_add_mod sampOut resampler.outputSamplesInUnit
  have wrapped : (resampler.getIndexes sampOut).2 = sampOut % resampler.outputSamplesInUnit := by
    simp only [getIndexes]
    rw [Nat.mul_comm]
    omega
  have near := fits.near _ (wrapped ▸ Nat.mod_lt _ resampler.outputSamplesInUnit_pos) j inside
  have first : (resampler.getIndexes sampOut).1 =
      resampler.filter.firstIndex (resampler.getIndexes sampOut).2 +
        (sampOut / resampler.outputSamplesInUnit : Nat) * resampler.inputSamplesInUnit := rfl
  have same : ((resampler.getIndexes sampOut).1 + j) * resampler.outputSamplesInUnit -
      sampOut * resampler.inputSamplesInUnit =
        (resampler.filter.firstIndex (resampler.getIndexes sampOut).2 + j) *
            resampler.outputSamplesInUnit -
          (resampler.getIndexes sampOut).2 * resampler.inputSamplesInUnit := by
    rw [first, wrapped]
    have whole : (sampOut : Int) = resampler.outputSamplesInUnit *
        (sampOut / resampler.outputSamplesInUnit : Nat) +
          (sampOut % resampler.outputSamplesInUnit : Nat) := by
      exact_mod_cast split.symm
    generalize (sampOut / resampler.outputSamplesInUnit : Nat) = unit at whole ⊢
    generalize sampOut % resampler.outputSamplesInUnit = rest at whole ⊢
    rw [whole]
    ring
  rw [same]
  exact near

/-- A sample that is made looks at nothing that is yet to come. -/
theorem behind_end (fits : resampler.Fits) {sampOut total j : Nat}
    (made : sampOut < resampler.openCount total)
    (inside : j < (resampler.filter.weights (resampler.getIndexes sampOut).2).length) :
    (resampler.getIndexes sampOut).1 + j < total := by
  have near := (abs_le.mp (getIndexes_near fits sampOut inside)).2
  have room := resampler.lt_openCount.mp made
  have positive := resampler.outputSamplesInUnit_pos
  by_contra far
  have scaled : (total : Int) * resampler.outputSamplesInUnit ≤
      ((resampler.getIndexes sampOut).1 + j) * resampler.outputSamplesInUnit :=
    mul_le_mul_of_nonneg_right (not_lt.mp far) (by omega)
  zify at room
  linarith

/-- A sample that is not made yet looks at nothing that is forgotten. -/
theorem within_remainder (fits : resampler.Fits) {sampOut seen j : Nat}
    (pending : resampler.openCount seen ≤ sampOut)
    (inside : j < (resampler.filter.weights (resampler.getIndexes sampOut).2).length) :
    (seen : Int) ≤ (resampler.getIndexes sampOut).1 + j + resampler.filter.maxRemainderNeeded := by
  have near := (abs_le.mp (getIndexes_near fits sampOut inside)).1
  have waits := (not_iff_not.mpr resampler.lt_openCount).mp (not_lt.mpr pending)
  have wide := fits.wide
  have positive := resampler.outputSamplesInUnit_pos
  by_contra far
  have scaled : ((resampler.getIndexes sampOut).1 + j + resampler.filter.maxRemainderNeeded + 1) *
      resampler.outputSamplesInUnit ≤ (seen : Int) * resampler.outputSamplesInUnit :=
    mul_le_mul_of_nonneg_right (by omega) (by omega)
  zify at waits wide
  rw [not_lt] at waits
  have unit : (0 : Int) < resampler.outputSamplesInUnit := by omega
  linarith

/-! ## One sample -/

/-- What the sum of products of a signal with nothing around it comes to.  Sums need not be
    associative, as those of `float` are not: products are added one by one, in their order. -/
class PadsWithZeros (α : Type) [Zero α] [Add α] [Mul α] : Prop where
  addZero : ∀ value : α, value + 0 = value
  mulZero : ∀ value : α, value * 0 = 0
  mulComm : ∀ value weight : α, value * weight = weight * value

instance [NonUnitalNonAssocCommSemiring α] : PadsWithZeros α where
  addZero := add_zero
  mulZero := mul_zero
  mulComm := mul_comm

section
variable [Zero α]

/-- The sample of a signal; zero in front of it and behind it. -/
def signalAt (signal : List α) (index : Int) : α := (sampleAt signal index).getD 0

theorem signalAt_neg (signal : List α) {index : Int} (before : index < 0) :
    signalAt signal index = 0 := by
  rw [signalAt, sampleAt, if_neg (not_le.mpr before), Option.getD_none]

/-- Behind what came before, the signal is what comes in. -/
theorem signalAt_later (seen input : List α) {index : Int} (later : (seen.length : Int) ≤ index) :
    signalAt (seen ++ input) index = signalAt input (index - seen.length) := by
  have place : (index - seen.length).toNat = index.toNat - seen.length := by omega
  rw [signalAt, signalAt, sampleAt, sampleAt, if_pos (by omega), if_pos (by omega),
    List.getElem?_append_right (by omega), place]

theorem signalAt_earlier (seen input : List α) {index : Int} (earlier : index < seen.length) :
    signalAt (seen ++ input) index = signalAt seen index := by
  rcases lt_or_ge index 0 with before | inside
  · rw [signalAt_neg _ before, signalAt_neg _ before]
  · rw [signalAt, signalAt, sampleAt, sampleAt, if_pos inside, if_pos inside,
      List.getElem?_append_left (by omega)]

/-- What the object knows of a signal that began with `seen`. -/
structure Remembers (resampler : LinearResample α) (seen : List α) : Prop where
  offset : resampler.inputSampleOffset = seen.length
  count : resampler.outputSampleOffset = resampler.openCount seen.length
  remainder : resampler.inputRemainder = [] ∧ seen = [] ∨ resampler.inputRemainder =
    (List.replicate resampler.filter.maxRemainderNeeded 0 ++ seen).drop seen.length

/-- The remainder has the samples at which the filter looks back. -/
theorem Remembers.signalAt {seen : List α} (remembers : resampler.Remembers seen) {index : Int}
    (earlier : index < seen.length)
    (kept : (seen.length : Int) ≤ index + resampler.filter.maxRemainderNeeded) :
    signalAt resampler.inputRemainder (resampler.inputRemainder.length + (index - seen.length)) =
      LinearResample.signalAt seen index := by
  rcases remembers.remainder with ⟨none, rfl⟩ | kept'
  · rw [List.length_nil] at earlier ⊢
    rw [none, signalAt_neg _ (by simpa using earlier), signalAt_neg _ (by simpa using earlier)]
  · have size : resampler.inputRemainder.length = resampler.filter.maxRemainderNeeded := by
      rw [kept', List.length_drop, List.length_append, List.length_replicate]
      omega
    have place : (resampler.inputRemainder.length + (index - seen.length)).toNat + seen.length =
        (index + resampler.filter.maxRemainderNeeded).toNat := by
      omega
    rw [LinearResample.signalAt, sampleAt, if_pos (by omega)]
    rw [kept', List.getElem?_drop, ← kept', Nat.add_comm seen.length, place]
    rcases lt_or_ge index 0 with before | inside
    · -- the zeros in front of the signal
      rw [List.getElem?_append_left (by rw [List.length_replicate]; omega),
        List.getElem?_replicate_of_lt (by omega), signalAt_neg _ before]
      rfl
    · have shift : (index + resampler.filter.maxRemainderNeeded).toNat -
          resampler.filter.maxRemainderNeeded = index.toNat := by
        omega
      rw [List.getElem?_append_right (by rw [List.length_replicate]; omega), List.length_replicate,
        shift, LinearResample.signalAt, sampleAt, if_pos inside]

variable [Add α] [Mul α]

/-- One sample of the output of a whole signal. -/
def wholeOutput (resampler : LinearResample α) (signal : List α) (sampOut : Nat) : α :=
  let (firstSampIn, sampOutWrapped) := resampler.getIndexes sampOut
  (resampler.filter.weights sampOutWrapped).zipIdx.foldl
    (fun thisOutput (weight, i) => thisOutput + weight * signalAt signal (firstSampIn + i)) 0

/-- More input does not change a sample that is made. -/
theorem wholeOutput_append (fits : resampler.Fits) (signal more : List α) {sampOut : Nat}
    (made : sampOut < resampler.openCount signal.length) :
    resampler.wholeOutput (signal ++ more) sampOut = resampler.wholeOutput signal sampOut := by
  have looks := fun j => @behind_end _ _ fits sampOut signal.length j made
  simp only [wholeOutput]
  generalize resampler.getIndexes sampOut = indexes at looks ⊢
  refine List.foldl_ext _ _ _ fun thisOutput entry member => ?_
  have below := (List.mem_zipIdx member).2.1
  rw [signalAt_earlier _ _ (looks entry.2 (by omega))]

omit [Add α] [Mul α] in
theorem Remembers.setRemainder {seen : List α} (remembers : resampler.Remembers seen)
    (input : List α) : resampler.setRemainder input =
      (List.replicate resampler.filter.maxRemainderNeeded 0 ++ (seen ++ input)).drop
        (seen ++ input).length := by
  rw [LinearResample.setRemainder]
  rcases remembers.remainder with ⟨none, rfl⟩ | kept
  · rw [none, List.append_nil, List.nil_append]
    congr 1
    rw [List.length_append, List.length_replicate]
    omega
  · have size : resampler.inputRemainder.length = resampler.filter.maxRemainderNeeded := by
      rw [kept, List.length_drop, List.length_append, List.length_replicate]
      omega
    have after : (List.replicate resampler.filter.maxRemainderNeeded (0 : α) ++
        resampler.inputRemainder ++ input).length - resampler.filter.maxRemainderNeeded =
          (List.replicate resampler.filter.maxRemainderNeeded (0 : α)).length + input.length := by
      simp only [List.length_append, List.length_replicate, size]
      omega
    have old : (List.replicate resampler.filter.maxRemainderNeeded (0 : α) ++ seen ++ input).drop
        seen.length = resampler.inputRemainder ++ input := by
      rw [kept]
      refine List.drop_append_of_le_length ?_
      rw [List.length_append]
      omega
    rw [after, List.append_assoc, ← List.drop_drop, List.drop_left, @List.length_append _ seen,
      ← List.append_assoc, ← List.drop_drop, old]

/-- Where a product of the rates is too large, no call returns. -/
theorem resample_none (tick : ¬ resampler.sampRateIn.lcm resampler.sampRateOut < 2 ^ 31)
    (input : List α) (flush : Bool) : resampler.resample input flush = none := by
  rw [resample, getNumOutputSamples_eq, if_neg tick]
  rfl

variable [PadsWithZeros α]

/-- A product with nothing adds nothing. -/
theorem elim_add (sample : Option α) (thisOutput weight : α) :
    sample.elim thisOutput (fun sample => thisOutput + weight * sample) =
      thisOutput + weight * sample.getD 0 := by
  cases sample with
  | none => rw [Option.elim_none, Option.getD_none, PadsWithZeros.mulZero, PadsWithZeros.addZero]
  | some sample => rfl

/-- `DotProduct` adds the same products. -/
theorem foldl_products (input : List α) {weights : List α} {first start : Nat} (thisOutput : α)
    (inside : first + start + weights.length ≤ input.length) :
    (List.zipWith (· * ·) (input.drop (first + start)) weights).foldl (· + ·) thisOutput =
      (weights.zipIdx start).foldl
        (fun thisOutput (weight, i) => thisOutput + weight * signalAt input (first + i))
        thisOutput := by
  induction weights generalizing start thisOutput with
  | nil => rw [List.zipWith_nil_right]; rfl
  | cons weight weights inductionHypothesis =>
    rw [List.length_cons] at inside
    have place : first + start < input.length := by omega
    have index : ((first : Int) + start).toNat = first + start := by omega
    have sample : signalAt input (first + start) = input.get ⟨first + start, place⟩ := by
      rw [signalAt, sampleAt, if_pos (by omega), index, List.getElem?_eq_getElem place]
      rfl
    rw [List.drop_eq_getElem_cons place, List.zipWith_cons_cons, List.foldl_cons, List.zipIdx_cons,
      List.foldl_cons, Nat.add_assoc, inductionHypothesis _ (by omega),
      PadsWithZeros.mulComm _ weight]
    simp only [sample]
    rfl

/-- A sample that is made now is that of the whole signal so far. -/
theorem Remembers.thisOutput {seen : List α} (remembers : resampler.Remembers seen)
    (fits : resampler.Fits) (input : List α) {sampOut : Nat}
    (pending : resampler.openCount seen.length ≤ sampOut) :
    resampler.thisOutput input sampOut = resampler.wholeOutput (seen ++ input) sampOut := by
  have looks := fun j => @within_remainder _ _ fits sampOut seen.length j pending
  simp only [LinearResample.thisOutput, wholeOutput, remembers.offset]
  generalize resampler.getIndexes sampOut = indexes at looks ⊢
  obtain ⟨firstSampIn, sampOutWrapped⟩ := indexes
  simp only at looks ⊢
  generalize resampler.filter.weights sampOutWrapped = weights at looks ⊢
  split
  · -- all of it lies in the new input
    rename_i inside
    obtain ⟨first, place⟩ := Int.eq_ofNat_of_zero_le inside.1
    have fits' : first + 0 + weights.length ≤ input.length := by omega
    rw [dotProduct, place, Int.toNat_natCast]
    refine (@foldl_products α _ _ _ _ input weights first 0 0 fits').trans ?_
    refine List.foldl_ext _ _ _ fun thisOutput entry _ => ?_
    have index : firstSampIn + entry.2 - seen.length = first + entry.2 := by omega
    rw [signalAt_later _ _ (by omega), index]
  · refine List.foldl_ext _ _ _ fun thisOutput entry member => ?_
    obtain ⟨weight, i⟩ := entry
    have below := (List.mem_zipIdx member).2.1
    simp only [elim_add, Nat.zero_add] at below ⊢
    congr 2
    by_cases before : firstSampIn - seen.length + i < 0
    · rw [if_pos before, signalAt_earlier _ _ (by omega),
        ← remembers.signalAt (by omega) (looks i (by omega)), LinearResample.signalAt]
      congr 2
      ring
    · rw [if_neg before, signalAt_later _ _ (by omega), LinearResample.signalAt]
      congr 2
      ring

/-! ## Calls -/

/-- A call in the middle of a signal. -/
theorem Remembers.resample_open {seen : List α} (remembers : resampler.Remembers seen)
    (fits : resampler.Fits) (tick : resampler.sampRateIn.lcm resampler.sampRateOut < 2 ^ 31)
    (piece : List α) (short : piece.length < 2 ^ 31)
    (few : resampler.openCount (seen.length + piece.length) ≤ 2 ^ 31) :
    ∃ offset count remainder, resampler.resample piece false =
        some ((List.range' (resampler.openCount seen.length)
          (resampler.openCount (seen ++ piece).length - resampler.openCount seen.length)).map
            (resampler.wholeOutput (seen ++ piece)),
          { resampler with
            inputSampleOffset := offset, outputSampleOffset := count,
            inputRemainder := remainder }) ∧
      Remembers { resampler with
        inputSampleOffset := offset, outputSampleOffset := count, inputRemainder := remainder }
          (seen ++ piece) := by
  have ahead := resampler.openCount_mono (Nat.le_add_right seen.length piece.length)
  have total : resampler.getNumOutputSamples (seen.length + piece.length) false =
      some (resampler.openCount (seen.length + piece.length)) := by
    rw [getNumOutputSamples_eq, if_pos tick]
    rfl
  refine ⟨seen.length + piece.length, resampler.openCount (seen.length + piece.length),
    resampler.setRemainder piece, ?_, ?_⟩
  · rw [resample, remembers.offset, remembers.count, List.length_append]
    have sizes : ¬ (2 ^ 31 ≤ piece.length ∨ 2 ^ 31 <
        resampler.openCount (seen.length + piece.length) - resampler.openCount seen.length) := by
      omega
    simp only [total, Option.bind_eq_bind, Option.bind_some, not_lt.mpr ahead, sizes, if_false,
      Bool.false_eq_true, Option.pure_def]
    congr 2
    refine List.map_congr_left fun sampOut member => ?_
    exact remembers.thisOutput fits piece (List.mem_range'_1.mp member).1
  · exact ⟨by rw [List.length_append], by rw [List.length_append]; rfl,
      .inr (remembers.setRemainder piece)⟩

/-- The call that ends a signal. -/
theorem Remembers.resample_flush {seen : List α} (remembers : resampler.Remembers seen)
    (fits : resampler.Fits) (tick : resampler.sampRateIn.lcm resampler.sampRateOut < 2 ^ 31)
    {last : List α} (short : last.length < 2 ^ 31)
    (few : resampler.closedCount (seen.length + last.length) ≤ 2 ^ 31) :
    (resampler.resample last true).map Prod.fst =
      some ((List.range' (resampler.openCount seen.length)
        (resampler.closedCount (seen ++ last).length - resampler.openCount seen.length)).map
          (resampler.wholeOutput (seen ++ last))) := by
  have ahead := resampler.openCount_le_closedCount (Nat.le_add_right seen.length last.length)
  have total : resampler.getNumOutputSamples (seen.length + last.length) true =
      some (resampler.closedCount (seen.length + last.length)) := by
    rw [getNumOutputSamples_eq, if_pos tick]
    rfl
  have sizes : ¬ (2 ^ 31 ≤ last.length ∨ 2 ^ 31 <
      resampler.closedCount (seen.length + last.length) - resampler.openCount seen.length) := by
    omega
  rw [resample, remembers.offset, remembers.count, List.length_append]
  simp only [total, Option.bind_eq_bind, Option.bind_some, not_lt.mpr ahead, sizes, if_false,
    Option.pure_def, Option.map_some]
  congr 1
  refine List.map_congr_left fun sampOut member => ?_
  exact remembers.thisOutput fits last (List.mem_range'_1.mp member).1

theorem range'_append_sub {first middle last : Nat} (before : first ≤ middle) (after : middle ≤ last) :
    List.range' first (middle - first) ++ List.range' middle (last - middle) =
      List.range' first (last - first) := by
  obtain ⟨some, rfl⟩ := Nat.exists_eq_add_of_le before
  obtain ⟨more, rfl⟩ := Nat.exists_eq_add_of_le after
  have joined := @List.range'_append_1 first some more
  rw [Nat.add_sub_cancel_left, Nat.add_sub_cancel_left, joined]
  congr 1
  omega

/-- A run of calls: the samples of the whole signal, from the first that is not made yet. -/
theorem Remembers.resamplePieces {seen : List α} (remembers : resampler.Remembers seen)
    (fits : resampler.Fits) (tick : resampler.sampRateIn.lcm resampler.sampRateOut < 2 ^ 31)
    {pieces : List (List α)} {last : List α} (short : (pieces.flatten ++ last).length < 2 ^ 31)
    (few : resampler.closedCount (seen ++ (pieces.flatten ++ last)).length ≤ 2 ^ 31) :
    resampler.resamplePieces pieces last =
      some ((List.range' (resampler.openCount seen.length)
        (resampler.closedCount (seen ++ (pieces.flatten ++ last)).length -
          resampler.openCount seen.length)).map
            (resampler.wholeOutput (seen ++ (pieces.flatten ++ last)))) := by
  induction pieces generalizing resampler seen with
  | nil =>
    rw [List.flatten_nil, List.nil_append] at short few ⊢
    exact remembers.resample_flush fits tick short (List.length_append ▸ few)
  | cons piece rest inductionHypothesis =>
    have sizes : (seen ++ ((piece :: rest).flatten ++ last)).length =
        seen.length + piece.length + (rest.flatten ++ last).length := by
      simp only [List.flatten_cons, List.length_append]
      omega
    have open' := @openCount_le_closedCount _ resampler (seen.length + piece.length) _
      (sizes ▸ Nat.le_add_right _ _)
    rw [List.flatten_cons, List.append_assoc, List.length_append] at short
    obtain ⟨offset, count, remainder, resampled, remembers'⟩ :=
      remembers.resample_open fits tick piece (by omega) (open'.trans few)
    have later := inductionHypothesis remembers' ⟨fits.near, fits.wide⟩ tick (by omega) (by
      rw [List.append_assoc, ← List.append_assoc piece, ← List.flatten_cons]
      exact few)
    have made := resampler.openCount_mono (Nat.le_add_right seen.length piece.length)
    rw [← List.length_append] at made
    -- What is made so far stays, and the rest goes on behind it.
    have whole : seen ++ piece ++ (rest.flatten ++ last) =
        seen ++ ((piece :: rest).flatten ++ last) := by
      simp
    have first : (List.range' (resampler.openCount seen.length)
        (resampler.openCount (seen ++ piece).length - resampler.openCount seen.length)).map
          (resampler.wholeOutput (seen ++ piece)) =
        (List.range' (resampler.openCount seen.length)
          (resampler.openCount (seen ++ piece).length - resampler.openCount seen.length)).map
            (resampler.wholeOutput (seen ++ ((piece :: rest).flatten ++ last))) := by
      refine List.map_congr_left fun sampOut member => ?_
      have below := (List.mem_range'_1.mp member).2
      rw [← whole]
      exact (wholeOutput_append fits _ _ (by omega)).symm
    rw [whole] at later
    rw [LinearResample.resamplePieces, resampled]
    simp only [Option.bind_eq_bind, Option.bind_some, later, Option.pure_def, first]
    have more := @openCount_le_closedCount _ resampler (seen ++ piece).length
      (seen ++ ((piece :: rest).flatten ++ last)).length (by rw [← whole]; simp)
    rw [← range'_append_sub made more, List.map_append]
    rfl

/-- The pieces of a signal give what the signal gives at once. -/
theorem Fits.resamplePieces_eq (fits : resampler.Fits) (fresh : resampler.Remembers [])
    {pieces : List (List α)} {last : List α} (short : (pieces.flatten ++ last).length < 2 ^ 31)
    (few : resampler.closedCount (pieces.flatten ++ last).length ≤ 2 ^ 31) :
    resampler.resamplePieces pieces last =
      (resampler.resample (pieces.flatten ++ last) true).map Prod.fst := by
  by_cases tick : resampler.sampRateIn.lcm resampler.sampRateOut < 2 ^ 31
  · rw [fresh.resamplePieces fits tick short few, fresh.resample_flush fits tick short (by
      rwa [List.length_nil, Nat.zero_add])]
  · rw [resample_none tick]
    cases pieces with
    | nil => rw [resamplePieces, resample_none tick]
    | cons piece rest => rw [resamplePieces, resample_none tick]; rfl

end

/-! ## The constructor -/

/-- A new object. -/
def new {sampRateIn sampRateOut : Nat} (inPos : 0 < sampRateIn) (outPos : 0 < sampRateOut)
    (filterCutoff : ℚ) (numZeros : Nat) (weight : ℚ → α) : LinearResample α where
  sampRateIn := sampRateIn
  sampRateOut := sampRateOut
  inPos := inPos
  outPos := outPos
  filter := setIndexesAndWeights sampRateIn sampRateOut numZeros filterCutoff weight

/-- A sample of the input within the window of a sample of the output, in ticks. -/
theorem near_ticks {rateIn rateOut ticksIn ticksOut tick i : Nat} {window : ℚ} {index : Int}
    (outPos : 0 < rateOut) (perInput : tick = rateIn * ticksIn) (perOutput : tick = rateOut * ticksOut)
    (first : ⌈((i : ℚ) / rateOut - window) * rateIn⌉ ≤ index)
    (last : index ≤ ⌊((i : ℚ) / rateOut + window) * rateIn⌋) :
    |index * ticksIn - i * ticksOut| ≤ ⌊window * tick⌋ := by
  have positive : (rateOut : ℚ) ≠ 0 := by positivity
  have scaleIn : (tick : ℚ) = rateIn * ticksIn := by exact_mod_cast perInput
  have scaleOut : (tick : ℚ) = rateOut * ticksOut := by exact_mod_cast perOutput
  have place : (i : ℚ) / rateOut * tick = i * ticksOut := by
    rw [scaleOut]
    field_simp
  have low := mul_le_mul_of_nonneg_right (Int.ceil_le.mp first) (Nat.cast_nonneg' ticksIn)
  have high := mul_le_mul_of_nonneg_right (Int.le_floor.mp last) (Nat.cast_nonneg' ticksIn)
  rw [mul_assoc, ← scaleIn, sub_mul, place] at low
  rw [mul_assoc, ← scaleIn, add_mul, place] at high
  rw [Int.le_floor, Int.cast_abs, abs_le]
  push_cast
  constructor
  · linarith
  · linarith

/-- The window that the indexes are taken from is as wide as those of the other functions. -/
theorem new_fits {sampRateIn sampRateOut : Nat} (inPos : 0 < sampRateIn) (outPos : 0 < sampRateOut)
    {filterCutoff : ℚ} (positive : 0 < filterCutoff) (numZeros : Nat) (weight : ℚ → α) :
    (new inPos outPos filterCutoff numZeros weight).Fits := by
  obtain ⟨perInput, perOutput⟩ := (new inPos outPos filterCutoff numZeros weight).lcm_ticks
  have window : (0 : ℚ) ≤ numZeros / (2 * filterCutoff) := by positivity
  have ticks : ((new inPos outPos filterCutoff numZeros weight).filter.windowWidthTicks : Int) =
      ⌊(numZeros : ℚ) / (2 * filterCutoff) * sampRateIn.lcm sampRateOut⌋ :=
    Int.toNat_of_nonneg (Int.floor_nonneg.mpr (by positivity))
  constructor
  · intro i below j inside
    rw [ticks]
    simp only [new, setIndexesAndWeights, List.length_map, List.length_range] at inside
    have last : ⌈((i : ℚ) / sampRateOut - numZeros / (2 * filterCutoff)) * sampRateIn⌉ + (j : Int) ≤
        ⌊((i : ℚ) / sampRateOut + numZeros / (2 * filterCutoff)) * sampRateIn⌋ := by
      have bound := Int.lt_toNat.mp inside
      omega
    exact near_ticks outPos perInput perOutput (le_add_of_nonneg_right (Int.natCast_nonneg j)) last
  · have scale : (sampRateIn.lcm sampRateOut : ℚ) =
        sampRateIn * (new inPos outPos filterCutoff numZeros weight).outputSamplesInUnit := by
      exact_mod_cast perInput
    generalize (new inPos outPos filterCutoff numZeros weight).outputSamplesInUnit = ticksIn at *
    have floor := Int.floor_le ((numZeros : ℚ) / (2 * filterCutoff) * sampRateIn.lcm sampRateOut)
    have ceil := mul_le_mul_of_nonneg_right (Int.le_ceil ((sampRateIn * numZeros : ℚ) / filterCutoff))
      (Nat.cast_nonneg' ticksIn)
    have width : 2 * ((numZeros : ℚ) / (2 * filterCutoff) * sampRateIn.lcm sampRateOut) =
        (sampRateIn * numZeros : ℚ) / filterCutoff * ticksIn := by
      rw [scale]
      field_simp
    have remainder : ((new inPos outPos filterCutoff numZeros weight).filter.maxRemainderNeeded : Int) =
        ⌈(sampRateIn * numZeros : ℚ) / filterCutoff⌉ :=
      Int.toNat_of_nonneg (Int.ceil_nonneg (by positivity))
    zify
    rw [ticks, remainder]
    have chain : (2 * ⌊(numZeros : ℚ) / (2 * filterCutoff) * sampRateIn.lcm sampRateOut⌋ : ℚ) ≤
        ⌈(sampRateIn * numZeros : ℚ) / filterCutoff⌉ * ticksIn := by
      linarith
    exact_mod_cast chain

/-- A signal in pieces, whatever the rates, the cutoff and the filter are, where its samples and those
    made of it can be counted in an `int32_t`. -/
theorem new_resamplePieces [Zero α] [Add α] [Mul α] [PadsWithZeros α] {sampRateIn sampRateOut : Nat}
    (inPos : 0 < sampRateIn) (outPos : 0 < sampRateOut) {filterCutoff : ℚ}
    (positive : 0 < filterCutoff) (numZeros : Nat) (weight : ℚ → α) {pieces : List (List α)}
    {last : List α} (short : (pieces.flatten ++ last).length < 2 ^ 31)
    (few : ((pieces.flatten ++ last).length * sampRateOut) ⌈/⌉ sampRateIn ≤ 2 ^ 31) :
    (new inPos outPos filterCutoff numZeros weight).resamplePieces pieces last =
      ((new inPos outPos filterCutoff numZeros weight).resample (pieces.flatten ++ last) true).map
        Prod.fst :=
  (new_fits inPos outPos positive numZeros weight).resamplePieces_eq
    ⟨rfl, by simp [new, openCount], .inl ⟨rfl, rfl⟩⟩ short (closedCount_eq _ _ ▸ few)

theorem new_resamplePieces_48000 :
    (new (by decide : 0 < 48000) (by decide : 0 < 16000) 7920 6 (id : ℚ → ℚ)).resamplePieces
        [[1, 2], [], [3]] [4, 5] =
      ((new (by decide : 0 < 48000) (by decide : 0 < 16000) 7920 6 (id : ℚ → ℚ)).resample
        ([[1, 2], [], [3]].flatten ++ [4, 5]) true).map Prod.fst :=
  new_resamplePieces (by decide) (by decide) (by norm_num) 6 id (by decide) (by decide)

end LinearResample

end Asr2Pass.TwoPass
