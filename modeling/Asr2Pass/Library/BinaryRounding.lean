import Mathlib.Data.Int.Log
import Mathlib.Data.Rat.Floor
import Mathlib.Tactic.FieldSimp
import Mathlib.Tactic.GCongr
import Mathlib.Tactic.Linarith
import Mathlib.Tactic.Positivity
import Mathlib.Tactic.Ring

/-! # Binary rounding

A binary floating-point number of `digits` digits is an integer of that many digits times a power of
two.  Numbers are rounded to the nearest one, of two to the even one.  Exponents have no bounds, so
that nothing is too large or too small.
-/

namespace Asr2Pass.Library

/-- The nearest integer, and of two the even one. -/
def roundEven (value : ℚ) : ℤ :=
  if value - ⌊value⌋ < 1 / 2 then ⌊value⌋
  else if 1 / 2 < value - ⌊value⌋ then ⌊value⌋ + 1
  else ⌊value⌋ + ⌊value⌋ % 2

/-- The value of the last digit. -/
def lastPlace (digits : ℕ) (value : ℚ) : ℚ := 2 ^ (Int.log 2 |value| + 1 - digits)

def roundBinary (digits : ℕ) (value : ℚ) : ℚ :=
  roundEven (value / lastPlace digits value) * lastPlace digits value

/-- As a `float`. -/
def toFloat (value : ℚ) : ℚ := roundBinary 24 value

/-- As a `double`. -/
def toDouble (value : ℚ) : ℚ := roundBinary 53 value

/-! ## Integers -/

theorem roundEven_intCast (number : ℤ) : roundEven number = number := by
  simp [roundEven]

theorem roundEven_bounds (value : ℚ) :
    (roundEven value : ℚ) - 1 / 2 ≤ value ∧ value ≤ roundEven value + 1 / 2 := by
  have below := Int.floor_le value
  have above := Int.lt_floor_add_one value
  unfold roundEven
  split
  · constructor <;> linarith
  · split
    · push_cast
      constructor <;> linarith
    · -- Half way between two integers.
      rcases Int.emod_two_eq_zero_or_one ⌊value⌋ with even | odd
      · rw [even]
        push_cast
        constructor <;> linarith
      · rw [odd]
        push_cast
        constructor <;> linarith

theorem roundEven_mono {first second : ℚ} (le : first ≤ second) : roundEven first ≤ roundEven second := by
  obtain ⟨-, upper⟩ := roundEven_bounds second
  obtain ⟨lower, -⟩ := roundEven_bounds first
  by_contra more
  -- Then both are half way between the same two integers, and rounded alike.
  have next : roundEven second + 1 ≤ roundEven first := by omega
  have next' : (roundEven second : ℚ) + 1 ≤ roundEven first := by exact_mod_cast next
  have same : first = second := by linarith
  rw [same] at more
  exact more le_rfl

/-! ## The last place -/

variable {digits : ℕ} {value : ℚ}

theorem lastPlace_pos (digits : ℕ) (value : ℚ) : 0 < lastPlace digits value := by
  exact zpow_pos (by norm_num) _

theorem le_pow_digits (digits : ℕ) (value : ℚ) : |value| ≤ 2 ^ digits * lastPlace digits value := by
  have below := @Int.lt_zpow_succ_log_self ℚ _ _ _ _ 2 (by decide) |value|
  have whole : (2 : ℚ) ^ digits * lastPlace digits value = 2 ^ (Int.log 2 |value| + 1) := by
    rw [lastPlace, ← zpow_natCast, ← zpow_add₀ (by norm_num)]
    congr 1
    omega
  rw [whole]
  exact_mod_cast below.le

theorem lastPlace_mul_le (some : value ≠ 0) : 2 ^ digits * lastPlace digits value ≤ 2 * |value| := by
  have above := @Int.zpow_log_le_self ℚ _ _ _ _ 2 _ (by decide) (abs_pos.mpr some)
  have whole : (2 : ℚ) ^ digits * lastPlace digits value = 2 * 2 ^ Int.log 2 |value| := by
    rw [lastPlace, ← zpow_natCast, ← zpow_add₀ (by norm_num), ← zpow_one_add₀ (by norm_num)]
    congr 1
    omega
  rw [whole]
  gcongr
  exact_mod_cast above

/-! ## Rounding -/

theorem roundBinary_near (some : value ≠ 0) :
    |roundBinary digits value - value| ≤ |value| / 2 ^ digits := by
  have pos := lastPlace_pos digits value
  have place := @lastPlace_mul_le digits value some
  obtain ⟨lower, upper⟩ := roundEven_bounds (value / lastPlace digits value)
  have moved : |(roundEven (value / lastPlace digits value) : ℚ) - value / lastPlace digits value| ≤
      1 / 2 := by
    rw [abs_le]
    constructor <;> linarith
  have scaled : roundBinary digits value - value =
      (roundEven (value / lastPlace digits value) - value / lastPlace digits value) *
        lastPlace digits value := by
    rw [roundBinary, sub_mul, div_mul_cancel₀ _ pos.ne']
  rw [scaled, abs_mul, abs_of_pos pos, le_div_iff₀ (by positivity)]
  calc _ ≤ 1 / 2 * lastPlace digits value * 2 ^ digits := by gcongr
    _ = 1 / 2 * (2 ^ digits * lastPlace digits value) := by ring
    _ ≤ |value| := by linarith

/-- An integer of few digits is kept. -/
theorem roundBinary_natCast {number : ℕ} (small : number < 2 ^ digits) :
    roundBinary digits number = number := by
  rcases Nat.eq_zero_or_pos number with rfl | positive
  · simp [roundBinary, roundEven]
  · have length : Int.log 2 |(number : ℚ)| = Nat.log 2 number := by
      rw [Nat.abs_cast, Int.log_natCast]
    have few : Nat.log 2 number + 1 ≤ digits := Nat.log_lt_of_lt_pow positive.ne' small
    have place : lastPlace digits number = (2 ^ (digits - (Nat.log 2 number + 1)))⁻¹ := by
      rw [lastPlace, length, ← zpow_natCast, ← zpow_neg]
      congr 1
      push_cast [Nat.cast_sub few]
      ring
    have whole : (number : ℚ) / lastPlace digits number =
        ((number * 2 ^ (digits - (Nat.log 2 number + 1)) : ℤ) : ℚ) := by
      rw [place, div_inv_eq_mul]
      push_cast
      rfl
    rw [roundBinary, whole, roundEven_intCast, ← whole,
      div_mul_cancel₀ _ (lastPlace_pos digits _).ne']

theorem roundBinary_nonneg (nonneg : 0 ≤ value) : 0 ≤ roundBinary digits value := by
  have pos := lastPlace_pos digits value
  have quotient : ((0 : ℤ) : ℚ) ≤ value / lastPlace digits value := by
    rw [Int.cast_zero]
    positivity
  have rounded := roundEven_mono quotient
  rw [roundEven_intCast] at rounded
  rw [roundBinary]
  positivity

theorem roundBinary_mono (some : 0 < digits) {first second : ℚ} (positive : 0 < first)
    (le : first ≤ second) :
    roundBinary digits first ≤ roundBinary digits second := by
  have firstPos := lastPlace_pos digits first
  have secondPos := lastPlace_pos digits second
  have positive' := positive.trans_le le
  have order := @Int.log_mono_right ℚ _ _ _ _ 2 _ _ positive le
  rcases order.eq_or_lt with same | less
  · have place : lastPlace digits first = lastPlace digits second := by
      rw [lastPlace, lastPlace, abs_of_pos positive, abs_of_pos positive', same]
    rw [roundBinary, roundBinary, place]
    have rounded := roundEven_mono (div_le_div_of_nonneg_right le secondPos.le)
    gcongr
  · -- A power of two lies between the two.
    obtain ⟨more, rfl⟩ := Nat.exists_eq_add_one.mpr some
    have doubled : 2 * lastPlace (more + 1) first ≤ lastPlace (more + 1) second := by
      rw [lastPlace, lastPlace, abs_of_pos positive, abs_of_pos positive', ← zpow_one_add₀ (by norm_num)]
      exact zpow_le_zpow_right₀ (by norm_num) (by omega)
    have upper : roundEven (first / lastPlace (more + 1) first) ≤ 2 ^ (more + 1) := by
      have below := le_pow_digits (more + 1) first
      rw [abs_of_pos positive] at below
      have bounded : first / lastPlace (more + 1) first ≤ ((2 ^ (more + 1) : ℤ) : ℚ) := by
        rw [div_le_iff₀ firstPos]
        exact_mod_cast below
      have rounded := roundEven_mono bounded
      rwa [roundEven_intCast] at rounded
    have lower : 2 ^ more ≤ roundEven (second / lastPlace (more + 1) second) := by
      have above := @lastPlace_mul_le (more + 1) second positive'.ne'
      rw [abs_of_pos positive', pow_succ] at above
      have bounded : ((2 ^ more : ℤ) : ℚ) ≤ second / lastPlace (more + 1) second := by
        rw [le_div_iff₀ secondPos]
        push_cast
        linarith
      have rounded := roundEven_mono bounded
      rwa [roundEven_intCast] at rounded
    have upper' : (roundEven (first / lastPlace (more + 1) first) : ℚ) ≤ 2 ^ (more + 1) := by
      exact_mod_cast upper
    have lower' : (2 : ℚ) ^ more ≤ roundEven (second / lastPlace (more + 1) second) := by
      exact_mod_cast lower
    calc roundBinary (more + 1) first
        ≤ 2 ^ (more + 1) * lastPlace (more + 1) first := by
          rw [roundBinary]
          gcongr
      _ = 2 ^ more * (2 * lastPlace (more + 1) first) := by ring
      _ ≤ 2 ^ more * lastPlace (more + 1) second := by gcongr
      _ ≤ roundBinary (more + 1) second := by
          rw [roundBinary]
          gcongr

theorem roundBinary_pos (some : 0 < digits) (positive : 0 < value) : 0 < roundBinary digits value := by
  have near := (abs_le.mp (@roundBinary_near digits value positive.ne')).1
  rw [abs_of_pos positive] at near
  have less : value / 2 ^ digits < value :=
    div_lt_self positive (one_lt_pow₀ (by norm_num) some.ne')
  linarith

@[simp] theorem roundBinary_zero (digits : ℕ) : roundBinary digits 0 = 0 := by
  simp [roundBinary, roundEven]

theorem roundEven_neg (value : ℚ) : roundEven (-value) = -roundEven value := by
  have below := Int.floor_le value
  have above := Int.lt_floor_add_one value
  by_cases whole : (⌊value⌋ : ℚ) = value
  · rw [← whole, ← Int.cast_neg, roundEven_intCast, roundEven_intCast]
  · have less : (⌊value⌋ : ℚ) < value := lt_of_le_of_ne below whole
    have floor : ⌊-value⌋ = -⌊value⌋ - 1 := by
      rw [Int.floor_eq_iff]
      push_cast
      constructor <;> linarith
    unfold roundEven
    rw [floor]
    push_cast
    split_ifs <;> first | linarith | omega

theorem roundBinary_neg (digits : ℕ) (value : ℚ) :
    roundBinary digits (-value) = -roundBinary digits value := by
  have place : lastPlace digits (-value) = lastPlace digits value := by
    rw [lastPlace, abs_neg, lastPlace]
  rw [roundBinary, place, neg_div, roundEven_neg, Int.cast_neg, neg_mul, roundBinary]

theorem monotone_roundBinary (some : 0 < digits) : Monotone (roundBinary digits) := by
  intro first second le
  rcases lt_or_ge 0 first with positive | nonpos
  · exact roundBinary_mono some positive le
  · have left : 0 ≤ roundBinary digits (-first) := roundBinary_nonneg (by linarith)
    rw [roundBinary_neg] at left
    rcases lt_or_ge second 0 with negative | nonneg
    · have turned := @roundBinary_mono digits some _ _ (show 0 < -second by linarith)
        (neg_le_neg le)
      rw [roundBinary_neg, roundBinary_neg] at turned
      linarith
    · have right : 0 ≤ roundBinary digits second := roundBinary_nonneg nonneg
      linarith

theorem monotone_toFloat : Monotone toFloat := monotone_roundBinary (by decide)

theorem monotone_toDouble : Monotone toDouble := monotone_roundBinary (by decide)

/-! ## Numbers that are kept -/

theorem roundBinary_mul_zpow {number : ℤ} (few : |number| < 2 ^ digits) (exponent : ℤ) :
    roundBinary digits (number * 2 ^ exponent) = number * 2 ^ exponent := by
  rcases eq_or_ne number 0 with rfl | nonzero
  · simp
  · have power := zpow_pos (show (0 : ℚ) < 2 by norm_num) exponent
    have length : Int.log 2 |(number : ℚ) * 2 ^ exponent| + 1 - digits ≤ exponent := by
      have below : |(number : ℚ) * 2 ^ exponent| < 2 ^ (digits + exponent) := by
        rw [abs_mul, abs_of_pos power, zpow_add₀ (by norm_num), zpow_natCast]
        have few' : |(number : ℚ)| < 2 ^ digits := by exact_mod_cast few
        gcongr
      have positive : 0 < |(number : ℚ) * 2 ^ exponent| := by
        rw [abs_pos]
        exact mul_ne_zero (by exact_mod_cast nonzero) power.ne'
      have log := (Int.lt_zpow_iff_log_lt (by decide : 1 < 2) positive).mp (by exact_mod_cast below)
      omega
    have quotient : number * (2 : ℚ) ^ exponent / lastPlace digits (number * 2 ^ exponent) =
        ((number * 2 ^ (exponent - (Int.log 2 |(number : ℚ) * 2 ^ exponent| + 1 - digits)).toNat : ℤ) :
          ℚ) := by
      push_cast
      rw [lastPlace, mul_div_assoc, ← zpow_sub₀ (by norm_num), ← zpow_natCast,
        Int.toNat_of_nonneg (by omega)]
    rw [roundBinary, quotient, roundEven_intCast, ← quotient,
      div_mul_cancel₀ _ (lastPlace_pos digits _).ne']

theorem roundEven_le (digits : ℕ) (value : ℚ) :
    |roundEven (value / lastPlace digits value)| ≤ 2 ^ digits := by
  have pos := lastPlace_pos digits value
  obtain ⟨lower, upper⟩ := abs_le.mp (le_pow_digits digits value)
  rw [abs_le]
  constructor
  · have bounded : (((-2 ^ digits : ℤ)) : ℚ) ≤ value / lastPlace digits value := by
      rw [le_div_iff₀ pos]
      push_cast
      linarith
    have rounded := roundEven_mono bounded
    rwa [roundEven_intCast] at rounded
  · have bounded : value / lastPlace digits value ≤ ((2 ^ digits : ℤ) : ℚ) := by
      rw [div_le_iff₀ pos]
      push_cast
      linarith
    have rounded := roundEven_mono bounded
    rwa [roundEven_intCast] at rounded

theorem roundBinary_roundBinary (some : 0 < digits) (value : ℚ) :
    roundBinary digits (roundBinary digits value) = roundBinary digits value := by
  obtain ⟨more, rfl⟩ := Nat.exists_eq_add_one.mpr some
  have form : roundBinary (more + 1) value = roundEven (value / lastPlace (more + 1) value) *
      2 ^ (Int.log 2 |value| + 1 - (more + 1 : ℕ)) := rfl
  rw [form]
  rcases (roundEven_le (more + 1) value).lt_or_eq with few | most
  · exact roundBinary_mul_zpow few _
  · -- A power of two has a shorter form.
    obtain ⟨half, twice⟩ : ∃ half : ℤ, roundEven (value / lastPlace (more + 1) value) = half * 2 ∧
        |half| < 2 ^ (more + 1) := by
      rcases abs_eq (by positivity : (0 : ℤ) ≤ 2 ^ (more + 1)) |>.mp most with same | same
      · exact ⟨2 ^ more, by rw [same, pow_succ], by rw [abs_of_pos (by positivity)]; gcongr <;> omega⟩
      · exact ⟨-2 ^ more, by rw [same, pow_succ]; ring,
          by rw [abs_neg, abs_of_pos (by positivity)]; gcongr <;> omega⟩
    rw [twice.1]
    push_cast
    rw [mul_assoc, ← zpow_one_add₀ (by norm_num)]
    exact roundBinary_mul_zpow twice.2 _

/-! ## Quotients of integers -/

/-- A quotient of two integers, all rounded to `digits` digits. -/
def roundQuotient (digits : ℕ) (dividend divisor : ℤ) : ℚ :=
  roundBinary digits (roundBinary digits dividend / roundBinary digits divisor)

def ceilQuotient (digits : ℕ) (dividend divisor : ℤ) : ℤ := ⌈roundQuotient digits dividend divisor⌉

theorem roundQuotient_nonneg {dividend divisor : ℤ} (nonneg : 0 ≤ dividend) (nonneg' : 0 ≤ divisor) :
    0 ≤ roundQuotient digits dividend divisor := by
  have top : (0 : ℚ) ≤ roundBinary digits dividend := roundBinary_nonneg (by exact_mod_cast nonneg)
  have bottom : (0 : ℚ) ≤ roundBinary digits divisor := roundBinary_nonneg (by exact_mod_cast nonneg')
  exact roundBinary_nonneg (div_nonneg top bottom)

theorem roundQuotient_pos (some : 0 < digits) {dividend divisor : ℤ} (positive : 0 < dividend)
    (positive' : 0 < divisor) : 0 < roundQuotient digits dividend divisor := by
  have top := roundBinary_pos some (show (0 : ℚ) < dividend by exact_mod_cast positive)
  have bottom := roundBinary_pos some (show (0 : ℚ) < divisor by exact_mod_cast positive')
  exact roundBinary_pos some (div_pos top bottom)

theorem roundQuotient_mono (some : 0 < digits) {dividend dividend' divisor : ℤ}
    (le : dividend ≤ dividend') (nonneg' : 0 ≤ divisor) :
    roundQuotient digits dividend divisor ≤ roundQuotient digits dividend' divisor := by
  have bottom : (0 : ℚ) ≤ roundBinary digits divisor := roundBinary_nonneg (by exact_mod_cast nonneg')
  have tops := monotone_roundBinary some (show (dividend : ℚ) ≤ dividend' by exact_mod_cast le)
  exact monotone_roundBinary some (div_le_div_of_nonneg_right tops bottom)

theorem ceilQuotient_nonneg {dividend divisor : ℤ} (nonneg : 0 ≤ dividend) (nonneg' : 0 ≤ divisor) :
    0 ≤ ceilQuotient digits dividend divisor :=
  Int.ceil_nonneg (roundQuotient_nonneg nonneg nonneg')

theorem ceilQuotient_mono (some : 0 < digits) {dividend dividend' divisor : ℤ}
    (le : dividend ≤ dividend') (nonneg' : 0 ≤ divisor) :
    ceilQuotient digits dividend divisor ≤ ceilQuotient digits dividend' divisor :=
  Int.ceil_mono (roundQuotient_mono some le nonneg')

/-- Integers of few digits have the right quotient: rounding does not move it over an integer. -/
theorem ceilQuotient_eq (some : 0 < digits) {dividend divisor : ℕ} (positive : 0 < divisor)
    (small : dividend < 2 ^ digits) (small' : divisor < 2 ^ digits) :
    ceilQuotient digits dividend divisor = ((dividend + divisor - 1 : ℤ) / divisor) := by
  rw [ceilQuotient, roundQuotient, Int.cast_natCast, Int.cast_natCast, roundBinary_natCast small,
    roundBinary_natCast small']
  have pos : (0 : ℚ) < divisor := by exact_mod_cast positive
  rcases Nat.eq_zero_or_pos dividend with rfl | nonzero
  · have none : ((0 : ℕ) + divisor - 1 : ℤ) / divisor = 0 :=
      Int.ediv_eq_zero_of_lt (by omega) (by omega)
    rw [none]
    simp [roundBinary, roundEven]
  · have quotient := Int.mul_ediv_add_emod (dividend + divisor - 1 : ℤ) divisor
    have remainder := Int.emod_nonneg (dividend + divisor - 1 : ℤ) (show (divisor : ℤ) ≠ 0 by omega)
    have bounded := Int.emod_lt_of_pos (dividend + divisor - 1 : ℤ) (show (0 : ℤ) < divisor by omega)
    have nonneg := Int.ediv_nonneg (show (0 : ℤ) ≤ dividend + divisor - 1 by omega)
      (show (0 : ℤ) ≤ divisor by omega)
    obtain ⟨k, ceiling⟩ := Int.eq_ofNat_of_zero_le nonneg
    rw [ceiling] at quotient ⊢
    have above : (dividend : ℤ) ≤ divisor * k := by omega
    have below : divisor * (k : ℤ) < dividend + divisor := by omega
    have above' : (dividend : ℚ) ≤ divisor * k := by exact_mod_cast above
    have below' : (divisor : ℚ) * k + 1 ≤ dividend + divisor := by exact_mod_cast below
    have few : k ≤ dividend := by
      by_contra more
      have larger : divisor * (dividend + 1) ≤ divisor * k := Nat.mul_le_mul_left divisor (by omega)
      have covered : dividend ≤ divisor * dividend := Nat.le_mul_of_pos_left dividend positive
      rw [mul_add, mul_one] at larger
      have : divisor * k < dividend + divisor := by exact_mod_cast below
      omega
    have quotientPos : (0 : ℚ) < dividend / divisor := by positivity
    rw [Int.ceil_eq_iff]
    constructor
    · have near := (abs_le.mp (@roundBinary_near digits _ quotientPos.ne')).1
      rw [abs_of_pos quotientPos] at near
      have lower : (k : ℚ) - 1 ≤ dividend / divisor - 1 / divisor := by
        rw [← sub_div, le_div_iff₀ pos]
        linarith [mul_comm (divisor : ℚ) k]
      have gap : (dividend / divisor : ℚ) / 2 ^ digits < 1 / divisor := by
        have small' : (dividend : ℚ) < 2 ^ digits := by exact_mod_cast small
        rw [div_right_comm, div_lt_div_iff_of_pos_right pos, div_lt_one (by positivity)]
        exact small'
      push_cast
      linarith
    · have up := roundBinary_mono some quotientPos
        (show (dividend / divisor : ℚ) ≤ k by rw [div_le_iff₀ pos, mul_comm]; exact above')
      rw [roundBinary_natCast (by omega)] at up
      exact_mod_cast up

end Asr2Pass.Library
