import Mathlib.Algebra.BigOperators.Group.List.Basic
import Mathlib.Algebra.Order.Floor.Div
import Mathlib.GroupTheory.GroupAction.Ring
import Mathlib.Tactic.Ring

/-! # Quotients that are rounded one by one

A quotient that is rounded up is too large by the shortfall of its dividend, one that is rounded
down too small by the remainder.  They add up to the quotient of the sum when the shortfalls, or the
remainders, do not add up to a whole divisor.
-/

namespace Asr2Pass.Library

/-- How much is missing to the next multiple. -/
def shortfall (divisor dividend : Nat) : Nat := (divisor - dividend % divisor) % divisor

variable {divisor : Nat}

theorem shortfall_lt (positive : 0 < divisor) (dividend : Nat) :
    shortfall divisor dividend < divisor :=
  Nat.mod_lt _ positive

theorem mul_ceilDiv (positive : 0 < divisor) (dividend : Nat) :
    divisor * (dividend ⌈/⌉ divisor) = dividend + shortfall divisor dividend := by
  have split := Nat.div_add_mod dividend divisor
  have below := Nat.mod_lt dividend positive
  rw [Nat.ceilDiv_eq_add_pred_div, shortfall]
  rcases Nat.eq_zero_or_pos (dividend % divisor) with whole | rest
  · have up : (dividend + divisor - 1) / divisor = dividend / divisor := by
      rw [Nat.div_eq_iff positive]
      have := Nat.mul_comm divisor (dividend / divisor)
      omega
    rw [up, whole, Nat.sub_zero, Nat.mod_self]
    omega
  · have up : (dividend + divisor - 1) / divisor = dividend / divisor + 1 := by
      rw [Nat.div_eq_iff positive, Nat.add_mul]
      have := Nat.mul_comm divisor (dividend / divisor)
      omega
    rw [up, Nat.mod_eq_of_lt (by omega), Nat.mul_add]
    omega

theorem sum_mul_ceilDiv (positive : 0 < divisor) (dividends : List Nat) :
    divisor * (dividends.map (· ⌈/⌉ divisor)).sum =
      dividends.sum + (dividends.map (shortfall divisor)).sum := by
  induction dividends with
  | nil => rfl
  | cons dividend rest inductionHypothesis =>
    simp only [List.map_cons, List.sum_cons, Nat.mul_add, inductionHypothesis,
      mul_ceilDiv positive]
    ring

/-- Rounding the parts gives no more than rounding the sum, exactly when the shortfalls stay below
    the divisor. -/
theorem sum_ceilDiv_eq_iff (positive : 0 < divisor) (dividends : List Nat) :
    (dividends.map (· ⌈/⌉ divisor)).sum = dividends.sum ⌈/⌉ divisor ↔
      (dividends.map (shortfall divisor)).sum < divisor := by
  have parts := sum_mul_ceilDiv positive dividends
  have whole := mul_ceilDiv positive dividends.sum
  have below := shortfall_lt positive dividends.sum
  constructor
  · intro same
    rw [same] at parts
    omega
  · intro short
    -- two multiples of the divisor, less than the divisor apart
    have up : dividends.sum ⌈/⌉ divisor < (dividends.map (· ⌈/⌉ divisor)).sum + 1 := by
      apply @Nat.lt_of_mul_lt_mul_left divisor
      rw [Nat.mul_add]
      omega
    have down : (dividends.map (· ⌈/⌉ divisor)).sum < dividends.sum ⌈/⌉ divisor + 1 := by
      apply @Nat.lt_of_mul_lt_mul_left divisor
      rw [Nat.mul_add]
      omega
    omega

/-- Common factors do not count. -/
theorem mul_ceilDiv_mul {factor : Nat} (factorPos : 0 < factor) (positive : 0 < divisor)
    (dividend : Nat) : (factor * dividend) ⌈/⌉ (factor * divisor) = dividend ⌈/⌉ divisor := by
  apply le_antisymm
  · rw [ceilDiv_le_iff_le_mul (Nat.mul_pos factorPos positive), Nat.mul_assoc]
    exact Nat.mul_le_mul_left factor (le_smul_ceilDiv positive)
  · rw [ceilDiv_le_iff_le_mul positive]
    apply Nat.le_of_mul_le_mul_left _ factorPos
    rw [← Nat.mul_assoc]
    exact le_smul_ceilDiv (Nat.mul_pos factorPos positive)

/-! ## Rounding down -/

theorem sum_mul_div (divisor : Nat) (dividends : List Nat) :
    divisor * (dividends.map (· / divisor)).sum + (dividends.map (· % divisor)).sum =
      dividends.sum := by
  induction dividends with
  | nil => rfl
  | cons dividend rest inductionHypothesis =>
    have first := Nat.div_add_mod dividend divisor
    simp only [List.map_cons, List.sum_cons, Nat.mul_add]
    omega

/-- Rounding the parts gives no less than rounding the sum, exactly when the remainders stay below
    the divisor. -/
theorem sum_div_eq_iff (positive : 0 < divisor) (dividends : List Nat) :
    (dividends.map (· / divisor)).sum = dividends.sum / divisor ↔
      (dividends.map (· % divisor)).sum < divisor := by
  have parts := sum_mul_div divisor dividends
  constructor
  · intro same
    have whole := Nat.div_add_mod dividends.sum divisor
    have below := Nat.mod_lt dividends.sum positive
    rw [same] at parts
    omega
  · intro short
    rw [← parts, Nat.mul_add_div positive, Nat.div_eq_of_lt short, Nat.add_zero]

end Asr2Pass.Library
