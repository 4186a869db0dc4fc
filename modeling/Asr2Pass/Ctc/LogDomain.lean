import Mathlib.Algebra.Field.Rat
import Mathlib.Algebra.Order.Ring.NNRat

/-! # The numbers of the prefix search

The search adds, compares and `LogAdd`s floats, in which `-kFloatMax` stands for a probability of
zero.  It is modelled over any order with these operations; what is assumed of them where a result
needs it is that nothing overflows.  Probabilities themselves are one such domain.
-/

namespace Asr2Pass.Ctc

class LogDomain (K : Type*) [LinearOrder K] where
  /-- `-kFloatMax` -/
  lowest : K
  /-- the literal `0.0` -/
  nought : K
  plus : K → K → K
  /-- the last line of `LogAdd` -/
  logSumExp : K → K → K

open LogDomain (lowest nought plus logSumExp)

section
variable {K : Type*} [LinearOrder K] [LogDomain K]

def logAdd (x y : K) : K :=
  if x ≤ lowest then y
  else if y ≤ lowest then x
  else logSumExp x y

/-- Not a probability of zero. -/
def Live (x : K) : Prop :=
  lowest < x

instance (x : K) : Decidable (Live x) :=
  inferInstanceAs (Decidable (_ < _))

theorem not_live_lowest : ¬ Live (lowest : K) :=
  lt_irrefl _

theorem Live.mono {x y : K} (live : Live x) (le : x ≤ y) : Live y :=
  lt_of_lt_of_le live le

end

/-- No overflow: a product of probabilities is zero where a factor is, and a sum of two that are
    not zero is not. -/
class LawfulLogDomain (K : Type*) [LinearOrder K] [LogDomain K] : Prop where
  live_nought : Live (nought : K)
  live_plus : ∀ {x y : K}, Live (plus x y) ↔ Live x ∧ Live y
  live_logSumExp : ∀ {x y : K}, Live x → Live y → Live (logSumExp x y)

section
variable {K : Type*} [LinearOrder K] [LogDomain K] [LawfulLogDomain K]

@[simp] theorem live_nought : Live (nought : K) :=
  LawfulLogDomain.live_nought

@[simp] theorem live_plus {x y : K} : Live (plus x y) ↔ Live x ∧ Live y :=
  LawfulLogDomain.live_plus

@[simp] theorem live_logAdd {x y : K} : Live (logAdd x y) ↔ Live x ∨ Live y := by
  by_cases liveX : Live x
  · by_cases liveY : Live y
    · have sum : logAdd x y = logSumExp x y := by
        rw [logAdd, if_neg (not_le.mpr liveX), if_neg (not_le.mpr liveY)]
      simp [sum, liveX, LawfulLogDomain.live_logSumExp liveX liveY]
    · have left : logAdd x y = x := by
        rw [logAdd, if_neg (not_le.mpr liveX), if_pos (not_lt.mp liveY)]
      simp [left, liveX]
  · have right : logAdd x y = y := by
      rw [logAdd, if_pos (not_lt.mp liveX)]
    simp [right, liveX]

end

/-! ## The linear domain -/

instance : LogDomain ℚ≥0 where
  lowest := 0
  nought := 1
  plus := (· * ·)
  logSumExp := (· + ·)

@[simp] theorem lowest_linear : (lowest : ℚ≥0) = 0 := rfl

@[simp] theorem nought_linear : (nought : ℚ≥0) = 1 := rfl

@[simp] theorem plus_linear (x y : ℚ≥0) : plus x y = x * y := rfl

@[simp] theorem logAdd_linear (x y : ℚ≥0) : logAdd x y = x + y := by
  by_cases zeroX : x = 0
  · simp [logAdd, zeroX]
  · by_cases zeroY : y = 0
    · simp [logAdd, zeroX, zeroY]
    · simp [logAdd, zeroX, zeroY, LogDomain.logSumExp]

theorem live_linear {x : ℚ≥0} : Live x ↔ x ≠ 0 :=
  pos_iff_ne_zero

instance : LawfulLogDomain ℚ≥0 where
  live_nought := live_linear.mpr one_ne_zero
  live_plus {x y} := by simp [live_linear, mul_eq_zero, not_or]
  live_logSumExp {x y} liveX _ := lt_of_lt_of_le liveX (le_add_of_nonneg_right zero_le)

end Asr2Pass.Ctc
