import Mathlib.Algebra.BigOperators.Group.List.Basic
import Mathlib.Algebra.Order.BigOperators.Group.List
import Mathlib.Algebra.Order.Field.Basic
import Mathlib.Algebra.Order.Floor.Semifield
import Mathlib.Data.List.Induction
import Mathlib.Tactic.Linarith
import Mathlib.Tactic.Ring

/-! # Payouts

A level grows by one weight after the other.  Where it reaches the threshold, the threshold is paid
out of it, once at most for every weight; what is left at the end is paid out at the weights that
paid nothing.  The abstract side counts payouts from the sums of the weights alone.
-/

namespace Asr2Pass.Library

variable {K : Type*} [Field K] [LinearOrder K]

/-- The level after every weight, before its payout, and what is left at the end. -/
def carry (threshold level : K) : List K → List K × K
  | [] => ([], level)
  | weight :: weights =>
    let reached := level + weight
    let (levels, left) :=
      carry threshold (if threshold ≤ reached then reached - threshold else reached) weights
    (reached :: levels, left)

/-- The rest is paid out at the levels below the threshold, as long as it reaches the threshold:
    such a level becomes the rest. -/
def backfill (threshold left : K) : List K → List K
  | [] => []
  | level :: levels =>
    if left < threshold then level :: levels
    else if level < threshold then left :: backfill threshold (left - threshold) levels
    else level :: backfill threshold left levels

/-- The most payouts: up to every weight no more than the sum allows, and after it one for each. -/
def payouts [FloorSemiring K] (threshold : K) (weights : List K) : Nat :=
  ((List.range weights.length).map fun position =>
      ⌊(weights.take (position + 1)).sum / threshold⌋₊ + (weights.length - (position + 1))).foldr
    min weights.length

/-- How often a sum is exactly what all payouts so far and one more take. -/
def exactPayouts [FloorSemiring K] (threshold : K) (weights : List K) : Nat :=
  (List.range weights.length).countP fun position =>
    (weights.take (position + 1)).sum =
      ((payouts threshold (weights.take position) + 1 : Nat) : K) * threshold

section
variable {threshold level left : K} {weights : List K}

theorem carry_length (threshold level : K) (weights : List K) :
    (carry threshold level weights).1.length = weights.length := by
  induction weights generalizing level with
  | nil => rfl
  | cons weight weights inductionHypothesis => simp [carry, inductionHypothesis]

/-- One more weight. -/
theorem carry_snoc (threshold level : K) (weights : List K) (weight : K) :
    carry threshold level (weights ++ [weight]) =
      ((carry threshold level weights).1 ++ [(carry threshold level weights).2 + weight],
        if threshold ≤ (carry threshold level weights).2 + weight then
          (carry threshold level weights).2 + weight - threshold
        else (carry threshold level weights).2 + weight) := by
  induction weights generalizing level with
  | nil => rfl
  | cons first weights inductionHypothesis =>
    rw [List.cons_append, carry, inductionHypothesis]
    rfl

theorem carry_take (threshold level : K) (weights : List K) (size : Nat) :
    (carry threshold level weights).1.take size = (carry threshold level (weights.take size)).1 := by
  induction weights generalizing level size with
  | nil => simp [carry]
  | cons weight weights inductionHypothesis =>
    cases size with
    | zero => simp [carry]
    | succ size => simp [carry, inductionHypothesis]

theorem backfill_length (threshold left : K) (levels : List K) :
    (backfill threshold left levels).length = levels.length := by
  induction levels generalizing left with
  | nil => rfl
  | cons level levels inductionHypothesis =>
    unfold backfill
    split
    · rfl
    · split <;> simp [inductionHypothesis]

end

/-! ## Counting the payouts -/

section
variable [FloorSemiring K] {threshold : K} {weights : List K}

theorem le_foldr_min {bound start : Nat} {values : List Nat} :
    bound ≤ values.foldr min start ↔ bound ≤ start ∧ ∀ value ∈ values, bound ≤ value := by
  induction values with
  | nil => simp
  | cons value values inductionHypothesis =>
    simp only [List.foldr_cons, Nat.le_min, inductionHypothesis, List.forall_mem_cons]
    tauto

theorem le_payouts [IsStrictOrderedRing K] {bound : Nat} :
    bound ≤ payouts threshold weights ↔
      ∀ size ≤ weights.length,
        bound ≤ ⌊(weights.take size).sum / threshold⌋₊ + (weights.length - size) := by
  unfold payouts
  rw [le_foldr_min]
  simp only [List.mem_map, List.mem_range, forall_exists_index, and_imp,
    forall_apply_eq_imp_iff₂]
  constructor
  · rintro ⟨all, some⟩ size most
    cases size with
    | zero => exact all.trans (Nat.le_add_left _ _)
    | succ position => exact some position most
  · intro every
    have none := every 0 (Nat.zero_le _)
    rw [List.take_zero, List.sum_nil, zero_div, Nat.floor_zero, Nat.zero_add] at none
    exact ⟨none, fun position before => every _ before⟩

theorem payouts_le_length : payouts threshold weights ≤ weights.length := by
  exact (le_foldr_min.mp (le_refl (payouts threshold weights))).1

theorem payouts_le_floor [IsStrictOrderedRing K] : payouts threshold weights ≤ ⌊weights.sum / threshold⌋₊ := by
  have most := le_payouts.mp (le_refl (payouts threshold weights)) _ (le_refl _)
  simpa using most

@[simp] theorem payouts_nil : payouts threshold ([] : List K) = 0 :=
  Nat.le_zero.mp payouts_le_length

theorem payouts_snoc [IsStrictOrderedRing K] (threshold : K) (weights : List K) (weight : K) :
    payouts threshold (weights ++ [weight]) =
      min (payouts threshold weights + 1) ⌊(weights ++ [weight]).sum / threshold⌋₊ := by
  apply eq_of_forall_le_iff
  intro bound
  rw [Nat.le_min, le_payouts]
  -- A bound on the payouts is one on every part of the weights, the whole list among them.
  constructor
  · intro every
    constructor
    · by_contra more
      have lower : ∀ size ≤ weights.length,
          bound - 1 ≤ ⌊(weights.take size).sum / threshold⌋₊ + (weights.length - size) := by
        intro size most
        have one := every size (by simp; omega)
        rw [List.take_append_of_le_length most, List.length_append, List.length_singleton] at one
        omega
      have some := le_payouts.mpr lower
      omega
    · have last := every (weights ++ [weight]).length (le_refl _)
      simpa using last
  · rintro ⟨before, last⟩ size most
    rw [List.length_append, List.length_singleton] at most ⊢
    cases Nat.lt_or_ge weights.length size with
    | inl whole =>
      have same : size = weights.length + 1 := by omega
      subst same
      rw [List.take_of_length_le (by simp)]
      omega
    | inr part =>
      rw [List.take_append_of_le_length part]
      have some := le_payouts.mp (le_refl (payouts threshold weights)) size part
      omega

theorem exactPayouts_snoc (threshold : K) (weights : List K) (weight : K) :
    exactPayouts threshold (weights ++ [weight]) =
      exactPayouts threshold weights +
        if (weights ++ [weight]).sum = ((payouts threshold weights + 1 : Nat) : K) * threshold then 1
        else 0 := by
  have old : ∀ position ∈ List.range weights.length,
      ((decide (((weights ++ [weight]).take (position + 1)).sum =
        ((payouts threshold ((weights ++ [weight]).take position) + 1 : Nat) : K) * threshold)) =
      (decide ((weights.take (position + 1)).sum =
        ((payouts threshold (weights.take position) + 1 : Nat) : K) * threshold))) := by
    intro position member
    have before := List.mem_range.mp member
    rw [List.take_append_of_le_length before, List.take_append_of_le_length before.le]
  unfold exactPayouts
  rw [List.length_append, List.length_singleton, List.range_succ, List.countP_append]
  congr 1
  · apply List.countP_congr
    intro position member
    have same := old position member
    simp only [same]
  · simp

/-! ## What a pass pays -/

section
variable [IsStrictOrderedRing K] (pos : 0 < threshold)
include pos

/-- One more weight is one more payout where the level reaches the threshold. -/
theorem payouts_step {weight : K}
    (level : 0 ≤ weights.sum - payouts threshold weights * threshold) (nonneg : 0 ≤ weight) :
    payouts threshold (weights ++ [weight]) = payouts threshold weights +
      if threshold ≤ weights.sum - payouts threshold weights * threshold + weight then 1 else 0 := by
  have total : 0 ≤ weights.sum + weight := by
    have paid : 0 ≤ (payouts threshold weights : K) * threshold := by positivity
    linarith
  rw [payouts_snoc, List.sum_append, List.sum_singleton]
  split
  · have enough : payouts threshold weights + 1 ≤ ⌊(weights.sum + weight) / threshold⌋₊ := by
      rw [Nat.le_floor_iff (div_nonneg total pos.le), le_div_iff₀ pos]
      push_cast
      linarith
    exact Nat.min_eq_left enough
  · have short : ⌊(weights.sum + weight) / threshold⌋₊ = payouts threshold weights := by
      rw [Nat.floor_eq_iff (div_nonneg total pos.le), le_div_iff₀ pos, div_lt_iff₀ pos]
      constructor <;> linarith
    rw [short, Nat.add_zero]
    exact Nat.min_eq_right (Nat.le_succ _)

/-- The level that is left is the sum without the payouts. -/
theorem carry_left (nonneg : ∀ weight ∈ weights, 0 ≤ weight) :
    0 ≤ (carry threshold 0 weights).2 ∧
      (carry threshold 0 weights).2 = weights.sum - payouts threshold weights * threshold := by
  induction weights using List.reverseRecOn with
  | nil => simp [carry]
  | append_singleton weights weight inductionHypothesis =>
    obtain ⟨level, kept⟩ := inductionHypothesis fun old member =>
      nonneg old (List.mem_append_left _ member)
    have last : 0 ≤ weight := nonneg weight (by simp)
    have step := payouts_step pos (kept ▸ level) last
    rw [carry_snoc, step, List.sum_append, List.sum_singleton, kept]
    rw [kept] at level
    split
    · push_cast
      constructor <;> linarith
    · rw [Nat.add_zero]
      constructor <;> linarith

/-- The levels that pay something, and those that are paid out without a rest. -/
theorem carry_counts (nonneg : ∀ weight ∈ weights, 0 ≤ weight) :
    (carry threshold 0 weights).1.countP (threshold ≤ ·) = payouts threshold weights ∧
      (carry threshold 0 weights).1.countP (threshold = ·) = exactPayouts threshold weights := by
  induction weights using List.reverseRecOn with
  | nil => simp [carry, exactPayouts]
  | append_singleton weights weight inductionHypothesis =>
    have olds : ∀ old ∈ weights, 0 ≤ old := fun old member =>
      nonneg old (List.mem_append_left _ member)
    have last : 0 ≤ weight := nonneg weight (by simp)
    obtain ⟨reaching, exactly⟩ := inductionHypothesis olds
    obtain ⟨level, kept⟩ := carry_left pos olds
    have step := payouts_step pos (kept ▸ level) last
    have same : threshold = weights.sum - payouts threshold weights * threshold + weight ↔
        (weights ++ [weight]).sum = ((payouts threshold weights + 1 : Nat) : K) * threshold := by
      rw [List.sum_append, List.sum_singleton]
      push_cast
      constructor <;> intro equal <;> linarith
    rw [carry_snoc, step, exactPayouts_snoc, List.countP_append, List.countP_append, reaching,
      exactly, kept]
    simp only [List.countP_singleton, decide_eq_true_eq, same, and_self]

end

/-! ## What is paid out at the end -/

/-- The payouts that the rest still gives. -/
def backPayouts (threshold left : K) (levels : List K) : Nat :=
  min (levels.countP (· < threshold)) ⌊left / threshold⌋₊

section
variable [IsStrictOrderedRing K] (pos : 0 < threshold)
include pos

theorem backPayouts_cons (left level : K) (levels : List K) :
    backPayouts threshold left (level :: levels) =
      if left < threshold then 0
      else if level < threshold then backPayouts threshold (left - threshold) levels + 1
      else backPayouts threshold left levels := by
  unfold backPayouts
  rw [List.countP_cons]
  by_cases short : left < threshold
  · rw [if_pos short, Nat.floor_eq_zero.mpr ((div_lt_one pos).mpr short), Nat.min_zero]
  · rw [if_neg short]
    by_cases below : level < threshold
    · have next : ⌊left / threshold⌋₊ = ⌊(left - threshold) / threshold⌋₊ + 1 := by
        have split : left / threshold = (left - threshold) / threshold + 1 := by
          rw [sub_div, div_self pos.ne']
          ring
        rw [split, Nat.floor_add_one (div_nonneg (by linarith) pos.le)]
      simp only [below, decide_true, if_true, next, Nat.add_min_add_right]
    · simp [below]

/-- What is paid out at the end was there. -/
theorem backPayouts_le {left : K} (nonneg : 0 ≤ left) (levels : List K) :
    backPayouts threshold left levels * threshold ≤ left := by
  have floor := Nat.floor_le (div_nonneg nonneg pos.le)
  have most : (backPayouts threshold left levels : K) ≤ (⌊left / threshold⌋₊ : K) := by
    exact_mod_cast Nat.min_le_right _ _
  rw [← le_div_iff₀ pos]
  exact most.trans floor

theorem backfill_append (left : K) (levels more : List K) :
    backfill threshold left (levels ++ more) =
      backfill threshold left levels ++
        backfill threshold (left - backPayouts threshold left levels * threshold) more := by
  induction levels generalizing left with
  | nil => simp [backfill, backPayouts]
  | cons level levels inductionHypothesis =>
    rw [List.cons_append, backfill, backfill, backPayouts_cons pos]
    split
    · rename_i short
      cases more with
      | nil => simp [backfill]
      | cons first more => simp [backfill, short]
    · split
      · rw [inductionHypothesis, List.cons_append]
        push_cast
        congr 3
        ring
      · rw [inductionHypothesis, List.cons_append]

theorem backfill_reaching (left : K) (levels : List K) :
    (backfill threshold left levels).countP (threshold ≤ ·) =
      levels.countP (threshold ≤ ·) + backPayouts threshold left levels := by
  induction levels generalizing left with
  | nil => simp [backfill, backPayouts]
  | cons level levels inductionHypothesis =>
    rw [backfill, backPayouts_cons pos]
    split
    · rfl
    · rename_i enough
      split
      · rename_i below
        simp only [List.countP_cons, inductionHypothesis, not_lt.mp enough, not_le.mpr below,
          decide_true, decide_false, if_true]
        simp
        omega
      · rename_i above
        simp only [List.countP_cons, inductionHypothesis]
        omega

theorem backfill_exact {left : K} (nonneg : 0 ≤ left) (levels : List K) :
    (backfill threshold left levels).countP (threshold = ·) =
      levels.countP (threshold = ·) +
        if 0 < backPayouts threshold left levels ∧
            left = backPayouts threshold left levels * threshold then 1 else 0 := by
  induction levels generalizing left with
  | nil => simp [backfill, backPayouts]
  | cons level levels inductionHypothesis =>
    rw [backfill, backPayouts_cons pos]
    split
    · simp
    · rename_i enough
      have least : threshold ≤ left := not_lt.mp enough
      split
      -- The level takes the threshold; it is met exactly when nothing is left behind the last one.
      · rename_i below
        have rest := @inductionHypothesis (left - threshold) (by linarith)
        have paid := backPayouts_le pos (sub_nonneg.mpr least) levels
        have next : left = ((backPayouts threshold (left - threshold) levels + 1 : Nat) : K) * threshold ↔
            left - threshold = backPayouts threshold (left - threshold) levels * threshold := by
          push_cast
          constructor <;> intro equal <;> linarith
        simp only [List.countP_cons, rest, next, below.ne', decide_false]
        cases Nat.eq_zero_or_pos (backPayouts threshold (left - threshold) levels) with
        | inl none =>
          have same : threshold = left ↔ left - threshold = 0 := by
            constructor <;> intro equal <;> linarith
          simp [none, same]
        | inr some =>
          have one : (1 : K) ≤ backPayouts threshold (left - threshold) levels := by
            exact_mod_cast some
          have more : threshold ≠ left := by
            intro equal
            nlinarith
          simp [some, more]
      · simp only [List.countP_cons, inductionHypothesis nonneg]
        omega

end

/-! ## A whole pass -/

/-- The levels when the rest has been paid out, at the last weights first. -/
def settle (threshold : K) (weights : List K) : List K :=
  (backfill threshold (carry threshold 0 weights).2 (carry threshold 0 weights).1.reverse).reverse

/-- The payouts of the first `size` weights after that. -/
def settled (threshold : K) (weights : List K) (size : Nat) : Nat :=
  max (payouts threshold (weights.take size))
    (min weights.length ⌊weights.sum / threshold⌋₊ - (weights.length - size))

/-- Those of them that leave nothing.  The last one of the rest can be one of them. -/
def exactSettled (threshold : K) (weights : List K) (size : Nat) : Nat :=
  exactPayouts threshold (weights.take size) +
    if payouts threshold (weights.take size) < settled threshold weights size ∧
        weights.sum = ((settled threshold weights size + (weights.length - size) : Nat) : K) * threshold
      then 1 else 0

omit [FloorSemiring K] in
theorem settle_length (threshold : K) (weights : List K) :
    (settle threshold weights).length = weights.length := by
  simp [settle, backfill_length, carry_length]

/-- The payouts of the rest at the weights from `size` on. -/
def laterPayouts (threshold : K) (weights : List K) (size : Nat) : Nat :=
  backPayouts threshold (carry threshold 0 weights).2 ((carry threshold 0 weights).1.drop size).reverse

/-- The rest that these leave to the first weights. -/
def leftToFirst (threshold : K) (weights : List K) (size : Nat) : K :=
  (carry threshold 0 weights).2 - laterPayouts threshold weights size * threshold

section
variable [IsStrictOrderedRing K] (pos : 0 < threshold)
include pos

theorem floor_left (total : K) (count : Nat) :
    ⌊(total - count * threshold) / threshold⌋₊ = ⌊total / threshold⌋₊ - count := by
  rw [sub_div, mul_div_cancel_right₀ _ pos.ne', Nat.floor_sub_natCast]

/-- The settled levels of the first weights are those of the pass over them, with what is left to
    them paid out. -/
theorem settle_take {size : Nat} (most : size ≤ weights.length) :
    (settle threshold weights).take size =
      (backfill threshold (leftToFirst threshold weights size)
        (carry threshold 0 (weights.take size)).1.reverse).reverse := by
  have split : (carry threshold 0 weights).1.reverse =
      ((carry threshold 0 weights).1.drop size).reverse ++
        (carry threshold 0 (weights.take size)).1.reverse := by
    rw [← List.reverse_append, ← carry_take, List.take_append_drop]
  unfold settle
  rw [split, backfill_append pos, List.reverse_append]
  apply List.take_left'
  rw [List.length_reverse, backfill_length, List.length_reverse, carry_length, List.length_take]
  exact Nat.min_eq_left most

variable (nonneg : ∀ weight ∈ weights, 0 ≤ weight)
include nonneg

omit [FloorSemiring K] [IsStrictOrderedRing K] pos in
theorem nonneg_take (size : Nat) : ∀ weight ∈ weights.take size, 0 ≤ weight :=
  fun weight member => nonneg weight (List.mem_of_mem_take member)

theorem leftToFirst_nonneg (size : Nat) : 0 ≤ leftToFirst threshold weights size :=
  sub_nonneg.mpr (backPayouts_le pos (carry_left pos nonneg).1 _)

/-- What is left to the first weights, from the sum. -/
theorem leftToFirst_eq (size : Nat) :
    leftToFirst threshold weights size = weights.sum -
      ((payouts threshold weights + laterPayouts threshold weights size : Nat) : K) * threshold := by
  unfold leftToFirst
  rw [(carry_left pos nonneg).2]
  push_cast
  ring

/-- The payouts of the rest at the first weights, and that they need all later ones. -/
theorem firstPayouts {size : Nat} (most : size ≤ weights.length) :
    let first := backPayouts threshold (leftToFirst threshold weights size)
      (carry threshold 0 (weights.take size)).1.reverse
    payouts threshold (weights.take size) + first = settled threshold weights size ∧
      (0 < first → payouts threshold weights + laterPayouts threshold weights size =
        payouts threshold (weights.take size) + (weights.length - size)) := by
  intro first
  have reaching := (carry_counts pos nonneg).1
  have reachingFirst := (carry_counts pos (nonneg_take nonneg size)).1
  have parts : (carry threshold 0 weights).1 =
      (carry threshold 0 (weights.take size)).1 ++ (carry threshold 0 weights).1.drop size := by
    rw [← carry_take, List.take_append_drop]
  -- the levels that paid nothing take a payout of the rest
  have below : ∀ levels : List K,
      levels.countP (· < threshold) = levels.length - levels.countP (threshold ≤ ·) := by
    intro levels
    have both := List.length_eq_countP_add_countP (threshold ≤ ·) (l := levels)
    simp only [decide_eq_true_eq, not_le] at both
    omega
  rw [parts, List.countP_append, reachingFirst] at reaching
  have laterLength : ((carry threshold 0 weights).1.drop size).length = weights.length - size := by
    rw [List.length_drop, carry_length]
  have firstLength : (carry threshold 0 (weights.take size)).1.length = size := by
    rw [carry_length, List.length_take, Nat.min_eq_left most]
  have laterReach := @List.countP_le_length _ (fun level => decide (threshold ≤ level))
    ((carry threshold 0 weights).1.drop size)
  have firstReach := @payouts_le_length K _ _ _ threshold (weights.take size)
  have allowed : payouts threshold weights ≤ ⌊weights.sum / threshold⌋₊ := payouts_le_floor
  have laterIs : laterPayouts threshold weights size = min (weights.length - size -
        (payouts threshold weights - payouts threshold (weights.take size)))
      (⌊weights.sum / threshold⌋₊ - payouts threshold weights) := by
    unfold laterPayouts backPayouts
    rw [List.countP_reverse, below, laterLength, (carry_left pos nonneg).2, floor_left pos]
    congr 2
    omega
  have firstIs : first = min (size - payouts threshold (weights.take size))
      (⌊weights.sum / threshold⌋₊ -
        (payouts threshold weights + laterPayouts threshold weights size)) := by
    change min _ _ = _
    rw [List.countP_reverse, below, firstLength, reachingFirst, leftToFirst_eq pos nonneg,
      floor_left pos]
  rw [List.length_take, Nat.min_eq_left most] at firstReach
  unfold settled
  clear_value first
  cases Nat.le_total (⌊weights.sum / threshold⌋₊ - payouts threshold weights)
    (weights.length - size - (payouts threshold weights - payouts threshold (weights.take size))) with
  | inl scarce =>
    rw [Nat.min_eq_right scarce] at laterIs
    have used : payouts threshold weights + laterPayouts threshold weights size =
        ⌊weights.sum / threshold⌋₊ := by
      omega
    have nothing : first = 0 := by rw [firstIs, used, Nat.sub_self, Nat.min_zero]
    rw [nothing]
    refine ⟨?_, fun some => absurd some (Nat.lt_irrefl 0)⟩
    clear laterIs firstIs nothing used
    omega
  | inr plenty =>
    rw [Nat.min_eq_left plenty] at laterIs
    have used : payouts threshold weights + laterPayouts threshold weights size =
        payouts threshold (weights.take size) + (weights.length - size) := by
      omega
    have reached : payouts threshold (weights.take size) + (weights.length - size) ≤
        ⌊weights.sum / threshold⌋₊ := by
      omega
    rw [used] at firstIs
    refine ⟨?_, fun _ => used⟩
    clear laterIs plenty used laterReach laterLength firstLength reaching allowed
    omega

/-- How many of the first settled levels reach the threshold, and how many are exactly it. -/
theorem settle_counts {size : Nat} (most : size ≤ weights.length) :
    ((settle threshold weights).take size).countP (threshold ≤ ·) =
        settled threshold weights size ∧
      ((settle threshold weights).take size).countP (threshold = ·) =
        exactSettled threshold weights size := by
  obtain ⟨reaching, exactly⟩ := carry_counts pos (nonneg_take nonneg size)
  obtain ⟨total, divided⟩ := firstPayouts pos nonneg most
  rw [settle_take pos most, List.countP_reverse, List.countP_reverse, backfill_reaching pos,
    backfill_exact pos (leftToFirst_nonneg pos nonneg size), List.countP_reverse,
    List.countP_reverse, reaching, exactly]
  refine ⟨total, ?_⟩
  generalize backPayouts threshold (leftToFirst threshold weights size)
    (carry threshold 0 (weights.take size)).1.reverse = first at total divided
  have some : 0 < first ↔ payouts threshold (weights.take size) < settled threshold weights size := by
    omega
  unfold exactSettled
  congr 1
  apply if_congr _ rfl rfl
  rw [some]
  apply and_congr_right
  intro less
  have whole : settled threshold weights size + (weights.length - size) =
      payouts threshold weights + laterPayouts threshold weights size + first := by
    have needed := divided (some.mpr less)
    omega
  rw [whole, leftToFirst_eq pos nonneg]
  push_cast
  constructor <;> intro equal <;> linarith

/-- How many of the first settled levels exceed the threshold. -/
theorem settle_exceeding {size : Nat} (most : size ≤ weights.length) :
    ((settle threshold weights).take size).countP (threshold < ·) +
      exactSettled threshold weights size = settled threshold weights size := by
  obtain ⟨reaching, exactly⟩ := settle_counts pos nonneg most
  rw [← reaching, ← exactly]
  generalize (settle threshold weights).take size = levels
  induction levels with
  | nil => rfl
  | cons level levels inductionHypothesis =>
    simp only [List.countP_cons, decide_eq_true_eq]
    rcases lt_trichotomy threshold level with above | equal | below
    · simp only [above, above.le, above.ne, if_true, if_false]
      omega
    · simp only [equal, lt_irrefl, le_refl, if_true, if_false] at inductionHypothesis ⊢
      omega
    · simp only [below.not_gt, below.not_ge, below.ne', if_false]
      omega

end

end

end Asr2Pass.Library
