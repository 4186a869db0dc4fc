import Mathlib.Algebra.BigOperators.Group.List.Basic
import Mathlib.Algebra.Module.Basic
import Mathlib.Algebra.Order.Field.Basic
import Mathlib.Algebra.Order.Floor.Ring
import Mathlib.Tactic.Abel
import Mathlib.Tactic.Linarith
import Mathlib.Tactic.Module
import Mathlib.Tactic.Ring

/-! # Integrate and fire

Weights are added up until they reach a threshold; the weight that reaches it is split between the
frame that is complete and the next one.  A pass over a list of weighted vectors is a run of a
machine whose state is a `Charge`, so that it can be cut anywhere.
-/

namespace Asr2Pass.Library

variable {K V : Type*}

/-- The weight since the last frame, and the sum of the vectors with these weights. -/
@[ext] structure Charge (K V : Type*) where
  level : K
  vector : V

namespace Charge

variable [Field K] [LinearOrder K] [AddCommGroup V] [Module K V]

def empty : Charge K V := ⟨0, 0⟩

/-- One weighted vector: the frame it completes, and the charge after it. -/
def integrate (threshold : K) (charge : Charge K V) (vector : V) (weight : K) :
    Option V × Charge K V :=
  if weight + charge.level < threshold then
    (none, ⟨charge.level + weight, charge.vector + weight • vector⟩)
  else
    (some (charge.vector + (threshold - charge.level) • vector),
      ⟨charge.level + weight - threshold, (charge.level + weight - threshold) • vector⟩)

end Charge

section
variable [Field K] [LinearOrder K] [AddCommGroup V] [Module K V]

/-- A pass: the frames, and the charge that is left. -/
def fire (threshold : K) (charge : Charge K V) : List (V × K) → List V × Charge K V
  | [] => ([], charge)
  | (vector, weight) :: rest =>
    let (fired, next) := charge.integrate threshold vector weight
    let (frames, last) := fire threshold next rest
    (fired.toList ++ frames, last)

variable {threshold : K} {charge : Charge K V}

@[simp] theorem fire_nil : fire threshold charge [] = ([], charge) := rfl

@[simp] theorem fire_cons (vector : V) (weight : K) (rest : List (V × K)) :
    fire threshold charge ((vector, weight) :: rest) =
      ((charge.integrate threshold vector weight).1.toList ++
          (fire threshold (charge.integrate threshold vector weight).2 rest).1,
        (fire threshold (charge.integrate threshold vector weight).2 rest).2) := rfl

theorem fire_append (first second : List (V × K)) :
    fire threshold charge (first ++ second) =
      ((fire threshold charge first).1 ++ (fire threshold (fire threshold charge first).2 second).1,
        (fire threshold (fire threshold charge first).2 second).2) := by
  induction first generalizing charge with
  | nil => simp
  | cons pair first inductionHypothesis =>
    obtain ⟨vector, weight⟩ := pair
    simp only [List.cons_append, fire_cons, inductionHypothesis, List.append_assoc]

end

/-! ## How many frames there are -/

/-- The sum of the weights. -/
def totalWeight [Field K] (pairs : List (V × K)) : K := (pairs.map (·.2)).sum

/-- A charge between two weighted vectors. -/
structure Charge.Carried [Field K] [LinearOrder K] [AddCommGroup V] (threshold : K)
    (charge : Charge K V) : Prop where
  nonneg : 0 ≤ charge.level
  below : charge.level < threshold
  zero : charge.level = 0 → charge.vector = 0

section
variable [Field K] [LinearOrder K] [IsStrictOrderedRing K] [AddCommGroup V] [Module K V]
  {threshold : K} {charge : Charge K V} {pairs : List (V × K)}

omit [IsStrictOrderedRing K] [Module K V] in
theorem Charge.carried_empty (pos : 0 < threshold) : (empty : Charge K V).Carried threshold :=
  ⟨le_rfl, pos, fun _ => rfl⟩

theorem Charge.Carried.integrate (carried : charge.Carried threshold) {vector : V} {weight : K}
    (nonneg : 0 ≤ weight) (most : weight ≤ threshold) :
    (charge.integrate threshold vector weight).2.Carried threshold := by
  obtain ⟨level, below, zero⟩ := carried
  by_cases reaches : weight + charge.level < threshold
  · simp only [Charge.integrate, if_pos reaches]
    refine ⟨by positivity, by rw [add_comm]; exact reaches, fun none => ?_⟩
    have noWeight : weight = 0 := by linarith
    have noLevel : charge.level = 0 := by linarith
    simp [zero noLevel, noWeight]
  · simp only [Charge.integrate, if_neg reaches]
    refine ⟨by linarith, by linarith, fun none => ?_⟩
    simp only at none
    simp [none]

theorem Charge.Carried.fire (carried : charge.Carried threshold)
    (bounded : ∀ pair ∈ pairs, 0 ≤ pair.2 ∧ pair.2 ≤ threshold) :
    (fire threshold charge pairs).2.Carried threshold := by
  induction pairs generalizing charge with
  | nil => exact carried
  | cons pair pairs inductionHypothesis =>
    obtain ⟨vector, weight⟩ := pair
    obtain ⟨⟨nonneg, most⟩, rest⟩ := List.forall_mem_cons.mp bounded
    exact inductionHypothesis (carried.integrate nonneg most) rest

omit [IsStrictOrderedRing K] in
/-- No weight is lost: every frame has the threshold's worth. -/
theorem fire_level (charge : Charge K V) (pairs : List (V × K)) :
    ((fire threshold charge pairs).1.length : K) * threshold +
      (fire threshold charge pairs).2.level = charge.level + totalWeight pairs := by
  induction pairs generalizing charge with
  | nil => simp [totalWeight]
  | cons pair pairs inductionHypothesis =>
    obtain ⟨vector, weight⟩ := pair
    have rest := inductionHypothesis (charge.integrate threshold vector weight).2
    simp only [fire_cons, List.length_append, Nat.cast_add, totalWeight, List.map_cons,
      List.sum_cons]
    rw [totalWeight] at rest
    rw [add_mul, add_assoc, rest]
    unfold Charge.integrate
    split
    · simp only [Option.toList_none, List.length_nil, Nat.cast_zero]
      ring
    · simp only [Option.toList_some, List.length_singleton, Nat.cast_one]
      ring

theorem fire_length [FloorRing K] (pos : 0 < threshold) (carried : charge.Carried threshold)
    (bounded : ∀ pair ∈ pairs, 0 ≤ pair.2 ∧ pair.2 ≤ threshold) :
    ((fire threshold charge pairs).1.length : Int) =
      ⌊(charge.level + totalWeight pairs) / threshold⌋ := by
  have after := carried.fire bounded
  have kept := @fire_level K V _ _ _ _ threshold charge pairs
  symm
  rw [Int.floor_eq_iff, ← kept, add_div, mul_div_cancel_right₀ _ pos.ne']
  have part := div_nonneg after.nonneg pos.le
  have less := (div_lt_one pos).mpr after.below
  constructor
  · push_cast
    linarith
  · push_cast
    linarith

end

/-! ## Frames are combinations -/

/-- `vector` is a combination of `vectors` with weights that are not negative and add up to
    `total`. -/
def Combination [Field K] [LinearOrder K] [AddCommGroup V] [Module K V] (vectors : List V) (total : K)
    (vector : V) : Prop :=
  ∃ weights : List K, weights.length = vectors.length ∧ (∀ weight ∈ weights, 0 ≤ weight) ∧
    weights.sum = total ∧ vector = (List.zipWith (· • ·) weights vectors).sum

namespace Combination

variable [Field K] [LinearOrder K] [IsStrictOrderedRing K] [AddCommGroup V] [Module K V]
  {vectors : List V} {total : K} {vector : V}

omit [IsStrictOrderedRing K] in
/-- One more vector takes its share. -/
theorem snoc (combination : Combination vectors total vector) {share : K} (nonneg : 0 ≤ share)
    (last : V) : Combination (vectors ++ [last]) (total + share) (vector + share • last) := by
  obtain ⟨weights, length, signs, sum, rfl⟩ := combination
  refine ⟨weights ++ [share], by simp [length], ?_, by simp [sum], ?_⟩
  · intro weight member
    cases List.mem_append.mp member with
    | inl old => exact signs weight old
    | inr new =>
      rw [List.mem_singleton.mp new]
      exact nonneg
  · rw [List.zipWith_append length]
    simp

omit [IsStrictOrderedRing K] in
/-- More vectors without a share. -/
theorem append (combination : Combination vectors total vector) (more : List V) :
    Combination (vectors ++ more) total vector := by
  induction more using List.reverseRecOn with
  | nil => rwa [List.append_nil]
  | append_singleton more last inductionHypothesis =>
    have longer := inductionHypothesis.snoc (le_refl (0 : K)) last
    rwa [add_zero, zero_smul, add_zero, List.append_assoc] at longer

omit [IsStrictOrderedRing K] in
theorem zero (vectors : List V) : Combination vectors (0 : K) 0 := by
  have none : Combination ([] : List V) (0 : K) 0 := ⟨[], rfl, by simp, rfl, rfl⟩
  exact none.append vectors

end Combination

section
variable [Field K] [LinearOrder K] [IsStrictOrderedRing K] [AddCommGroup V] [Module K V]
  {threshold : K} {charge : Charge K V}

/-- Every frame, and what is left, is a combination of the vectors so far. -/
theorem fire_combination {past : List V} {pairs : List (V × K)}
    (carried : charge.Carried threshold) (held : Combination past charge.level charge.vector)
    (bounded : ∀ pair ∈ pairs, 0 ≤ pair.2 ∧ pair.2 ≤ threshold) :
    (∀ frame ∈ (fire threshold charge pairs).1,
        Combination (past ++ pairs.map (·.1)) threshold frame) ∧
      Combination (past ++ pairs.map (·.1)) (fire threshold charge pairs).2.level
        (fire threshold charge pairs).2.vector := by
  induction pairs generalizing charge past with
  | nil =>
    refine ⟨by simp, ?_⟩
    simpa using held
  | cons pair pairs inductionHypothesis =>
    obtain ⟨vector, weight⟩ := pair
    obtain ⟨⟨nonneg, most⟩, rest⟩ := List.forall_mem_cons.mp bounded
    have next : (charge.integrate threshold vector weight).2.Carried threshold :=
      carried.integrate nonneg most
    have split : past ++ ((vector, weight) :: pairs).map (·.1) =
        (past ++ [vector]) ++ pairs.map (·.1) := by
      simp
    rw [split]
    -- A vector that fires is split: one part completes the frame, the other begins the next.
    have step : Combination (past ++ [vector]) (charge.integrate threshold vector weight).2.level
          (charge.integrate threshold vector weight).2.vector ∧
        ∀ frame ∈ (charge.integrate threshold vector weight).1,
          Combination (past ++ [vector]) threshold frame := by
      unfold Charge.integrate
      split
      · exact ⟨held.snoc nonneg vector, by simp⟩
      · rename_i reaches
        constructor
        · have excess : 0 ≤ charge.level + weight - threshold := by linarith
          have fresh := (Combination.zero past).snoc excess vector
          rwa [zero_add, zero_add] at fresh
        · intro frame member
          cases member
          have short : 0 ≤ threshold - charge.level := by linarith [carried.below]
          have full := held.snoc short vector
          rwa [add_sub_cancel] at full
    obtain ⟨frames, last⟩ := inductionHypothesis next step.1 rest
    refine ⟨?_, last⟩
    intro frame member
    cases List.mem_append.mp member with
    | inl first => exact (step.2 frame (Option.mem_toList.mp first)).append _
    | inr later => exact frames frame later

/-! ## The charge as an input -/

/-- The charge as one weighted vector: its mean, with all of its weight. -/
def Charge.mean (charge : Charge K V) : V :=
  if 0 < charge.level then charge.level⁻¹ • charge.vector else charge.vector

omit [IsStrictOrderedRing K] in
/-- A pass can be continued from nothing when the charge is put before the rest. -/
theorem fire_mean (carried : charge.Carried threshold) (pairs : List (V × K)) :
    fire threshold Charge.empty ((charge.mean, charge.level) :: pairs) =
      fire threshold charge pairs := by
  have held : charge.level • charge.mean = charge.vector := by
    unfold Charge.mean
    split
    · rename_i some
      rw [smul_smul, mul_inv_cancel₀ some.ne', one_smul]
    · rename_i none
      have zero : charge.level = 0 := le_antisymm (not_lt.mp none) carried.nonneg
      rw [zero, zero_smul, carried.zero zero]
  have begun : Charge.integrate threshold Charge.empty charge.mean charge.level = (none, charge) := by
    unfold Charge.integrate
    rw [if_pos (by simpa [Charge.empty] using carried.below)]
    ext
    · rfl
    · simp [Charge.empty]
    · simp [Charge.empty, held]
  rw [fire_cons, begun]
  rfl

end

end Asr2Pass.Library
