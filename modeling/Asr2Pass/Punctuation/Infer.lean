import Asr2Pass.Punctuation.Windows
import Mathlib.Algebra.BigOperators.Group.List.Basic
import Mathlib.Algebra.Group.Int.Defs
import Mathlib.Algebra.Group.Nat.Defs
import Mathlib.Data.Int.ConditionallyCompleteOrder
import Mathlib.Data.List.MinMax

/-! # `Infer`

Both transformers make labels of the scores that the session returns, one for each row.  They ask
for the largest score of a row without its last one, which is that of the enumeration comma.
-/

namespace Asr2Pass.Punctuation

variable {Score : Type*} [LinearOrder Score]

/-- `CANDIDATE_NUM`. -/
def candidateNum : Nat := 6

/-- `Argmax`: where the first of the largest scores stands. -/
def argmax (scores : List Score) : Nat := (scores.argmax id).elim 0 scores.idxOf

/-- `outputCount`: `accumulate` begins with an `int` and keeps one. -/
def outputCount (outputShape : List Nat) : Int :=
  outputShape.foldl (fun (count : Int) (dimension : Nat) => (count * dimension).bmod (2 ^ 32)) 1

/-- The loop over `i`; none where `i` is no `int` any more. -/
def punctionFrom (floatData : List Score) (count : Int) (i : Nat) : Option (List Nat) :=
  if (i : Int) < count then
    if i + candidateNum < 2 ^ 31 then
      (punctionFrom floatData count (i + candidateNum)).map
        (argmax ((floatData.drop i).take (candidateNum - 1)) :: ·)
    else none
  else some []
termination_by (count - i).toNat
decreasing_by
  simp only [candidateNum]
  omega

/-- `Infer` of `CTTransformer` and of `CTTransformerOnline`, from the tensor that the session
    returns. -/
def punction (outputShape : List Nat) (floatData : List Score) : Option (List Nat) :=
  punctionFrom floatData (outputCount outputShape) 0

/-- The label has a largest score of the row. -/
def IsBest (row : List Score) (label : Nat) : Prop :=
  ∃ score, row[label]? = some score ∧ ∀ other ∈ row, other ≤ score

/-- A class before the last one has a score that is no smaller than that of the enumeration comma. -/
def BeatsDun (row : List Score) : Prop :=
  ∃ score ∈ row.take dunIndex, ∀ dun ∈ row[dunIndex]?, dun ≤ score

/-! ## Rows -/

theorem argmax_best {scores : List Score} (nonempty : scores ≠ []) : IsBest scores (argmax scores) := by
  cases best : scores.argmax id with
  | none => exact absurd (List.argmax_eq_none.mp best) nonempty
  | some score =>
    refine ⟨score, ?_, fun other member => List.le_of_mem_argmax member best⟩
    rw [argmax, best]
    exact List.getElem?_idxOf (List.argmax_mem best)

/-- The last class is never chosen, so the others have to be as good. -/
theorem isBest_argmax_iff {row : List Score} (six : row.length = candidateNum) :
    IsBest row (argmax (row.take (candidateNum - 1))) ↔ BeatsDun row := by
  have five : (row.take (candidateNum - 1)).length = dunIndex := by
    rw [List.length_take, six]
    decide
  have some : row.take (candidateNum - 1) ≠ [] := by
    rintro none
    rw [none] at five
    cases five
  obtain ⟨best, isBest, largest⟩ := argmax_best some
  have inside := (List.getElem?_eq_some_iff.mp isBest).1
  have same : row[argmax (row.take (candidateNum - 1))]? = Option.some best := by
    rw [← isBest, List.getElem?_take_of_lt (by rwa [five] at inside)]
  constructor
  · rintro ⟨score, found, largest'⟩
    obtain rfl := Option.some.inj (same.symm.trans found)
    refine ⟨best, List.mem_of_getElem? isBest, fun dun isDun => ?_⟩
    exact largest' dun (List.mem_of_getElem? isDun)
  · rintro ⟨score, member, beats⟩
    refine ⟨best, same, fun other inRow => ?_⟩
    rw [← List.take_append_drop dunIndex row] at inRow
    cases List.mem_append.mp inRow with
    | inl before => exact largest other before
    | inr behind =>
      obtain ⟨place, isPlace⟩ := List.mem_iff_getElem?.mp behind
      rw [List.getElem?_drop] at isPlace
      have last : place = 0 := by
        have below := (List.getElem?_eq_some_iff.mp isPlace).1
        rw [six] at below
        simp only [candidateNum, dunIndex] at below
        omega
      rw [last, Nat.add_zero] at isPlace
      exact (beats other isPlace).trans (largest score member)

/-! ## The tensor -/

theorem foldl_outputCount (outputShape : List Nat) (count : Int) :
    outputShape.foldl (fun (count : Int) (dimension : Nat) => (count * dimension).bmod (2 ^ 32))
        (count.bmod (2 ^ 32)) =
      (count * outputShape.prod).bmod (2 ^ 32) := by
  induction outputShape generalizing count with
  | nil => simp
  | cons dimension rest inductionHypothesis =>
    rw [List.foldl_cons, Int.bmod_mul_bmod, inductionHypothesis, List.prod_cons, Int.natCast_mul,
      Int.mul_assoc]

theorem outputCount_eq (outputShape : List Nat) :
    outputCount outputShape = (outputShape.prod : Int).bmod (2 ^ 32) := by
  have counted := foldl_outputCount outputShape 1
  rwa [Int.one_mul] at counted

/-- A tensor that an `int` counts has a label for each row. -/
theorem punctionFrom_rows {floatData : List Score} {count : Int} {rows : List (List Score)} {i : Nat}
    (six : ∀ row ∈ rows, row.length = candidateNum) (rest : floatData.drop i = rows.flatten)
    (all : count = i + candidateNum * rows.length) (isInt : count < 2 ^ 31) :
    punctionFrom floatData count i =
      some (rows.map fun row => argmax (row.take (candidateNum - 1))) := by
  induction rows generalizing i with
  | nil =>
    rw [punctionFrom, if_neg]
    · rfl
    · simp [all]
  | cons row rows inductionHypothesis =>
    obtain ⟨first, others⟩ := List.forall_mem_cons.mp six
    have later : floatData.drop (i + candidateNum) = rows.flatten := by
      rw [← List.drop_drop, rest, List.flatten_cons, List.drop_left' first]
    have length : ((rows.length + 1 : Nat) : Int) = rows.length + 1 := rfl
    have six : (candidateNum : Int) = 6 := rfl
    rw [List.length_cons, length, six] at all
    have more : (i : Int) < count ∧ i + candidateNum < 2 ^ 31 := by
      simp only [candidateNum]
      omega
    have all' : count = (i + candidateNum : Nat) + candidateNum * rows.length := by
      rw [Nat.cast_add, six]
      omega
    rw [punctionFrom, if_pos more.1, if_pos more.2, inductionHypothesis others later all', rest,
      List.flatten_cons, List.take_append_of_le_length (by rw [first]; decide)]
    rfl

/-- No more labels than the count asks for. -/
theorem punctionFrom_length {floatData : List Score} {count : Int} {i : Nat} {labels : List Nat}
    (returns : punctionFrom floatData count i = some labels) :
    6 * (labels.length : Int) < max (count - i) 0 + 6 := by
  fun_induction punctionFrom floatData count i generalizing labels with
  | case1 i more isInt inductionHypothesis =>
    obtain ⟨later, eq, rfl⟩ := Option.map_eq_some_iff.mp returns
    have rest := inductionHypothesis eq
    rw [List.length_cons, Int.natCast_add, Int.natCast_one]
    simp only [candidateNum, Int.natCast_add] at rest
    omega
  | case2 => cases returns
  | case3 =>
    cases returns
    rw [List.length_nil]
    omega

/-- A tensor that an `int` does not count does not have all its labels. -/
theorem length_punction_lt {outputShape : List Nat} {floatData : List Score} {rows : Nat}
    (shape : outputShape.prod = candidateNum * rows) (large : 2 ^ 31 ≤ candidateNum * rows)
    {labels : List Nat} (returns : punction outputShape floatData = some labels) :
    labels.length < rows := by
  have length := punctionFrom_length returns
  rw [outputCount_eq, shape, Nat.cast_zero, Int.sub_zero] at length
  have below := @Int.bmod_lt (candidateNum * rows : Nat) (2 ^ 32) (by decide)
  have same := @Int.bmod_emod (candidateNum * rows : Nat) (2 ^ 32)
  simp only [candidateNum] at length below same large
  omega

/-- `Infer` returns a best class for each row exactly where an `int` counts the scores and no row
    has its largest score in the last class alone. -/
theorem punction_best_iff {outputShape : List Nat} {rows : List (List Score)}
    (shape : outputShape.prod = candidateNum * rows.length)
    (six : ∀ row ∈ rows, row.length = candidateNum) :
    (∃ labels, punction outputShape rows.flatten = some labels ∧ List.Forall₂ IsBest rows labels) ↔
      candidateNum * rows.length < 2 ^ 31 ∧ ∀ row ∈ rows, BeatsDun row := by
  by_cases isInt : candidateNum * rows.length < 2 ^ 31
  · have small : ((candidateNum * rows.length : Nat) : Int).bmod (2 ^ 32) =
        (candidateNum * rows.length : Nat) :=
      Int.bmod_eq_of_le (by omega) (by omega)
    have count : outputCount outputShape = (0 : Nat) + candidateNum * rows.length := by
      rw [outputCount_eq, shape, small, Int.natCast_mul, Int.natCast_zero, Int.zero_add]
    have isCounted : outputCount outputShape < 2 ^ 31 := by
      rw [outputCount_eq, shape, small]
      exact_mod_cast isInt
    have returns : punction outputShape rows.flatten =
        some (rows.map fun row => argmax (row.take (candidateNum - 1))) :=
      punctionFrom_rows six rfl count isCounted
    have best : List.Forall₂ IsBest rows (rows.map fun row => argmax (row.take (candidateNum - 1))) ↔
        ∀ row ∈ rows, BeatsDun row := by
      rw [List.forall₂_map_right_iff, List.forall₂_same]
      exact forall₂_congr fun row member => isBest_argmax_iff (six row member)
    rw [returns, and_iff_right isInt, ← best]
    constructor
    · rintro ⟨labels, same, all⟩
      rwa [Option.some.inj same]
    · exact fun all => ⟨_, rfl, all⟩
  · constructor
    · rintro ⟨labels, returns, best⟩
      have fewer := length_punction_lt shape (Nat.le_of_not_lt isInt) returns
      rw [best.length_eq] at fewer
      exact absurd fewer (Nat.lt_irrefl _)
    · exact fun both => absurd both.1 isInt

/-- The largest score is that of a period, of the class before it, and of the first and the last. -/
theorem punction_best_iff_threeRows : ∃ labels,
    punction [1, 3, 6] [[0, 1, 2, 4, 3, 1], [0, 0, 7, 1, 1, 6], [5, 0, 0, 0, 0, 5]].flatten =
        some labels ∧
      List.Forall₂ IsBest [[0, 1, 2, 4, 3, 1], [0, 0, 7, 1, 1, 6], [5, 0, 0, 0, 0, 5]] labels :=
  (@punction_best_iff Nat _ [1, 3, 6] [[0, 1, 2, 4, 3, 1], [0, 0, 7, 1, 1, 6], [5, 0, 0, 0, 0, 5]]
    (by decide) (by decide)).mpr
    ⟨by decide, by
      simp only [List.forall_mem_cons, List.not_mem_nil, false_implies, implies_true, and_true]
      exact ⟨⟨4, by decide, by decide⟩, ⟨7, by decide, by decide⟩, 5, by decide, by decide⟩⟩

/-- A row whose largest score is that of the enumeration comma is labelled with a smallest one. -/
theorem not_punction_best_dun :
    punction [1, 1, 6] [0, 0, 0, 0, 0, 1] = some [0] ∧ ¬ IsBest [0, 0, 0, 0, 0, 1] 0 := by
  constructor
  · rw [punction, punctionFrom, punctionFrom]
    decide
  · rintro ⟨score, isFirst, largest⟩
    obtain rfl := Option.some.inj isFirst
    exact absurd (largest 1 (by decide)) (by decide)

end Asr2Pass.Punctuation
