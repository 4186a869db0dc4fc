import Mathlib.Order.Bounds.Basic
import Mathlib.Data.List.Basic
import Mathlib.Order.MinMax

/-! # The edit distance

How many entries of two lists have to be inserted, deleted or replaced to make the one list the other.
It is the least number of columns that differ in an alignment of the two lists, where an entry that is
inserted or deleted stands opposite a gap.
-/

namespace Asr2Pass.Library

variable {α : Type*} [DecidableEq α]

def editDistance : List α → List α → Nat
  | [], ys => ys.length
  | x :: xs, [] => (x :: xs).length
  | x :: xs, y :: ys =>
    if x = y then editDistance xs ys
    else min (min (editDistance xs (y :: ys)) (editDistance (x :: xs) ys)) (editDistance xs ys) + 1
termination_by xs ys => xs.length + ys.length

@[simp] theorem editDistance_nil_left (ys : List α) : editDistance [] ys = ys.length := by
  rw [editDistance]

@[simp] theorem editDistance_nil_right (xs : List α) : editDistance xs [] = xs.length := by
  cases xs with
  | nil => rw [editDistance]
  | cons x xs => rw [editDistance]

theorem editDistance_cons_cons (x y : α) (xs ys : List α) :
    editDistance (x :: xs) (y :: ys) =
      if x = y then editDistance xs ys
      else min (min (editDistance xs (y :: ys)) (editDistance (x :: xs) ys)) (editDistance xs ys) + 1 := by
  rw [editDistance]

theorem editDistance_comm (xs ys : List α) : editDistance xs ys = editDistance ys xs := by
  induction xs, ys using editDistance.induct with
  | case1 ys => simp
  | case2 x xs => simp
  | case3 x xs ys same => rw [editDistance_cons_cons, editDistance_cons_cons, if_pos rfl, if_pos rfl, same]
  | case4 x xs y ys differs first second both =>
    rw [editDistance_cons_cons, editDistance_cons_cons, if_neg differs, if_neg (Ne.symm differs), first,
      second, both, min_comm (editDistance _ xs)]

/-- One entry more changes the distance by one at most. -/
theorem editDistance_cons_near (x : α) (xs ys : List α) :
    editDistance xs ys ≤ editDistance (x :: xs) ys + 1 ∧
      editDistance (x :: xs) ys ≤ editDistance xs ys + 1 := by
  cases ys with
  | nil =>
    rw [editDistance_nil_right, editDistance_nil_right, List.length_cons]
    omega
  | cons y ys =>
    -- Either list can be the one that is a single entry longer.
    have shorter := editDistance_cons_near x xs ys
    have swapped := editDistance_cons_near y ys xs
    rw [editDistance_comm ys, editDistance_comm (y :: ys)] at swapped
    rw [editDistance_cons_cons]
    split
    · exact swapped.symm
    · omega
termination_by xs.length + ys.length

/-! ## Alignments -/

/-- Columns with an entry of each list, or an entry of one of them opposite a gap. -/
structure Aligns (gap : α) (columns : List (α × α)) (xs ys : List α) : Prop where
  left : (columns.map Prod.fst).filter (· ≠ gap) = xs
  right : (columns.map Prod.snd).filter (· ≠ gap) = ys

def differing (columns : List (α × α)) : Nat :=
  columns.countP fun column => column.1 ≠ column.2

theorem differing_cons (column : α × α) (columns : List (α × α)) :
    differing (column :: columns) =
      differing columns + if column.1 = column.2 then 0 else 1 := by
  rw [differing, List.countP_cons, ← differing]
  by_cases same : column.1 = column.2 <;> simp [same]

variable {gap : α} {columns : List (α × α)} {xs ys : List α}

/-- No alignment has fewer columns that differ. -/
theorem editDistance_le (aligns : Aligns gap columns xs ys) :
    editDistance xs ys ≤ differing columns := by
  induction columns generalizing xs ys with
  | nil =>
    obtain ⟨rfl, rfl⟩ := aligns
    simp
  | cons column columns inductionHypothesis =>
    obtain ⟨x, y⟩ := column
    obtain ⟨rfl, rfl⟩ := aligns
    have rest := @inductionHypothesis ((columns.map Prod.fst).filter (· ≠ gap))
      ((columns.map Prod.snd).filter (· ≠ gap)) ⟨rfl, rfl⟩
    rw [differing_cons]
    simp only [List.map_cons, List.filter_cons]
    generalize (columns.map Prod.fst).filter (· ≠ gap) = xs at rest
    generalize (columns.map Prod.snd).filter (· ≠ gap) = ys at rest
    by_cases noX : x = gap
    · by_cases noY : y = gap
      · simpa [noX, noY] using rest
      · -- an insertion
        have near := (editDistance_cons_near y ys xs).2
        rw [editDistance_comm, editDistance_comm ys] at near
        simp only [noX, noY, Ne.symm noY, ne_eq, not_true, not_false_eq_true, decide_false, decide_true,
          Bool.false_eq_true, if_false, if_true]
        omega
    · by_cases noY : y = gap
      · have near := (editDistance_cons_near x xs ys).2
        simp only [noX, noY, ne_eq, not_true, not_false_eq_true, decide_false, decide_true,
          Bool.false_eq_true, if_false, if_true]
        omega
      · simp only [noX, noY, ne_eq, not_false_eq_true, decide_true, if_true]
        rw [editDistance_cons_cons]
        split <;> omega

theorem Aligns.insertion (aligns : Aligns gap columns xs ys) {y : α} (noGap : y ≠ gap) :
    Aligns gap ((gap, y) :: columns) xs (y :: ys) := by
  obtain ⟨rfl, rfl⟩ := aligns
  exact ⟨by simp, by simp [noGap]⟩

theorem Aligns.deletion (aligns : Aligns gap columns xs ys) {x : α} (noGap : x ≠ gap) :
    Aligns gap ((x, gap) :: columns) (x :: xs) ys := by
  obtain ⟨rfl, rfl⟩ := aligns
  exact ⟨by simp [noGap], by simp⟩

theorem Aligns.both (aligns : Aligns gap columns xs ys) {x y : α} (noGap : x ≠ gap)
    (noGap' : y ≠ gap) : Aligns gap ((x, y) :: columns) (x :: xs) (y :: ys) := by
  obtain ⟨rfl, rfl⟩ := aligns
  exact ⟨by simp [noGap], by simp [noGap']⟩

/-- Some alignment has as many. -/
theorem exists_aligns (noGap : ∀ x ∈ xs, x ≠ gap) (noGap' : ∀ y ∈ ys, y ≠ gap) :
    ∃ columns, Aligns gap columns xs ys ∧ differing columns = editDistance xs ys := by
  induction xs, ys using editDistance.induct with
  | case1 ys =>
    induction ys with
    | nil => exact ⟨[], ⟨rfl, rfl⟩, by simp [differing]⟩
    | cons y ys inductionHypothesis =>
      obtain ⟨isY, others⟩ := List.forall_mem_cons.mp noGap'
      obtain ⟨columns, aligns, count⟩ := inductionHypothesis others
      refine ⟨_, aligns.insertion isY, ?_⟩
      simp [differing_cons, count, isY.symm]
  | case2 x xs =>
    induction xs generalizing x with
    | nil =>
      have isX := noGap x List.mem_cons_self
      refine ⟨_, @Aligns.deletion _ _ gap [] [] [] ⟨rfl, rfl⟩ x isX, ?_⟩
      simp [differing, isX]
    | cons x' xs inductionHypothesis =>
      obtain ⟨isX, others⟩ := List.forall_mem_cons.mp noGap
      obtain ⟨columns, aligns, count⟩ := inductionHypothesis x' others
      refine ⟨_, aligns.deletion isX, ?_⟩
      simp [differing_cons, count, isX]
  | case3 x xs ys inductionHypothesis =>
    obtain ⟨isX, others⟩ := List.forall_mem_cons.mp noGap
    obtain ⟨isY, others'⟩ := List.forall_mem_cons.mp noGap'
    obtain ⟨columns, aligns, count⟩ := inductionHypothesis others others'
    refine ⟨_, aligns.both isX isY, ?_⟩
    simp [differing_cons, count, editDistance_cons_cons]
  | case4 x xs y ys differs deleted inserted replaced =>
    obtain ⟨isX, others⟩ := List.forall_mem_cons.mp noGap
    obtain ⟨isY, others'⟩ := List.forall_mem_cons.mp noGap'
    rw [editDistance_cons_cons, if_neg differs]
    -- the smallest of the three tells which column comes first
    rcases min_choice (min (editDistance xs (y :: ys)) (editDistance (x :: xs) ys))
      (editDistance xs ys) with outer | outer
    · rcases min_choice (editDistance xs (y :: ys)) (editDistance (x :: xs) ys) with inner | inner
      · obtain ⟨columns, aligns, count⟩ := deleted others noGap'
        refine ⟨_, aligns.deletion isX, ?_⟩
        rw [outer, inner]
        simp only [differing_cons, count, isX, if_false]
      · obtain ⟨columns, aligns, count⟩ := inserted noGap others'
        refine ⟨_, aligns.insertion isY, ?_⟩
        rw [outer, inner]
        simp only [differing_cons, count, isY.symm, if_false]
    · obtain ⟨columns, aligns, count⟩ := replaced others others'
      refine ⟨_, aligns.both isX isY, ?_⟩
      simp [differing_cons, count, differs, outer]

/-- The edit distance is the least number of columns that differ. -/
theorem editDistance_isLeast (noGap : ∀ x ∈ xs, x ≠ gap) (noGap' : ∀ y ∈ ys, y ≠ gap) :
    IsLeast {count | ∃ columns, Aligns gap columns xs ys ∧ differing columns = count}
      (editDistance xs ys) := by
  refine ⟨exists_aligns noGap noGap', ?_⟩
  rintro count ⟨columns, aligns, rfl⟩
  exact editDistance_le aligns

theorem Aligns.reverse (aligns : Aligns gap columns xs ys) :
    Aligns gap columns.reverse xs.reverse ys.reverse := by
  obtain ⟨rfl, rfl⟩ := aligns
  exact ⟨by rw [List.map_reverse, List.filter_reverse], by rw [List.map_reverse, List.filter_reverse]⟩

/-- The distance is the same from both ends. -/
theorem editDistance_reverse (noGap : ∀ x ∈ xs, x ≠ gap) (noGap' : ∀ y ∈ ys, y ≠ gap) :
    editDistance xs.reverse ys.reverse = editDistance xs ys := by
  have reversed (columns : List (α × α)) : differing columns.reverse = differing columns := by
    rw [differing, List.countP_reverse, differing]
  -- A best alignment of the one pair, read backwards, is an alignment of the other.
  apply le_antisymm
  · obtain ⟨columns, aligns, count⟩ := exists_aligns noGap noGap'
    rw [← count, ← reversed]
    exact editDistance_le aligns.reverse
  · obtain ⟨columns, aligns, count⟩ := exists_aligns
      (fun x member => noGap x (List.mem_reverse.mp member))
      (fun y member => noGap' y (List.mem_reverse.mp member))
    have back := aligns.reverse
    rw [List.reverse_reverse, List.reverse_reverse] at back
    rw [← count, ← reversed]
    exact editDistance_le back

end Asr2Pass.Library
