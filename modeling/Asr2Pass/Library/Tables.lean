import Mathlib.Data.List.Basic

/-! # Tables filled along a recurrence

A table is a list of rows and is written cell by cell.  Where every cell is made of the one above it,
the one on its left and the one between these, the first row and the first column decide what the
table holds in the end, whatever else was in it.
-/

namespace Asr2Pass.Library

/-- A loop over a counter keeps what every turn passes on. -/
theorem exists_foldlM_range {σ : Type*} {turn : σ → Nat → Option σ} {holds : Nat → σ → Prop}
    {count : Nat} {state : σ} (start : holds 0 state)
    (step : ∀ done < count, ∀ state, holds done state →
      ∃ next, turn state done = some next ∧ holds (done + 1) next) :
    ∃ last, (List.range count).foldlM turn state = some last ∧ holds count last := by
  induction count with
  | zero => exact ⟨state, rfl, start⟩
  | succ count inductionHypothesis =>
    obtain ⟨middle, ran, held⟩ :=
      inductionHypothesis fun done inside => step done (Nat.lt_succ_of_lt inside)
    obtain ⟨next, stepped, held⟩ := step count (Nat.lt_succ_self count) middle held
    refine ⟨next, ?_, held⟩
    rw [List.range_succ, List.foldlM_append, ran]
    simp [stepped]

abbrev Table (α : Type*) := List (List α)

namespace Table

variable {α : Type*} {table table' : Table α} {i j : Nat} {value : α}

def entry (table : Table α) (i j : Nat) : Option α := table[i]?.bind fun row => row[j]?

/-- None where the table has no such cell. -/
def write (table : Table α) (i j : Nat) (value : α) : Option (Table α) :=
  (table.entry i j).map fun _ => table.modify i fun row => row.set j value

theorem entry_write (written : table.write i j value = some table') (i' j' : Nat) :
    table'.entry i' j' = if i' = i ∧ j' = j then some value else table.entry i' j' := by
  obtain ⟨old, inside, rfl⟩ := Option.map_eq_some_iff.mp written
  obtain ⟨row, isRow, here⟩ := Option.bind_eq_some_iff.mp inside
  obtain ⟨more, -⟩ := List.getElem?_eq_some_iff.mp here
  simp only [entry, List.getElem?_modify]
  by_cases sameRow : i' = i
  · subst sameRow
    by_cases sameColumn : j' = j
    · subst sameColumn
      simp [isRow, more]
    · simp [isRow, sameColumn, Ne.symm sameColumn]
  · simp [sameRow, Ne.symm sameRow]

theorem exists_write (inside : (table.entry i j).isSome) (value : α) :
    ∃ table', table.write i j value = some table' := by
  obtain ⟨old, here⟩ := Option.isSome_iff_exists.mp inside
  exact ⟨_, by rw [write, here, Option.map_some]⟩

/-- The table has at least so many rows and columns. -/
def Covers (table : Table α) (rows cols : Nat) : Prop :=
  ∀ i < rows, ∀ j < cols, (table.entry i j).isSome

theorem Covers.write {rows cols : Nat} (covers : table.Covers rows cols)
    (written : table.write i j value = some table') : table'.Covers rows cols := by
  intro i' row j' col
  rw [entry_write written]
  split
  · rfl
  · exact covers i' row j' col

/-- So many cells have been written, and all others are as they were. -/
structure Written (position : Nat → Nat × Nat) (values : Nat → α) (rows cols : Nat) (table : Table α)
    (count : Nat) (last : Table α) : Prop where
  covers : last.Covers rows cols
  holds : ∀ done < count, last.entry (position done).1 (position done).2 = some (values done)
  others : ∀ i j, (∀ done < count, position done ≠ (i, j)) → last.entry i j = table.entry i j

/-- Cells that are written one after the other, no cell twice. -/
theorem exists_writes {position : Nat → Nat × Nat} (once : Function.Injective position)
    (values : Nat → α) {rows cols count : Nat} (covers : table.Covers rows cols)
    (inside : ∀ done < count, (position done).1 < rows ∧ (position done).2 < cols) :
    ∃ last : Table α,
      (List.range count).foldlM
        (fun table done => table.write (position done).1 (position done).2 (values done)) table =
          some last ∧
      Written position values rows cols table count last := by
  refine exists_foldlM_range ⟨covers, by simp, by simp⟩ ?_
  rintro done isInside state ⟨covers, holds, others⟩
  obtain ⟨row, col⟩ := inside done isInside
  obtain ⟨next, stepped⟩ := exists_write (covers _ row _ col) (values done)
  refine ⟨next, stepped, covers.write stepped, ?_, ?_⟩
  · intro before isBefore
    rw [entry_write stepped]
    rcases Nat.lt_succ_iff_lt_or_eq.mp isBefore with earlier | rfl
    · have apart : ¬((position before).1 = (position done).1 ∧
          (position before).2 = (position done).2) := fun same =>
        absurd (once (Prod.ext same.1 same.2)) (Nat.ne_of_lt earlier)
      rw [if_neg apart, holds before earlier]
    · simp
  · intro i j untouched
    have apart : ¬(i = (position done).1 ∧ j = (position done).2) := fun same =>
      untouched done (Nat.lt_succ_self done) (Prod.ext same.1.symm same.2.symm)
    rw [entry_write stepped, if_neg apart]
    exact others i j fun before earlier => untouched before (Nat.lt_succ_of_lt earlier)

/-! ## Filling -/

section
variable (step : Nat → Nat → α → α → α → α)

/-- The first row and the first column are left as they are. -/
def fillCell (table : Table α) (i j : Nat) : Option (Table α) :=
  if i = 0 ∨ j = 0 then some table
  else do
    let above ← table.entry (i - 1) j
    let left ← table.entry i (j - 1)
    let diagonal ← table.entry (i - 1) (j - 1)
    table.write i j (step i j above left diagonal)

def fill (rows cols : Nat) (table : Table α) : Option (Table α) :=
  (List.range rows).foldlM
    (fun table i => (List.range cols).foldlM (fun table j => table.fillCell step i j) table) table

end

/-- The table has the values of its first row and column, of the rows before row `i`, and of the
    cells before `j` in row `i`. -/
structure HoldsUpTo (values : Nat → Nat → α) (rows cols i j : Nat) (table : Table α) : Prop where
  covers : table.Covers rows cols
  holds : ∀ i' < rows, ∀ j' < cols, (i' = 0 ∨ j' = 0 ∨ i' < i ∨ i' = i ∧ j' < j) →
    table.entry i' j' = some (values i' j')

variable {step : Nat → Nat → α → α → α → α} {values : Nat → Nat → α} {rows cols : Nat}

theorem exists_fillCell
    (recurrence : ∀ i j, values (i + 1) (j + 1) =
      step (i + 1) (j + 1) (values i (j + 1)) (values (i + 1) j) (values i j))
    (row : i < rows) (col : j < cols) (held : HoldsUpTo values rows cols i j table) :
    ∃ next, table.fillCell step i j = some next ∧ HoldsUpTo values rows cols i (j + 1) next := by
  obtain ⟨covers, holds⟩ := held
  by_cases border : i = 0 ∨ j = 0
  · refine ⟨table, if_pos border, covers, fun i' row' j' col' done => holds i' row' j' col' ?_⟩
    omega
  · obtain ⟨i, rfl⟩ := Nat.exists_eq_succ_of_ne_zero (not_or.mp border).1
    obtain ⟨j, rfl⟩ := Nat.exists_eq_succ_of_ne_zero (not_or.mp border).2
    have above := holds i (by omega) (j + 1) col (by omega)
    have left := holds (i + 1) row j (by omega) (by omega)
    have diagonal := holds i (by omega) j (by omega) (by omega)
    obtain ⟨next, written⟩ := exists_write (covers _ row _ col) (values (i + 1) (j + 1))
    refine ⟨next, ?_, covers.write written, ?_⟩
    · rw [fillCell, if_neg border]
      simp only [Nat.succ_eq_add_one, Nat.add_sub_cancel, above, left, diagonal, Option.bind_eq_bind,
        Option.bind_some]
      rw [← recurrence, written]
    · intro i' row' j' col' done
      rw [entry_write written]
      split
      next here => rw [here.1, here.2]
      next elsewhere => exact holds i' row' j' col' (by omega)

/-- A table with the right border is filled with the values of the recurrence. -/
theorem exists_fill
    (recurrence : ∀ i j, values (i + 1) (j + 1) =
      step (i + 1) (j + 1) (values i (j + 1)) (values (i + 1) j) (values i j))
    (covers : table.Covers rows cols)
    (border : ∀ i < rows, ∀ j < cols, i = 0 ∨ j = 0 → table.entry i j = some (values i j)) :
    ∃ filled, table.fill step rows cols = some filled ∧
      ∀ i < rows, ∀ j < cols, filled.entry i j = some (values i j) := by
  have start : HoldsUpTo values rows cols 0 0 table :=
    ⟨covers, fun i row j col done => border i row j col (by omega)⟩
  have byRow : ∀ i < rows, ∀ table, HoldsUpTo values rows cols i 0 table →
      ∃ next, (List.range cols).foldlM (fun table j => Table.fillCell step table i j) table = some next ∧
        HoldsUpTo values rows cols (i + 1) 0 next := by
    intro i row table held
    obtain ⟨next, ran, covers, held⟩ :=
      @exists_foldlM_range _ _ (HoldsUpTo values rows cols i) _ _ held fun j col state held =>
        exists_fillCell recurrence row col held
    exact ⟨next, ran, covers, fun i' row' j' col' done => held i' row' j' col' (by omega)⟩
  obtain ⟨filled, ran, -, held⟩ :=
    @exists_foldlM_range _ _ (fun i => HoldsUpTo values rows cols i 0) _ _ start byRow
  exact ⟨filled, ran, fun i row j col => held i row j col (.inr (.inr (.inl row)))⟩

end Table

end Asr2Pass.Library
