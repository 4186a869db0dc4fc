import Asr2Pass.Timestamps.Spans

/-! # Rows that are no pairs

`VectorToString` takes rows of any length.  `ParseTimestamps` gives up the whole list at the first
row that is no pair.
-/

namespace Asr2Pass.Timestamps

open Text (CString bytes split stoi toStringInt)

def rowText (row : List Int) : CString :=
  bytes "[" ++ List.intercalate (bytes ",") (row.map toStringInt) ++ bytes "]"

/-- `VectorToString` of a `vector<vector<int>>`. -/
def rowsToString (rows : List (List Int)) (outEmpty : Bool) : CString :=
  if rows = [] ∧ outEmpty then []
  else bytes "[" ++ List.intercalate (bytes ",") (rows.map rowText) ++ bytes "]"

/-- The `vector<int>` of a pair. -/
def spanRow (span : Span) : List Int := [span.1, span.2]

theorem rowText_spanRow (span : Span) : rowText (spanRow span) = spanText span := by
  simp [rowText, spanRow, spanText, List.intercalate_cons_cons]

theorem rowsToString_spans (spans : List Span) (outEmpty : Bool) :
    rowsToString (spans.map spanRow) outEmpty = vectorToString spans outEmpty := by
  have texts : (spans.map spanRow).map rowText = spans.map spanText := by
    rw [List.map_map]
    exact List.map_congr_left fun span _ => rowText_spanRow span
  simp only [rowsToString, vectorToString, texts, List.map_eq_nil_iff]

/-- A row that is read as a pair, if it is one. -/
def rowSpan : List Int → Option Span
  | [begin, last] => some (begin, last)
  | _ => none

theorem rowSpan_eq_none {row : List Int} : rowSpan row = none ↔ row.length ≠ 2 := by
  rcases row with _ | ⟨begin, _ | ⟨last, _ | ⟨third, rest⟩⟩⟩
  all_goals simp [rowSpan]

theorem eq_spanRow {row : List Int} {span : Span} (pair : rowSpan row = some span) :
    row = spanRow span := by
  rcases row with _ | ⟨begin, _ | ⟨last, _ | ⟨third, rest⟩⟩⟩
  all_goals cases pair
  rfl

/-! ## Reading a row -/

theorem mapM_stoi {row : List Int} (ints : ∀ number ∈ row, IsInt number) :
    (row.map toStringInt).mapM stoi = some row := by
  induction row with
  | nil => rfl
  | cons number rest inductionHypothesis =>
    obtain ⟨first, others⟩ := List.forall_mem_cons.mp ints
    rw [List.map_cons, List.mapM_cons, Text.stoi_toStringInt first.1 first.2,
      inductionHypothesis others]
    rfl

/-- No number of a row holds a comma or a bracket. -/
theorem split_row (row : List Int) :
    split (List.intercalate (bytes ",") (row.map toStringInt)) 44 = row.map toStringInt := by
  cases List.eq_nil_or_concat row with
  | inl none =>
    rw [none]
    rfl
  | inr some =>
    obtain ⟨front, number, rfl⟩ := some
    apply Text.split_intercalate
    · intro piece member comma
      obtain ⟨other, -, rfl⟩ := List.mem_map.mp member
      exact (plain_number comma).1 rfl
    · exact ⟨toStringInt number, by simp, toStringInt_ne_nil number⟩

theorem parseSegment_row {row : List Int} (ints : ∀ number ∈ row, IsInt number) :
    parseSegment (bytes "[" ++ List.intercalate (bytes ",") (row.map toStringInt)) =
      some (rowSpan row) := by
  have skip : (bytes "[" ++ List.intercalate (bytes ",") (row.map toStringInt)).drop 1 =
      List.intercalate (bytes ",") (row.map toStringInt) := rfl
  rw [parseSegment, skip, split_row, mapM_stoi ints]
  rcases row with _ | ⟨begin, _ | ⟨last, _ | ⟨third, rest⟩⟩⟩
  all_goals rfl

/-- One turn of the loop ends the reading at a row that is no pair. -/
theorem parseLoop_bad {row : List Int} (ints : ∀ number ∈ row, IsInt number)
    (bad : row.length ≠ 2) (turns : Nat) (timestamps : List Span) (more : CString) :
    parseLoop (turns + 1) timestamps (rowText row ++ more) = some [] := by
  have segment : ∀ byte ∈ bytes "[" ++ List.intercalate (bytes ",") (row.map toStringInt),
      decide (byte ≠ 93) = true := by
    intro byte member
    rw [decide_eq_true_eq]
    rcases List.mem_append.mp member with bracket | inside
    · rw [List.mem_singleton.mp bracket]
      decide
    · cases Text.mem_intercalate inside with
      | inl comma =>
        rw [comma]
        decide
      | inr number =>
        obtain ⟨text, isNumber, member⟩ := number
        obtain ⟨number, -, rfl⟩ := List.mem_map.mp isNumber
        exact (plain_number member).2
  have parts : rowText row ++ more =
      (bytes "[" ++ List.intercalate (bytes ",") (row.map toStringInt)) ++ (93 :: more) := by
    rw [rowText, List.append_assoc]
    rfl
  have taken : (rowText row ++ more).takeWhile (· ≠ 93) =
      bytes "[" ++ List.intercalate (bytes ",") (row.map toStringInt) := by
    rw [parts, List.takeWhile_append_of_pos segment]
    simp
  have there : rowText row ++ more ≠ [] := by
    rw [parts]
    simp
  rw [parseLoop, if_neg there, taken, parseSegment_row ints, rowSpan_eq_none.mpr bad]
  rfl

/-- A run of the loop over rows of which one is no pair. -/
theorem parseLoop_rows {rows : List (List Int)} (ints : ∀ row ∈ rows, ∀ number ∈ row, IsInt number)
    (bad : ∃ row ∈ rows, row.length ≠ 2) (turns : Nat) (timestamps : List Span) (more : CString) :
    parseLoop (rows.length + turns) timestamps
      (List.intercalate (bytes ",") (rows.map rowText) ++ more) = some [] := by
  induction rows generalizing timestamps with
  | nil =>
    obtain ⟨row, member, -⟩ := bad
    cases member
  | cons row rest inductionHypothesis =>
    obtain ⟨first, others⟩ := List.forall_mem_cons.mp ints
    rw [List.length_cons, Nat.succ_add]
    cases pair : rowSpan row with
    | none =>
      have noPair := rowSpan_eq_none.mp pair
      cases rest with
      | nil =>
        rw [List.map_singleton, List.intercalate_singleton]
        exact parseLoop_bad first noPair _ _ _
      | cons next rest =>
        rw [List.map_cons, List.map_cons, List.intercalate_cons_cons, List.append_assoc,
          List.append_assoc]
        exact parseLoop_bad first noPair _ _ _
    | some span =>
      obtain rfl := eq_spanRow pair
      have isSpan : IsSpan span := ⟨first _ (by simp [spanRow]), first _ (by simp [spanRow])⟩
      -- The row that is no pair comes later.
      have later : ∃ row ∈ rest, row.length ≠ 2 := by
        obtain ⟨other, member, noPair⟩ := bad
        cases List.mem_cons.mp member with
        | inl same => exact absurd (same ▸ rfl) noPair
        | inr inside => exact ⟨other, inside, noPair⟩
      cases rest with
      | nil =>
        obtain ⟨other, member, -⟩ := later
        cases member
      | cons next rest =>
        rw [List.map_cons, List.map_cons, List.intercalate_cons_cons, List.append_assoc,
          List.append_assoc, rowText_spanRow, parseLoop_span isSpan]
        exact inductionHypothesis others later _

/-! ## The round trip -/

theorem spans_of_rows {rows : List (List Int)} (pairs : ∀ row ∈ rows, row.length = 2) :
    ∃ spans : List Span, rows = spans.map spanRow := by
  induction rows with
  | nil => exact ⟨[], rfl⟩
  | cons row rest inductionHypothesis =>
    obtain ⟨first, others⟩ := List.forall_mem_cons.mp pairs
    obtain ⟨spans, same⟩ := inductionHypothesis others
    obtain ⟨begin, last, pair⟩ := List.length_eq_two.mp first
    exact ⟨(begin, last) :: spans, by rw [pair, same]; rfl⟩

theorem parseTimestamps_bad {rows : List (List Int)}
    (ints : ∀ row ∈ rows, ∀ number ∈ row, IsInt number) (bad : ∃ row ∈ rows, row.length ≠ 2)
    (outEmpty : Bool) : parseTimestamps (rowsToString rows outEmpty) = some [] := by
  have some : rows ≠ [] := by
    rintro rfl
    obtain ⟨row, member, -⟩ := bad
    cases member
  have longer : rows.length ≤ (List.intercalate (bytes ",") (rows.map rowText)).length := by
    rw [← @List.length_map _ _ rows rowText]
    apply length_le_intercalate
    intro text member
    obtain ⟨row, -, rfl⟩ := List.mem_map.mp member
    rw [rowText, List.append_assoc]
    exact List.cons_ne_nil _ _
  have text : rowsToString rows outEmpty =
      bytes "[" ++ (List.intercalate (bytes ",") (rows.map rowText) ++ bytes "]") := by
    rw [rowsToString, if_neg (fun none => some none.1), List.append_assoc]
  obtain ⟨turns, enough⟩ := Nat.exists_eq_add_of_le
    (show rows.length ≤ (rowsToString rows outEmpty).length by
      rw [text]
      simp only [List.length_append]
      omega)
  rw [parseTimestamps, enough, text]
  exact parseLoop_rows ints bad turns [] (bytes "]")

/-- Pairs are read back as they are, and a row that is no pair makes the reading give up. -/
theorem parseTimestamps_rowsToString {rows : List (List Int)}
    (ints : ∀ row ∈ rows, ∀ number ∈ row, IsInt number) (outEmpty : Bool) :
    ((∀ row ∈ rows, row.length = 2) →
        (parseTimestamps (rowsToString rows outEmpty)).map (List.map spanRow) = some rows) ∧
      ((∃ row ∈ rows, row.length ≠ 2) →
        parseTimestamps (rowsToString rows outEmpty) = some []) := by
  refine ⟨fun pairs => ?_, fun bad => parseTimestamps_bad ints bad outEmpty⟩
  obtain ⟨spans, rfl⟩ := spans_of_rows pairs
  have areSpans : ∀ span ∈ spans, IsSpan span := by
    intro span member
    have row := ints (spanRow span) (List.mem_map_of_mem member)
    exact ⟨row _ (by simp [spanRow]), row _ (by simp [spanRow])⟩
  rw [rowsToString_spans, parseTimestamps_vectorToString areSpans]
  rfl

/-- A word from before the start of the recording, and a row of three numbers behind it. -/
theorem parseTimestamps_rowsToString_negative :
    (parseTimestamps (rowsToString [[-20, 30]] true)).map (List.map spanRow) = some [[-20, 30]] ∧
      parseTimestamps (rowsToString [[-20, 30], [1, 2, 3]] true) = some [] :=
  ⟨(parseTimestamps_rowsToString (by simp [IsInt]) true).1 (by decide),
    (parseTimestamps_rowsToString (by simp [IsInt]) true).2 (by decide)⟩

end Asr2Pass.Timestamps
