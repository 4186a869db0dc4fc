import Asr2Pass.Library.FallibleMaps
import Asr2Pass.Text.Numbers
import Asr2Pass.Text.Splitting

/-! # Lists of timestamps as text

`VectorToString` writes the begin and the end of every word, in milliseconds, as `[[0,10],[10,25]]`,
and `ParseTimestamps` reads such a list.
-/

namespace Asr2Pass.Timestamps

open Text (CString bytes split stoi toStringInt)

/-- Two `int`: where a word begins and ends. -/
abbrev Span := Int × Int

/-- A value of type `int`. -/
def IsInt (number : Int) : Prop := -2 ^ 31 ≤ number ∧ number < 2 ^ 31

def IsSpan (span : Span) : Prop := IsInt span.1 ∧ IsInt span.2

/-! ## Writing -/

def spanText (span : Span) : CString :=
  bytes "[" ++ toStringInt span.1 ++ bytes "," ++ toStringInt span.2 ++ bytes "]"

/-- `VectorToString`. -/
def vectorToString (spans : List Span) (outEmpty : Bool) : CString :=
  if spans = [] ∧ outEmpty then []
  else bytes "[" ++ List.intercalate (bytes ",") (spans.map spanText) ++ bytes "]"

/-! ## Reading -/

/-- The numbers of a segment, and whether there are two; none where `std::stoi` throws. -/
def parseSegment (segment : CString) : Option (Option Span) := do
  match ← (split (segment.drop 1) 44).mapM stoi with
  | [begin, last] => return some (begin, last)
  | _ => return none

/-- The loop of `ParseTimestamps`, at most so many turns: up to the next `]`, and over the byte
    behind it. -/
def parseLoop : Nat → List Span → CString → Option (List Span)
  | 0, timestamps, _ => some timestamps
  | turns + 1, timestamps, text =>
    if text = [] then some timestamps
    else do
      match ← parseSegment (text.takeWhile (· ≠ 93)) with
      | none => return []
      | some span =>
        parseLoop turns (timestamps ++ [span]) ((text.dropWhile (· ≠ 93)).drop 2)

/-- `ParseTimestamps`; none where `std::stoi` throws.  Every turn reads a byte. -/
def parseTimestamps (text : CString) : Option (List Span) := parseLoop text.length [] (text.drop 1)

/-! ## What is written can be read -/

theorem plain_number {number : Int} {byte : UInt8} (member : byte ∈ toStringInt number) :
    byte ≠ 44 ∧ byte ≠ 93 := by
  constructor
  all_goals
    rintro rfl
    cases Text.mem_toStringInt member with
    | inl wrong => exact absurd wrong (by decide)
    | inr wrong => exact absurd wrong (by decide)

theorem toStringInt_ne_nil (number : Int) : toStringInt number ≠ [] := by
  intro empty
  exact Text.decimal_ne_nil _ (List.append_eq_nil_iff.mp empty).2

/-- The segment of a span is read as the span. -/
theorem parseSegment_span {span : Span} (isSpan : IsSpan span) :
    parseSegment (bytes "[" ++ toStringInt span.1 ++ bytes "," ++ toStringInt span.2) =
      some (some span) := by
  have numbers : split (toStringInt span.1 ++ bytes "," ++ toStringInt span.2) 44 =
      [toStringInt span.1, toStringInt span.2] := by
    have joined : toStringInt span.1 ++ bytes "," ++ toStringInt span.2 =
        List.intercalate [44] [toStringInt span.1, toStringInt span.2] := by
      rw [List.intercalate_cons_cons, List.intercalate_singleton]
      rfl
    rw [joined]
    apply Text.split_intercalate
    · intro piece member comma
      simp only [List.mem_cons, List.not_mem_nil, or_false] at member
      rcases member with rfl | rfl
      · exact (plain_number comma).1 rfl
      · exact (plain_number comma).1 rfl
    · exact ⟨_, rfl, toStringInt_ne_nil _⟩
  have begin := Text.stoi_toStringInt isSpan.1.1 isSpan.1.2
  have last := Text.stoi_toStringInt isSpan.2.1 isSpan.2.2
  unfold parseSegment
  have skip : (bytes "[" ++ toStringInt span.1 ++ bytes "," ++ toStringInt span.2).drop 1 =
      toStringInt span.1 ++ bytes "," ++ toStringInt span.2 := rfl
  rw [skip, numbers]
  simp [List.mapM_cons, begin, last]

/-- One turn of the loop reads a span. -/
theorem parseLoop_span {span : Span} (isSpan : IsSpan span) (turns : Nat) (timestamps : List Span)
    (more : CString) :
    parseLoop (turns + 1) timestamps (spanText span ++ more) =
      parseLoop turns (timestamps ++ [span]) (more.drop 1) := by
  have segment : ∀ byte ∈ bytes "[" ++ toStringInt span.1 ++ bytes "," ++ toStringInt span.2,
      decide (byte ≠ 93) = true := by
    intro byte member
    rw [decide_eq_true_eq]
    simp only [List.mem_append] at member
    rcases member with ((member | member) | member) | member
    · rw [List.mem_singleton.mp member]
      decide
    · exact (plain_number member).2
    · rw [List.mem_singleton.mp member]
      decide
    · exact (plain_number member).2
  -- No number has a bracket, so the segment ends at the one of the span.
  have parts : spanText span ++ more =
      (bytes "[" ++ toStringInt span.1 ++ bytes "," ++ toStringInt span.2) ++ (93 :: more) := by
    unfold spanText
    rw [List.append_assoc]
    rfl
  have taken : (spanText span ++ more).takeWhile (· ≠ 93) =
      bytes "[" ++ toStringInt span.1 ++ bytes "," ++ toStringInt span.2 := by
    rw [parts, List.takeWhile_append_of_pos segment]
    simp
  have dropped : (spanText span ++ more).dropWhile (· ≠ 93) = 93 :: more := by
    rw [parts, List.dropWhile_append_of_pos segment]
    simp
  have there : spanText span ++ more ≠ [] := by
    rw [parts]
    simp
  rw [parseLoop, if_neg there, taken, dropped, parseSegment_span isSpan]
  rfl

/-- A run of the loop reads all spans, and over the bracket behind them. -/
theorem parseLoop_spans {spans : List Span} (areSpans : ∀ span ∈ spans, IsSpan span)
    (nonempty : spans ≠ []) (turns : Nat) (timestamps : List Span) (more : CString) :
    parseLoop (spans.length + turns) timestamps
        (List.intercalate (bytes ",") (spans.map spanText) ++ bytes "]" ++ more) =
      parseLoop turns (timestamps ++ spans) more := by
  induction spans generalizing timestamps with
  | nil => exact absurd rfl nonempty
  | cons span spans inductionHypothesis =>
    obtain ⟨isSpan, others⟩ := List.forall_mem_cons.mp areSpans
    rw [List.length_cons, Nat.succ_add]
    cases spans with
    | nil =>
      rw [List.map_singleton, List.intercalate_singleton, List.append_assoc, parseLoop_span isSpan]
      exact congrArg (parseLoop · _ _) (Nat.zero_add turns)
    | cons next spans =>
      rw [List.map_cons, List.map_cons, List.intercalate_cons_cons, List.append_assoc,
        List.append_assoc, List.append_assoc, parseLoop_span isSpan]
      have rest := inductionHypothesis others (List.cons_ne_nil _ _) (timestamps ++ [span])
      rw [List.append_assoc, List.append_assoc] at rest
      exact rest

theorem length_le_intercalate {texts : List CString} (written : ∀ text ∈ texts, text ≠ []) :
    texts.length ≤ (List.intercalate (bytes ",") texts).length := by
  induction texts with
  | nil => exact Nat.zero_le _
  | cons text texts inductionHypothesis =>
    obtain ⟨first, others⟩ := List.forall_mem_cons.mp written
    have one := List.length_pos_of_ne_nil first
    cases texts with
    | nil =>
      rw [List.intercalate_singleton]
      exact one
    | cons next texts =>
      have rest := inductionHypothesis others
      rw [List.intercalate_cons_cons, List.length_append, List.length_append, List.length_cons]
      omega

theorem spanText_ne_nil (span : Span) : spanText span ≠ [] := by
  rw [spanText, List.append_assoc, List.append_assoc]
  exact List.cons_ne_nil _ _

/-- Behind a list of spans there are turns left for what follows. -/
theorem parseTimestamps_append {spans : List Span} (areSpans : ∀ span ∈ spans, IsSpan span)
    (nonempty : spans ≠ []) (outEmpty : Bool) (more : CString) :
    ∃ turns, parseTimestamps (vectorToString spans outEmpty ++ more) = parseLoop turns spans more ∧
      more.length < turns := by
  have text : vectorToString spans outEmpty ++ more = bytes "[" ++
      (List.intercalate (bytes ",") (spans.map spanText) ++ bytes "]" ++ more) := by
    unfold vectorToString
    rw [if_neg (fun empty => nonempty empty.1), List.append_assoc, List.append_assoc,
      List.append_assoc]
  have longer : spans.length ≤ (List.intercalate (bytes ",") (spans.map spanText)).length := by
    rw [← @List.length_map _ _ spans spanText]
    apply length_le_intercalate
    intro text member
    obtain ⟨span, -, rfl⟩ := List.mem_map.mp member
    exact spanText_ne_nil span
  obtain ⟨turns, enough⟩ := Nat.exists_eq_add_of_le
    (show spans.length ≤ (vectorToString spans outEmpty ++ more).length by
      rw [text]
      simp only [List.length_append]
      omega)
  refine ⟨turns, ?_, ?_⟩
  · unfold parseTimestamps
    rw [enough, text]
    exact parseLoop_spans areSpans nonempty turns [] more
  · rw [text] at enough
    simp only [List.length_append] at enough
    have bracket : (bytes "[").length = 1 := rfl
    have bracket' : (bytes "]").length = 1 := rfl
    omega

/-- What `VectorToString` writes is read back. -/
theorem parseTimestamps_vectorToString {spans : List Span} (areSpans : ∀ span ∈ spans, IsSpan span)
    (outEmpty : Bool) : parseTimestamps (vectorToString spans outEmpty) = some spans := by
  cases spans with
  | nil => cases outEmpty <;> rfl
  | cons span spans =>
    obtain ⟨turns, read, -⟩ :=
      parseTimestamps_append areSpans (List.cons_ne_nil _ _) outEmpty []
    rw [List.append_nil] at read
    rw [read]
    cases turns <;> rfl

/-- A second list behind the first one: `std::stoi` finds a bracket. -/
theorem parseTimestamps_twice {spans : List Span} (areSpans : ∀ span ∈ spans, IsSpan span)
    (nonempty : spans ≠ []) (outEmpty : Bool) (more : CString) :
    parseTimestamps (vectorToString spans outEmpty ++ (bytes "[[" ++ more)) = none := by
  obtain ⟨turns, read, enough⟩ :=
    parseTimestamps_append areSpans nonempty outEmpty (bytes "[[" ++ more)
  obtain ⟨turns, rfl⟩ : ∃ turns', turns = turns' + 1 := ⟨turns - 1, by omega⟩
  obtain ⟨piece, rest, cut⟩ := @Text.head_split 44 91 (by decide) (more.takeWhile (· ≠ 93))
  have segment : parseSegment ((bytes "[[" ++ more).takeWhile (· ≠ 93)) = none := by
    have taken : ((bytes "[[" ++ more).takeWhile (· ≠ 93)).drop 1 =
        91 :: more.takeWhile (· ≠ 93) := rfl
    have bracket : stoi (91 :: piece) = none := rfl
    unfold parseSegment
    rw [taken, cut, List.mapM_cons, bracket]
    rfl
  rw [read, parseLoop, segment]
  rfl

theorem vectorToString_ne_nil {spans : List Span} {outEmpty : Bool} (some : spans ≠ []) :
    vectorToString spans outEmpty ≠ [] := by
  unfold vectorToString
  rw [if_neg (fun empty => some empty.1)]
  exact List.cons_ne_nil _ _

/-! ## What is read is an `int` -/

theorem isInt_of_stoi {text : CString} {number : Int} (read : stoi text = some number) :
    IsInt number := by
  unfold stoi at read
  dsimp only at read
  obtain ⟨range, same⟩ := Option.ite_none_left_eq_some.mp read
  rw [← Option.some.inj same]
  simp only [not_or, not_lt, not_le] at range
  exact ⟨range.2.1, range.2.2⟩

theorem isSpan_of_parseSegment {segment : CString} {span : Span}
    (read : parseSegment segment = some (some span)) : IsSpan span := by
  obtain ⟨numbers, mapped, two⟩ := Option.bind_eq_some_iff.mp read
  have each := Library.map_some_of_mapM mapped
  have isInt : ∀ number ∈ numbers, IsInt number := by
    intro number member
    have inside : some number ∈ (split (segment.drop 1) 44).map stoi :=
      each ▸ List.mem_map_of_mem member
    obtain ⟨piece, -, parsed⟩ := List.mem_map.mp inside
    exact isInt_of_stoi parsed
  split at two
  · cases two
    exact ⟨isInt _ (by simp), isInt _ (by simp)⟩
  · cases two

theorem isSpan_of_parseLoop {turns : Nat} {timestamps spans : List Span} {text : CString}
    (areSpans : ∀ span ∈ timestamps, IsSpan span)
    (read : parseLoop turns timestamps text = some spans) : ∀ span ∈ spans, IsSpan span := by
  induction turns generalizing timestamps text with
  | zero =>
    cases read
    exact areSpans
  | succ turns inductionHypothesis =>
    unfold parseLoop at read
    split at read
    · cases read
      exact areSpans
    · obtain ⟨segment, parsed, rest⟩ := Option.bind_eq_some_iff.mp read
      cases segment with
      | none =>
        cases rest
        exact fun span member => absurd member (List.not_mem_nil)
      | some span =>
        apply inductionHypothesis _ rest
        intro other member
        cases List.mem_append.mp member with
        | inl old => exact areSpans other old
        | inr new =>
          rw [List.mem_singleton.mp new]
          exact isSpan_of_parseSegment parsed

theorem isSpan_of_parseTimestamps {text : CString} {spans : List Span}
    (read : parseTimestamps text = some spans) : ∀ span ∈ spans, IsSpan span :=
  isSpan_of_parseLoop (fun _ member => absurd member (List.not_mem_nil)) read

end Asr2Pass.Timestamps
