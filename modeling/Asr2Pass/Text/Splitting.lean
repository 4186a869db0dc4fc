import Mathlib.Data.List.Basic
import Mathlib.Data.List.Infix
import Asr2Pass.Text.Strings

/-! # Cutting strings

`split` cuts at a byte with `std::getline`, `SplitStr` at a string with `std::string::find`.
-/

namespace Asr2Pass.Text

/-- `split`: there is no piece after a last delimiter. -/
def split (text : CString) (delim : UInt8) : List CString :=
  let elems := text.splitOn delim
  if elems.getLast? = some [] then elems.dropLast else elems

/-- The loop of `SplitStr`, at most so many turns. -/
def splitStrLoop (delimiter : CString) : Nat → CString → List CString
  | 0, text => [text]
  | turns + 1, text =>
    match find delimiter text with
    | none => [text]
    | some position =>
      text.take position :: splitStrLoop delimiter turns (text.drop (position + delimiter.length))

/-- `SplitStr`.  Every turn removes a delimiter, so that there are enough turns. -/
def splitStr (text delimiter : CString) : List CString := splitStrLoop delimiter text.length text

/-! ## `find` -/

section
variable {pattern text : CString} {position : Nat}

/-- The first place where the pattern stands. -/
theorem find_eq_some :
    find pattern text = some position ↔
      pattern <+: text.drop position ∧ position ≤ text.length ∧
        ∀ before < position, ¬ pattern <+: text.drop before := by
  induction text generalizing position with
  | nil =>
    cases pattern with
    | nil => cases position <;> simp [find]
    | cons byte pattern => simp [find]
  | cons byte rest inductionHypothesis =>
    -- The pattern stands here, or the first place is one behind that in the rest.
    unfold find
    by_cases here : pattern <+: byte :: rest
    · rw [if_pos (List.isPrefixOf_iff_prefix.mpr here)]
      cases position with
      | zero => simpa using here
      | succ position =>
        constructor
        · rintro ⟨⟩
        · rintro ⟨-, -, none⟩
          exact absurd here (none 0 (Nat.succ_pos _))
    · rw [if_neg (fun found => here (List.isPrefixOf_iff_prefix.mp found))]
      cases position with
      | zero =>
        constructor
        · intro wrong
          cases found : find pattern rest <;> simp [found] at wrong
        · rintro ⟨found, -⟩
          exact absurd found here
      | succ position =>
        rw [Option.map_eq_some_iff]
        simp only [Nat.add_right_cancel_iff, exists_eq_right, inductionHypothesis,
          List.drop_succ_cons, List.length_cons, Nat.add_le_add_iff_right]
        apply and_congr_right
        intro _
        apply and_congr_right
        intro _
        constructor
        · intro none before less
          cases before with
          | zero => exact here
          | succ before => exact none before (Nat.lt_of_succ_lt_succ less)
        · intro none before less
          exact none (before + 1) (Nat.succ_lt_succ less)

theorem find_eq_none (nonempty : pattern ≠ []) :
    find pattern text = none ↔ ∀ position, ¬ pattern <+: text.drop position := by
  constructor
  · intro absent position found
    induction text generalizing position with
    | nil =>
      rw [List.drop_nil] at found
      exact nonempty (List.prefix_nil.mp found)
    | cons byte rest inductionHypothesis =>
      unfold find at absent
      split at absent
      · cases absent
      · rename_i here
        cases position with
        | zero => exact here (List.isPrefixOf_iff_prefix.mpr found)
        | succ position => exact inductionHypothesis (Option.map_eq_none_iff.mp absent) _ found
  · intro absent
    cases found : find pattern text with
    | none => rfl
    | some position => exact absurd (find_eq_some.mp found).1 (absent position)

/-- A pattern with a byte that the text does not have. -/
theorem find_of_not_mem {byte : UInt8} (member : byte ∈ pattern) (absent : byte ∉ text) :
    find pattern text = none := by
  rw [find_eq_none (List.ne_nil_of_mem member)]
  intro position found
  exact absent (List.mem_of_mem_drop (found.subset member))

/-- A place that lies in the first part depends on it alone. -/
theorem prefix_drop_append {first second : CString} (inside : position + pattern.length ≤ first.length) :
    pattern <+: (first ++ second).drop position ↔ pattern <+: first.drop position := by
  rw [List.drop_append_of_le_length (by omega)]
  constructor
  · intro found
    exact List.prefix_of_prefix_length_le found (List.prefix_append _ _) (by
      rw [List.length_drop]
      omega)
  · exact fun found => found.trans (List.prefix_append _ _)

theorem prefix_drop_length (nonempty : pattern ≠ []) (found : pattern <+: text.drop position) :
    position + pattern.length ≤ text.length := by
  have length := found.length_le
  have least := List.length_pos_iff.mpr nonempty
  rw [List.length_drop] at length
  omega

theorem find_append {first : CString} (nonempty : pattern ≠ []) (second : CString)
    (found : find pattern first = some position) : find pattern (first ++ second) = some position := by
  obtain ⟨there, most, none⟩ := find_eq_some.mp found
  have inside := prefix_drop_length nonempty there
  refine find_eq_some.mpr ⟨(prefix_drop_append inside).mpr there, ?_, ?_⟩
  · rw [List.length_append]
    omega
  · intro before less earlier
    exact none before less ((prefix_drop_append (by omega)).mp earlier)

/-- A text in which the pattern does not begin, then the pattern. -/
theorem find_join (nonempty : pattern ≠ []) (absent : find pattern (text ++ pattern.dropLast) = none)
    (rest : CString) : find pattern (text ++ pattern ++ rest) = some text.length := by
  have parts : text ++ pattern ++ rest =
      (text ++ pattern.dropLast) ++ ([pattern.getLast nonempty] ++ rest) := by
    calc text ++ pattern ++ rest
        = text ++ (pattern.dropLast ++ [pattern.getLast nonempty]) ++ rest := by
          rw [List.dropLast_append_getLast nonempty]
      _ = _ := by simp only [List.append_assoc]
  refine find_eq_some.mpr ⟨?_, ?_, ?_⟩
  · rw [List.append_assoc, List.drop_left]
    exact List.prefix_append _ _
  · rw [List.append_assoc, List.length_append]
    omega
  · intro before less earlier
    rw [parts] at earlier
    rw [find_eq_none nonempty] at absent
    have least := List.length_pos_iff.mpr nonempty
    apply absent before
    apply (prefix_drop_append _).mp earlier
    rw [List.length_append, List.length_dropLast]
    omega

end

/-! ## The pieces -/

section
variable {delimiter text : CString} {position : Nat}

theorem splitStrLoop_turns (nonempty : delimiter ≠ []) {turns turns' : Nat}
    (enough : text.length ≤ turns) (enough' : text.length ≤ turns') :
    splitStrLoop delimiter turns text = splitStrLoop delimiter turns' text := by
  have last : find delimiter [] = none := (find_eq_none nonempty).mpr fun position found => by
    rw [List.drop_nil] at found
    exact nonempty (List.prefix_nil.mp found)
  induction turns generalizing text turns' with
  | zero =>
    have empty : text = [] := List.length_eq_zero_iff.mp (Nat.le_zero.mp enough)
    subst empty
    cases turns' <;> simp [splitStrLoop, last]
  | succ turns inductionHypothesis =>
    cases turns' with
    | zero =>
      have empty : text = [] := List.length_eq_zero_iff.mp (Nat.le_zero.mp enough')
      subst empty
      simp [splitStrLoop, last]
    | succ turns' =>
      unfold splitStrLoop
      cases find delimiter text with
      | none => rfl
      | some position =>
        have least := List.length_pos_iff.mpr nonempty
        have shorter : (text.drop (position + delimiter.length)).length ≤ text.length - 1 := by
          rw [List.length_drop]
          omega
        simp only [inductionHypothesis (shorter.trans (by omega)) (shorter.trans (by omega) :
          (text.drop (position + delimiter.length)).length ≤ turns')]

theorem splitStr_ne_nil (text delimiter : CString) : splitStr text delimiter ≠ [] := by
  unfold splitStr splitStrLoop
  split
  · exact List.cons_ne_nil _ _
  · split <;> exact List.cons_ne_nil _ _

theorem splitStr_none (absent : find delimiter text = none) : splitStr text delimiter = [text] := by
  unfold splitStr splitStrLoop
  split
  · rfl
  · simp [absent]

theorem splitStr_some (nonempty : delimiter ≠ []) (found : find delimiter text = some position) :
    splitStr text delimiter =
      text.take position :: splitStr (text.drop (position + delimiter.length)) delimiter := by
  have least := List.length_pos_iff.mpr nonempty
  have inside := prefix_drop_length nonempty (find_eq_some.mp found).1
  unfold splitStr
  obtain ⟨turns, length⟩ : ∃ turns, text.length = turns + 1 := ⟨text.length - 1, by omega⟩
  rw [length, splitStrLoop, found]
  simp only [List.cons.injEq, true_and]
  apply splitStrLoop_turns nonempty _ (le_refl _)
  rw [List.length_drop]
  omega

theorem split_intercalate {delim : UInt8} {pieces : List CString}
    (plain : ∀ piece ∈ pieces, delim ∉ piece) (last : ∃ piece ∈ pieces.getLast?, piece ≠ []) :
    split (List.intercalate [delim] pieces) delim = pieces := by
  obtain ⟨piece, isLast, nonempty⟩ := last
  have some : pieces ≠ [] := by
    rintro rfl
    cases isLast
  unfold split
  rw [List.splitOn_intercalate delim plain some]
  apply if_neg
  rw [isLast]
  exact fun wrong => nonempty (Option.some.inj wrong)

/-- The bytes of joined pieces. -/
theorem mem_intercalate {byte delim : UInt8} {parts : List CString}
    (member : byte ∈ List.intercalate [delim] parts) :
    byte = delim ∨ ∃ part ∈ parts, byte ∈ part := by
  induction parts with
  | nil => cases member
  | cons part parts inductionHypothesis =>
    cases parts with
    | nil =>
      rw [List.intercalate_singleton] at member
      exact Or.inr ⟨part, List.mem_cons_self .., member⟩
    | cons next parts =>
      rw [List.intercalate_cons_cons, List.append_assoc, List.mem_append, List.mem_append] at member
      rcases member with here | separator | there
      · exact Or.inr ⟨part, List.mem_cons_self .., here⟩
      · exact Or.inl (List.mem_singleton.mp separator)
      · cases inductionHypothesis there with
        | inl same => exact Or.inl same
        | inr found =>
          obtain ⟨other, inside, here⟩ := found
          exact Or.inr ⟨other, List.mem_cons_of_mem _ inside, here⟩

/-- The first piece begins as the text does. -/
theorem head_split {delim first : UInt8} (other : first ≠ delim) (text : CString) :
    ∃ piece rest, split (first :: text) delim = (first :: piece) :: rest := by
  have elems : ∃ piece rest, (first :: text).splitOn delim = (first :: piece) :: rest := by
    rw [List.splitOn_cons_eq_if_modifyHead, if_neg (by simpa using other)]
    cases others : text.splitOn delim with
    | nil => exact absurd others (List.splitOn_ne_nil _ _)
    | cons piece rest => exact ⟨piece, rest, rfl⟩
  obtain ⟨piece, rest, elems⟩ := elems
  simp only [split, elems]
  split
  · cases rest with
    | nil => rename_i wrong; cases wrong
    | cons next rest => exact ⟨piece, _, rfl⟩
  · exact ⟨piece, rest, rfl⟩

end

end Asr2Pass.Text
