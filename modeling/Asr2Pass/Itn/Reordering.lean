import Asr2Pass.Itn.MarkedTokens
import Mathlib.Algebra.BigOperators.Group.List.Basic
import Mathlib.Algebra.GroupWithZero.Nat

/-! # What `reorder` leaves out

A token whose name has a fixed order is rendered with the fields that the order lists.  A token of
another name keeps all of them.
-/

namespace Asr2Pass.Itn

open Text Library

/-! ## Arranged tokens -/

/-- The same name and the same fields; those that the order of the name lists are in this order. -/
def Arranges (parseType : ParseType) (token token' : Marked) : Prop :=
  token'.name = token.name ∧ token'.fields.Perm token.fields ∧
    ∀ order, parseType.orders.lookup (encode token.name) = some order →
      ((token'.fields.map Field.keyText).filter (· ∈ order)).Sublist order

/-- The parser comes to an end, and the output has each token in its place with all its fields. -/
def KeepsAll (parseType : ParseType) (tokens : List Marked) : Prop :=
  ∃ tokens', List.Forall₂ (Arranges parseType) tokens tokens' ∧ ∃ enough, ∀ fuel ≥ enough,
    reorder parseType fuel (encode (writtenOut tokens)) = .done (encode (writtenOut tokens'))

/-- A fixed order of the name lists every key of the token. -/
def IsListed (parseType : ParseType) (token : Marked) : Prop :=
  ∀ order, parseType.orders.lookup (encode token.name) = some order →
    ∀ field ∈ token.fields, field.keyText ∈ order

/-- The fields that a fixed order does not list. -/
def Marked.dropped (parseType : ParseType) (token : Marked) : List Field :=
  match parseType.orders.lookup (encode token.name) with
  | none => []
  | some order => leftOut Field.keyText order token.fields

variable {parseType : ParseType} {token : Marked} {tokens : List Marked}

theorem dropped_eq_nil_iff : token.dropped parseType = [] ↔ IsListed parseType token := by
  rw [Marked.dropped, IsListed]
  cases parseType.orders.lookup (encode token.name) with
  | none => simp
  | some order => simp [leftOut]

theorem arrangedFields_append_dropped_perm :
    (token.arrangedFields parseType ++ token.dropped parseType).Perm token.fields := by
  rw [Marked.arrangedFields, Marked.dropped]
  cases fixed : parseType.orders.lookup (encode token.name) with
  | none => rw [List.append_nil]
  | some order => exact arrange_append_leftOut_perm (nodup_of_lookup fixed) token.distinct_keyText

theorem arranges_arranged (isListed : IsListed parseType token) :
    Arranges parseType token (token.arranged parseType) := by
  refine ⟨rfl, ?_, fun order fixed => ?_⟩
  · have all := @arrangedFields_append_dropped_perm parseType token
    rwa [dropped_eq_nil_iff.mpr isListed, List.append_nil] at all
  · rw [Marked.arranged_fields, Marked.arrangedFields, fixed]
    exact List.filter_sublist.trans map_arrange_sublist

/-! ## Lengths -/

theorem length_text (token : Marked) :
    token.text.length = token.name.length + (token.fields.flatMap Field.text).length + 4 := by
  simp only [Marked.text, List.length_append, List.length_cons, List.length_nil]
  omega

theorem length_writtenOut (nonempty : tokens ≠ []) :
    (writtenOut tokens).length + 1 = (tokens.map fun token => token.text.length + 1).sum := by
  have rest (tokens : List Marked) : (tokens.flatMap fun token => ' ' :: token.text).length =
      (tokens.map fun token => token.text.length + 1).sum := by
    simp [List.length_flatMap]
  cases tokens with
  | nil => exact absurd rfl nonempty
  | cons token others =>
    rw [writtenOut, List.length_append, rest, List.map_cons, List.sum_cons]
    omega

/-- The text gets shorter by the fields that are dropped. -/
theorem length_arranged (parseType : ParseType) (token : Marked) :
    token.text.length = (token.arranged parseType).text.length +
      ((token.dropped parseType).flatMap Field.text).length := by
  have all := ((@arrangedFields_append_dropped_perm parseType token).flatMap_right Field.text).length_eq
  rw [List.flatMap_append, List.length_append] at all
  rw [length_text, length_text, Marked.arranged_name, Marked.arranged_fields, ← all]
  omega

/-- Tokens with the same fields make texts of one length. -/
theorem length_of_arranges {tokens' : List Marked} (arranged : List.Forall₂ (Arranges parseType) tokens tokens') :
    (tokens'.map fun token => token.text.length + 1).sum =
      (tokens.map fun token => token.text.length + 1).sum := by
  induction arranged with
  | nil => rfl
  | cons first _ inductionHypothesis =>
    obtain ⟨name, fields, -⟩ := first
    have length := (fields.flatMap_right Field.text).length_eq
    rw [List.map_cons, List.map_cons, List.sum_cons, List.sum_cons, inductionHypothesis, length_text,
      length_text, name, length]

/-! ## All fields -/

theorem nonempty_of_keepsAll (keepsAll : KeepsAll parseType tokens) : tokens ≠ [] := by
  obtain ⟨tokens', -, enough, returns⟩ := keepsAll
  rintro rfl
  have failed := returns enough (Nat.le_refl enough)
  rw [reorder_writtenOut_nil] at failed
  cases failed

/-- The parser gets through the values of the output, and they are those of the tokens. -/
theorem through_of_keepsAll (keepsAll : KeepsAll parseType tokens) : ∀ token ∈ tokens,
    ∀ field ∈ token.fields, Through '\"' '\\' (.value false) field.value := by
  obtain ⟨tokens', arranged, enough, returns⟩ := keepsAll
  have through := through_of_reorder (returns enough (Nat.le_refl enough))
  clear returns
  induction arranged with
  | nil => simp
  | cons first _ inductionHypothesis =>
    obtain ⟨-, fields, -⟩ := first
    obtain ⟨reads, others⟩ := List.forall_mem_cons.mp through
    exact List.forall_mem_cons.mpr
      ⟨fun field inside => reads field (fields.mem_iff.mpr inside), inductionHypothesis others⟩

/-- An output with all fields is as long as the text was, so that no field is dropped. -/
theorem isListed_of_keepsAll (keepsAll : KeepsAll parseType tokens) :
    ∀ token ∈ tokens, IsListed parseType token := by
  have nonempty := nonempty_of_keepsAll keepsAll
  have through := through_of_keepsAll keepsAll
  obtain ⟨tokens', arranged, enough, returns⟩ := keepsAll
  have output := returns (max enough ((writtenOut tokens).length + 2)) (Nat.le_max_left _ _)
  rw [reorder_through parseType nonempty through (by omega)] at output
  have same := congrArg List.length (encode_injective (Outcome.done.inj output))
  have nonempty' : tokens' ≠ [] := by
    rintro rfl
    cases arranged
    exact nonempty rfl
  have sums := length_of_arranges arranged
  rw [← length_writtenOut nonempty', ← same, length_writtenOut (by simpa using nonempty),
    List.map_map] at sums
  have split : (tokens.map fun token => token.text.length + 1).sum =
      (tokens.map ((fun token => token.text.length + 1) ∘ Marked.arranged parseType)).sum +
        (tokens.map fun token => ((token.dropped parseType).flatMap Field.text).length).sum := by
    rw [← List.sum_map_add]
    refine congrArg List.sum (List.map_congr_left fun token _ => ?_)
    rw [length_arranged parseType token, Function.comp_apply]
    omega
  have nothing := List.sum_eq_zero_iff_forall_eq_nat.mp (Nat.left_eq_add.mp (sums.trans split))
  rw [List.forall_mem_map] at nothing
  intro token member
  rw [← dropped_eq_nil_iff]
  have empty := List.length_eq_zero_iff.mp (nothing token member)
  rw [List.flatMap_eq_nil_iff] at empty
  refine List.eq_nil_iff_forall_not_mem.mpr fun field inside => ?_
  cases empty field inside

/-- All fields of all tokens are kept exactly when there is a token, the parser gets through the
    values, and no fixed order misses a key. -/
theorem keepsAll_iff (parseType : ParseType) (tokens : List Marked) :
    KeepsAll parseType tokens ↔ tokens ≠ [] ∧
      (∀ token ∈ tokens, ∀ field ∈ token.fields, Through '\"' '\\' (.value false) field.value) ∧
      ∀ token ∈ tokens, IsListed parseType token := by
  constructor
  · intro keepsAll
    exact ⟨nonempty_of_keepsAll keepsAll, through_of_keepsAll keepsAll, isListed_of_keepsAll keepsAll⟩
  · rintro ⟨nonempty, through, isListed⟩
    refine ⟨tokens.map (Marked.arranged parseType), ?_, (writtenOut tokens).length + 2, fun fuel enough => ?_⟩
    · rw [List.forall₂_map_right_iff, List.forall₂_same]
      exact fun token member => arranges_arranged (isListed token member)
    · exact reorder_through parseType nonempty through (by omega)

theorem areLetters_date : ∀ char ∈ ['d', 'a', 't', 'e'], IsLetter char :=
  areLetters_of_all (by decide +kernel)

theorem areLetters_week : ∀ char ∈ ['w', 'e', 'e', 'k'], IsLetter char :=
  areLetters_of_all (by decide +kernel)

theorem areLetters_year : ∀ char ∈ ['y', 'e', 'a', 'r'], IsLetter char :=
  areLetters_of_all (by decide +kernel)

/-- A date with a key that its order does not list. -/
def dateWithWeek : Marked where
  name := ['d', 'a', 't', 'e']
  fields := [⟨['w', 'e', 'e', 'k'], ['3']⟩, ⟨['y', 'e', 'a', 'r'], ['9']⟩]
  isName := ⟨by simp, areLetters_date⟩
  areKeys := List.forall_mem_cons.mpr ⟨⟨by simp, areLetters_week⟩,
    List.forall_mem_singleton.mpr ⟨by simp, areLetters_year⟩⟩
  distinct := by decide
  written := by simp [Written]

/-- The week is left out. -/
theorem not_keepsAll_dateWithWeek :
    writtenOut [dateWithWeek] = "date \x7b week: \"3\" year: \"9\" \x7d".toList ∧
      reorder .kITN 99 (encode (writtenOut [dateWithWeek])) = .done (bytes "date \x7b year: \"9\" \x7d") ∧
      ¬ KeepsAll .kITN [dateWithWeek] := by
  have output : encode (writtenOut [dateWithWeek.arranged .kITN]) = bytes "date \x7b year: \"9\" \x7d" := by
    decide +kernel
  refine ⟨by decide +kernel, ?_, fun keepsAll => ?_⟩
  · rw [reorder_through .kITN (by simp) (by decide +kernel) (by decide +kernel), ← output]
    rfl
  · have listed := isListed_of_keepsAll keepsAll dateWithWeek (List.mem_singleton_self _)
    have week := listed [bytes "year", bytes "month", bytes "day"] (by decide +kernel) _ List.mem_cons_self
    exact absurd week (by decide +kernel)

end Asr2Pass.Itn
