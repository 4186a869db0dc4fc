import Asr2Pass.Itn.MarkedTokens

/-! # Tokens that are parsed back

A value is written with escaped characters.  `parse_value` keeps its flag for one character after an
escaped one, so that a backslash there is taken for a plain character: it gets through some values
and not through others, and a rendered text comes back exactly when it gets through all of them.
-/

namespace Asr2Pass.Itn

open Text Library

/-! ## The rendered text -/

/-- A token with a name and keys of letters and written values.  The name has no fixed order. -/
structure Tagged where
  name : List Char
  fields : List Field
  isName : name ≠ [] ∧ ∀ char ∈ name, IsLetter char
  areKeys : ∀ field ∈ fields, field.key ≠ [] ∧ ∀ char ∈ field.key, IsLetter char
  distinct : (fields.map Field.key).Nodup
  written : ∀ field ∈ fields, Written '\"' '\\' false field.value
  free : ∀ parseType : ParseType, parseType.orders.lookup (encode name) = none

/-- The name and the fields, in braces. -/
def Tagged.text (token : Tagged) : List Char :=
  token.name ++ ' ' :: '\x7b' :: token.fields.flatMap Field.text ++ [' ', '\x7d']

/-- The tokens with a space between them. -/
def rendered : List Tagged → List Char
  | [] => []
  | token :: rest => token.text ++ rest.flatMap fun token => ' ' :: token.text

/-- The parser and `Token::string` give the text back. -/
def RoundTrips (parseType : ParseType) (tokens : List Tagged) : Prop :=
  ∃ fuel, reorder parseType fuel (encode (rendered tokens)) = .done (encode (rendered tokens))

/-! ## The tokens without their names' freedom -/

def Tagged.marked (token : Tagged) : Marked :=
  ⟨token.name, token.fields, token.isName, token.areKeys, token.distinct, token.written⟩

theorem writtenOut_marked (tokens : List Tagged) :
    writtenOut (tokens.map Tagged.marked) = rendered tokens := by
  cases tokens with
  | nil => rfl
  | cons token rest =>
    rw [rendered, List.map_cons, writtenOut, List.flatMap_map]
    rfl

/-- A name without a fixed order leaves the fields as they are. -/
theorem arranged_marked (parseType : ParseType) (tokens : List Tagged) :
    (tokens.map Tagged.marked).map (Marked.arranged parseType) = tokens.map Tagged.marked := by
  rw [List.map_map]
  refine List.map_congr_left fun token _ => ?_
  have same : token.marked.arrangedFields parseType = token.fields := by
    rw [Marked.arrangedFields, Tagged.marked, token.free parseType]
  simp only [Function.comp_apply, Marked.arranged, same]
  rfl

/-! ## The round trip -/

/-- The parser gets through every value of a text that comes back. -/
theorem reads_of_roundTrips {parseType : ParseType} {tokens : List Tagged}
    (roundTrips : RoundTrips parseType tokens) : ∀ token ∈ tokens, ∀ field ∈ token.fields,
      Through '\"' '\\' (.value false) field.value := by
  obtain ⟨fuel, returns⟩ := roundTrips
  rw [← writtenOut_marked] at returns
  exact fun token member => through_of_reorder returns token.marked (List.mem_map_of_mem member)

/-- A text whose values the parser gets through comes back. -/
theorem roundTrips_of_reads (parseType : ParseType) {tokens : List Tagged} (nonempty : tokens ≠ [])
    (through : ∀ token ∈ tokens, ∀ field ∈ token.fields,
      Through '\"' '\\' (.value false) field.value) : RoundTrips parseType tokens := by
  have some : tokens.map Tagged.marked ≠ [] := by simpa using nonempty
  have returns := reorder_through parseType some (List.forall_mem_map.mpr through) (Nat.lt_succ_self _)
  rw [arranged_marked, writtenOut_marked] at returns
  exact ⟨_, returns⟩

/-- A text of tokens comes back exactly when there is a token and the parser gets through the
    values. -/
theorem roundTrips_iff (parseType : ParseType) (tokens : List Tagged) :
    RoundTrips parseType tokens ↔ tokens ≠ [] ∧ ∀ token ∈ tokens, ∀ field ∈ token.fields,
      Through '\"' '\\' (.value false) field.value := by
  constructor
  · intro roundTrips
    refine ⟨fun empty => ?_, reads_of_roundTrips roundTrips⟩
    obtain ⟨fuel, returns⟩ := roundTrips
    rw [empty, ← writtenOut_marked, List.map_nil, reorder_writtenOut_nil] at returns
    cases returns
  · exact fun conditions => roundTrips_of_reads parseType conditions.1 conditions.2

theorem isLetter_n : IsLetter 'n' := by decide +kernel

theorem isLetter_a : IsLetter 'a' := by decide +kernel

theorem lookup_n (parseType : ParseType) : parseType.orders.lookup (encode ['n']) = none := by
  cases parseType <;> decide +kernel

/-- A value of two escaped quotes. -/
def twoQuotes : Tagged where
  name := ['n']
  fields := [⟨['a'], ['\\', '\"', '\\', '\"']⟩]
  isName := ⟨by simp, fun char member => by rw [List.mem_singleton.mp member]; exact isLetter_n⟩
  areKeys := by simpa using isLetter_a
  distinct := by decide
  written := by simp [Written]
  free := lookup_n

/-- The second quote is taken for the end of the value. -/
theorem not_roundTrips_twoQuotes : ¬ RoundTrips .kITN [twoQuotes] := by
  intro roundTrips
  have reads := reads_of_roundTrips roundTrips twoQuotes (by simp) _ (List.mem_singleton_self _)
  exact absurd reads (by decide)

end Asr2Pass.Itn
