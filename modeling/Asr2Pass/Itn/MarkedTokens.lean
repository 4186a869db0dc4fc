import Asr2Pass.Itn.Legible
import Asr2Pass.Library.KeyedLists

/-! # Marked tokens, written and read

A marked token is written out as the grammar asks for it.  The parser reads the tokens of such a
text one by one, when it gets through their values, and each is rendered with its fields in the order
that is fixed for its name.
-/

namespace Asr2Pass.Itn

open Text Library

/-! ## The tokens as text -/

def IsLetter (char : Char) : Prop := String.utf8EncodeChar char ∈ asciiLetters

instance : DecidablePred IsLetter := fun char =>
  inferInstanceAs (Decidable (String.utf8EncodeChar char ∈ asciiLetters))

theorem areLetters_of_all {chars : List Char} (all : chars.all (fun char => IsLetter char) = true) :
    ∀ char ∈ chars, IsLetter char := by
  simpa using all

structure Field where
  key : List Char
  value : List Char

/-- A token with a name and keys of letters and written values. -/
structure Marked where
  name : List Char
  fields : List Field
  isName : name ≠ [] ∧ ∀ char ∈ name, IsLetter char
  areKeys : ∀ field ∈ fields, field.key ≠ [] ∧ ∀ char ∈ field.key, IsLetter char
  distinct : (fields.map Field.key).Nodup
  written : ∀ field ∈ fields, Written '\"' '\\' false field.value

/-- `key: "value"` behind a space. -/
def Field.text (field : Field) : List Char :=
  ' ' :: field.key ++ ':' :: ' ' :: '\"' :: field.value ++ ['\"']

/-- The name and the fields, in braces. -/
def Marked.text (token : Marked) : List Char :=
  token.name ++ ' ' :: '\x7b' :: token.fields.flatMap Field.text ++ [' ', '\x7d']

/-- The name of the member. -/
def Field.keyText (field : Field) : CString := encode field.key

/-- The fields in the order that is fixed for the name, or as they are. -/
def Marked.arrangedFields (parseType : ParseType) (token : Marked) : List Field :=
  match parseType.orders.lookup (encode token.name) with
  | none => token.fields
  | some order => arrange Field.keyText order token.fields

/-- The tokens with a space between them. -/
def writtenOut : List Marked → List Char
  | [] => []
  | token :: rest => token.text ++ rest.flatMap fun token => ' ' :: token.text

/-! ## Characters as strings -/

theorem utf8EncodeChar_injective : Function.Injective String.utf8EncodeChar := by
  intro char char' same
  have decoded := @ByteArray.utf8DecodeChar?_utf8EncodeChar_append ByteArray.empty char
  rw [same, ByteArray.utf8DecodeChar?_utf8EncodeChar_append] at decoded
  exact (Option.some.inj decoded).symm

theorem encode_injective : Function.Injective encode := by
  intro chars chars' same
  have split := string2chars_encode chars
  rw [same, string2chars_encode] at split
  exact (utf8EncodeChar_injective.list_map (Option.some.inj split)).symm

theorem encode_append (chars chars' : List Char) :
    encode (chars ++ chars') = encode chars ++ encode chars' :=
  List.flatMap_append

theorem Marked.distinct_keyText (token : Marked) : (token.fields.map Field.keyText).Nodup := by
  have nodup := token.distinct.map encode_injective
  rwa [List.map_map] at nodup

theorem nodup_orders (parseType : ParseType) : ∀ entry ∈ parseType.orders, entry.2.Nodup := by
  cases parseType <;> decide +kernel

theorem nodup_of_lookup {parseType : ParseType} {name : CString} {order : List CString}
    (fixed : parseType.orders.lookup name = some order) : order.Nodup := by
  obtain ⟨before, after, split, -⟩ := List.lookup_eq_some_iff.mp fixed
  exact nodup_orders parseType (name, order) (by simp [split])

theorem Marked.arrangedFields_subset (parseType : ParseType) (token : Marked) :
    ∀ field ∈ token.arrangedFields parseType, field ∈ token.fields := by
  intro field member
  rw [arrangedFields] at member
  split at member
  · exact member
  · exact ((mem_arrange token.distinct_keyText).mp member).1

theorem Marked.arrangedFields_distinct (parseType : ParseType) (token : Marked) :
    ((token.arrangedFields parseType).map Field.key).Nodup := by
  rw [arrangedFields]
  split
  case h_1 => exact token.distinct
  case h_2 order fixed =>
    have nodup : ((arrange Field.keyText order token.fields).map Field.keyText).Nodup :=
      map_arrange_sublist.nodup (nodup_of_lookup fixed)
    exact List.Nodup.of_map encode (by rwa [List.map_map])

/-- The token as it is rendered. -/
def Marked.arranged (parseType : ParseType) (token : Marked) : Marked where
  name := token.name
  fields := token.arrangedFields parseType
  isName := token.isName
  areKeys field member := token.areKeys field (token.arrangedFields_subset parseType field member)
  distinct := token.arrangedFields_distinct parseType
  written field member := token.written field (token.arrangedFields_subset parseType field member)

@[simp] theorem Marked.arranged_name (parseType : ParseType) (token : Marked) :
    (token.arranged parseType).name = token.name := rfl

@[simp] theorem Marked.arranged_fields (parseType : ParseType) (token : Marked) :
    (token.arranged parseType).fields = token.arrangedFields parseType := rfl

/-! ## The writer -/

/-- A text of letters is a gap for everyone. -/
theorem legible_letters {property : List CString → Prop} {chars : List Char}
    (areLetters : ∀ char ∈ chars, IsLetter char) : Legible property [] (encode chars) := by
  rw [encode_units]
  apply legible_gap (characters_map chars)
  apply gap_of_letters
  intro symbol member
  obtain ⟨char, inside, rfl⟩ := List.mem_map.mp member
  exact areLetters char inside

/-- The values of the fields as strings of characters. -/
def values (fields : List Field) : List (List CString) :=
  fields.map fun field => field.value.map String.utf8EncodeChar

abbrev IsWritten (symbols : List CString) : Prop := Written (bytes "\"") (bytes "\\") false symbols

theorem encode_field (field : Field) : encode field.text =
    bytes " " ++ encode field.key ++ bytes ": \"" ++ encode field.value ++ bytes "\"" := by
  have space : String.utf8EncodeChar ' ' = bytes " " := by decide
  have colon : bytes ": \"" = String.utf8EncodeChar ':' ++ bytes " " ++ bytes "\"" := by decide
  have quote : String.utf8EncodeChar '\"' = bytes "\"" := by decide
  simp [Field.text, encode, space, colon, quote]

theorem encode_text (token : Marked) : encode token.text =
    encode token.name ++ bytes " \x7b" ++ encode (token.fields.flatMap Field.text) ++
      bytes " \x7d" := by
  have start : bytes " \x7b" = String.utf8EncodeChar ' ' ++ String.utf8EncodeChar '\x7b' := by decide
  have stop : bytes " \x7d" = String.utf8EncodeChar ' ' ++ String.utf8EncodeChar '\x7d' := by decide
  simp [Marked.text, encode, start, stop]

theorem legible_field {field : Field} (areLetters : ∀ char ∈ field.key, IsLetter char)
    (written : Written '\"' '\\' false field.value) :
    Legible IsWritten (values [field]) (encode field.text) := by
  have isWritten : IsWritten (field.value.map String.utf8EncodeChar) :=
    (written_map utf8EncodeChar_injective).mpr written
  have space : Legible IsWritten [] (bytes " ") := legible_ascii (by decide +kernel)
  have colon : Legible IsWritten [] (bytes ": ") := legible_ascii (by decide +kernel)
  have legible := (space.append (legible_letters areLetters)).append
    (colon.append (legible_value (characters_map field.value) isWritten))
  rw [← encode_units] at legible
  rw [encode_field, show bytes ": \"" = bytes ": " ++ bytes "\"" by decide]
  simpa only [List.append_assoc, List.nil_append, values, List.map_cons, List.map_nil] using legible

theorem legible_fields {fields : List Field}
    (areKeys : ∀ field ∈ fields, ∀ char ∈ field.key, IsLetter char)
    (written : ∀ field ∈ fields, Written '\"' '\\' false field.value) :
    Legible IsWritten (values fields) (encode (fields.flatMap Field.text)) := by
  induction fields with
  | nil => exact legible_ascii fun _ member => nomatch member
  | cons field rest inductionHypothesis =>
    obtain ⟨isKey, keys⟩ := List.forall_mem_cons.mp areKeys
    obtain ⟨isWritten, writtens⟩ := List.forall_mem_cons.mp written
    rw [List.flatMap_cons, encode_append]
    exact (legible_field isKey isWritten).append (inductionHypothesis keys writtens)

theorem legible_text (token : Marked) :
    Legible IsWritten (values token.fields) (encode token.text) := by
  have start : Legible IsWritten [] (bytes " \x7b") := legible_ascii (by decide +kernel)
  have stop : Legible IsWritten [] (bytes " \x7d") := legible_ascii (by decide +kernel)
  have fields := legible_fields (fun field member => (token.areKeys field member).2) token.written
  have legible := (((legible_letters token.isName.2).append start).append fields).append stop
  rw [encode_text]
  simpa only [List.append_nil, List.nil_append] using legible

theorem legible_rest (tokens : List Marked) :
    Legible IsWritten (values (tokens.flatMap Marked.fields))
      (encode (tokens.flatMap fun token => ' ' :: token.text)) := by
  induction tokens with
  | nil => exact legible_ascii fun _ member => nomatch member
  | cons token rest inductionHypothesis =>
    have space : Legible IsWritten [] (encode [' ']) := legible_ascii (by decide +kernel)
    have legible := (space.append (legible_text token)).append inductionHypothesis
    rw [← encode_append, ← encode_append] at legible
    simpa [values] using legible

theorem legible_writtenOut (tokens : List Marked) :
    Legible IsWritten (values (tokens.flatMap Marked.fields)) (encode (writtenOut tokens)) := by
  cases tokens with
  | nil => exact legible_ascii fun _ member => nomatch member
  | cons token rest =>
    have legible := (legible_text token).append (legible_rest rest)
    rw [← encode_append] at legible
    simpa [values, writtenOut] using legible

/-- The parser gets through every value that is rendered as it was written. -/
theorem through_of_reorder {parseType : ParseType} {fuel : Nat} {tokens tokens' : List Marked}
    (returns : reorder parseType fuel (encode (writtenOut tokens)) = .done (encode (writtenOut tokens'))) :
    ∀ token ∈ tokens', ∀ field ∈ token.fields, Through '\"' '\\' (.value false) field.value := by
  intro token member field inside
  have reads := reads_of_output (legible_writtenOut tokens) (legible_writtenOut tokens') returns
    (field.value.map String.utf8EncodeChar)
    (List.mem_map.mpr ⟨field, List.mem_flatMap.mpr ⟨token, member, inside⟩, rfl⟩)
  exact (through_map utf8EncodeChar_injective).mp reads

/-! ## The reader -/

abbrev symbols (chars : List Char) : Left := chars.map String.utf8EncodeChar

theorem flatten_symbols (chars : List Char) : (symbols chars).flatten = encode chars :=
  (encode_units chars).symm

/-- A word of letters is taken up to a symbol that is no letter. -/
theorem takeLetters_append {chars : List Char} (areLetters : ∀ char ∈ chars, IsLetter char)
    {symbol : CString} (stop : symbol ∉ asciiLetters) (rest : Left) :
    takeLetters (symbols chars ++ symbol :: rest) = (encode chars, symbol :: rest) := by
  induction chars with
  | nil => exact if_neg stop
  | cons char chars inductionHypothesis =>
    obtain ⟨letter, others⟩ := List.forall_mem_cons.mp areLetters
    have isLetter : String.utf8EncodeChar char ∈ asciiLetters := letter
    rw [symbols, List.map_cons, List.cons_append, takeLetters, if_pos isLetter,
      inductionHypothesis others]
    rfl

theorem valueLoop_through {fuel : Nat} {escape : Bool} {before : CString} {value rest : Left}
    (through : Through (bytes "\"") (bytes "\\") (.value escape) value) (enough : value.length < fuel) :
    valueLoop fuel escape before (value ++ bytes "\"" :: rest) =
      .done (before ++ value.flatten, bytes "\"" :: rest) := by
  induction fuel generalizing escape before value with
  | zero => omega
  | succ fuel inductionHypothesis =>
    cases value with
    | nil => rw [List.nil_append, valueLoop_quote, List.flatten_nil, List.append_nil]
    | cons symbol further =>
      rw [List.length_cons] at enough
      obtain ⟨quote, next⟩ := through
      rw [Reading.next] at next
      cases escapes : decide (symbol = bytes "\\") && !escape with
      | true =>
        rw [escapes] at next
        cases further with
        | nil => exact next.elim
        | cons symbol' further =>
          rw [List.length_cons] at enough
          rw [List.cons_append, valueLoop_escape quote escapes, List.cons_append, List.tail_cons,
            inductionHypothesis next (by omega)]
          simp [ch]
      | false =>
        rw [escapes] at next
        rw [List.cons_append, valueLoop_plain quote escapes,
          inductionHypothesis next (by omega)]
        simp

/-- Spaces in front do not matter. -/
theorem parseMembers_space (fuel : Nat) (token : Token) (left : Left) :
    parseMembers fuel token (bytes " " :: left) = parseMembers fuel token left := by
  have skipped : parseWs (bytes " " :: left) = parseWs left := if_pos rfl
  cases fuel with
  | zero => rfl
  | succ fuel => rw [parseMembers, parseMembers, skipped]

theorem letter_not_white : ∀ symbol ∈ asciiLetters,
    symbol ≠ bytes " " ∧ symbol ≠ bytes "\x7d" ∧ symbol ∉ utf8Whitespace := by
  decide +kernel

/-- One field is read into the token. -/
theorem parseMembers_field {fuel : Nat} {token : Token} {field : Field} {rest : Left}
    (isKey : field.key ≠ [] ∧ ∀ char ∈ field.key, IsLetter char)
    (through : Through '\"' '\\' (.value false) field.value) (enough : field.value.length < fuel) :
    parseMembers (fuel + 1) token (symbols field.text ++ rest) =
      parseMembers fuel (token.append (encode field.key) (encode field.value)) rest := by
  have reads : Reads (symbols field.value) := (through_map utf8EncodeChar_injective).mpr through
  have text : symbols field.text ++ rest = bytes " " :: (symbols field.key ++
      bytes ":" :: bytes " " :: bytes "\"" :: (symbols field.value ++ bytes "\"" :: rest)) := by
    have space : String.utf8EncodeChar ' ' = bytes " " := by decide
    have colon : String.utf8EncodeChar ':' = bytes ":" := by decide
    have quote : String.utf8EncodeChar '\"' = bytes "\"" := by decide
    simp [Field.text, symbols, space, colon, quote]
  rw [text, parseMembers_space]
  obtain ⟨nonempty, areLetters⟩ := isKey
  cases key : field.key with
  | nil => exact absurd key nonempty
  | cons char chars =>
    rw [key] at areLetters
    have taken : takeLetters (String.utf8EncodeChar char :: (symbols chars ++ bytes ":" ::
        bytes " " :: bytes "\"" :: (symbols field.value ++ bytes "\"" :: rest))) = _ :=
      takeLetters_append areLetters (by decide) _
    have opened := parseChars_append [bytes ":", bytes " ", bytes "\""]
      (symbols field.value ++ bytes "\"" :: rest)
    have valued : parseValue fuel (symbols field.value ++ bytes "\"" :: rest) =
        .done (encode field.value, bytes "\"" :: rest) := by
      rw [parseValue, if_neg (by simp), valueLoop_through reads (by simpa using enough),
        flatten_symbols, List.nil_append]
    have closed : parseChar (bytes "\"") (bytes "\"" :: rest) = rest := by
      rw [parseChar, if_pos rfl]
    obtain ⟨notSpace, notBrace, notWhite⟩ := letter_not_white _ (areLetters char (by simp))
    rw [symbols, List.map_cons, List.cons_append,
      parseMembers_key (parseWs_of_ne notSpace) notBrace notWhite, taken]
    simp only [List.cons_append, List.nil_append] at opened
    rw [opened, valued, Outcome.done_bind, closed]

/-- The fields of a token, and the brace. -/
theorem parseMembers_fields {fuel : Nat} {token : Token} {fields : List Field} {rest : Left}
    (areKeys : ∀ field ∈ fields, field.key ≠ [] ∧ ∀ char ∈ field.key, IsLetter char)
    (through : ∀ field ∈ fields, Through '\"' '\\' (.value false) field.value)
    (enough : (fields.flatMap Field.text).length < fuel) :
    parseMembers fuel token
        (symbols (fields.flatMap Field.text) ++ bytes " " :: bytes "\x7d" :: rest) =
      .done (fields.foldl (fun token field => token.append (encode field.key) (encode field.value))
        token, rest) := by
  induction fields generalizing fuel token with
  | nil =>
    cases fuel with
    | zero => cases enough
    | succ fuel => exact parseMembers_brace rfl
  | cons field further inductionHypothesis =>
    obtain ⟨isKey, keys⟩ := List.forall_mem_cons.mp areKeys
    obtain ⟨reads, throughs⟩ := List.forall_mem_cons.mp through
    have length : field.value.length + 1 ≤ field.text.length := by
      simp only [Field.text, List.cons_append, List.length_cons, List.length_append]
      omega
    rw [List.flatMap_cons, List.length_append] at enough
    cases fuel with
    | zero => cases enough
    | succ fuel =>
      rw [List.flatMap_cons, symbols, List.map_append, List.append_assoc,
        parseMembers_field isKey reads (by omega), inductionHypothesis keys throughs (by omega)]
      rfl

/-- The token as the parser builds it. -/
def Marked.token (token : Marked) : Token :=
  token.fields.foldl (fun token field => token.append (encode field.key) (encode field.value))
    (.new (encode token.name))

/-- A space in front may have been read already. -/
theorem parseMembers_parseChar (fuel : Nat) (token : Token) (left : Left) :
    parseMembers fuel token (parseChar (bytes " ") left) = parseMembers fuel token left := by
  cases left with
  | nil => rfl
  | cons symbol rest =>
    by_cases space : symbol = bytes " "
    · rw [space, parseChar, if_pos rfl, parseMembers_space]
    · rw [parseChar, if_neg space]

/-- One token is read. -/
theorem parseTokens_text {fuel : Nat} {tokens : List Token} {token : Marked} {rest : Left}
    (through : ∀ field ∈ token.fields, Through '\"' '\\' (.value false) field.value)
    (enough : token.text.length < fuel) :
    parseTokens (fuel + 1) tokens (symbols token.text ++ rest) =
      parseTokens fuel (tokens ++ [token.token]) rest := by
  have text : symbols token.text ++ rest = symbols token.name ++ bytes " " :: bytes "\x7b" ::
      (symbols (token.fields.flatMap Field.text) ++ bytes " " :: bytes "\x7d" :: rest) := by
    have space : String.utf8EncodeChar ' ' = bytes " " := by decide
    have start : String.utf8EncodeChar '\x7b' = bytes "\x7b" := by decide
    have stop : String.utf8EncodeChar '\x7d' = bytes "\x7d" := by decide
    simp [Marked.text, symbols, space, start, stop]
  obtain ⟨nonempty, areLetters⟩ := token.isName
  have short : (token.fields.flatMap Field.text).length < fuel := by
    simp only [Marked.text, List.length_append, List.length_cons] at enough
    omega
  cases name : token.name with
  | nil => exact absurd name nonempty
  | cons char chars =>
    rw [text, name]
    rw [name] at areLetters
    generalize members : symbols (token.fields.flatMap Field.text) ++
      bytes " " :: bytes "\x7d" :: rest = left
    have taken : takeLetters (String.utf8EncodeChar char ::
        (symbols chars ++ bytes " " :: bytes "\x7b" :: left)) = _ :=
      takeLetters_append areLetters (by decide) _
    have opened : parseChars [bytes " ", bytes "\x7b", bytes " "] (bytes " " :: bytes "\x7b" :: left) =
        parseChar (bytes " ") left :=
      congrArg (parseChar (bytes " ")) (parseChars_append [bytes " ", bytes "\x7b"] left)
    have membered : parseMembers fuel (.new (encode token.name)) (symbols
        (token.fields.flatMap Field.text) ++ bytes " " :: bytes "\x7d" :: rest) = _ :=
      parseMembers_fields token.areKeys through short
    obtain ⟨notSpace, _, notWhite⟩ := letter_not_white _ (areLetters char (by simp))
    rw [symbols, List.map_cons, List.cons_append, parseTokens_name (parseWs_of_ne notSpace) notWhite,
      taken, opened, parseMembers_parseChar, ← name, ← members, membered, Outcome.done_bind]
    rfl

theorem parseTokens_space (fuel : Nat) (tokens : List Token) (left : Left) :
    parseTokens fuel tokens (bytes " " :: left) = parseTokens fuel tokens left := by
  have skipped : parseWs (bytes " " :: left) = parseWs left := if_pos rfl
  cases fuel with
  | zero => rfl
  | succ fuel => rw [parseTokens, parseTokens, skipped]

/-- All tokens are read. -/
theorem parseTokens_rest {fuel : Nat} {before : List Token} {tokens : List Marked}
    (through : ∀ token ∈ tokens, ∀ field ∈ token.fields,
      Through '\"' '\\' (.value false) field.value)
    (enough : (tokens.flatMap fun token => ' ' :: token.text).length < fuel) :
    parseTokens fuel before (symbols (tokens.flatMap fun token => ' ' :: token.text)) =
      .done (before ++ tokens.map Marked.token) := by
  induction tokens generalizing fuel before with
  | nil =>
    cases fuel with
    | zero => cases enough
    | succ fuel => exact (parseTokens_end rfl).trans (by simp)
  | cons token rest inductionHypothesis =>
    obtain ⟨reads, throughs⟩ := List.forall_mem_cons.mp through
    have space : String.utf8EncodeChar ' ' = bytes " " := by decide
    rw [List.flatMap_cons, List.length_append, List.length_cons] at enough
    cases fuel with
    | zero => cases enough
    | succ fuel =>
      rw [List.flatMap_cons, List.cons_append, symbols, List.map_cons, space, parseTokens_space,
        List.map_append, parseTokens_text reads (by omega), inductionHypothesis throughs (by omega)]
      simp

/-! ## The output -/

theorem foldl_append_order (fields : List Field) (token : Token) :
    (fields.foldl (fun token field => token.append (encode field.key) (encode field.value))
      token).order = token.order ++ fields.map fun field => encode field.key := by
  induction fields generalizing token with
  | nil => simp
  | cons field rest inductionHypothesis =>
    rw [List.foldl_cons, inductionHypothesis]
    simp [Token.append]

theorem foldl_append_name (fields : List Field) (token : Token) :
    (fields.foldl (fun token field => token.append (encode field.key) (encode field.value))
      token).name = token.name := by
  induction fields generalizing token with
  | nil => rfl
  | cons field rest inductionHypothesis =>
    rw [List.foldl_cons, inductionHypothesis]
    rfl

/-- A later field of another key leaves the member of a key. -/
theorem foldl_append_members (fields : List Field) (token : Token) {key : CString}
    (absent : key ∉ fields.map Field.keyText) :
    (fields.foldl (fun token field => token.append (encode field.key) (encode field.value))
      token).members key = token.members key := by
  induction fields generalizing token with
  | nil => rfl
  | cons field rest inductionHypothesis =>
    rw [List.map_cons, List.mem_cons, not_or] at absent
    rw [List.foldl_cons, inductionHypothesis _ absent.2, Token.append]
    exact Function.update_of_ne absent.1 _ _

theorem members_of_mem {fields : List Field} (distinct : (fields.map Field.keyText).Nodup)
    (token : Token) {field : Field} (member : field ∈ fields) :
    (fields.foldl (fun token field => token.append (encode field.key) (encode field.value))
      token).members field.keyText = some (encode field.value) := by
  induction fields generalizing token with
  | nil => cases member
  | cons first rest inductionHypothesis =>
    rw [List.map_cons, List.nodup_cons] at distinct
    cases member with
    | head =>
      rw [List.foldl_cons, foldl_append_members rest _ distinct.1, Token.append]
      exact Function.update_self _ _ _
    | tail _ later => exact inductionHypothesis distinct.2 _ later

theorem entry_of_mem (token : Marked) {field : Field} (member : field ∈ token.fields) :
    token.token.entry field.keyText = encode field.text := by
  have found : token.token.members field.keyText = some (encode field.value) :=
    members_of_mem token.distinct_keyText _ member
  rw [Token.entry, found, encode_field, Field.keyText]

/-- A key that the token does not have adds nothing. -/
theorem entry_of_notMem (token : Marked) {key : CString} (absent : key ∉ token.fields.map Field.keyText) :
    token.token.entry key = [] := by
  have none : token.token.members key = none := foldl_append_members token.fields _ absent
  rw [Token.entry, none]

theorem flatMap_entry (token : Marked) {fields : List Field} (members : ∀ field ∈ fields, field ∈ token.fields) :
    (fields.map Field.keyText).flatMap token.token.entry = encode (fields.flatMap Field.text) := by
  induction fields with
  | nil => rfl
  | cons field rest inductionHypothesis =>
    obtain ⟨found, others⟩ := List.forall_mem_cons.mp members
    rw [List.map_cons, List.flatMap_cons, List.flatMap_cons, encode_append, entry_of_mem token found,
      inductionHypothesis others]

/-- A fixed order takes the fields that it lists. -/
theorem flatMap_entry_order (token : Marked) (order : List CString) :
    order.flatMap token.token.entry =
      encode ((arrange Field.keyText order token.fields).flatMap Field.text) := by
  induction order with
  | nil => rfl
  | cons asked rest inductionHypothesis =>
    rw [List.flatMap_cons, inductionHypothesis, arrange, arrange, List.filterMap_cons]
    cases found : token.fields.find? fun field => field.keyText = asked with
    | none =>
      have absent : asked ∉ token.fields.map Field.keyText := by
        simpa using List.find?_eq_none.mp found
      rw [entry_of_notMem token absent, List.nil_append]
    | some field =>
      obtain ⟨member, rfl⟩ := (find_key token.distinct_keyText).mp found
      rw [entry_of_mem token member, List.flatMap_cons, encode_append]

/-- The token is rendered with its fields arranged. -/
theorem string_token (parseType : ParseType) (token : Marked) :
    token.token.string parseType.orders = encode (token.arranged parseType).text := by
  have name : token.token.name = encode token.name := foldl_append_name _ _
  have order : token.token.order = token.fields.map Field.keyText := foldl_append_order _ _
  rw [Token.string, name, encode_text, Marked.arranged_name, Marked.arranged_fields,
    Marked.arrangedFields]
  cases parseType.orders.lookup (encode token.name) with
  | none => rw [Option.getD_none, order, flatMap_entry token fun field member => member]
  | some order => rw [Option.getD_some, flatMap_entry_order]

theorem encode_space (chars : List Char) : encode (' ' :: chars) = bytes " " ++ encode chars := by
  have space : encode [' '] = bytes " " := by decide
  rw [← space, ← encode_append]
  rfl

/-- What `reorder` puts together before it trims. -/
theorem strings_tokens (parseType : ParseType) (token : Marked) (rest : List Marked) :
    ((token :: rest).map Marked.token).flatMap
        (fun token => token.string parseType.orders ++ bytes " ") =
      encode (writtenOut ((token :: rest).map (Marked.arranged parseType))) ++ bytes " " := by
  induction rest generalizing token with
  | nil => simp [writtenOut, string_token]
  | cons next rest inductionHypothesis =>
    have split : writtenOut ((token :: next :: rest).map (Marked.arranged parseType)) =
        (token.arranged parseType).text ++
          ' ' :: writtenOut ((next :: rest).map (Marked.arranged parseType)) := by
      simp [writtenOut]
    rw [List.map_cons, List.flatMap_cons, inductionHypothesis next, string_token, split,
      encode_append, encode_space]
    simp only [List.append_assoc]

theorem trim_space {text : CString} (front : ∀ byte ∈ text.head?, byte ∉ whitespace)
    (back : ∀ byte ∈ text.getLast?, byte ∉ whitespace) : trim (text ++ bytes " ") = text := by
  have space : bytes " " = [0x20] := by decide
  cases text with
  | nil => decide
  | cons byte rest =>
    have starts : ltrim (byte :: rest ++ bytes " ") = byte :: rest ++ [0x20] := by
      rw [ltrim, space, List.cons_append, List.dropWhile_cons_of_neg (by simpa using front byte rfl)]
    rw [trim, starts, rtrim, List.rdropWhile_concat_pos _ _ _ (by decide),
      List.rdropWhile_eq_self_iff]
    intro nonempty white
    exact back _ (List.getLast?_eq_some_getLast nonempty) (of_decide_eq_true white)

theorem head_writtenOut (token : Marked) (rest : List Marked) :
    ∀ byte ∈ (encode (writtenOut (token :: rest))).head?, byte ∉ whitespace := by
  have letters : ∀ symbol ∈ asciiLetters, ∀ byte ∈ symbol.head?, byte ∉ whitespace := by
    decide +kernel
  obtain ⟨nonempty, areLetters⟩ := token.isName
  cases name : token.name with
  | nil => exact absurd name nonempty
  | cons char chars =>
    rw [name] at areLetters
    obtain ⟨byte, tail, encoded, _⟩ := charLength_encode char
    have isLetter : String.utf8EncodeChar char ∈ asciiLetters := areLetters char (by simp)
    intro other head
    apply letters _ isLetter
    rw [encoded]
    simpa [writtenOut, Marked.text, name, encode, encoded] using head

theorem writtenOut_ends (token : Marked) (rest : List Marked) :
    ∃ before, writtenOut (token :: rest) = before ++ ['\x7d'] := by
  induction rest generalizing token with
  | nil =>
    refine ⟨token.name ++ ' ' :: '\x7b' :: token.fields.flatMap Field.text ++ [' '], ?_⟩
    simp [writtenOut, Marked.text]
  | cons next rest inductionHypothesis =>
    obtain ⟨before, ends⟩ := inductionHypothesis next
    refine ⟨token.text ++ ' ' :: before, ?_⟩
    rw [List.append_assoc, List.cons_append, ← ends]
    simp [writtenOut]

theorem last_writtenOut (token : Marked) (rest : List Marked) :
    ∀ byte ∈ (encode (writtenOut (token :: rest))).getLast?, byte ∉ whitespace := by
  obtain ⟨before, ends⟩ := writtenOut_ends token rest
  have brace : encode ['\x7d'] = [0x7d] := by decide
  rw [ends, encode_append, brace, List.getLast?_concat]
  intro byte last
  rw [← Option.some.inj last]
  decide

/-- Tokens whose values the parser gets through are rendered with their fields arranged. -/
theorem reorder_through (parseType : ParseType) {fuel : Nat} {tokens : List Marked}
    (nonempty : tokens ≠ [])
    (through : ∀ token ∈ tokens, ∀ field ∈ token.fields,
      Through '\"' '\\' (.value false) field.value)
    (enough : (writtenOut tokens).length + 1 < fuel) :
    reorder parseType fuel (encode (writtenOut tokens)) =
      .done (encode (writtenOut (tokens.map (Marked.arranged parseType)))) := by
  cases tokens with
  | nil => exact absurd rfl nonempty
  | cons token rest =>
    have spaced : (token :: rest).flatMap (fun token => ' ' :: token.text) =
        ' ' :: writtenOut (token :: rest) := by
      simp [writtenOut]
    have parses := @parseTokens_rest fuel [] _ through (by rwa [spaced])
    have space : String.utf8EncodeChar ' ' = bytes " " := by decide
    rw [spaced, symbols, List.map_cons, space, parseTokens_space] at parses
    have filled : writtenOut (token :: rest) ≠ [] := by
      simp [writtenOut, Marked.text]
    rw [reorder, parse, load, string2chars_encode]
    simp only [List.map_eq_nil_iff, filled, if_false, Outcome.done_bind]
    rw [parses, Outcome.done_bind, List.nil_append, strings_tokens, List.map_cons,
      trim_space (head_writtenOut _ _) (last_writtenOut _ _)]

/-- The empty text fails the check of its size. -/
theorem reorder_writtenOut_nil (parseType : ParseType) (fuel : Nat) :
    reorder parseType fuel (encode (writtenOut [])) = .failed := by
  simp [writtenOut, encode, reorder, parse, load, string2chars]

end Asr2Pass.Itn
