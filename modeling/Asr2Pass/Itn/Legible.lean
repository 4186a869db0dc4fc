import Asr2Pass.Itn.TokenParser
import Asr2Pass.Library.Quoting

/-! # What the parser has read is legible

The names and keys that the parser returns are gaps, and each value is one that `parse_value` gets
through.  So the text that `Token::string` makes of them is again gaps and values.
-/

namespace Asr2Pass.Itn

open Text Library

/-! ## Texts -/

/-- Neither a quote nor a backslash. -/
abbrev IsGap (symbols : List CString) : Prop := Gap (bytes "\"") (bytes "\\") symbols

/-- `parse_value` comes to the end of the value. -/
abbrev Reads (symbols : List CString) : Prop :=
  Through (bytes "\"") (bytes "\\") (.value false) symbols

/-- A string whose characters are gaps and the quoted values. -/
def Legible (property : List CString → Prop) (values : List (List CString)) (text : CString) : Prop :=
  ∃ symbols, Characters symbols ∧ Cuts (bytes "\"") (bytes "\\") property values symbols ∧
    symbols.flatten = text

variable {property : List CString → Prop} {values values' : List (List CString)}
  {text text' : CString} {symbols : List CString}

theorem Legible.append (legible : Legible property values text)
    (legible' : Legible property values' text') :
    Legible property (values ++ values') (text ++ text') := by
  obtain ⟨symbols, characters, cuts, rfl⟩ := legible
  obtain ⟨symbols', characters', cuts', rfl⟩ := legible'
  exact ⟨symbols ++ symbols', characters.append characters', cuts.append cuts',
    List.flatten_append⟩

theorem legible_gap (characters : Characters symbols) (isGap : IsGap symbols) :
    Legible property [] symbols.flatten :=
  ⟨symbols, characters, .gap isGap, rfl⟩

theorem flatten_singletons (text : CString) : (text.map ([·])).flatten = text := by
  induction text with
  | nil => rfl
  | cons byte rest inductionHypothesis => simpa using inductionHypothesis

theorem legible_ascii
    (ascii : ∀ byte ∈ text, byte < 128 ∧ byte ≠ 0x22 ∧ byte ≠ 0x5c) :
    Legible property [] text := by
  have isGap : IsGap (text.map ([·])) := by
    constructor
    · intro inside
      obtain ⟨byte, member, same⟩ := List.mem_map.mp inside
      exact (ascii byte member).2.1 (List.head_eq_of_cons_eq same)
    · intro inside
      obtain ⟨byte, member, same⟩ := List.mem_map.mp inside
      exact (ascii byte member).2.2 (List.head_eq_of_cons_eq same)
  rw [← flatten_singletons text]
  exact legible_gap (characters_ascii fun byte member => (ascii byte member).1) isGap

theorem legible_value (characters : Characters symbols) (holds : property symbols) :
    Legible property [symbols] (bytes "\"" ++ symbols.flatten ++ bytes "\"") := by
  have quote : Characters [bytes "\""] := by
    intro symbol member
    exact ⟨'\"', (List.mem_singleton.mp member).trans (by decide)⟩
  refine ⟨bytes "\"" :: (symbols ++ [bytes "\""]), ?_, cuts_value holds, by simp⟩
  exact quote.append (characters.append quote)

/-- The characters of a string are unique, and so are the values when the reader and the writer
    find some. -/
theorem Legible.unique (legible : Legible (Written (bytes "\"") (bytes "\\") false) values text)
    (legible' : Legible Reads values' text) : values = values' := by
  obtain ⟨symbols, characters, cuts, rfl⟩ := legible
  obtain ⟨symbols', characters', cuts', same⟩ := legible'
  have split := string2chars_flatten characters'
  rw [same, string2chars_flatten characters] at split
  cases split
  exact cuts.unique cuts'

theorem Legible.forall_mem (legible : Legible property values text) :
    ∀ value ∈ values, property value := by
  obtain ⟨symbols, _, cuts, _⟩ := legible
  exact cuts.forall_mem

/-! ## Tokens -/

/-- The parts of a token as the parser returns them. -/
structure Parsed (token : Token) : Prop where
  name : Legible Reads [] token.name
  keys : ∀ key ∈ token.order, Legible Reads [] key
  members : ∀ key value, token.members key = some value →
    ∃ symbols, Characters symbols ∧ Reads symbols ∧ symbols.flatten = value

theorem Parsed.append {token : Token} (parsed : Parsed token) {key value : CString}
    (isKey : Legible Reads [] key)
    (isValue : ∃ symbols, Characters symbols ∧ Reads symbols ∧ symbols.flatten = value) :
    Parsed (token.append key value) where
  name := parsed.name
  keys other member := by
    cases List.mem_append.mp member with
    | inl before => exact parsed.keys other before
    | inr last => exact List.mem_singleton.mp last ▸ isKey
  members other value' found := by
    by_cases same : other = key
    · simp only [Token.append, same, Function.update_self, Option.some.injEq] at found
      exact found ▸ isValue
    · simp only [Token.append, Function.update_of_ne same] at found
      exact parsed.members other value' found

/-- The keys of the fixed orders. -/
theorem ascii_orders (parseType : ParseType) : ∀ entry ∈ parseType.orders, ∀ key ∈ entry.2,
    ∀ byte ∈ key, byte < 128 ∧ byte ≠ 0x22 ∧ byte ≠ 0x5c := by
  cases parseType <;> decide +kernel

theorem Parsed.entry {token : Token} (parsed : Parsed token) {key : CString}
    (isKey : Legible Reads [] key) : ∃ values, Legible Reads values (token.entry key) := by
  rw [Token.entry]
  cases found : token.members key with
  | none => exact ⟨[], legible_ascii fun _ member => nomatch member⟩
  | some value =>
    obtain ⟨symbols, characters, reads, rfl⟩ := parsed.members key value found
    have colon : Legible Reads [] (bytes ": ") := legible_ascii (by decide +kernel)
    have space : Legible Reads [] (bytes " ") := legible_ascii (by decide +kernel)
    have legible := (space.append isKey).append (colon.append (legible_value characters reads))
    refine ⟨[symbols], ?_⟩
    simpa only [List.append_assoc, show bytes ": \"" = bytes ": " ++ bytes "\"" by decide,
      List.nil_append] using legible

theorem Parsed.entries {token : Token} (parsed : Parsed token) {keys : List CString}
    (areKeys : ∀ key ∈ keys, Legible Reads [] key) :
    ∃ values, Legible Reads values (keys.flatMap token.entry) := by
  induction keys with
  | nil => exact ⟨[], legible_ascii fun _ member => nomatch member⟩
  | cons key rest inductionHypothesis =>
    obtain ⟨isKey, others⟩ := List.forall_mem_cons.mp areKeys
    obtain ⟨values, legible⟩ := parsed.entry isKey
    obtain ⟨values', legible'⟩ := inductionHypothesis others
    exact ⟨values ++ values', legible.append legible'⟩

theorem Parsed.string {token : Token} (parsed : Parsed token) (parseType : ParseType) :
    ∃ values, Legible Reads values (token.string parseType.orders) := by
  have areKeys : ∀ key ∈ (parseType.orders.lookup token.name).getD token.order,
      Legible Reads [] key := by
    cases fixed : parseType.orders.lookup token.name with
    | none => exact parsed.keys
    | some keys =>
      intro key member
      obtain ⟨before, after, split, _⟩ := List.lookup_eq_some_iff.mp fixed
      exact legible_ascii (ascii_orders parseType (token.name, keys) (by simp [split]) key member)
  obtain ⟨values, legible⟩ := parsed.entries areKeys
  have start : Legible Reads [] (bytes " \x7b") := legible_ascii (by decide +kernel)
  have stop : Legible Reads [] (bytes " \x7d") := legible_ascii (by decide +kernel)
  exact ⟨_, ((parsed.name.append start).append legible).append stop⟩

/-! ## The parser -/

theorem takeLetters_split (left : Left) : ∃ letters, left = letters ++ (takeLetters left).2 ∧
    (takeLetters left).1 = letters.flatten ∧ ∀ symbol ∈ letters, symbol ∈ asciiLetters := by
  induction left with
  | nil => exact ⟨[], rfl, rfl, fun _ member => nomatch member⟩
  | cons symbol rest inductionHypothesis =>
    rw [takeLetters]
    split
    case isTrue letter =>
      obtain ⟨letters, split, flat, areLetters⟩ := inductionHypothesis
      refine ⟨symbol :: letters, ?_, ?_, List.forall_mem_cons.mpr ⟨letter, areLetters⟩⟩
      · rw [List.cons_append, ← split]
      · rw [List.flatten_cons, ← flat]
    case isFalse => exact ⟨[], rfl, rfl, fun _ member => nomatch member⟩

theorem gap_of_letters {letters : List CString} (areLetters : ∀ symbol ∈ letters, symbol ∈ asciiLetters) :
    IsGap letters :=
  have quote : bytes "\"" ∉ asciiLetters := by decide
  have backslash : bytes "\\" ∉ asciiLetters := by decide
  ⟨fun inside => quote (areLetters _ inside), fun inside => backslash (areLetters _ inside)⟩

theorem legible_takeLetters {left : Left} (characters : Characters left) :
    Legible Reads [] (takeLetters left).1 := by
  obtain ⟨letters, split, flat, areLetters⟩ := takeLetters_split left
  rw [flat]
  apply legible_gap _ (gap_of_letters areLetters)
  rw [split] at characters
  exact fun symbol member => characters symbol (List.mem_append_left _ member)

/-- The loop for a value has got through what it has read. -/
theorem valueLoop_split {fuel : Nat} {escape : Bool} {before value : CString} {left rest : Left}
    (returns : valueLoop fuel escape before left = .done (value, rest)) :
    ∃ symbols, left = symbols ++ rest ∧ value = before ++ symbols.flatten ∧
      Through (bytes "\"") (bytes "\\") (.value escape) symbols := by
  induction fuel generalizing escape before left with
  | zero => cases returns
  | succ fuel inductionHypothesis =>
    cases left with
    | nil =>
      rw [valueLoop_nil] at returns
      cases returns
    | cons symbol further =>
      by_cases quote : symbol = bytes "\""
      · subst quote
        rw [valueLoop_quote] at returns
        cases returns
        exact ⟨[], rfl, by simp, trivial⟩
      -- An escaped symbol is taken together with its backslash.
      · cases escapes : decide (symbol = bytes "\\") && !escape with
        | true =>
          rw [valueLoop_escape quote escapes] at returns
          cases further with
          | nil =>
            rw [List.tail_nil, valueLoop_nil] at returns
            cases returns
          | cons symbol' further =>
            obtain ⟨symbols, split, flat, through⟩ := inductionHypothesis returns
            refine ⟨symbol :: symbol' :: symbols, ?_, ?_, quote, ?_⟩
            · rw [List.cons_append, List.cons_append, ← split, List.tail_cons]
            · simp [flat, ch]
            · rw [Reading.next, escapes]
              exact through
        | false =>
          rw [valueLoop_plain quote escapes] at returns
          obtain ⟨symbols, split, flat, through⟩ := inductionHypothesis returns
          refine ⟨symbol :: symbols, ?_, ?_, quote, ?_⟩
          · rw [List.cons_append, ← split]
          · simp [flat]
          · rw [Reading.next, escapes]
            exact through

theorem parseMembers_parsed {fuel : Nat} {token token' : Token} {left left' : Left}
    (parsed : Parsed token) (characters : Characters left)
    (returns : parseMembers fuel token left = .done (token', left')) :
    Parsed token' ∧ Characters left' := by
  induction fuel generalizing token left with
  | zero => cases returns
  | succ fuel inductionHypothesis =>
    have characters' := characters.suffix (parseWs_suffix left)
    cases spaces : parseWs left with
    | nil =>
      rw [parseMembers_end spaces] at returns
      cases returns
      exact ⟨parsed, fun _ member => nomatch member⟩
    | cons symbol rest =>
      rw [spaces] at characters'
      by_cases brace : symbol = bytes "\x7d"
      · rw [parseMembers_brace (brace ▸ spaces)] at returns
        cases returns
        exact ⟨parsed, characters'.suffix (List.suffix_cons _ _)⟩
      -- At white space the parser makes no step, and the fuel runs out.
      · by_cases white : symbol ∈ utf8Whitespace
        · rw [parseMembers_white spaces brace white] at returns
          cases returns
        · rw [parseMembers_key spaces brace white] at returns
          obtain ⟨⟨value, behind⟩, valued, goesOn⟩ := Outcome.bind_eq_done.mp returns
          have opened := characters'.suffix
            (parseChars_takeLetters_suffix [bytes ":", bytes " ", bytes "\""] _)
          rw [parseValue] at valued
          split at valued
          case isTrue => cases valued
          case isFalse =>
            obtain ⟨symbols, split, flat, through⟩ := valueLoop_split valued
            rw [split] at opened
            have isValue : ∃ symbols, Characters symbols ∧ Reads symbols ∧
                symbols.flatten = value :=
              ⟨symbols, fun symbol member => opened symbol (List.mem_append_left _ member), through,
                by rw [flat, List.nil_append]⟩
            exact inductionHypothesis (parsed.append (legible_takeLetters characters') isValue)
              ((opened.suffix (List.suffix_append _ _)).suffix (parseChar_suffix _ _)) goesOn

theorem parseTokens_parsed {fuel : Nat} {tokens tokens' : List Token} {left : Left}
    (parsed : ∀ token ∈ tokens, Parsed token) (characters : Characters left)
    (returns : parseTokens fuel tokens left = .done tokens') : ∀ token ∈ tokens', Parsed token := by
  induction fuel generalizing tokens left with
  | zero => cases returns
  | succ fuel inductionHypothesis =>
    have characters' := characters.suffix (parseWs_suffix left)
    cases spaces : parseWs left with
    | nil =>
      rw [parseTokens_end spaces] at returns
      cases returns
      exact parsed
    | cons symbol rest =>
      rw [spaces] at characters'
      by_cases white : symbol ∈ utf8Whitespace
      · rw [parseTokens_white spaces white] at returns
        cases returns
      · rw [parseTokens_name spaces white] at returns
        obtain ⟨⟨token, behind⟩, membered, goesOn⟩ := Outcome.bind_eq_done.mp returns
        have new : Parsed (.new (takeLetters (symbol :: rest)).1) :=
          ⟨legible_takeLetters characters', (fun _ member => nomatch member), fun _ _ found => nomatch found⟩
        have next := parseMembers_parsed new (characters'.suffix
          (parseChars_takeLetters_suffix [bytes " ", bytes "\x7b", bytes " "] _)) membered
        exact inductionHypothesis (List.forall_mem_append.mpr
          ⟨parsed, List.forall_mem_singleton.mpr next.1⟩) next.2 goesOn

/-- What `reorder` puts together before it trims. -/
theorem legible_strings {parseType : ParseType} {tokens : List Token}
    (parsed : ∀ token ∈ tokens, Parsed token) : ∃ values,
      Legible Reads values (tokens.flatMap fun token => token.string parseType.orders ++ bytes " ") := by
  induction tokens with
  | nil => exact ⟨[], legible_ascii fun _ member => nomatch member⟩
  | cons token rest inductionHypothesis =>
    obtain ⟨isParsed, others⟩ := List.forall_mem_cons.mp parsed
    obtain ⟨values, legible⟩ := isParsed.string parseType
    obtain ⟨values', legible'⟩ := inductionHypothesis others
    have space : Legible Reads [] (bytes " ") := legible_ascii (by decide +kernel)
    exact ⟨_, (legible.append space).append legible'⟩

theorem ascii_whitespace : ∀ byte ∈ whitespace, byte < 128 ∧ byte ≠ 0x22 ∧ byte ≠ 0x5c := by
  decide +kernel

/-- What `trim` takes away are gaps. -/
theorem legible_of_trim (legible : Legible property values (trim text)) :
    Legible property values text := by
  have front : Legible property [] (text.takeWhile (· ∈ whitespace)) := legible_ascii fun byte member =>
    ascii_whitespace byte (by simpa using List.mem_takeWhile_imp member)
  have back : Legible property [] ((ltrim text).rtakeWhile (· ∈ whitespace)) :=
    legible_ascii fun byte member =>
      ascii_whitespace byte (by simpa using List.mem_rtakeWhile_imp member)
  have whole := front.append (legible.append back)
  rw [trim, rtrim, List.rdropWhile_append_rtakeWhile, ltrim, List.takeWhile_append_dropWhile,
    List.nil_append, List.append_nil] at whole
  exact whole

/-- When the parser gives out a written text, it has got through the values of that text. -/
theorem reads_of_output {parseType : ParseType} {fuel : Nat} {output : CString}
    (legible : Legible property values' text)
    (written : Legible (Written (bytes "\"") (bytes "\\") false) values output)
    (returns : reorder parseType fuel text = .done output) : ∀ value ∈ values, Reads value := by
  obtain ⟨tokens, parses, trimmed⟩ := Outcome.bind_eq_done.mp returns
  obtain ⟨left, loads, loops⟩ := Outcome.bind_eq_done.mp parses
  obtain ⟨symbols, characters, -, flat⟩ := legible
  have same : left = symbols := by
    rw [← flat, load, string2chars_flatten characters] at loads
    by_cases empty : symbols = []
    · simp [empty] at loads
    · simpa [empty, eq_comm] using loads
  have nothing : ∀ token ∈ ([] : List Token), Parsed token := nofun
  obtain ⟨values', legible'⟩ :=
    legible_strings (parseTokens_parsed nothing (same ▸ characters) loops)
  have whole := legible_of_trim (show Legible (Written (bytes "\"") (bytes "\\") false) values
    (trim (tokens.flatMap fun token => token.string parseType.orders ++ bytes " ")) from
      Outcome.done.inj trimmed ▸ written)
  rw [whole.unique legible']
  exact legible'.forall_mem

end Asr2Pass.Itn
