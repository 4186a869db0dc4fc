import Asr2Pass.Punctuation.Tokenizer

/-! # Words that are tokenized again

The words of `arr_cache` carry a space where an English word follows an English word.  Set in front
of the next input, with a space between English ends, they are tokenized to the same words again.
-/

namespace Asr2Pass.Punctuation

open Text

/-- What `AddPunc` makes of `sentence_words_list`: a space after each English word that an English
    word follows. -/
def spaceWords : List CString → List CString
  | [] => []
  | [word] => [word]
  | word :: next :: rest =>
    (if startsAscii word ∧ startsAscii next then word ++ [0x20] else word) :: spaceWords (next :: rest)

/-- `strText`: the cached words and the input, with a space between English letters. -/
def fullText (arrCache : List CString) (input : CString) : CString :=
  let strText := arrCache.flatten
  if strText ≠ [] ∧ isAscii (strText.getLastD 0) ∧ input ≠ [] ∧ startsAscii input then
    strText ++ [0x20] ++ input
  else strText ++ input

/-- A word that `Tokenize` gives: a run of ASCII characters, or another character. -/
inductive IsToken : CString → Prop where
  | english {token : CString} : token ≠ [] → (∀ byte ∈ token, isAscii byte ∧ byte ≠ 0x20) →
      IsToken token
  | wide {token : CString} : Utf8Unit token → ¬ startsAscii token → IsToken token

theorem wide_notSpace {unit : CString} (notAscii : ¬ startsAscii unit) : ¬ isSpace unit := by
  intro space
  have same : unit = [0x20] := by simpa [isSpace] using space
  subst same
  exact notAscii (by decide)

theorem wide_bytes {unit : CString} (valid : Utf8Unit unit) (notAscii : ¬ startsAscii unit) :
    ∀ byte ∈ unit, ¬ isAscii byte := by
  cases valid with
  | ascii one => exact absurd one notAscii
  | wide _ others => exact others

/-! ## The tokens of characters -/

/-- The bytes of `current_eng`. -/
def EnglishBytes (currentEng : CString) : Prop := ∀ byte ∈ currentEng, isAscii byte ∧ byte ≠ 0x20

theorem pending_token {currentEng : CString} (english : EnglishBytes currentEng) :
    ∀ token ∈ pending currentEng, IsToken token := by
  intro token member
  by_cases empty : currentEng = []
  · simp [pending, empty] at member
  · rw [pending, if_neg empty, List.mem_singleton] at member
    subst member
    exact .english empty english

theorem unitTokens_token {units : List CString} (valid : ∀ unit ∈ units, Utf8Unit unit)
    {currentEng : CString} (english : EnglishBytes currentEng) :
    ∀ token ∈ unitTokens currentEng units, IsToken token := by
  induction units generalizing currentEng with
  | nil => exact pending_token english
  | cons unit units inductionHypothesis =>
    obtain ⟨first, others⟩ := List.forall_mem_cons.mp valid
    have fresh : EnglishBytes [] := by simp [EnglishBytes]
    intro token member
    -- A space ends the token before it, an ASCII unit goes on with it, any other is its own token.
    by_cases space : isSpace unit
    · rw [unitTokens, if_pos space] at member
      cases List.mem_append.mp member with
      | inl before => exact pending_token english token before
      | inr after => exact inductionHypothesis others fresh token after
    · by_cases starts : startsAscii unit
      · rw [unitTokens, if_neg space, if_pos starts] at member
        refine inductionHypothesis others ?_ token member
        cases first with
        | @ascii byte one =>
          intro byte' inside
          cases List.mem_append.mp inside with
          | inl before => exact english byte' before
          | inr last =>
            cases List.mem_singleton.mp last
            exact ⟨one, by simpa [isSpace] using space⟩
        | wide _ notAscii => exact absurd starts (notAscii _ List.mem_cons_self)
      · rw [unitTokens, if_neg space, if_neg starts] at member
        cases List.mem_append.mp member with
        | inl before => exact pending_token english token before
        | inr after =>
          cases List.mem_cons.mp after with
          | inl same =>
            subst same
            exact .wide first starts
          | inr later => exact inductionHypothesis others fresh token later

/-- The tokens have all bytes but the spaces. -/
theorem unitTokens_flatten {units : List CString} (valid : ∀ unit ∈ units, Utf8Unit unit)
    (currentEng : CString) :
    (unitTokens currentEng units).flatten =
      currentEng ++ units.flatten.filter fun byte => byte ≠ 0x20 := by
  have pendingFlat (current : CString) : (pending current).flatten = current := by
    by_cases empty : current = []
    · simp [pending, empty]
    · simp [pending, empty]
  induction units generalizing currentEng with
  | nil => simp [unitTokens, pendingFlat]
  | cons unit units inductionHypothesis =>
    obtain ⟨first, others⟩ := List.forall_mem_cons.mp valid
    cases first with
    | @ascii byte one =>
      have starts : startsAscii [byte] := one
      by_cases space : byte = 0x20
      · have space' : isSpace [byte] := by simp [isSpace, space]
        rw [unitTokens, if_pos space', List.flatten_append, pendingFlat, inductionHypothesis others]
        simp [space]
      · have space' : ¬ isSpace [byte] := by simp [isSpace, space]
        rw [unitTokens, if_neg space', if_pos starts, inductionHypothesis others]
        simp [space]
    | @wide byte rest length notAscii =>
      -- No byte of a wide character is a space.
      have starts : ¬ startsAscii (byte :: rest) := notAscii byte List.mem_cons_self
      have kept : (byte :: rest).filter (fun byte => byte ≠ 0x20) = byte :: rest := by
        rw [List.filter_eq_self]
        intro byte' member
        have different : byte' ≠ 0x20 := by
          intro same
          subst same
          exact notAscii _ member (by decide)
        simpa using different
      rw [unitTokens, if_neg (wide_notSpace starts), if_neg starts, List.flatten_append, pendingFlat,
        List.flatten_cons, inductionHypothesis others, List.flatten_cons, List.filter_append, kept,
        List.nil_append]

/-! ## Words in front of characters -/

/-- The characters of a word. -/
def unitsOf (word : CString) : List CString :=
  if startsAscii word then word.map fun byte => [byte] else [word]

/-- The characters of the cached words and of the input. -/
def joinUnits (units : List CString) : List CString → List CString
  | [] => units
  | word :: rest =>
    let following := joinUnits units rest
    unitsOf word ++ (if startsAscii word ∧ following ≠ [] ∧ startsAscii (following.headD []) then
      [[0x20]] else []) ++ following

theorem unitTokens_english {word : CString} (english : EnglishBytes word) (currentEng : CString)
    (rest : List CString) :
    unitTokens currentEng (word.map (fun byte => [byte]) ++ rest) =
      unitTokens (currentEng ++ word) rest := by
  induction word generalizing currentEng with
  | nil => simp
  | cons byte word inductionHypothesis =>
    obtain ⟨⟨one, notSpace⟩, others⟩ := List.forall_mem_cons.mp english
    have starts : startsAscii [byte] := one
    have space : ¬ isSpace [byte] := by simp [isSpace, notSpace]
    rw [List.map_cons, List.cons_append, unitTokens, if_neg space, if_pos starts,
      inductionHypothesis others]
    simp

theorem startsAscii_english {word : CString} (nonempty : word ≠ []) (english : EnglishBytes word) :
    startsAscii word := by
  cases word with
  | nil => exact absurd rfl nonempty
  | cons byte rest => exact (english byte List.mem_cons_self).1

/-- A word in front of characters is a token of its own. -/
theorem unitTokens_word {word : CString} (token : IsToken word) (following : List CString) :
    unitTokens [] (unitsOf word ++ (if startsAscii word ∧ following ≠ [] ∧
      startsAscii (following.headD []) then [[0x20]] else []) ++ following) =
      word :: unitTokens [] following := by
  cases token with
  | english nonempty english =>
    have starts := startsAscii_english nonempty english
    rw [unitsOf, if_pos starts, List.append_assoc, unitTokens_english english, List.nil_append]
    cases following with
    | nil => simp [unitTokens, pending, nonempty]
    | cons unit rest =>
      by_cases next : startsAscii unit
      · have space : isSpace [0x20] := rfl
        simp [starts, next, unitTokens, space, pending, nonempty]
      · simp [next, unitTokens, wide_notSpace next, pending, nonempty]
  | wide valid notAscii =>
    rw [unitsOf, if_neg notAscii]
    simp [notAscii, unitTokens, wide_notSpace notAscii, pending]

theorem joinUnits_tokens {words : List CString} (tokens : ∀ word ∈ words, IsToken word)
    (units : List CString) : unitTokens [] (joinUnits units words) = words ++ unitTokens [] units := by
  induction words with
  | nil => rfl
  | cons word rest inductionHypothesis =>
    obtain ⟨first, others⟩ := List.forall_mem_cons.mp tokens
    rw [joinUnits, unitTokens_word first, inductionHypothesis others, List.cons_append]

theorem unitsOf_valid {word : CString} (token : IsToken word) :
    ∀ unit ∈ unitsOf word, Utf8Unit unit := by
  cases token with
  | english nonempty english =>
    rw [unitsOf, if_pos (startsAscii_english nonempty english)]
    intro unit member
    obtain ⟨byte, inside, rfl⟩ := List.mem_map.mp member
    exact .ascii (english byte inside).1
  | wide valid notAscii =>
    rw [unitsOf, if_neg notAscii]
    intro unit member
    cases List.mem_singleton.mp member
    exact valid

theorem joinUnits_valid {words units : List CString} (tokens : ∀ word ∈ words, IsToken word)
    (valid : ∀ unit ∈ units, Utf8Unit unit) : ∀ unit ∈ joinUnits units words, Utf8Unit unit := by
  induction words with
  | nil => exact valid
  | cons word rest inductionHypothesis =>
    obtain ⟨first, others⟩ := List.forall_mem_cons.mp tokens
    intro unit member
    simp only [joinUnits, List.append_assoc] at member
    cases List.mem_append.mp member with
    | inl here => exact unitsOf_valid first unit here
    | inr after =>
      cases List.mem_append.mp after with
      | inl space =>
        split at space
        · cases List.mem_singleton.mp space
          exact .ascii (by decide)
        · cases space
      | inr later => exact inductionHypothesis others unit later

/-! ## The text of the cached words -/

theorem IsToken.nonempty {word : CString} (token : IsToken word) : word ≠ [] := by
  cases token with
  | english nonempty _ => exact nonempty
  | wide valid _ => exact valid.nonempty

/-- The last byte of a word is ASCII when the first one is. -/
theorem IsToken.last {word : CString} (token : IsToken word) :
    isAscii (word.getLastD 0) = startsAscii word := by
  have member : word.getLastD 0 ∈ word := by
    rw [List.getLastD_eq_getLast?, List.getLast?_eq_some_getLast token.nonempty]
    exact List.getLast_mem token.nonempty
  cases token with
  | english nonempty english =>
    rw [startsAscii_english nonempty english]
    exact (english _ member).1
  | wide valid notAscii =>
    have last := wide_bytes valid notAscii _ member
    simp only [Bool.not_eq_true] at last notAscii
    rw [last, notAscii]

theorem startsAscii_flatten {word : CString} (nonempty : word ≠ []) (rest : CString) :
    startsAscii (word ++ rest) = startsAscii word := by
  cases word with
  | nil => exact absurd rfl nonempty
  | cons byte word => rfl

/-- The first of several cached words plays no part in the space before the input. -/
theorem fullText_cons {cache : List CString} (nonempty : cache.flatten ≠ []) (piece input : CString) :
    fullText (piece :: cache) input = piece ++ fullText cache input := by
  have last : (piece ++ cache.flatten).getLastD 0 = cache.flatten.getLastD 0 := by
    rw [List.getLastD_eq_getLast?, List.getLastD_eq_getLast?, List.getLast?_append,
      List.getLast?_eq_some_getLast nonempty]
    rfl
  simp only [fullText, List.flatten_cons, last]
  by_cases spaced : isAscii (cache.flatten.getLastD 0) ∧ input ≠ [] ∧ startsAscii input
  · rw [if_pos ⟨by simp [nonempty], spaced⟩, if_pos ⟨nonempty, spaced⟩]
    simp
  · rw [if_neg (fun both => spaced both.2), if_neg (fun both => spaced both.2), List.append_assoc]

theorem spaceWords_nonempty {word : CString} (nonempty : word ≠ []) (rest : List CString) :
    (spaceWords (word :: rest)).flatten ≠ [] := by
  cases rest with
  | nil => simpa [spaceWords] using nonempty
  | cons next rest =>
    rw [spaceWords]
    split <;> simp [nonempty]

/-- The characters of a word begin as the word does. -/
theorem joinUnits_head {word : CString} (token : IsToken word) (units rest : List CString) :
    joinUnits units (word :: rest) ≠ [] ∧
      startsAscii ((joinUnits units (word :: rest)).headD []) = startsAscii word := by
  cases token with
  | english nonempty english =>
    have starts := startsAscii_english nonempty english
    cases word with
    | nil => exact absurd rfl nonempty
    | cons byte word =>
      rw [joinUnits, unitsOf, if_pos starts]
      exact ⟨by simp, by simp [startsAscii]⟩
  | wide valid notAscii =>
    rw [joinUnits, unitsOf, if_neg notAscii]
    exact ⟨by simp, by simp⟩

theorem unitsOf_flatten (word : CString) : (unitsOf word).flatten = word := by
  by_cases starts : startsAscii word
  · rw [unitsOf, if_pos starts, ← List.flatMap_def]
    simp
  · simp [unitsOf, starts]

/-- The cached words and the input, as characters and as the text that is tokenized. -/
theorem joinUnits_flatten {words units : List CString} (tokens : ∀ word ∈ words, IsToken word)
    (valid : ∀ unit ∈ units, Utf8Unit unit) :
    (joinUnits units words).flatten = fullText (spaceWords words) units.flatten := by
  induction words with
  | nil => simp [joinUnits, spaceWords, fullText]
  | cons word rest inductionHypothesis =>
    obtain ⟨first, others⟩ := List.forall_mem_cons.mp tokens
    cases rest with
    | nil =>
      have nonempty := first.nonempty
      simp only [joinUnits, List.flatten_append, unitsOf_flatten, spaceWords, fullText,
        List.flatten_singleton, first.last]
      cases units with
      | nil => simp
      | cons unit units =>
        have nonempty' := (valid unit List.mem_cons_self).nonempty
        have starts := startsAscii_flatten nonempty' units.flatten
        by_cases spaced : startsAscii word ∧ startsAscii unit
        · simp [nonempty, nonempty', starts, spaced.1, spaced.2]
        · simp [nonempty, nonempty', starts, spaced]
    | cons next rest =>
      have nextToken := others next List.mem_cons_self
      obtain ⟨some, starts⟩ := joinUnits_head nextToken units rest
      rw [joinUnits, List.flatten_append, List.flatten_append, unitsOf_flatten, starts,
        inductionHypothesis others, spaceWords, fullText_cons (spaceWords_nonempty nextToken.nonempty rest)]
      by_cases spaced : startsAscii word ∧ startsAscii next
      · simp [some, spaced.1, spaced.2]
      · simp [some, spaced]

/-- Cached words in front of an input are tokenized to the same words, and the input as if it came
    alone. -/
theorem tokenize_fullText {tokenizer : CTokenizer} (noJieba : tokenizer.segJieba = none)
    {words units : List CString} (tokens : ∀ word ∈ words, IsToken word)
    (valid : ∀ unit ∈ units, Utf8Unit unit) :
    tokenizer.tokenize (fullText (spaceWords words) units.flatten) =
      words ++ tokenizer.tokenize units.flatten := by
  rw [← joinUnits_flatten tokens valid, tokenize_units noJieba (joinUnits_valid tokens valid),
    joinUnits_tokens tokens, tokenize_units noJieba valid]

end Asr2Pass.Punctuation
