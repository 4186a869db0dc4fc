import Asr2Pass.Library.Decorations
import Asr2Pass.Punctuation.Windows

/-! # `CTTransformer`

`AddPunc` writes the words of each sentence with spaces between English ones and a mark after a word
whose label asks for one, and closes the text with a period unless a question mark does.
-/

namespace Asr2Pass.Punctuation

open Library Text

variable {tokenizer : CTokenizer}

/-- The loop over the words of a sentence, after the word `previous`. -/
def writeSentence (tokenizer : CTokenizer) (previous : Option CString) :
    List Labelled → Option (List CString)
  | [] => some []
  | (word, label) :: rest => do
    let word' :=
      -- The space between two English words is written in front of the second one.
      match previous with
      | some before => if startsAscii before ∧ startsAscii word then 0x20 :: word else word
      | none => word
    let later ← writeSentence tokenizer (some word') rest
    if label ≠ notPuncIndex then
      let mark ← tokenizer.id2Punc label
      return word' :: mark :: later
    else return word' :: later

/-- What the last window makes of `NewString`. -/
def closeText (tokenizer : CTokenizer) (newString : List CString) : Option (List CString) := do
  let last ← newString.getLast?
  let comma ← tokenizer.id2Punc commaIndex
  let dun ← tokenizer.id2Punc dunIndex
  let period ← tokenizer.id2Punc periodIndex
  let question ← tokenizer.id2Punc questionIndex
  if last = comma ∨ last = dun then return newString.dropLast ++ [period]
  else if last ≠ period ∧ last ≠ question then return newString ++ [period]
  else return newString

/-- The replacement of `symbol` by a single character; `skip` bytes of an occurrence are left. -/
def replaceSymbol (symbol : CString) (char : UInt8) : Nat → CString → CString
  | _, [] => []
  | skip + 1, _ :: rest => replaceSymbol symbol char skip rest
  | 0, byte :: rest =>
    if symbol.isPrefixOf (byte :: rest) then char :: replaceSymbol symbol char (symbol.length - 1) rest
    else byte :: replaceSymbol symbol char 0 rest

/-- The Chinese symbols of an `en-bpe` text turned into English ones. -/
def englishSymbols (text : CString) : CString :=
  [("，", 0x2c), ("。", 0x2e), ("、", 0x2c), ("？", 0x3f)].foldl
    (fun text (symbol, char) => replaceSymbol (bytes symbol) char 0 text) text

/-- `AddPunc` up to the final text: the strings of `NewSentenceOut`. -/
def sentenceOut (labels : Labels tokenizer) (input : CString) : Option (List CString) := do
  let tokens := tokenizer.tokens input
  let sentences ← miniSentences labels (totalBatch tokens) 0 [] (slices tokens)
  let written ← sentences.mapM (writeSentence tokenizer none)
  -- A window after number `nTotalBatch - 1` takes the mark at the end back.
  if sentences ≠ [] ∧ sentences.length = totalBatch tokens then closeText tokenizer written.flatten
  else return written.flatten

/-- `CTTransformer::AddPunc`. -/
def addPunc (labels : Labels tokenizer) (input language : CString) : Option CString := do
  let strings ← sentenceOut labels input
  if language = bytes "en-bpe" then return englishSymbols strings.flatten else return strings.flatten

/-! ## Words and marks -/

/-- A word as it is written: alone, or with a space before or after it. -/
def Written (word piece : CString) : Prop :=
  piece = word ∨ piece = 0x20 :: word ∨ piece = word ++ [0x20]

/-- The pieces have the words in order, each once, with marks of the list between them. -/
abbrev Punctuated (tokenizer : CTokenizer) : List CString → List CString → Prop :=
  Decorated Written (· ∈ tokenizer.puncList)

theorem not_written_mark (labels : Labels tokenizer) {words : List CString} {mark : CString}
    (plain : ∀ word ∈ words, word ∉ tokenizer.puncList) (listed : mark ∈ tokenizer.puncList) :
    ∀ word ∈ words, ¬ Written word mark := by
  intro word member written
  rcases written with rfl | rfl | rfl
  · exact plain mark member listed
  · exact labels.noSpace _ listed List.mem_cons_self
  · exact labels.noSpace _ listed (List.mem_append_right _ List.mem_cons_self)

theorem writeSentence_punctuated {sentence : List Labelled}
    (bounded : ∀ labelled ∈ sentence, labelled.2 < tokenizer.puncList.length)
    (previous : Option CString) :
    ∃ pieces, writeSentence tokenizer previous sentence = some pieces ∧
      Punctuated tokenizer (sentence.map Prod.fst) pieces := by
  induction sentence generalizing previous with
  | nil => exact ⟨[], rfl, .nil⟩
  | cons labelled rest inductionHypothesis =>
    obtain ⟨word, label⟩ := labelled
    obtain ⟨first, others⟩ := List.forall_mem_cons.mp bounded
    generalize spaced : (match previous with
      | some before => if startsAscii before ∧ startsAscii word then 0x20 :: word else word
      | none => word) = word'
    have written : Written word word' := by
      rw [← spaced]
      cases previous with
      | none => exact .inl rfl
      | some before =>
        by_cases english : startsAscii before ∧ startsAscii word
        · simp only [if_pos english]
          exact .inr (.inl rfl)
        · simp only [if_neg english]
          exact .inl rfl
    obtain ⟨later, eq, punctuated⟩ := inductionHypothesis others (some word')
    -- The mark stands behind its word, if it has one.
    by_cases unmarked : label = notPuncIndex
    · refine ⟨word' :: later, ?_, .entry written punctuated⟩
      simp only [writeSentence, spaced, eq, unmarked, Option.bind_eq_bind, Option.bind_some]
      rfl
    · obtain ⟨mark, listed, marked⟩ := id2Punc_some first
      refine ⟨word' :: mark :: later, ?_, .entry written (.extra listed punctuated)⟩
      simp only [writeSentence, spaced, eq, Option.bind_eq_bind, Option.bind_some, ne_eq, unmarked,
        not_false_eq_true, if_true, marked]
      rfl

theorem writeSentences_punctuated {sentences : List (List Labelled)}
    (bounded : ∀ labelled ∈ sentences.flatten, labelled.2 < tokenizer.puncList.length) :
    ∃ written, sentences.mapM (writeSentence tokenizer none) = some written ∧
      Punctuated tokenizer (sentences.flatten.map Prod.fst) written.flatten := by
  induction sentences with
  | nil => exact ⟨[], rfl, .nil⟩
  | cons sentence rest inductionHypothesis =>
    have here : ∀ labelled ∈ sentence, labelled.2 < tokenizer.puncList.length :=
      fun labelled member => bounded labelled (by simp [member])
    obtain ⟨pieces, eq, punctuated⟩ := writeSentence_punctuated here none
    obtain ⟨written, eq', punctuated'⟩ := inductionHypothesis fun labelled member =>
      bounded labelled (by rw [List.flatten_cons]; exact List.mem_append_right _ member)
    refine ⟨pieces :: written, ?_, ?_⟩
    · rw [List.mapM_cons, eq, eq']
      rfl
    · rw [List.flatten_cons, List.map_append, List.flatten_cons]
      exact punctuated.append punctuated'

/-- The last string is the period or the question mark. -/
def Closed (tokenizer : CTokenizer) (strings : List CString) : Prop :=
  ∃ body mark, strings = body ++ [mark] ∧
    (tokenizer.id2Punc periodIndex = some mark ∨ tokenizer.id2Punc questionIndex = some mark)

theorem closeText_closed (labels : Labels tokenizer) {words strings : List CString}
    (plain : ∀ word ∈ words, word ∉ tokenizer.puncList)
    (punctuated : Punctuated tokenizer words strings) (nonempty : strings ≠ []) :
    ∃ closed, closeText tokenizer strings = some closed ∧ Punctuated tokenizer words closed ∧
      Closed tokenizer closed := by
  obtain ⟨comma, commaListed, comma'⟩ := labels.id2Punc (show commaIndex < 6 by decide)
  obtain ⟨dun, dunListed, dun'⟩ := labels.id2Punc (show dunIndex < 6 by decide)
  obtain ⟨period, periodListed, period'⟩ := labels.id2Punc (show periodIndex < 6 by decide)
  obtain ⟨question, questionListed, question'⟩ := labels.id2Punc (show questionIndex < 6 by decide)
  cases List.eq_nil_or_concat strings with
  | inl none => exact absurd none nonempty
  | inr split =>
    obtain ⟨body, last, rfl⟩ := split
    rw [List.concat_eq_append] at punctuated ⊢
    simp only [closeText, List.getLast?_concat, comma', dun', period', question',
      Option.bind_eq_bind, Option.bind_some, List.dropLast_concat]
    by_cases weak : last = comma ∨ last = dun
    · -- A comma at the end was set after the last word, so it can go.
      have listed : last ∈ tokenizer.puncList := by
        cases weak with
        | inl same => rwa [same]
        | inr same => rwa [same]
      have shorter := punctuated.dropLast (not_written_mark labels plain listed)
      rw [if_pos weak]
      exact ⟨_, rfl, shorter.snoc_extra periodListed, body, period, rfl, .inl period'⟩
    · by_cases unclosed : last ≠ period ∧ last ≠ question
      · rw [if_neg weak, if_pos unclosed]
        exact ⟨_, rfl, punctuated.snoc_extra periodListed, body ++ [last], period, rfl, .inl period'⟩
      · rw [if_neg weak, if_neg unclosed]
        refine ⟨_, rfl, punctuated, body, last, rfl, ?_⟩
        by_cases same : last = period
        · exact .inl (by rw [same, period'])
        · have same' : last = question := by
            by_contra different
            exact unclosed ⟨same, different⟩
          exact .inr (by rw [same', question'])

theorem Punctuated.nonempty {words strings : List CString} (spoken : words ≠ [])
    (punctuated : Punctuated tokenizer words strings) : strings ≠ [] := by
  cases punctuated with
  | nil => exact absurd rfl spoken
  | entry => simp
  | extra => simp

/-- What is asked of a call: it writes the words of the text, in order and each once, with marks and
    spaces between them, and ends with a period or a question mark. -/
def Keeps (labels : Labels tokenizer) (input language : CString) : Prop :=
  ∃ strings, sentenceOut labels input = some strings ∧
    addPunc labels input language = some strings.flatten ∧
    Punctuated tokenizer (tokenizer.tokenize input) strings ∧ Closed tokenizer strings

theorem addPunc_keeps (labels : Labels tokenizer) {input language : CString}
    (other : language ≠ bytes "en-bpe") (spoken : tokenizer.tokenize input ≠ [])
    (plain : ∀ word ∈ tokenizer.tokenize input, word ∉ tokenizer.puncList)
    (right : RightBatches (tokenizer.tokens input)) : Keeps labels input language := by
  obtain ⟨sentences, eq, kept, bounded⟩ := sentences_words labels right
  rw [tokens_words] at kept
  obtain ⟨written, eq', punctuated⟩ := writeSentences_punctuated bounded
  rw [kept] at punctuated
  obtain ⟨closed, closing, punctuated', isClosed⟩ :=
    closeText_closed labels plain punctuated (Punctuated.nonempty spoken punctuated)
  have nonempty : sentences ≠ [] := by
    intro none
    rw [none] at kept
    exact spoken kept.symm
  have length : sentences.length = totalBatch (tokenizer.tokens input) := by
    rw [miniSentences_length eq, slices_length, right]
  have out : sentenceOut labels input = some closed := by
    simp only [sentenceOut, eq, eq', Option.bind_eq_bind, Option.bind_some, if_pos (And.intro nonempty
      length), closing]
  refine ⟨closed, out, ?_, punctuated', isClosed⟩
  simp only [addPunc, out, Option.bind_eq_bind, Option.bind_some, if_neg other]
  rfl

/-! ## An example -/

/-- The marks of the released models, and no known token. -/
def released : CTokenizer where
  puncList := [bytes "<unk>", bytes "_", bytes "，", bytes "。", bytes "？", bytes "、"]
  token2Id _ := none

/-- A comma after every token. -/
def commas : Labels released where
  infer ids := ids.map fun _ => commaIndex
  length_infer := by simp
  bounded := by
    intro ids label member
    obtain ⟨-, -, rfl⟩ := List.mem_map.mp member
    decide
  named := by decide
  noSpace := by decide

example : addPunc commas (bytes "你 hello world") (bytes "zh-cn") =
    some (bytes "你，hello， world。") := by decide +kernel

end Asr2Pass.Punctuation
