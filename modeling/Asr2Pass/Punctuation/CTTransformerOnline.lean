import Asr2Pass.Punctuation.CTTransformer
import Asr2Pass.Punctuation.Retokenize

/-! # `CTTransformerOnline`

`AddPunc` puts the words that the last sentence end left in `arr_cache` before its input, labels
them again together, and writes what is new.  `sentence_punc_list_out` is never read and left out.
-/

namespace Asr2Pass.Punctuation

open Library Text

variable {tokenizer : CTokenizer}

/-- The loop that writes the words after the cached ones, each with its mark; `nSkipNum` words have
    been skipped. -/
def writeNew (tokenizer : CTokenizer) (cached nSkipNum : Nat) : List Labelled → Option (List CString)
  | [] => some []
  | (word, label) :: rest => do
    let nSkipNum' := if nSkipNum < cached then nSkipNum + 1 else nSkipNum
    let mark ← tokenizer.id2Punc label
    let later ← writeNew tokenizer cached nSkipNum' rest
    return (if nSkipNum < cached then [] else [word]) ++
      (if nSkipNum' ≥ cached ∧ mark ≠ bytes "_" then [mark] else []) ++ later

/-- The last sentence end, from index `nIndex` down. -/
def lastSentenceEnd (newMiniSentencePunc : List Nat) : Nat → Option (Option Nat)
  | 0 => some none
  | nIndex + 1 => do
    let label ← newMiniSentencePunc[nIndex + 1]?
    if label = periodIndex ∨ label = questionIndex then return some (nIndex + 1)
    else lastSentenceEnd newMiniSentencePunc nIndex

/-- A mark at the end is left to the next call. -/
def dropMark (tokenizer : CTokenizer) (sentenceOut : List CString) : List CString :=
  match sentenceOut.getLast? with
  | some last => if tokenizer.isPunc last then sentenceOut.dropLast else sentenceOut
  | none => sentenceOut

/-- `CTTransformerOnline::AddPunc`: the strings of `sentenceOut`, and the new `arr_cache`.  `labels`
    takes the size of the cache. -/
def addPuncOnline (labels : Nat → Labels tokenizer) (input : CString) (arrCache : List CString) :
    Option (List CString × List CString) := do
  let tokens := tokenizer.tokens (fullText arrCache input)
  let sentences ← miniSentences (labels arrCache.length) (totalBatch tokens) 0 [] (slices tokens)
  let sentenceWordsList := spaceWords (sentences.flatten.map Prod.fst)
  let newMiniSentencePunc := sentences.flatten.map Prod.snd
  let wordWithPunc ← writeNew tokenizer arrCache.length 0 (sentenceWordsList.zip newMiniSentencePunc)
  let nSentEnd ← lastSentenceEnd newMiniSentencePunc (newMiniSentencePunc.length - 2)
  return (dropMark tokenizer wordWithPunc,
    sentenceWordsList.drop (nSentEnd.elim 0 fun nIndex => nIndex + 1))

/-! ## One call -/

theorem spaceWords_length (words : List CString) : (spaceWords words).length = words.length := by
  fun_induction spaceWords words with
  | case1 => rfl
  | case2 => rfl
  | case3 word next rest inductionHypothesis =>
    simp [inductionHypothesis]

theorem spaceWords_written (words : List CString) : List.Forall₂ Written words (spaceWords words) := by
  fun_induction spaceWords words with
  | case1 => exact .nil
  | case2 word => exact .cons (.inl rfl) .nil
  | case3 word next rest inductionHypothesis =>
    refine .cons ?_ inductionHypothesis
    by_cases english : startsAscii word ∧ startsAscii next
    · rw [if_pos english]
      exact .inr (.inr rfl)
    · rw [if_neg english]
      exact .inl rfl

/-- Words that are kept have the spaces that they would have alone. -/
theorem spaceWords_drop (words : List CString) (count : Nat) :
    (spaceWords words).drop count = spaceWords (words.drop count) := by
  induction count generalizing words with
  | zero => rfl
  | succ count inductionHypothesis =>
    cases words with
    | nil => rfl
    | cons word rest =>
      cases rest with
      | nil => simp [spaceWords]
      | cons next rest =>
        rw [spaceWords, List.drop_succ_cons, inductionHypothesis, List.drop_succ_cons]

/-- The words after the cached ones are written in order, each once. -/
theorem writeNew_punctuated {words pieces : List CString} (written : List.Forall₂ Written words pieces)
    {punction : List Nat} (labelled : punction.length = pieces.length)
    (bounded : ∀ label ∈ punction, label < tokenizer.puncList.length) {cached nSkipNum : Nat}
    (skipped : nSkipNum ≤ cached) :
    ∃ out, writeNew tokenizer cached nSkipNum (pieces.zip punction) = some out ∧
      Punctuated tokenizer (words.drop (cached - nSkipNum)) out := by
  induction written generalizing punction nSkipNum with
  | nil => exact ⟨[], rfl, by simpa using .nil⟩
  | @cons word piece words pieces form _ inductionHypothesis =>
    cases punction with
    | nil => cases labelled
    | cons label punction =>
      obtain ⟨first, others⟩ := List.forall_mem_cons.mp bounded
      obtain ⟨mark, listed, marked⟩ := id2Punc_some first
      have marks (condition : Prop) [Decidable condition] {entries : List CString}
          {out : List CString} (punctuated : Punctuated tokenizer entries out) :
          Punctuated tokenizer entries ((if condition then [mark] else []) ++ out) := by
        by_cases shown : condition
        · rw [if_pos shown]
          exact .extra listed punctuated
        · rw [if_neg shown]
          exact punctuated
      -- A word of the cache is not written again, and its mark only at the seam.
      by_cases skip : nSkipNum < cached
      · obtain ⟨later, eq, punctuated⟩ := inductionHypothesis (Nat.succ.inj labelled) others
          (show nSkipNum + 1 ≤ cached by omega)
        have count : cached - nSkipNum = (cached - (nSkipNum + 1)) + 1 := by omega
        rw [count, List.drop_succ_cons]
        refine ⟨_, ?_, marks (nSkipNum + 1 ≥ cached ∧ mark ≠ bytes "_") punctuated⟩
        simp only [List.zip_cons_cons, writeNew, marked, if_pos skip, eq, Option.bind_eq_bind,
          Option.bind_some, List.nil_append]
        rfl
      · obtain ⟨later, eq, punctuated⟩ := inductionHypothesis (Nat.succ.inj labelled) others skipped
        have count : cached - nSkipNum = 0 := by omega
        rw [count, List.drop_zero] at punctuated ⊢
        refine ⟨_, ?_, .entry form (marks (nSkipNum ≥ cached ∧ mark ≠ bytes "_") punctuated)⟩
        simp only [List.zip_cons_cons, writeNew, marked, if_neg skip, eq, Option.bind_eq_bind,
          Option.bind_some, List.cons_append, List.nil_append]
        rfl

theorem lastSentenceEnd_some {punction : List Nat} {nIndex : Nat}
    (inside : nIndex = 0 ∨ nIndex < punction.length) :
    ∃ sentEnd, lastSentenceEnd punction nIndex = some sentEnd := by
  induction nIndex with
  | zero => exact ⟨none, rfl⟩
  | succ nIndex inductionHypothesis =>
    have within : nIndex + 1 < punction.length := by omega
    simp only [lastSentenceEnd, List.getElem?_eq_getElem within, Option.bind_eq_bind, Option.bind_some]
    by_cases found : punction[nIndex + 1] = periodIndex ∨ punction[nIndex + 1] = questionIndex
    · rw [if_pos found]
      exact ⟨_, rfl⟩
    · rw [if_neg found]
      exact inductionHypothesis (by omega)

theorem dropMark_punctuated (labels : Labels tokenizer) {words pieces : List CString}
    (plain : ∀ word ∈ words, word ∉ tokenizer.puncList)
    (punctuated : Punctuated tokenizer words pieces) :
    Punctuated tokenizer words (dropMark tokenizer pieces) := by
  cases List.eq_nil_or_concat pieces with
  | inl none =>
    subst none
    exact punctuated
  | inr split =>
    obtain ⟨body, last, rfl⟩ := split
    rw [List.concat_eq_append] at punctuated ⊢
    rw [dropMark, List.getLast?_concat]
    by_cases mark : tokenizer.isPunc last
    · simp only [if_pos mark, List.dropLast_concat]
      exact punctuated.dropLast (not_written_mark labels plain (by simpa [CTokenizer.isPunc] using mark))
    · simp only [if_neg mark]
      exact punctuated

/-- A call writes the words of its input, and keeps the last words for the next call. -/
theorem addPuncOnline_keeps (noJieba : tokenizer.segJieba = none) (labels : Nat → Labels tokenizer)
    {kept units : List CString} (tokens : ∀ word ∈ kept, IsToken word)
    (valid : ∀ unit ∈ units, Utf8Unit unit)
    (right : RightBatches (tokenizer.tokens (fullText (spaceWords kept) units.flatten)))
    (plain : ∀ word ∈ tokenizer.tokenize units.flatten, word ∉ tokenizer.puncList) :
    ∃ strings count, addPuncOnline labels units.flatten (spaceWords kept) =
        some (strings, spaceWords ((kept ++ tokenizer.tokenize units.flatten).drop count)) ∧
      Punctuated tokenizer (tokenizer.tokenize units.flatten) strings := by
  have text := tokenize_fullText noJieba tokens valid
  obtain ⟨sentences, eq, words, bounded⟩ := sentences_words (labels (spaceWords kept).length) right
  rw [tokens_words, text] at words
  have labelCount : (sentences.flatten.map Prod.snd).length =
      (spaceWords (sentences.flatten.map Prod.fst)).length := by
    rw [spaceWords_length, List.length_map, List.length_map]
  have bounded' : ∀ label ∈ sentences.flatten.map Prod.snd, label < tokenizer.puncList.length := by
    intro label member
    obtain ⟨labelled, inside, rfl⟩ := List.mem_map.mp member
    exact bounded labelled inside
  obtain ⟨out, written, punctuated⟩ := writeNew_punctuated
    (spaceWords_written (sentences.flatten.map Prod.fst)) labelCount bounded'
    (Nat.zero_le (spaceWords kept).length)
  obtain ⟨sentEnd, ended⟩ := @lastSentenceEnd_some (sentences.flatten.map Prod.snd)
    ((sentences.flatten.map Prod.snd).length - 2) (by omega)
  -- The words that were cached are the ones that are skipped.
  rw [words, Nat.sub_zero, spaceWords_length, List.drop_left] at punctuated
  refine ⟨dropMark tokenizer out, sentEnd.elim 0 fun nIndex => nIndex + 1, ?_,
    dropMark_punctuated (labels 0) plain punctuated⟩
  rw [← spaceWords_drop, ← words]
  simp only [addPuncOnline, eq, Option.bind_eq_bind, Option.bind_some, written, ended]
  rfl

/-! ## All calls -/

/-- A call with an input of code points, and the labels it gets. -/
structure OnlineCall (tokenizer : CTokenizer) where
  input : List Char
  labels : Nat → Labels tokenizer

/-- The strings that the calls return, and the last `arr_cache`. -/
def addPuncAll (arrCache : List CString) :
    List (OnlineCall tokenizer) → Option (List CString × List CString)
  | [] => some ([], arrCache)
  | call :: rest => do
    let (strings, arrCache') ← addPuncOnline call.labels (encode call.input) arrCache
    let (later, final) ← addPuncAll arrCache' rest
    return (strings.flatten :: later, final)

/-- In each call, `nTotalBatch` counts the windows. -/
def AllRightBatches (arrCache : List CString) : List (OnlineCall tokenizer) → Prop
  | [] => True
  | call :: rest =>
    RightBatches (tokenizer.tokens (fullText arrCache (encode call.input))) ∧
      ∀ strings arrCache', addPuncOnline call.labels (encode call.input) arrCache =
        some (strings, arrCache') → AllRightBatches arrCache' rest

/-- The words of the inputs. -/
def inputWords (calls : List (OnlineCall tokenizer)) : List CString :=
  calls.flatMap fun call => tokenizer.tokenize (encode call.input)

/-- What calls return and leave: the words of all inputs, in order and each once, and a cache whose
    words are the last ones so far and are tokenized to themselves. -/
structure EmitsOnce (calls : List (OnlineCall tokenizer)) (past : List CString)
    (outputs cache : List CString) : Prop where
  output : ∃ strings, outputs.flatten = strings.flatten ∧
    Punctuated tokenizer (inputWords calls) strings
  words : (inputWords calls).flatten =
    (calls.flatMap fun call => encode call.input).filter fun byte => byte ≠ 0x20
  cached : ∃ kept, kept <:+ past ++ inputWords calls ∧ cache.length = kept.length ∧
    tokenizer.tokenize cache.flatten = kept

theorem encode_valid (chars : List Char) :
    ∀ unit ∈ chars.map String.utf8EncodeChar, Utf8Unit unit := by
  intro unit member
  obtain ⟨char, -, rfl⟩ := List.mem_map.mp member
  exact utf8Unit_encode char

theorem tokenize_encode (noJieba : tokenizer.segJieba = none) (chars : List Char) :
    (∀ word ∈ tokenizer.tokenize (encode chars), IsToken word) ∧
      (tokenizer.tokenize (encode chars)).flatten = (encode chars).filter fun byte => byte ≠ 0x20 := by
  rw [encode_units, tokenize_units noJieba (encode_valid chars)]
  exact ⟨unitTokens_token (encode_valid chars) (by simp [EnglishBytes]),
    unitTokens_flatten (encode_valid chars) []⟩

theorem addPuncAll_from (noJieba : tokenizer.segJieba = none) (calls : List (OnlineCall tokenizer))
    (plain : ∀ word ∈ inputWords calls, word ∉ tokenizer.puncList) {past kept : List CString}
    (tokens : ∀ word ∈ kept, IsToken word) (suffix : kept <:+ past)
    (right : AllRightBatches (spaceWords kept) calls) :
    ∃ outputs cache, addPuncAll (spaceWords kept) calls = some (outputs, cache) ∧
      EmitsOnce calls past outputs cache := by
  -- On the calls: the cache always holds a suffix of the words so far, as tokens.
  induction calls generalizing past kept with
  | nil =>
    refine ⟨[], spaceWords kept, rfl, ⟨[], rfl, .nil⟩, rfl, kept, ?_, spaceWords_length kept, ?_⟩
    · simpa [inputWords] using suffix
    · have again := @tokenize_fullText _ noJieba kept [] tokens (by simp)
      have none : tokenizer.tokenize [] = [] := rfl
      simpa [fullText, none] using again
  | cons call rest inductionHypothesis =>
    obtain ⟨newTokens, newWords⟩ := tokenize_encode noJieba call.input
    have plain' : ∀ word ∈ tokenizer.tokenize (encode call.input), word ∉ tokenizer.puncList :=
      fun word member => plain word (List.mem_append_left _ member)
    have plain'' : ∀ word ∈ inputWords rest, word ∉ tokenizer.puncList :=
      fun word member => plain word (List.mem_append_right _ member)
    obtain ⟨first, others⟩ := right
    have keeps := addPuncOnline_keeps noJieba call.labels tokens (encode_valid call.input)
    rw [← encode_units] at keeps
    obtain ⟨strings, count, eq, punctuated⟩ := keeps first plain'
    have cachedTokens : ∀ word ∈ (kept ++ tokenizer.tokenize (encode call.input)).drop count,
        IsToken word := by
      intro word member
      cases List.mem_append.mp (List.mem_of_mem_drop member) with
      | inl old => exact tokens word old
      | inr new => exact newTokens word new
    have cachedSuffix : (kept ++ tokenizer.tokenize (encode call.input)).drop count <:+
        past ++ tokenizer.tokenize (encode call.input) := by
      obtain ⟨front, rfl⟩ := suffix
      exact (List.drop_suffix _ _).trans ⟨front, (List.append_assoc _ _ _).symm⟩
    obtain ⟨outputs, cache, eq', once⟩ := inductionHypothesis plain'' cachedTokens cachedSuffix
      (others _ _ eq)
    have words : inputWords (call :: rest) =
        tokenizer.tokenize (encode call.input) ++ inputWords rest := rfl
    refine ⟨strings.flatten :: outputs, cache, ?_, ?_, ?_, ?_⟩
    · simp only [addPuncAll, eq, Option.bind_eq_bind, Option.bind_some, eq']
      rfl
    · obtain ⟨later, flat, punctuated'⟩ := once.output
      refine ⟨strings ++ later, ?_, ?_⟩
      · rw [List.flatten_cons, flat, List.flatten_append]
      · rw [words]
        exact punctuated.append punctuated'
    · rw [words, List.flatten_append, newWords, once.words, List.flatMap_cons, List.filter_append]
    · rw [words, ← List.append_assoc]
      exact once.cached

/-- Calls that start with an empty cache write every word of their inputs once, in order, with marks
    and spaces between them; the words in the cache are always tokenized to themselves. -/
theorem addPuncAll_keeps (noJieba : tokenizer.segJieba = none) (calls : List (OnlineCall tokenizer))
    (plain : ∀ word ∈ inputWords calls, word ∉ tokenizer.puncList) (right : AllRightBatches [] calls) :
    ∃ outputs cache, addPuncAll [] calls = some (outputs, cache) ∧ EmitsOnce calls [] outputs cache :=
  addPuncAll_from noJieba calls plain (by simp) List.nil_suffix right

/-- "你好 he" and "llo 世", with a comma after every token. -/
def twoCalls : List (OnlineCall released) :=
  [⟨['你', '好', ' ', 'h', 'e'], fun _ => commas⟩, ⟨['l', 'l', 'o', ' ', '世'], fun _ => commas⟩]

theorem addPuncAll_keeps_twoCalls :
    ∃ outputs cache, addPuncAll [] twoCalls = some (outputs, cache) ∧
      EmitsOnce twoCalls [] outputs cache := by
  have second : ∀ result ∈ addPuncOnline (fun _ => commas) (encode ['你', '好', ' ', 'h', 'e']) [],
      RightBatches (released.tokens (fullText result.2 (encode ['l', 'l', 'o', ' ', '世']))) := by
    decide +kernel
  exact addPuncAll_keeps rfl twoCalls (by decide)
    ⟨by decide +kernel, fun strings arrCache' eq => ⟨second (strings, arrCache') eq, fun _ _ _ => trivial⟩⟩

example : addPuncAll [] twoCalls =
    some ([bytes "你，好，he", bytes "，llo，世"],
      [bytes "你", bytes "好", bytes "he ", bytes "llo", bytes "世"]) := by decide +kernel

end Asr2Pass.Punctuation
