import Asr2Pass.Punctuation.FailedInference

/-! # Texts whose windows are miscounted

`nTotalBatch` is the ceiling of a `float` quotient.  From `2 ^ 24 + 5` tokens on it can differ from
the number of windows, and then the windows do not write each word once.
-/

namespace Asr2Pass.Punctuation

open Library Text

variable {tokenizer : CTokenizer}

/-- The windows write words of the text. -/
theorem cutAll_words_mem {answers : Answers tokenizer} {nTotalBatch nCurBatch : Nat}
    {remain : List Token} {rest : List (List Token)} {minis : List MiniSentence}
    (ran : cutAll answers nTotalBatch nCurBatch remain rest = some minis) :
    ∀ word ∈ writtenWords minis, word ∈ (remain ++ rest.flatten).map Prod.fst := by
  induction rest generalizing nCurBatch remain minis with
  | nil =>
    cases ran
    simp [writtenWords]
  | cons slice rest inductionHypothesis =>
    rcases cutAll_cons ran with ⟨-, cut, punction', later, -, eq, rfl⟩ | ⟨-, later, eq, rfl⟩
    · intro word member
      rw [List.flatten_cons, ← List.append_assoc, List.map_append, List.mem_append]
      cases List.mem_append.mp member with
      | inl here =>
        obtain ⟨token, inside, same⟩ := List.mem_map.mp here
        exact .inl (List.mem_map.mpr ⟨token, List.mem_of_mem_take inside, same⟩)
      | inr there =>
        have later := inductionHypothesis eq word there
        rw [List.map_append, List.mem_append] at later
        refine later.imp_left fun kept => ?_
        obtain ⟨token, inside, same⟩ := List.mem_map.mp kept
        exact List.mem_map.mpr ⟨token, List.mem_of_mem_drop inside, same⟩
    · intro word member
      rw [List.flatten_cons, ← List.append_assoc, List.map_append, List.mem_append]
      cases List.mem_append.mp member with
      | inl here => exact .inl here
      | inr there =>
        have later := inductionHypothesis eq word there
        rw [List.map_append, List.mem_append] at later
        refine later.imp_left fun kept => ?_
        rw [List.map_append, List.mem_append]
        exact .inl kept

theorem writtenWords_mem {answers : Answers tokenizer} {input : CString} {minis : List MiniSentence}
    (eq : miniSentencesOf answers input = some minis) :
    ∀ word ∈ writtenWords minis, word ∈ tokenizer.tokenize input := by
  have words := cutAll_words_mem eq
  rwa [List.nil_append, slices_flatten, tokens_words] at words

/-! ## What is returned -/

/-- The strings show what the windows write, closed or not. -/
theorem sentenceOut_punctuated {labels : Labels tokenizer} {input : CString} {strings : List CString}
    (plain : ∀ word ∈ tokenizer.tokenize input, word ∉ tokenizer.puncList)
    (out : sentenceOut labels input = some strings) :
    ∃ minis, miniSentencesOf (fun _ => some labels) input = some minis ∧
      Punctuated tokenizer (writtenWords minis) strings := by
  obtain ⟨minis, eq, eq', complete⟩ := miniSentencesOf_succeeds labels input
  obtain ⟨written, eq'', punctuated⟩ := MiniSentence.write_complete complete
  rw [MiniSentence.mapM_write complete] at eq''
  refine ⟨minis, eq, ?_⟩
  simp only [sentenceOut, eq', eq'', Option.bind_eq_bind, Option.bind_some] at out
  split at out
  · by_cases nonempty : written.flatten = []
    · rw [nonempty] at out
      cases out
    · obtain ⟨closed, closing, punctuated', -⟩ := closeText_closed labels
        (fun word member => plain word (writtenWords_mem eq word member)) punctuated nonempty
      rw [closing] at out
      cases out
      exact punctuated'
  · cases out
    exact punctuated

theorem addPuncOnline_punctuated {labels : Nat → Labels tokenizer} {input : CString}
    {strings cache : List CString}
    (plain : ∀ word ∈ tokenizer.tokenize input, word ∉ tokenizer.puncList)
    (ran : addPuncOnline labels input [] = some (strings, cache)) :
    ∃ minis, miniSentencesOf (fun _ => some (labels 0)) input = some minis ∧
      Punctuated tokenizer (writtenWords minis) strings := by
  obtain ⟨minis, eq, eq', complete⟩ := miniSentencesOf_succeeds (labels 0) input
  obtain ⟨words, punction⟩ := MiniSentence.labelled_flatten complete
  have bounded := (Complete.flatMap complete).2
  obtain ⟨-, -, spaced, -⟩ := Complete.listed complete
  obtain ⟨out, written, punctuated⟩ := writeNew_punctuated
    (spaceWords_written (minis.flatMap (·.inputStr))) spaced bounded (Nat.zero_le 0)
  have alone : fullText [] input = input := by simp [fullText]
  simp only [addPuncOnline, alone, List.length_nil, eq', words, punction, written,
    Option.bind_eq_bind, Option.bind_some, Option.bind_eq_some_iff] at ran
  obtain ⟨sentEnd, -, same⟩ := ran
  cases same
  exact ⟨minis, eq, dropMark_punctuated (labels 0)
    (fun word member => plain word (writtenWords_mem eq word member)) punctuated⟩

/-! ## `CTTransformer` -/

/-- Strings that show the words have as many that are no marks. -/
theorem Punctuated.length_eq (labels : Labels tokenizer) {words strings : List CString}
    (plain : ∀ word ∈ words, word ∉ tokenizer.puncList)
    (punctuated : Punctuated tokenizer words strings) :
    (strings.map fun piece => if piece ∈ tokenizer.puncList then 0 else 1).sum = words.length := by
  have formed : ∀ word ∈ words, ∀ piece, Written word piece →
      (if piece ∈ tokenizer.puncList then 0 else 1) = 1 := by
    intro word member piece written
    rw [if_neg]
    intro listed
    exact not_written_mark labels plain listed word member written
  rw [punctuated.sum_map formed (fun piece listed => if_pos listed)]
  simp

/-- The words of a text that has some are all in the output, in order and each once, and the output is
    closed, just when `nTotalBatch` counts the windows. -/
theorem addPunc_keeps_iff (labels : Labels tokenizer) {input language : CString}
    (other : language ≠ bytes "en-bpe") (spoken : tokenizer.tokenize input ≠ [])
    (plain : ∀ word ∈ tokenizer.tokenize input, word ∉ tokenizer.puncList) :
    Keeps labels input language ↔ RightBatches (tokenizer.tokens input) := by
  refine ⟨?_, addPunc_keeps labels other spoken plain⟩
  rintro ⟨strings, out, -, punctuated, -⟩
  obtain ⟨minis, eq, punctuated'⟩ := sentenceOut_punctuated plain out
  refine rightBatches_of_words eq ?_
  rw [← punctuated.length_eq labels plain, ← punctuated'.length_eq labels
    fun word member => plain word (writtenWords_mem eq word member)]

theorem addPunc_keeps_iff_hello :
    Keeps commas (bytes "你 hello world") (bytes "zh-cn") ↔
      RightBatches (released.tokens (bytes "你 hello world")) :=
  addPunc_keeps_iff commas (by decide) (by decide) (by decide)

/-! ## A long text -/

/-- One character, many times. -/
def youText (count : Nat) : List Char := List.replicate count '你'

theorem tokenize_youText (count : Nat) :
    released.tokenize (encode (youText count)) = List.replicate count (bytes "你") := by
  have one : String.utf8EncodeChar '你' = bytes "你" := by decide
  have units : (youText count).map String.utf8EncodeChar = List.replicate count (bytes "你") := by
    rw [youText, List.map_replicate, one]
  rw [encode_units, tokenize_units rfl (encode_valid _), units]
  induction count with
  | zero => rfl
  | succ count inductionHypothesis =>
    rw [List.replicate_succ, unitTokens, if_neg (by decide), if_neg (by decide), inductionHypothesis]
    · rfl
    · rw [youText, List.map_replicate, one]

/-- The first byte of the character counts the words. -/
theorem Punctuated.count_youText {words strings : List CString} (you : ∀ word ∈ words, word = bytes "你")
    (punctuated : Punctuated released words strings) : strings.flatten.count 0xe4 = words.length := by
  have formed : ∀ word ∈ words, ∀ piece, Written word piece → piece.count 0xe4 = 1 := by
    intro word member piece written
    rw [you word member] at written
    rcases written with rfl | rfl | rfl
    · decide
    · decide
    · decide
  have silent : ∀ mark ∈ released.puncList, mark.count 0xe4 = 0 := by decide
  rw [List.count_flatten, punctuated.sum_map formed silent]
  simp

theorem plain_youText (count : Nat) :
    ∀ word ∈ released.tokenize (encode (youText count)), word ∉ released.puncList := by
  intro word member
  rw [tokenize_youText] at member
  rw [List.eq_of_mem_replicate member]
  decide

/-- Strings that show the windows and strings that show the text cannot be the same bytes where the
    windows are miscounted. -/
theorem rightBatches_of_flatten {count : Nat} {answers : Answers released} {minis : List MiniSentence}
    (eq : miniSentencesOf answers (encode (youText count)) = some minis)
    {strings strings' : List CString} (punctuated : Punctuated released (writtenWords minis) strings)
    (punctuated' : Punctuated released (released.tokenize (encode (youText count))) strings')
    (same : strings.flatten = strings'.flatten) :
    RightBatches (released.tokens (encode (youText count))) := by
  have you : ∀ word ∈ released.tokenize (encode (youText count)), word = bytes "你" := by
    rw [tokenize_youText]
    exact fun word member => List.eq_of_mem_replicate member
  refine rightBatches_of_words eq ?_
  rw [← punctuated.count_youText fun word member => you word (writtenWords_mem eq word member), same,
    punctuated'.count_youText you]

theorem not_rightBatches_youText :
    ¬ RightBatches (released.tokens (encode (youText 16777221))) := by
  have length := congrArg List.length (tokens_words released (encode (youText 16777221)))
  rw [List.length_map, tokenize_youText, List.length_replicate] at length
  rw [RightBatches, totalBatch, windowCount, length]
  decide +kernel

/-- The last window is one more than `nTotalBatch`. -/
theorem not_addPunc_keeps :
    ¬ ∃ strings, addPunc commas (encode (youText 16777221)) (bytes "zh-cn") = some strings.flatten ∧
      Punctuated released (released.tokenize (encode (youText 16777221))) strings ∧
      Closed released strings := by
  rintro ⟨strings, ran, punctuated, -⟩
  rw [addPunc, Option.bind_eq_bind] at ran
  obtain ⟨out, returned, same⟩ := Option.bind_eq_some_iff.mp ran
  rw [if_neg (by decide)] at same
  obtain ⟨minis, eq, punctuated'⟩ := sentenceOut_punctuated (plain_youText _) returned
  exact not_rightBatches_youText
    (rightBatches_of_flatten eq punctuated' punctuated (Option.some.inj same))

/-! ## `CTTransformerOnline` -/

/-- One call with the long text. -/
def longCall : OnlineCall released := ⟨youText 16777221, fun _ => commas⟩

theorem not_addPuncAll_keeps :
    ¬ ∃ outputs cache, addPuncAll [] [longCall] = some (outputs, cache) ∧
      EmitsOnce [longCall] [] outputs cache := by
  rintro ⟨outputs, cache, ran, once⟩
  simp only [addPuncAll, Option.bind_eq_bind, Option.bind_eq_some_iff, Option.bind_some] at ran
  obtain ⟨⟨strings, arrCache'⟩, returned, same⟩ := ran
  cases same
  obtain ⟨minis, eq, punctuated⟩ := addPuncOnline_punctuated (plain_youText _) returned
  obtain ⟨strings', flat, punctuated'⟩ := once.output
  have words : inputWords [longCall] = released.tokenize (encode (youText 16777221)) :=
    List.append_nil _
  rw [words] at punctuated'
  rw [List.flatten_cons, List.flatten_nil, List.append_nil] at flat
  exact not_rightBatches_youText (rightBatches_of_flatten eq punctuated punctuated' flat)

end Asr2Pass.Punctuation
