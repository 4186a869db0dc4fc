import Asr2Pass.Timestamps.Sentences

/-! # The timestamps of the sentences

The loop hands the timestamps out in order, one to each word, and a mark closes the sentence with the
timestamps that were handed out since the mark before it.
-/

namespace Asr2Pass.Timestamps

open Library
open Text (CString bytes)

section
variable {left : List Span} {draft : Sentence} {characters : List CString}

/-- Every sentence is a draft that was closed by a mark, or by the end of the text. -/
theorem closed_of_mem_sentencesOf {sentence : Sentence}
    (member : sentence ∈ (sentencesOf left draft characters).all) :
    ∃ draft punc, sentence = Sentence.close draft punc := by
  induction characters generalizing left draft with
  | nil =>
    unfold sentencesOf Sentences.all at member
    split at member
    · cases member
    · exact ⟨draft, [], List.mem_singleton.mp member⟩
  | cons character characters inductionHypothesis =>
    unfold sentencesOf at member
    split at member
    · split at member
      · exact ⟨draft, character, List.mem_singleton.mp member⟩
      · cases List.mem_cons.mp member with
        | inl first => exact ⟨draft, character, first⟩
        | inr later => exact inductionHypothesis later
    · exact inductionHypothesis member

/-- A closed sentence begins and ends with its timestamps. -/
theorem Sentence.close_bounds (draft : Sentence) (punc : CString) :
    (∀ first ∈ (draft.close punc).tsSeg.head?, (draft.close punc).start = first.1) ∧
      ∀ last ∈ (draft.close punc).tsSeg.getLast?, (draft.close punc).stop = last.2 := by
  constructor
  · intro first begins
    have begins : draft.tsSeg.head? = some first := begins
    simp [Sentence.close, begins]
  · intro last ends
    have ends : draft.tsSeg.getLast? = some last := ends
    simp [Sentence.close, ends]

/-- The words take the timestamps that are left, in order and as far as they go. -/
theorem sentencesOf_tsSeg :
    (sentencesOf left draft characters).all.flatMap Sentence.tsSeg =
      draft.tsSeg ++ left.take (characters.filter isWord).length := by
  -- On the tokens: a mark closes the draft, and only a word takes a timestamp.
  induction characters generalizing left draft with
  | nil =>
    unfold sentencesOf Sentences.all
    split
    · rename_i nothing
      simp [nothing]
    · simp [Sentence.close]
  | cons character characters inductionHypothesis =>
    unfold sentencesOf
    split
    · rename_i mark
      have skipped : (character :: characters).filter isWord = characters.filter isWord := by
        simp [isWord, mark]
      rw [skipped]
      split
      · rename_i isLast
        simp [isLast, Sentences.all, Sentence.close]
      · have later := @inductionHypothesis left { start := 0, stop := 0 }
        rw [List.nil_append] at later
        rw [← later]
        rfl
    · rename_i word
      have kept : (character :: characters).filter isWord =
          character :: characters.filter isWord := by
        simp [isWord, word]
      rw [kept, inductionHypothesis, List.length_cons]
      cases left with
      | nil => simp [Sentence.speak]
      | cons timestamp left => simp [Sentence.speak]

end

/-- The reader takes the objects of the sentences from the text, or it refuses the text. -/
theorem parse_sentencesOf {timestamps : List Span} {text : CString} {value : Json.Value}
    (parsed : Json.parse (bytes "[" ++
      (sentencesOf timestamps {} (timestampSplitChiEngCharacters text)).text ++ bytes "]") =
        some value) :
    value = .array
      ((sentencesOf timestamps {} (timestampSplitChiEngCharacters text)).all.map Sentence.value) := by
  have areOfTokens := @sentencesOf_isOfTokens timestamps {} _
    (fun _ member => absurd member List.not_mem_nil) fun _ => @isToken_of_mem text _
  by_cases fine : (∀ sentence ∈ (sentencesOf timestamps {} (timestampSplitChiEngCharacters text)).all,
      sentence.IsPlain) ∧
        (sentencesOf timestamps {} (timestampSplitChiEngCharacters text)).IsComplete
  · rw [Sentences.parse_text areOfTokens fine.1 fine.2] at parsed
    exact (Option.some.inj parsed).symm
  · rw [Sentences.parse_text_none areOfTokens fine] at parsed
    cases parsed

/-- The sentences share the timestamps among them: one timestamp for each word as far as they go, and
    each sentence begins and ends with its own. -/
structure Sentences.Partition (sentences : Sentences) (words : List CString)
    (timestamps : List Span) : Prop where
  tsSeg : sentences.all.flatMap Sentence.tsSeg =
    timestamps.take (min words.length timestamps.length)
  start : ∀ sentence ∈ sentences.all, ∀ first ∈ sentence.tsSeg.head?, sentence.start = first.1
  stop : ∀ sentence ∈ sentences.all, ∀ last ∈ sentence.tsSeg.getLast?, sentence.stop = last.2

/-- The returned text is that of sentences that share the timestamps, and what a reader takes from it
    are these sentences. -/
theorem timestampSentence_partition (text strTime : CString) {timestamps : List Span}
    (read : parseTimestamps strTime = some timestamps) :
    ∃ sentences : Sentences,
      timestampSentence text strTime = some (bytes "[" ++ sentences.text ++ bytes "]") ∧
      (∀ value ∈ Json.parse (bytes "[" ++ sentences.text ++ bytes "]"),
        value = .array (sentences.all.map Sentence.value)) ∧
      sentences.Partition ((timestampSplitChiEngCharacters text).filter isWord) timestamps := by
  refine ⟨_, timestampSentence_eq read, fun value parsed => parse_sentencesOf parsed, ?_, ?_, ?_⟩
  · rw [sentencesOf_tsSeg, List.nil_append, ← List.take_take, List.take_length]
  · intro sentence member
    obtain ⟨draft, punc, rfl⟩ := closed_of_mem_sentencesOf member
    exact (draft.close_bounds punc).1
  · intro sentence member
    obtain ⟨draft, punc, rfl⟩ := closed_of_mem_sentencesOf member
    exact (draft.close_bounds punc).2

/-- Two words and a mark, then a word that takes no timestamp. -/
theorem timestampSentence_partition_twoWords :
    ∃ sentences : Sentences,
      timestampSentence (bytes "你好。a") (bytes "[[0,10],[10,25]]") =
        some (bytes "[" ++ sentences.text ++ bytes "]") ∧
      (∀ value ∈ Json.parse (bytes "[" ++ sentences.text ++ bytes "]"),
        value = .array (sentences.all.map Sentence.value)) ∧
      sentences.Partition ((timestampSplitChiEngCharacters (bytes "你好。a")).filter isWord)
        [(0, 10), (10, 25)] :=
  timestampSentence_partition (bytes "你好。a") (bytes "[[0,10],[10,25]]") (by decide)

end Asr2Pass.Timestamps
