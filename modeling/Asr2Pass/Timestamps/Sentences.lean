import Asr2Pass.Timestamps.TimestampSentence

/-! # The sentences of `TimestampSentence`

The loop writes a list of sentences, with a comma behind each that ends in a mark which is not the
last token.  What it writes is the JSON that the servers expect unless such a comma is left without a
sentence behind it, or a word does not fit into a string.
-/

namespace Asr2Pass.Timestamps

open Library
open Text (CString bytes toStringInt)

structure Sentence where
  words : List CString := []
  punc : CString := []
  start : Int := -1
  stop : Int := -1
  tsSeg : List Span := []

namespace Sentence

def text (sentence : Sentence) : CString :=
  tsSent (List.intercalate [0x20] sentence.words) sentence.punc sentence.start sentence.stop
    sentence.tsSeg

def value (sentence : Sentence) : Json.Value :=
  .object [(bytes "text_seg", .string (List.intercalate [0x20] sentence.words)),
    (bytes "punc", .string sentence.punc), (bytes "start", numberValue sentence.start),
    (bytes "end", numberValue sentence.stop),
    (bytes "ts_list", .array (sentence.tsSeg.map spanValue))]

theorem value_isSentence (sentence : Sentence) : IsSentence sentence.value := by
  refine ⟨_, _, _, _, _, rfl, ?_⟩
  intro span member
  obtain ⟨span, -, rfl⟩ := List.mem_map.mp member
  exact ⟨_, _, rfl⟩

/-- The fields of the object. -/
def members (sentence : Sentence) : List Json.Member :=
  [⟨bytes "text_seg", 0x22 :: List.intercalate [0x20] sentence.words ++ [0x22],
      .string (List.intercalate [0x20] sentence.words)⟩,
    ⟨bytes "punc", 0x22 :: sentence.punc ++ [0x22], .string sentence.punc⟩,
    ⟨bytes "start", toStringInt sentence.start, numberValue sentence.start⟩,
    ⟨bytes "end", toStringInt sentence.stop, numberValue sentence.stop⟩,
    ⟨bytes "ts_list", vectorToString sentence.tsSeg false,
      .array (sentence.tsSeg.map spanValue)⟩]

theorem text_eq (sentence : Sentence) :
    sentence.text =
      0x7b :: List.intercalate [0x2c] (sentence.members.map Json.Member.spelled) ++ [0x7d] := by
  have textSeg : bytes "\x7b\"text_seg\":\"" = 0x7b :: 0x22 :: bytes "text_seg" ++ [0x22, 0x3a, 0x22] :=
    rfl
  have punc : bytes "\"punc\":\"" = 0x22 :: bytes "punc" ++ [0x22, 0x3a, 0x22] := rfl
  have start : bytes "\"start\":" = 0x22 :: bytes "start" ++ [0x22, 0x3a] := rfl
  have stop : bytes "\"end\":" = 0x22 :: bytes "end" ++ [0x22, 0x3a] := rfl
  have tsList : bytes "\"ts_list\":" = 0x22 :: bytes "ts_list" ++ [0x22, 0x3a] := rfl
  have quote : bytes "\"," = [0x22, 0x2c] := rfl
  have comma : bytes "," = [0x2c] := rfl
  have close : bytes "\x7d" = [0x7d] := rfl
  unfold text tsSent members
  rw [textSeg, punc, start, stop, tsList, quote, comma, close]
  simp [Json.Member.spelled, List.intercalate_cons_cons, List.intercalate_singleton]

/-- Whether the words and the mark are tokens, each of its kind. -/
structure IsOfTokens (sentence : Sentence) : Prop where
  words : ∀ word ∈ sentence.words, IsToken word ∧ isWord word
  punc : sentence.punc = [] ∨ IsToken sentence.punc ∧ timestampIsPunctuation sentence.punc

/-- Every word fits into a string. -/
def IsPlain (sentence : Sentence) : Prop := ∀ word ∈ sentence.words, IsPlainWord word

variable {sentence : Sentence}

theorem isContent_words {words : List CString} (each : ∀ word ∈ words, Json.IsContent word) :
    Json.IsContent (List.intercalate [0x20] words) := by
  have space : Json.IsContent [0x20] := ⟨by decide, rfl⟩
  induction words with
  | nil => exact Json.isContent_nil
  | cons word words inductionHypothesis =>
    obtain ⟨first, others⟩ := List.forall_mem_cons.mp each
    obtain ⟨tail, same, ⟨-, rfl⟩ | ⟨-, rfl⟩⟩ := intercalate_cons word words
    · rw [same, List.append_nil]
      exact first
    · rw [same]
      exact first.append (space.append (inductionHypothesis others))

theorem closed_text (isOfTokens : sentence.IsOfTokens) (plain : sentence.IsPlain) :
    Json.Closed sentence.text sentence.value := by
  have words : Json.IsContent (List.intercalate [0x20] sentence.words) :=
    isContent_words fun word member =>
      isContent_of_isPlainWord (isOfTokens.words word member).1.stringWord (plain word member)
  have punc : Json.IsContent sentence.punc := by
    rcases isOfTokens.punc with none | ⟨isToken, mark⟩
    · rw [none]
      exact Json.isContent_nil
    · exact isContent_of_isPlainWord isToken.stringWord (isPlainWord_of_punctuation isToken mark)
  have keys : ∀ key ∈ [bytes "text_seg", bytes "punc", bytes "start", bytes "end", bytes "ts_list"],
      0x22 ∉ key ∧ Json.spell .plain key = some .plain := by
    decide
  have reads : ∀ member ∈ sentence.members, member.Reads := by
    unfold members
    simp only [List.forall_mem_cons]
    refine ⟨⟨keys _ (by simp), (Json.closed_string words).reads⟩,
      ⟨keys _ (by simp), (Json.closed_string punc).reads⟩, ⟨keys _ (by simp), reads_toStringInt _⟩,
      ⟨keys _ (by simp), reads_toStringInt _⟩,
      ⟨keys _ (by simp), (closed_vectorToString _).reads⟩, ?_⟩
    exact fun member inside => absurd inside List.not_mem_nil
  rw [text_eq]
  exact Json.closed_object reads (List.cons_ne_nil _ _)

theorem read_text_none (isOfTokens : sentence.IsOfTokens) (notPlain : ¬ sentence.IsPlain)
    {stack : List Json.Frame} {mode : Json.Mode} (isOpen : mode.IsOpen) :
    Json.read ⟨stack, mode⟩ sentence.text = none := by
  have opened : Json.read ⟨stack, mode⟩ (bytes "\x7b\"text_seg\":\"") =
      some ⟨.object [] (bytes "text_seg") :: stack, .string false .plain []⟩ := by
    rcases isOpen with rfl | rfl <;> rfl
  obtain ⟨more, text⟩ : ∃ more, sentence.text = bytes "\x7b\"text_seg\":\"" ++
      (List.intercalate [0x20] sentence.words ++ (beforePunc ++ more)) := by
    have between : ∀ rest, bytes "\"," ++ (bytes "\"punc\":\"" ++ rest) =
        beforePunc ++ ([0x3a, 0x22] ++ rest) := fun rest => rfl
    unfold Sentence.text tsSent
    simp only [List.append_assoc]
    rw [between]
    exact ⟨_, rfl⟩
  rw [text, Json.read_append, opened]
  refine read_words_none (fun word member => ?_) notPlain _ _
  obtain ⟨isToken, isWord⟩ := isOfTokens.words word member
  exact ⟨isToken.stringWord, comma_not_mem isToken isWord⟩

end Sentence

/-! ## The array -/

/-- Sentences with a comma behind each, and a last one without. -/
structure Sentences where
  closed : List Sentence := []
  last : Option Sentence := none

namespace Sentences

def text (sentences : Sentences) : CString :=
  sentences.closed.flatMap (fun sentence => sentence.text ++ [0x2c]) ++
    (sentences.last.map Sentence.text).getD []

theorem text_last (last : Option Sentence) : text ⟨[], last⟩ = (last.map Sentence.text).getD [] :=
  List.nil_append _

def all (sentences : Sentences) : List Sentence := sentences.closed ++ sentences.last.toList

variable {sentences : Sentences}

/-- The sentences with a comma behind them, from the beginning of the array. -/
theorem read_closed {closed : List Sentence}
    (areOfTokens : ∀ sentence ∈ closed, sentence.IsOfTokens)
    (plain : ∀ sentence ∈ closed, sentence.IsPlain) :
    Json.read ⟨[.array []], .firstItem⟩
        (closed.flatMap fun sentence => sentence.text ++ [0x2c]) =
      some ⟨[.array (closed.map Sentence.value)], if closed = [] then .firstItem else .value⟩ := by
  have reads : List.Forall₂ Json.Reads (closed.map Sentence.text) (closed.map Sentence.value) := by
    rw [List.forall₂_map_left_iff, List.forall₂_map_right_iff, List.forall₂_same]
    exact fun sentence member =>
      (Sentence.closed_text (areOfTokens sentence member) (plain sentence member)).reads
  have commas := @Json.read_commas [] .firstItem _ _ [] reads (.inr rfl)
  simpa only [List.flatMap_map, List.nil_append, List.map_eq_nil_iff] using commas

/-- A word that does not fit stops the reader. -/
theorem read_text_none {closed : List Sentence} {last : Option Sentence}
    (areOfTokens : ∀ sentence ∈ closed ++ last.toList, sentence.IsOfTokens)
    (notPlain : ¬ ∀ sentence ∈ closed ++ last.toList, sentence.IsPlain) {items : List Json.Value}
    {mode : Json.Mode} (isOpen : mode.IsOpen) :
    Json.read ⟨[.array items], mode⟩ (text ⟨closed, last⟩) = none := by
  induction closed generalizing items mode with
  | nil =>
    cases last with
    | none => exact absurd (fun sentence member => absurd member List.not_mem_nil) notPlain
    | some last =>
      rw [List.nil_append] at areOfTokens notPlain
      rw [text_last, Option.map_some, Option.getD_some]
      exact Sentence.read_text_none (List.forall_mem_singleton.mp areOfTokens)
        (fun plain => notPlain (List.forall_mem_singleton.mpr plain)) isOpen
  | cons sentence closed inductionHypothesis =>
    obtain ⟨first, others⟩ := List.forall_mem_cons.mp areOfTokens
    have parts : text ⟨sentence :: closed, last⟩ =
        sentence.text ++ ([0x2c] ++ text ⟨closed, last⟩) := by
      simp [text]
    rw [parts]
    by_cases plain : sentence.IsPlain
    · have turned : Json.read ⟨[.array items], mode⟩ (sentence.text ++ [0x2c]) =
          some ⟨[.array (items ++ [sentence.value])], .value⟩ :=
        (Sentence.closed_text first plain).reads isOpen rfl
      rw [← List.append_assoc, Json.read_append, turned]
      exact inductionHypothesis others
        (fun rest => notPlain (List.forall_mem_cons.mpr ⟨plain, rest⟩)) (.inl rfl)
    · rw [Json.read_append, Sentence.read_text_none first plain isOpen, Option.bind_none]

/-- No comma is left without a sentence behind it. -/
def IsComplete (sentences : Sentences) : Prop := sentences.closed = [] ∨ sentences.last ≠ none

theorem parse_bracketed (text : CString) :
    Json.parse (bytes "[" ++ text ++ bytes "]") =
      (Json.read ⟨[.array []], .firstItem⟩ (text ++ [0x5d])).bind Json.State.result := by
  unfold Json.parse
  rw [List.append_assoc, Json.read_append]
  rfl

theorem parse_text (areOfTokens : ∀ sentence ∈ sentences.all, sentence.IsOfTokens)
    (plain : ∀ sentence ∈ sentences.all, sentence.IsPlain) (complete : sentences.IsComplete) :
    Json.parse (bytes "[" ++ sentences.text ++ bytes "]") =
      some (.array (sentences.all.map Sentence.value)) := by
  obtain ⟨closed, last⟩ := sentences
  obtain ⟨areClosed, areLast⟩ := List.forall_mem_append.mp areOfTokens
  obtain ⟨plainClosed, plainLast⟩ := List.forall_mem_append.mp plain
  rw [parse_bracketed, text, List.append_assoc, Json.read_append, read_closed areClosed plainClosed,
    Option.bind_some]
  cases last with
  | none =>
    cases complete with
    | inl none =>
      subst none
      rfl
    | inr wrong => exact absurd rfl wrong
  | some last =>
    have ended := Sentence.closed_text (areLast last (List.mem_singleton_self last))
      (plainLast last (List.mem_singleton_self last))
    have isOpen : (if closed = [] then Json.Mode.firstItem else .value).IsOpen := by
      split
      · exact .inr rfl
      · exact .inl rfl
    rw [Option.map_some, Option.getD_some, ended.reads isOpen rfl, all, List.map_append]
    rfl

theorem parse_text_none (areOfTokens : ∀ sentence ∈ sentences.all, sentence.IsOfTokens)
    (wrong : ¬ ((∀ sentence ∈ sentences.all, sentence.IsPlain) ∧ sentences.IsComplete)) :
    Json.parse (bytes "[" ++ sentences.text ++ bytes "]") = none := by
  obtain ⟨closed, last⟩ := sentences
  rw [parse_bracketed]
  by_cases plain : ∀ sentence ∈ all ⟨closed, last⟩, sentence.IsPlain
  · -- The array ends behind a comma.
    have incomplete : ¬ IsComplete ⟨closed, last⟩ := fun complete => wrong ⟨plain, complete⟩
    obtain ⟨some, none⟩ := not_or.mp incomplete
    obtain rfl := not_not.mp none
    obtain ⟨areClosed, -⟩ := List.forall_mem_append.mp areOfTokens
    obtain ⟨plainClosed, -⟩ := List.forall_mem_append.mp plain
    rw [text, List.append_assoc, Json.read_append, read_closed areClosed plainClosed, if_neg some]
    rfl
  · rw [Json.read_append, read_text_none areOfTokens plain (.inr rfl)]
    rfl

end Sentences

/-! ## The sentences of the loop -/

namespace Sentence

/-- The sentence so far, with its mark. -/
def close (draft : Sentence) (punc : CString) : Sentence :=
  { draft with
    punc
    start := (draft.tsSeg.head?.map (·.1)).getD draft.start
    stop := (draft.tsSeg.getLast?.map (·.2)).getD draft.stop }

def speak (draft : Sentence) (timestamp : Option Span) (word : CString) : Sentence :=
  match timestamp with
  | none => draft
  | some timestamp =>
    { draft with words := draft.words ++ [word], tsSeg := draft.tsSeg ++ [timestamp] }

end Sentence

/-- A sentence goes from mark to mark, and every word in it takes one of the timestamps that are
    left. -/
def sentencesOf : List Span → Sentence → List CString → Sentences
  | _, draft, [] => ⟨[], if draft.tsSeg = [] then none else some (draft.close [])⟩
  | timestamps, draft, character :: characters =>
    if timestampIsPunctuation character then
      if characters = [] then ⟨[], some (draft.close character)⟩
      else
        let later := sentencesOf timestamps { start := 0, stop := 0 } characters
        ⟨draft.close character :: later.closed, later.last⟩
    else sentencesOf timestamps.tail (draft.speak timestamps.head? character) characters

/-- What the variables of the loop stand for. -/
structure Sentencing.Drafts (timestamps : List Span) (sentencing : Sentencing) (left : List Span)
    (draft : Sentence) : Prop where
  left : timestamps.drop sentencing.idxTs = left
  textSeg : sentencing.textSeg = List.intercalate [0x20] draft.words
  start : sentencing.start = draft.start
  stop : sentencing.stop = draft.stop
  tsSeg : sentencing.tsSeg = draft.tsSeg
  words : ∀ word ∈ draft.words, word ≠ []

theorem intercalate_snoc {words : List CString} (some : words ≠ []) (word : CString) :
    List.intercalate [0x20] (words ++ [word]) = List.intercalate [0x20] words ++ [0x20] ++ word := by
  induction words with
  | nil => exact absurd rfl some
  | cons first words inductionHypothesis =>
    cases words with
    | nil => rw [List.singleton_append, List.intercalate_cons_cons]; simp [List.intercalate_singleton]
    | cons next words =>
      have later := inductionHypothesis (List.cons_ne_nil _ _)
      rw [List.cons_append] at later
      rw [List.cons_append, List.cons_append, List.intercalate_cons_cons, later,
        List.intercalate_cons_cons]
      simp only [List.append_assoc]

namespace Sentencing.Drafts

variable {timestamps left : List Span} {sentencing : Sentencing} {draft : Sentence}

theorem close_text (drafts : Drafts timestamps sentencing left draft) (punc : CString) :
    sentencing.close punc = (draft.close punc).text := by
  unfold Sentencing.close
  rw [drafts.textSeg, drafts.start, drafts.stop, drafts.tsSeg]
  rfl

theorem punctuate (drafts : Drafts timestamps sentencing left draft) (mark : CString)
    (isLast : Bool) :
    Drafts timestamps (sentencing.punctuate mark isLast) left { start := 0, stop := 0 } :=
  ⟨drafts.left, rfl, rfl, rfl, rfl, fun _ member => absurd member List.not_mem_nil⟩

theorem textSeg_eq_nil (drafts : Drafts timestamps sentencing left draft) :
    sentencing.textSeg = [] ↔ draft.words = [] := by
  rw [drafts.textSeg]
  constructor
  · intro empty
    cases words : draft.words with
    | nil => rfl
    | cons word words' =>
      obtain ⟨tail, text, -⟩ := intercalate_cons word words'
      rw [words, text] at empty
      exact absurd (List.append_eq_nil_iff.mp empty).1
        (drafts.words word (words ▸ List.mem_cons_self ..))
  · intro empty
    rw [empty]
    rfl

theorem speak (drafts : Drafts timestamps sentencing left draft) {word : CString}
    (nonempty : word ≠ []) :
    Drafts timestamps (sentencing.speak timestamps word) left.tail (draft.speak left.head? word) := by
  have next : timestamps[sentencing.idxTs]? = left.head? := by
    rw [← drafts.left, List.head?_drop]
  unfold Sentencing.speak
  rw [next]
  cases left with
  | nil => exact drafts
  | cons timestamp left =>
    have dropped : timestamps.drop (sentencing.idxTs + 1) = left := by
      rw [← List.drop_drop, drafts.left]
      rfl
    have joined : (if sentencing.textSeg = [] then word else sentencing.textSeg ++ bytes " " ++ word) =
        List.intercalate [0x20] (draft.words ++ [word]) := by
      split
      · rename_i empty
        rw [drafts.textSeg_eq_nil.mp empty, List.nil_append, List.intercalate_singleton]
      · rename_i some
        rw [intercalate_snoc (mt drafts.textSeg_eq_nil.mpr some), ← drafts.textSeg]
        rfl
    refine ⟨dropped, joined, drafts.start, drafts.stop,
      congrArg (· ++ [timestamp]) drafts.tsSeg, ?_⟩
    · intro other member
      cases List.mem_append.mp member with
      | inl old => exact drafts.words other old
      | inr new =>
        rw [List.mem_singleton.mp new]
        exact nonempty

theorem speak_tsSentences (timestamps : List Span) (sentencing : Sentencing) (word : CString) :
    (sentencing.speak timestamps word).tsSentences = sentencing.tsSentences := by
  unfold Sentencing.speak
  split <;> rfl

/-- The loop writes the sentences. -/
theorem loop (drafts : Drafts timestamps sentencing left draft) {characters : List CString}
    (nonempty : ∀ character ∈ characters, character ≠ []) :
    (Sentencing.loop timestamps sentencing characters).finish =
      sentencing.tsSentences ++ (sentencesOf left draft characters).text := by
  induction characters generalizing sentencing left draft with
  | nil =>
    unfold Sentencing.loop Sentencing.finish sentencesOf
    rw [drafts.close_text, drafts.tsSeg, Sentences.text_last]
    split
    · rw [Option.map_none, Option.getD_none]
    · rw [Option.map_some, Option.getD_some]
  | cons character characters inductionHypothesis =>
    obtain ⟨first, others⟩ := List.forall_mem_cons.mp nonempty
    unfold Sentencing.loop sentencesOf
    split
    · rw [inductionHypothesis (drafts.punctuate character _) others, Sentencing.punctuate,
        drafts.close_text]
      cases characters with
      | nil => simp [sentencesOf, Sentences.text]
      | cons next characters =>
        have comma : bytes "," = [0x2c] := rfl
        simp [Sentences.text, comma]
    · rw [inductionHypothesis (drafts.speak first) others, speak_tsSentences]

end Sentencing.Drafts

/-- The text of the array. -/
theorem timestampSentence_eq {text strTime : CString} {timestamps : List Span}
    (read : parseTimestamps strTime = some timestamps) :
    timestampSentence text strTime = some (bytes "[" ++
      (sentencesOf timestamps {} (timestampSplitChiEngCharacters text)).text ++ bytes "]") := by
  have drafts : Sentencing.Drafts timestamps {} timestamps {} :=
    ⟨rfl, rfl, rfl, rfl, rfl, fun _ member => absurd member List.not_mem_nil⟩
  have nonempty : ∀ character ∈ timestampSplitChiEngCharacters text, character ≠ [] :=
    fun character member => (isToken_of_mem member).ne_nil
  unfold timestampSentence
  rw [read]
  show some (bytes "[" ++ (Sentencing.loop timestamps {} _).finish ++ bytes "]") = _
  rw [drafts.loop nonempty]
  rfl

/-! ## What the sentences are made of -/

section
variable {left : List Span} {draft : Sentence} {characters : List CString}

theorem sentencesOf_isOfTokens (words : ∀ word ∈ draft.words, IsToken word ∧ isWord word)
    (areTokens : ∀ character ∈ characters, IsToken character) :
    ∀ sentence ∈ (sentencesOf left draft characters).all, sentence.IsOfTokens := by
  induction characters generalizing left draft with
  | nil =>
    unfold sentencesOf Sentences.all
    split
    · exact fun sentence member => absurd member List.not_mem_nil
    · exact List.forall_mem_singleton.mpr ⟨words, .inl rfl⟩
  | cons character characters inductionHypothesis =>
    obtain ⟨isToken, others⟩ := List.forall_mem_cons.mp areTokens
    unfold sentencesOf
    -- A mark closes the draft, and is its only token that is no word.
    split
    · rename_i mark
      have closed : (draft.close character).IsOfTokens := ⟨words, .inr ⟨isToken, mark⟩⟩
      split
      · exact List.forall_mem_singleton.mpr closed
      · exact List.forall_mem_cons.mpr
          ⟨closed, inductionHypothesis (fun _ member => absurd member List.not_mem_nil) others⟩
    · rename_i word
      refine inductionHypothesis ?_ others
      cases left with
      | nil => exact words
      | cons timestamp left =>
        intro other member
        cases List.mem_append.mp member with
        | inl old => exact words other old
        | inr new =>
          rw [List.mem_singleton.mp new]
          exact ⟨isToken, by simpa [isWord] using word⟩

/-- The words of the sentences are those that have a timestamp. -/
theorem sentencesOf_words (counted : draft.words.length = draft.tsSeg.length) :
    (sentencesOf left draft characters).all.flatMap Sentence.words =
      draft.words ++ (characters.filter isWord).take left.length := by
  induction characters generalizing left draft with
  | nil =>
    unfold sentencesOf Sentences.all
    split
    · rename_i none
      rw [none] at counted
      simp [List.length_eq_zero_iff.mp counted]
    · simp [Sentence.close]
  | cons character characters inductionHypothesis =>
    unfold sentencesOf
    -- A mark closes the sentence and gets no timestamp; a word takes the next one, if one is left.
    split
    · rename_i mark
      have skipped : (character :: characters).filter isWord = characters.filter isWord := by
        simp [isWord, mark]
      rw [skipped]
      split
      · rename_i none
        subst none
        simp [Sentences.all, Sentence.close]
      · have later := @inductionHypothesis left { start := 0, stop := 0 } rfl
        rw [List.nil_append] at later
        rw [← later]
        rfl
    · rename_i word
      have kept : (character :: characters).filter isWord =
          character :: characters.filter isWord := by
        simp [isWord, word]
      rw [kept]
      cases left with
      | nil =>
        rw [inductionHypothesis (by exact counted)]
        rfl
      | cons timestamp left =>
        have longer : (draft.words ++ [character]).length = (draft.tsSeg ++ [timestamp]).length := by
          rw [List.length_append, List.length_append, counted]
          rfl
        rw [inductionHypothesis (by exact longer), List.length_cons, List.take_succ_cons,
          List.append_cons]
        rfl

/-- After the last mark there are words, and those before it have used up the timestamps. -/
def CommaFollows (characters : List CString) (timestamps : Nat) : Prop :=
  ∃ before mark after, characters = before ++ mark :: after ∧ timestampIsPunctuation mark ∧
    after ≠ [] ∧ (∀ character ∈ after, isWord character) ∧ timestamps ≤ before.countP isWord

theorem not_commaFollows_nil (timestamps : Nat) : ¬ CommaFollows [] timestamps := by
  rintro ⟨before, mark, after, same, -⟩
  exact absurd same.symm (List.append_ne_nil_of_right_ne_nil _ (List.cons_ne_nil _ _))

theorem commaFollows_mark {character : CString} (mark : timestampIsPunctuation character)
    (timestamps : Nat) :
    CommaFollows (character :: characters) timestamps ↔
      (timestamps = 0 ∧ characters ≠ [] ∧ ∀ character ∈ characters, isWord character) ∨
        CommaFollows characters timestamps := by
  constructor
  · rintro ⟨before, mark', after, same, isMark, some, words, used⟩
    cases before with
    | nil =>
      cases same
      exact .inl ⟨Nat.le_zero.mp used, some, words⟩
    | cons first before =>
      cases same
      rw [List.countP_cons_of_neg (by simp [isWord, mark])] at used
      exact .inr ⟨before, mark', after, rfl, isMark, some, words, used⟩
  · rintro (⟨none, some, words⟩ | ⟨before, mark', after, rfl, isMark, some, words, used⟩)
    · exact ⟨[], character, characters, rfl, mark, some, words, Nat.le_of_eq none⟩
    · refine ⟨character :: before, mark', after, rfl, isMark, some, words, ?_⟩
      rw [List.countP_cons_of_neg (by simp [isWord, mark])]
      exact used

theorem commaFollows_word {character : CString} (word : timestampIsPunctuation character = false)
    (timestamps : Nat) :
    CommaFollows (character :: characters) timestamps ↔
      CommaFollows characters (timestamps - 1) := by
  constructor
  · rintro ⟨before, mark, after, same, isMark, some, words, used⟩
    cases before with
    | nil =>
      cases same
      rw [word] at isMark
      cases isMark
    | cons first before =>
      cases same
      rw [List.countP_cons_of_pos (by simp [isWord, word])] at used
      exact ⟨before, mark, after, rfl, isMark, some, words, by omega⟩
  · rintro ⟨before, mark, after, rfl, isMark, some, words, used⟩
    refine ⟨character :: before, mark, after, rfl, isMark, some, words, ?_⟩
    rw [List.countP_cons_of_pos (by simp [isWord, word])]
    omega

/-- When nothing is written. -/
theorem sentencesOf_nothing :
    ((sentencesOf left draft characters).closed = [] ∧
        (sentencesOf left draft characters).last = none) ↔
      draft.tsSeg = [] ∧ (left = [] ∨ characters = []) ∧
        ∀ character ∈ characters, isWord character := by
  induction characters generalizing left draft with
  | nil => simp [sentencesOf]
  | cons character characters inductionHypothesis =>
    unfold sentencesOf
    split
    · rename_i mark
      have written : ¬ ∀ other ∈ character :: characters, isWord other := by
        intro words
        have word := words character (List.mem_cons_self ..)
        simp [isWord, mark] at word
      split
      · exact iff_of_false (fun none => Option.some_ne_none _ none.2) fun none => written none.2.2
      · exact iff_of_false (fun none => List.cons_ne_nil _ _ none.1) fun none => written none.2.2
    · rename_i word
      rw [inductionHypothesis]
      cases left with
      | nil => simp [Sentence.speak, isWord, word]
      | cons timestamp left => simp [Sentence.speak]

theorem sentencesOf_isComplete :
    (sentencesOf left draft characters).IsComplete ↔ ¬ CommaFollows characters left.length := by
  induction characters generalizing left draft with
  | nil => exact iff_of_true (.inl rfl) (not_commaFollows_nil _)
  | cons character characters inductionHypothesis =>
    unfold sentencesOf
    split
    · rename_i mark
      rw [commaFollows_mark mark]
      split
      · rename_i none
        subst none
        refine iff_of_true (.inl rfl) ?_
        rintro (⟨-, some, -⟩ | follows)
        · exact some rfl
        · exact not_commaFollows_nil _ follows
      · -- A sentence is written, so that the later ones may not be missing.
        rename_i some
        have later := @inductionHypothesis left { start := 0, stop := 0 }
        have nothing := @sentencesOf_nothing left { start := 0, stop := 0 } characters
        generalize sentencesOf left { start := 0, stop := 0 } characters = sentences at later nothing
        rw [not_or, ← later, List.length_eq_zero_iff]
        constructor
        · intro complete
          have last := complete.resolve_left (List.cons_ne_nil _ _)
          exact ⟨fun none => last (nothing.mpr ⟨rfl, .inl none.1, none.2.2⟩).2, .inr last⟩
        · rintro ⟨notNothing, complete⟩
          refine .inr fun last => ?_
          have none := nothing.mp ⟨complete.resolve_right (not_not.mpr last), last⟩
          exact notNothing ⟨none.2.1.resolve_right some, some, none.2.2⟩
    · rename_i word
      rw [Bool.not_eq_true] at word
      rw [inductionHypothesis, commaFollows_word word, List.length_tail]

/-- The fields that the servers expect, exactly when every word with a timestamp fits into a string,
    and no comma is left behind the last mark. -/
theorem timestampSentence_areSentences_iff (text strTime : CString) :
    (∃ result, timestampSentence text strTime = some result ∧ AreSentences result) ↔
      ∃ timestamps, parseTimestamps strTime = some timestamps ∧
        ¬ CommaFollows (timestampSplitChiEngCharacters text) timestamps.length ∧
        ∀ word ∈ ((timestampSplitChiEngCharacters text).filter isWord).take timestamps.length,
          IsPlainWord word := by
  cases read : parseTimestamps strTime with
  | none => simp [timestampSentence, read]
  | some timestamps =>
    have areOfTokens := @sentencesOf_isOfTokens timestamps {} _
      (fun _ member => absurd member List.not_mem_nil) fun _ => @isToken_of_mem text _
    have words := @sentencesOf_words timestamps {} (timestampSplitChiEngCharacters text) rfl
    have complete := @sentencesOf_isComplete timestamps {} (timestampSplitChiEngCharacters text)
    rw [timestampSentence_eq read]
    generalize sentencesOf timestamps {} (timestampSplitChiEngCharacters text) = sentences at *
    have plain : (∀ sentence ∈ sentences.all, sentence.IsPlain) ↔
        ∀ word ∈ ((timestampSplitChiEngCharacters text).filter isWord).take timestamps.length,
          IsPlainWord word := by
      rw [List.nil_append] at words
      rw [← words, List.forall_mem_flatMap]
      rfl
    simp only [Option.some.injEq, exists_eq_left']
    rw [← plain, ← complete]
    -- A reader that takes the text has found all of it in order.
    constructor
    · rintro ⟨values, parsed, -⟩
      by_contra wrong
      rw [Sentences.parse_text_none areOfTokens fun both => wrong ⟨both.2, both.1⟩] at parsed
      cases parsed
    · rintro ⟨isComplete, isPlain⟩
      refine ⟨_, Sentences.parse_text areOfTokens isPlain isComplete, ?_⟩
      intro value member
      obtain ⟨sentence, -, rfl⟩ := List.mem_map.mp member
      exact sentence.value_isSentence

/-- A word without a timestamp behind the last mark leaves a comma. -/
theorem not_areSentences_comma :
    ¬ ∃ result, timestampSentence (bytes "你。好") (bytes "[[0,10]]") = some result ∧
      AreSentences result := by
  have refused : (timestampSentence (bytes "你。好") (bytes "[[0,10]]")).bind Json.parse = none := rfl
  rintro ⟨result, returned, values, parsed, -⟩
  rw [returned, Option.bind_some, parsed] at refused
  cases refused

end

end Asr2Pass.Timestamps
