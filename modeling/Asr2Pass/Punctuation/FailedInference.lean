import Asr2Pass.Punctuation.CTTransformerOnline

/-! # Windows without labels

`Infer` catches what the session throws and returns an empty vector.  A window that is not the last
one then gives no sentence, and its words go to the next window.  The last window has no next one,
and the loops over its words read labels that are not there.  Whatever the calls answer, words come
twice or are lost where the `float` quotient miscounts the windows.
-/

namespace Asr2Pass.Punctuation

open Library Text

variable {tokenizer : CTokenizer}

/-- What the call of `Infer` in each window answers; none where it fails. -/
abbrev Answers (tokenizer : CTokenizer) := Nat → Option (Labels tokenizer)

/-- `Infer` in the window: an empty vector where it fails. -/
def Answers.infer (answers : Answers tokenizer) (nCurBatch : Nat) (ids : List Nat) : List Nat :=
  (answers nCurBatch).elim [] (·.infer ids)

/-- `InputStr` and `Punction` of a window after the cut. -/
structure MiniSentence where
  inputStr : List CString
  punction : List Nat
  deriving DecidableEq

/-- The loop over the windows. -/
def cutAll (answers : Answers tokenizer) (nTotalBatch nCurBatch : Nat) (remain : List Token) :
    List (List Token) → Option (List MiniSentence)
  | [] => some []
  | slice :: rest => do
    let input := remain ++ slice
    let punction := answers.infer nCurBatch (input.map Prod.snd)
    if nCurBatch + 1 < nTotalBatch then
      let (cut, punction') ← cutWindow tokenizer input.length punction
      let later ← cutAll answers nTotalBatch (nCurBatch + 1) (input.drop cut) rest
      return ⟨(input.take cut).map Prod.fst, punction'.take cut⟩ :: later
    else
      let later ← cutAll answers nTotalBatch (nCurBatch + 1) remain rest
      return ⟨input.map Prod.fst, punction⟩ :: later

/-- The words of `InputStr` with their `Punction[i]`. -/
def readPunction : List CString → List Nat → Option (List Labelled)
  | [], _ => some []
  | _ :: _, [] => none
  | word :: rest, label :: punction => (readPunction rest punction).map ((word, label) :: ·)

/-- What the loop over the words writes for a window. -/
def MiniSentence.write (tokenizer : CTokenizer) (mini : MiniSentence) : Option (List CString) := do
  writeSentence tokenizer none (← readPunction mini.inputStr mini.punction)

/-- The mini sentences of the text. -/
def miniSentencesOf (answers : Answers tokenizer) (input : CString) : Option (List MiniSentence) :=
  let tokens := tokenizer.tokens input
  cutAll answers (totalBatch tokens) 0 [] (slices tokens)

/-- `NewSentenceOut` of `CTTransformer::AddPunc`. -/
def sentenceOutFrom (answers : Answers tokenizer) (input : CString) : Option (List CString) := do
  let minis ← miniSentencesOf answers input
  let written ← minis.mapM (MiniSentence.write tokenizer)
  if minis ≠ [] ∧ minis.length = totalBatch (tokenizer.tokens input) then
    closeText tokenizer written.flatten
  else return written.flatten

/-- `CTTransformer::AddPunc`. -/
def addPuncFrom (answers : Answers tokenizer) (input language : CString) : Option CString := do
  let strings ← sentenceOutFrom answers input
  if language = bytes "en-bpe" then return englishSymbols strings.flatten else return strings.flatten

/-- The loop that writes the words after the cached ones, with the marks of `sentence_punc_list`. -/
def writeListed (cached nSkipNum : Nat) : List CString → List CString → Option (List CString)
  | [], _ => some []
  | word :: rest, sentencePuncList => do
    let nSkipNum' := if nSkipNum < cached then nSkipNum + 1 else nSkipNum
    let pushed := if nSkipNum < cached then [] else [word]
    if nSkipNum' ≥ cached then
      let mark ← sentencePuncList.head?
      let later ← writeListed cached nSkipNum' rest sentencePuncList.tail
      return pushed ++ (if mark ≠ bytes "_" then [mark] else []) ++ later
    else return pushed ++ (← writeListed cached nSkipNum' rest sentencePuncList.tail)

/-- `CTTransformerOnline::AddPunc`. -/
def addPuncOnlineFrom (answers : Answers tokenizer) (input : CString) (arrCache : List CString) :
    Option (List CString × List CString) := do
  let minis ← miniSentencesOf answers (fullText arrCache input)
  let newMiniSentencePunc := minis.flatMap (·.punction)
  let sentencePuncList ← newMiniSentencePunc.mapM tokenizer.id2Punc
  let sentenceWordsList := spaceWords (minis.flatMap (·.inputStr))
  let wordWithPunc ← writeListed arrCache.length 0 sentenceWordsList sentencePuncList
  let nSentEnd ← lastSentenceEnd newMiniSentencePunc (newMiniSentencePunc.length - 2)
  return (dropMark tokenizer wordWithPunc,
    sentenceWordsList.drop (nSentEnd.elim 0 fun nIndex => nIndex + 1))

/-! ## What the windows give -/

/-- Each word has its label. -/
structure MiniSentence.Complete (tokenizer : CTokenizer) (mini : MiniSentence) : Prop where
  length : mini.punction.length = mini.inputStr.length
  bounded : ∀ label ∈ mini.punction, label < tokenizer.puncList.length

/-- The labels that the call in the last window leaves. -/
def MiniSentence.Answered (mini : MiniSentence) (answer : Option (Labels tokenizer)) : Prop :=
  if answer.isSome then mini.Complete tokenizer else mini.punction = []

/-- What the windows give: sentences with all their labels, the last window, and the words of the
    text. -/
structure Cut (answers : Answers tokenizer) (nCurBatch : Nat) (words : List CString)
    (minis : List MiniSentence) (last : MiniSentence) : Prop where
  complete : ∀ mini ∈ minis, mini.Complete tokenizer
  answered : last.Answered (answers (nCurBatch + minis.length))
  words : (minis ++ [last]).flatMap (·.inputStr) = words

theorem infer_fails {answers : Answers tokenizer} {nCurBatch : Nat} (fails : answers nCurBatch = none)
    (ids : List Nat) : answers.infer nCurBatch ids = [] := by
  rw [Answers.infer, fails]
  rfl

theorem infer_succeeds {answers : Answers tokenizer} {nCurBatch : Nat} {labels : Labels tokenizer}
    (succeeds : answers nCurBatch = some labels) (ids : List Nat) :
    answers.infer nCurBatch ids = labels.infer ids := by
  rw [Answers.infer, succeeds]
  rfl

/-- A window that is not the last one: a sentence with its labels, and what goes to the next one. -/
theorem cutWindow_answers (answers : Answers tokenizer) (nCurBatch : Nat) (input : List Token) :
    ∃ cut punction', cutWindow tokenizer input.length
        (answers.infer nCurBatch (input.map Prod.snd)) = some (cut, punction') ∧
      MiniSentence.Complete tokenizer ⟨(input.take cut).map Prod.fst, punction'.take cut⟩ := by
  cases answer : answers nCurBatch with
  | none =>
    rw [infer_fails answer]
    exact ⟨0, [], rfl, rfl, by simp⟩
  | some labels =>
    rw [infer_succeeds answer]
    obtain ⟨cut, punction', eq, length, bounded⟩ :=
      cutWindow_some labels input.length (labels.bounded (input.map Prod.snd))
    rw [labels.length_infer, List.length_map] at length
    refine ⟨cut, punction', eq, ?_, ?_⟩
    · simp [length]
    · exact fun label member => bounded label (List.mem_of_mem_take member)

/-- The last window keeps everything. -/
theorem infer_answered (answers : Answers tokenizer) (nCurBatch : Nat) (input : List Token) :
    MiniSentence.Answered ⟨input.map Prod.fst, answers.infer nCurBatch (input.map Prod.snd)⟩
      (answers nCurBatch) := by
  rw [MiniSentence.Answered]
  cases answer : answers nCurBatch with
  | none => simp [infer_fails answer]
  | some labels =>
    rw [Option.isSome_some, if_pos rfl, infer_succeeds answer]
    exact ⟨by simp [labels.length_infer], labels.bounded _⟩

theorem cutAll_cut (answers : Answers tokenizer) {nTotalBatch nCurBatch : Nat} {remain : List Token}
    {rest : List (List Token)} (waiting : rest ≠ []) (count : nCurBatch + rest.length = nTotalBatch)
    (filled : ∀ slice ∈ rest, slice ≠ []) :
    ∃ minis last, cutAll answers nTotalBatch nCurBatch remain rest = some (minis ++ [last]) ∧
      minis.length + 1 = rest.length ∧ last.inputStr ≠ [] ∧
      Cut answers nCurBatch ((remain ++ rest.flatten).map Prod.fst) minis last := by
  induction rest generalizing nCurBatch remain with
  | nil => exact absurd rfl waiting
  | cons slice rest inductionHypothesis =>
    obtain ⟨some, others⟩ := List.forall_mem_cons.mp filled
    cases rest with
    | nil =>
      have last : ¬ nCurBatch + 1 < nTotalBatch := by
        rw [List.length_singleton] at count
        omega
      have answered := infer_answered answers nCurBatch (remain ++ slice)
      refine ⟨[], ⟨(remain ++ slice).map Prod.fst,
        answers.infer nCurBatch ((remain ++ slice).map Prod.snd)⟩, ?_, rfl, ?_, ?_⟩
      · simp [cutAll, last]
      · simp [some]
      · exact ⟨by simp, answered, by simp⟩
    | cons next rest =>
      have going : nCurBatch + 1 < nTotalBatch := by
        rw [List.length_cons, List.length_cons] at count
        omega
      obtain ⟨cut, punction', cutUp, complete⟩ :=
        cutWindow_answers answers nCurBatch (remain ++ slice)
      obtain ⟨minis, last, eq, length, filled, later⟩ :=
        @inductionHypothesis (nCurBatch + 1) ((remain ++ slice).drop cut) (List.cons_ne_nil _ _)
          (by rw [List.length_cons] at count; omega) others
      refine ⟨⟨((remain ++ slice).take cut).map Prod.fst, punction'.take cut⟩ :: minis, last, ?_, ?_,
        filled, ?_⟩
      · rw [cutAll, if_pos going, cutUp]
        simp [eq]
      · rw [List.length_cons, length]
        rfl
      · refine ⟨List.forall_mem_cons.mpr ⟨complete, later.complete⟩, ?_, ?_⟩
        · rw [List.length_cons, Nat.add_comm minis.length, ← Nat.add_assoc]
          exact later.answered
        · rw [List.cons_append, List.flatMap_cons, later.words, ← List.map_append,
            ← List.append_assoc, List.take_append_drop]
          simp

/-- A text without words has no windows; another one is cut as above. -/
theorem miniSentencesOf_cut (answers : Answers tokenizer) {input : CString}
    (right : RightBatches (tokenizer.tokens input)) :
    tokenizer.tokenize input = [] ∧ miniSentencesOf answers input = some [] ∨
      ∃ minis last, miniSentencesOf answers input = some (minis ++ [last]) ∧
        minis.length + 1 = totalBatch (tokenizer.tokens input) ∧ last.inputStr ≠ [] ∧
        Cut answers 0 (tokenizer.tokenize input) minis last := by
  by_cases empty : tokenizer.tokens input = []
  · left
    rw [← tokens_words, empty, miniSentencesOf, empty]
    exact ⟨rfl, rfl⟩
  · right
    have count : 0 + (slices (tokenizer.tokens input)).length = totalBatch (tokenizer.tokens input) := by
      rw [slices_length, Nat.zero_add, right]
    obtain ⟨minis, last, eq, length, filled, cut⟩ := @cutAll_cut tokenizer answers _ 0 []
      (slices (tokenizer.tokens input)) (slices_nonempty empty) count (slices_filled _)
    rw [List.nil_append, slices_flatten, tokens_words] at cut
    rw [slices_length, ← right] at length
    exact ⟨minis, last, eq, length, filled, cut⟩

/-! ## Windows that are miscounted -/

/-- The words that the windows write. -/
def writtenWords (minis : List MiniSentence) : List CString := minis.flatMap (·.inputStr)

/-- One round of the loop. -/
theorem cutAll_cons {answers : Answers tokenizer} {nTotalBatch nCurBatch : Nat} {remain slice : List Token}
    {rest : List (List Token)} {minis : List MiniSentence}
    (ran : cutAll answers nTotalBatch nCurBatch remain (slice :: rest) = some minis) :
    (nCurBatch + 1 < nTotalBatch ∧ ∃ cut punction' later,
      cutWindow tokenizer (remain ++ slice).length
        (answers.infer nCurBatch ((remain ++ slice).map Prod.snd)) = some (cut, punction') ∧
      cutAll answers nTotalBatch (nCurBatch + 1) ((remain ++ slice).drop cut) rest = some later ∧
      minis = ⟨((remain ++ slice).take cut).map Prod.fst, punction'.take cut⟩ :: later) ∨
    (¬ nCurBatch + 1 < nTotalBatch ∧ ∃ later,
      cutAll answers nTotalBatch (nCurBatch + 1) remain rest = some later ∧
      minis = ⟨(remain ++ slice).map Prod.fst,
        answers.infer nCurBatch ((remain ++ slice).map Prod.snd)⟩ :: later) := by
  simp only [cutAll, Option.bind_eq_bind] at ran
  split at ran
  · rename_i going
    obtain ⟨⟨cut, punction'⟩, cutUp, ran⟩ := Option.bind_eq_some_iff.mp ran
    obtain ⟨later, eq, same⟩ := Option.bind_eq_some_iff.mp ran
    exact .inl ⟨going, cut, punction', later, cutUp, eq, (Option.some.inj same).symm⟩
  · rename_i done
    obtain ⟨later, eq, same⟩ := Option.bind_eq_some_iff.mp ran
    exact .inr ⟨done, later, eq, (Option.some.inj same).symm⟩

theorem length_infer_le (answers : Answers tokenizer) (nCurBatch : Nat) (ids : List Nat) :
    (answers.infer nCurBatch ids).length ≤ ids.length := by
  cases answer : answers nCurBatch with
  | none => simp [infer_fails answer]
  | some labels => rw [infer_succeeds answer, labels.length_infer]

/-- A window that is cut leaves a word to the next one. -/
theorem cutWindow_leaves {answers : Answers tokenizer} {nCurBatch cut : Nat} {input : List Token}
    {punction' : List Nat} (filled : input ≠ [])
    (cutUp : cutWindow tokenizer input.length (answers.infer nCurBatch (input.map Prod.snd)) =
      some (cut, punction')) : cut < input.length := by
  have labelled := length_infer_le answers nCurBatch (input.map Prod.snd)
  rw [List.length_map] at labelled
  exact cutWindow_lt cutUp labelled (List.length_pos_of_ne_nil filled)

/-- A call that fails gives no labels. -/
theorem cutAll_unlabelled {answers : Answers tokenizer} {nTotalBatch nCurBatch : Nat}
    {remain : List Token} {rest : List (List Token)} {minis : List MiniSentence}
    (ran : cutAll answers nTotalBatch nCurBatch remain rest = some minis) (round : Nat)
    {mini : MiniSentence} (found : minis[round]? = some mini)
    (fails : answers (nCurBatch + round) = none) : mini.punction = [] := by
  induction rest generalizing nCurBatch remain minis round with
  | nil =>
    cases ran
    cases found
  | cons slice rest inductionHypothesis =>
    rcases cutAll_cons ran with ⟨-, cut, punction', later, cutUp, eq, rfl⟩ | ⟨-, later, eq, rfl⟩
    · cases round with
      | zero =>
        cases found
        rw [Nat.add_zero] at fails
        rw [infer_fails fails] at cutUp
        cases cutUp
        rfl
      | succ round =>
        rw [← Nat.add_assoc, Nat.add_right_comm] at fails
        exact inductionHypothesis eq round found fails
    · cases round with
      | zero =>
        cases found
        exact infer_fails fails _
      | succ round =>
        rw [← Nat.add_assoc, Nat.add_right_comm] at fails
        exact inductionHypothesis eq round found fails

/-- From the window `nTotalBatch - 1` on, each one writes what was left before it again. -/
theorem cutAll_again {answers : Answers tokenizer} {nTotalBatch nCurBatch : Nat}
    {remain : List Token} {rest : List (List Token)} {minis : List MiniSentence}
    (ran : cutAll answers nTotalBatch nCurBatch remain rest = some minis)
    (done : nTotalBatch ≤ nCurBatch + 1) :
    (writtenWords minis).length = rest.length * remain.length + rest.flatten.length := by
  induction rest generalizing nCurBatch minis with
  | nil =>
    cases ran
    simp [writtenWords]
  | cons slice rest inductionHypothesis =>
    rcases cutAll_cons ran with ⟨going, -⟩ | ⟨-, later, eq, rfl⟩
    · omega
    · have others := inductionHypothesis eq (by omega)
      rw [writtenWords] at others ⊢
      rw [List.flatMap_cons, List.length_append, others]
      simp only [List.length_map, List.length_append, List.length_cons, List.flatten_cons, add_mul,
        one_mul]
      omega

/-- With too large an `nTotalBatch` the last window is cut as well. -/
theorem cutAll_few {answers : Answers tokenizer} {nTotalBatch nCurBatch : Nat}
    {remain : List Token} {rest : List (List Token)} {minis : List MiniSentence}
    (ran : cutAll answers nTotalBatch nCurBatch remain rest = some minis) (waiting : rest ≠ [])
    (filled : ∀ slice ∈ rest, slice ≠ []) (more : nCurBatch + rest.length < nTotalBatch) :
    (writtenWords minis).length < remain.length + rest.flatten.length := by
  induction rest generalizing nCurBatch remain minis with
  | nil => exact absurd rfl waiting
  | cons slice rest inductionHypothesis =>
    obtain ⟨some, others⟩ := List.forall_mem_cons.mp filled
    rw [List.length_cons] at more
    rcases cutAll_cons ran with ⟨-, cut, punction', later, cutUp, eq, rfl⟩ | ⟨done, -⟩
    · have left := cutWindow_leaves (by simp [some]) cutUp
      rw [List.length_append] at left
      rw [writtenWords, List.flatMap_cons, List.length_append, ← writtenWords]
      simp only [List.length_map, List.length_take, List.length_append, List.flatten_cons]
      cases rest with
      | nil =>
        cases eq
        simp only [writtenWords, List.flatMap_nil, List.flatten_nil, List.length_nil]
        omega
      | cons next rest =>
        have fewer := inductionHypothesis eq (List.cons_ne_nil _ _) others (by omega)
        rw [List.length_drop, List.length_append] at fewer
        omega
    · omega

/-- With too small an `nTotalBatch` there are words that are written again. -/
theorem cutAll_many {answers : Answers tokenizer} {nTotalBatch nCurBatch : Nat}
    {remain : List Token} {rest : List (List Token)} {minis : List MiniSentence}
    (ran : cutAll answers nTotalBatch nCurBatch remain rest = some minis)
    (filled : ∀ slice ∈ rest, slice ≠ []) (going : nCurBatch + 1 < nTotalBatch)
    (less : nTotalBatch < nCurBatch + rest.length) :
    remain.length + rest.flatten.length < (writtenWords minis).length := by
  induction rest generalizing nCurBatch remain minis with
  | nil =>
    rw [List.length_nil] at less
    omega
  | cons slice rest inductionHypothesis =>
    obtain ⟨some, others⟩ := List.forall_mem_cons.mp filled
    rw [List.length_cons] at less
    rcases cutAll_cons ran with ⟨-, cut, punction', later, cutUp, eq, rfl⟩ | ⟨done, -⟩
    · have left := cutWindow_leaves (by simp [some]) cutUp
      rw [List.length_append] at left
      rw [writtenWords, List.flatMap_cons, List.length_append, ← writtenWords]
      simp only [List.length_map, List.length_take, List.length_append, List.flatten_cons]
      by_cases next : nCurBatch + 1 + 1 < nTotalBatch
      · have more := inductionHypothesis eq others next (by omega)
        rw [List.length_drop, List.length_append] at more
        omega
      · -- Two windows at least start with the words that are left here.
        have again := cutAll_again eq (by omega)
        rw [List.length_drop, List.length_append] at again
        have twice := Nat.mul_le_mul_right (remain.length + slice.length - cut)
          (show 2 ≤ rest.length by omega)
        omega
    · exact absurd going done

/-- The windows write as many words as the text has just when they are counted right. -/
theorem rightBatches_of_words {answers : Answers tokenizer} {input : CString}
    {minis : List MiniSentence} (eq : miniSentencesOf answers input = some minis)
    (length : (writtenWords minis).length = (tokenizer.tokenize input).length) :
    RightBatches (tokenizer.tokens input) := by
  have words := congrArg List.length (tokens_words tokenizer input)
  rw [List.length_map] at words
  rw [← words] at length
  by_cases few : (tokenizer.tokens input).length < 2 ^ 24
  · exact rightBatches_of_lt few
  · have empty : tokenizer.tokens input ≠ [] := by
      intro none
      simp [none] at few
    have flat := congrArg List.length (slices_flatten (tokenizer.tokens input))
    have rounds := slices_length (tokenizer.tokens input)
    rcases Nat.lt_trichotomy (totalBatch (tokenizer.tokens input))
      (windowCount (tokenizer.tokens input)) with less | same | more
    · have going := one_lt_totalBatch (Nat.le_of_not_lt few)
      have many := cutAll_many eq (slices_filled _) (by omega) (by omega)
      rw [List.length_nil] at many
      omega
    · exact same
    · have fewer := cutAll_few eq (slices_nonempty empty) (slices_filled _) (by omega)
      rw [List.length_nil] at fewer
      omega

/-! ## `CTTransformer` -/

theorem readPunction_zip {words : List CString} {punction : List Nat}
    (length : punction.length = words.length) :
    readPunction words punction = some (words.zip punction) := by
  induction words generalizing punction with
  | nil => rfl
  | cons word rest inductionHypothesis =>
    cases punction with
    | nil => cases length
    | cons label punction =>
      rw [readPunction, inductionHypothesis (Nat.succ.inj length)]
      rfl

theorem readPunction_nil {words : List CString} (some : words ≠ []) : readPunction words [] = none := by
  obtain ⟨word, rest, rfl⟩ := List.exists_cons_of_ne_nil some
  rfl

def MiniSentence.labelled (mini : MiniSentence) : List Labelled := mini.inputStr.zip mini.punction

theorem MiniSentence.mapM_write {minis : List MiniSentence}
    (complete : ∀ mini ∈ minis, mini.Complete tokenizer) :
    minis.mapM (MiniSentence.write tokenizer) =
      (minis.map MiniSentence.labelled).mapM (writeSentence tokenizer none) := by
  induction minis with
  | nil => rfl
  | cons mini rest inductionHypothesis =>
    obtain ⟨first, others⟩ := List.forall_mem_cons.mp complete
    have here : mini.write tokenizer = writeSentence tokenizer none mini.labelled := by
      rw [MiniSentence.write, readPunction_zip first.length]
      rfl
    rw [List.mapM_cons, here, inductionHypothesis others, List.map_cons, List.mapM_cons]

theorem MiniSentence.labelled_flatten {minis : List MiniSentence}
    (complete : ∀ mini ∈ minis, mini.Complete tokenizer) :
    (minis.map MiniSentence.labelled).flatten.map Prod.fst = minis.flatMap (·.inputStr) ∧
      (minis.map MiniSentence.labelled).flatten.map Prod.snd = minis.flatMap (·.punction) := by
  induction minis with
  | nil => exact ⟨rfl, rfl⟩
  | cons mini rest inductionHypothesis =>
    obtain ⟨first, others⟩ := List.forall_mem_cons.mp complete
    obtain ⟨words, labels⟩ := inductionHypothesis others
    simp only [List.map_cons, List.flatten_cons, List.map_append, List.flatMap_cons, words, labels]
    rw [MiniSentence.labelled, List.map_fst_zip (Nat.le_of_eq first.length.symm),
      List.map_snd_zip (Nat.le_of_eq first.length)]
    exact ⟨rfl, rfl⟩

theorem MiniSentence.write_complete {minis : List MiniSentence}
    (complete : ∀ mini ∈ minis, mini.Complete tokenizer) :
    ∃ written, minis.mapM (MiniSentence.write tokenizer) = some written ∧
      Punctuated tokenizer (minis.flatMap (·.inputStr)) written.flatten := by
  have bounded : ∀ labelled ∈ (minis.map MiniSentence.labelled).flatten,
      labelled.2 < tokenizer.puncList.length := by
    intro labelled member
    obtain ⟨sentence, inside, member⟩ := List.mem_flatten.mp member
    obtain ⟨mini, there, rfl⟩ := List.mem_map.mp inside
    exact (complete mini there).bounded _ (List.of_mem_zip member).2
  rw [MiniSentence.mapM_write complete, ← (MiniSentence.labelled_flatten complete).1]
  exact writeSentences_punctuated bounded

theorem MiniSentence.write_last {minis : List MiniSentence} {last : MiniSentence}
    (filled : last.inputStr ≠ []) (unlabelled : last.punction = []) :
    (minis ++ [last]).mapM (MiniSentence.write tokenizer) = none := by
  have none : last.write tokenizer = none := by
    rw [MiniSentence.write, unlabelled, readPunction_nil filled]
    rfl
  rw [List.mapM_append, List.mapM_cons, none]
  cases minis.mapM (MiniSentence.write tokenizer) with
  | none => rfl
  | some written => rfl

/-- There is nothing to be labelled, or the call in the last window succeeds. -/
def LastSucceeds (answers : Answers tokenizer) (input : CString) : Prop :=
  tokenizer.tokenize input = [] ∨ (answers (totalBatch (tokenizer.tokens input) - 1)).isSome

/-- A window whose call fails has no labels. -/
def FailedUnlabelled (answers : Answers tokenizer) (input : CString) : Prop :=
  ∀ minis, miniSentencesOf answers input = some minis → ∀ round mini, minis[round]? = some mini →
    answers round = none → mini.punction = []

/-- The windows write the words of the text, in order and each once, and what they write is returned,
    closed if the text has words; windows without labels set no marks. -/
def Survives (answers : Answers tokenizer) (input language : CString) : Prop :=
  FailedUnlabelled answers input ∧ ∃ minis, miniSentencesOf answers input = some minis ∧
    writtenWords minis = tokenizer.tokenize input ∧
    ∃ newString strings text, Punctuated tokenizer (tokenizer.tokenize input) newString ∧
      (if tokenizer.tokenize input = [] then strings = []
        else closeText tokenizer newString = some strings) ∧
      sentenceOutFrom answers input = some strings ∧ addPuncFrom answers input language = some text

theorem failedUnlabelled (answers : Answers tokenizer) (input : CString) :
    FailedUnlabelled answers input := by
  intro minis eq round mini found fails
  exact cutAll_unlabelled eq round found (by rwa [Nat.zero_add])

theorem closeText_some (labels : Labels tokenizer) {newString : List CString}
    (nonempty : newString ≠ []) : ∃ closed, closeText tokenizer newString = some closed := by
  obtain ⟨comma, -, comma'⟩ := labels.id2Punc (show commaIndex < 6 by decide)
  obtain ⟨dun, -, dun'⟩ := labels.id2Punc (show dunIndex < 6 by decide)
  obtain ⟨period, -, period'⟩ := labels.id2Punc (show periodIndex < 6 by decide)
  obtain ⟨question, -, question'⟩ := labels.id2Punc (show questionIndex < 6 by decide)
  simp only [closeText, List.getLast?_eq_some_getLast nonempty, comma', dun', period', question',
    Option.bind_eq_bind, Option.bind_some]
  split
  · exact ⟨_, rfl⟩
  · split
    · exact ⟨_, rfl⟩
    · exact ⟨_, rfl⟩

/-- The call that labels the last window, seen from the text. -/
theorem Cut.answered_last {answers : Answers tokenizer} {input : CString} {words : List CString}
    {minis : List MiniSentence} {last : MiniSentence} (cut : Cut answers 0 words minis last)
    (length : minis.length + 1 = totalBatch (tokenizer.tokens input)) :
    last.Answered (answers (totalBatch (tokenizer.tokens input) - 1)) := by
  have answered := cut.answered
  rwa [Nat.zero_add, show minis.length = totalBatch (tokenizer.tokens input) - 1 by omega] at answered

theorem Cut.complete_last {answers : Answers tokenizer} {words : List CString}
    {minis : List MiniSentence} {last : MiniSentence} (cut : Cut answers 0 words minis last)
    (complete : last.Complete tokenizer) : ∀ mini ∈ minis ++ [last], mini.Complete tokenizer := by
  intro mini member
  cases List.mem_append.mp member with
  | inl before => exact cut.complete mini before
  | inr same =>
    obtain rfl := List.mem_singleton.mp same
    exact complete

/-- A text that has words has some in its last window. -/
theorem Cut.spoken {answers : Answers tokenizer} {words : List CString} {minis : List MiniSentence}
    {last : MiniSentence} (cut : Cut answers 0 words minis last) (filled : last.inputStr ≠ []) :
    words ≠ [] := by
  rw [← cut.words]
  simp [filled]

theorem survives_iff (answers : Answers tokenizer) (input language : CString) :
    Survives answers input language ↔
      RightBatches (tokenizer.tokens input) ∧ LastSucceeds answers input := by
  have text (strings : List CString) (eq : sentenceOutFrom answers input = some strings) :
      ∃ text, addPuncFrom answers input language = some text := by
    rw [addPuncFrom, eq, Option.bind_eq_bind, Option.bind_some]
    split
    · exact ⟨_, rfl⟩
    · exact ⟨_, rfl⟩
  by_cases right : RightBatches (tokenizer.tokens input)
  · rw [and_iff_right right]
    rcases miniSentencesOf_cut answers right with ⟨none, eq⟩ | ⟨minis, last, eq, length, filled, cut⟩
    · have out : sentenceOutFrom answers input = some [] := by
        rw [sentenceOutFrom, eq]
        rfl
      obtain ⟨text, same⟩ := text [] out
      refine ⟨fun _ => .inl none, fun _ => ⟨failedUnlabelled answers input, [], eq, none.symm, [], [],
        text, ?_, ?_, out, same⟩⟩
      · rw [none]
        exact .nil
      · rw [if_pos none]
    · have spoken := cut.spoken filled
      have answered := cut.answered_last length
      have out : sentenceOutFrom answers input =
          ((minis ++ [last]).mapM (MiniSentence.write tokenizer)).bind
            fun written => closeText tokenizer written.flatten := by
        simp [sentenceOutFrom, eq, length]
      rw [LastSucceeds, or_iff_right spoken]
      cases answer : answers (totalBatch (tokenizer.tokens input) - 1) with
      | none =>
        -- The loop reads the label of the first word.
        rw [answer] at answered
        rw [MiniSentence.write_last filled answered] at out
        constructor
        · rintro ⟨-, minis', -, -, newString, strings, text, -, -, eq', -⟩
          rw [out] at eq'
          cases eq'
        · nofun
      | some labels =>
        rw [answer] at answered
        obtain ⟨written, eq', punctuated⟩ :=
          MiniSentence.write_complete (cut.complete_last answered)
        rw [cut.words] at punctuated
        obtain ⟨strings, closed⟩ := closeText_some labels (Punctuated.nonempty spoken punctuated)
        rw [eq', Option.bind_some, closed] at out
        obtain ⟨text, same⟩ := text strings out
        refine ⟨fun _ => rfl, fun _ => ⟨failedUnlabelled answers input, _, eq, cut.words,
          written.flatten, strings, text, punctuated, ?_, out, same⟩⟩
        rw [if_neg spoken, closed]
  · refine ⟨?_, fun both => absurd both.1 right⟩
    rintro ⟨-, minis, eq, words, -⟩
    exact absurd (rightBatches_of_words eq (by rw [words])) right

/-! ## `CTTransformerOnline` -/

/-- The loop needs a mark for each word from the last cached one on. -/
theorem writeListed_eq_none {words sentencePuncList : List CString} {cached nSkipNum : Nat}
    (fewer : sentencePuncList.length < words.length) (skipped : nSkipNum ≤ cached)
    (reached : cached ≤ nSkipNum + words.length) :
    writeListed cached nSkipNum words sentencePuncList = none := by
  induction words generalizing sentencePuncList nSkipNum with
  | nil => cases fewer
  | cons word rest inductionHypothesis =>
    rw [List.length_cons] at fewer reached
    obtain ⟨nSkipNum', next, skipped', reached', waiting⟩ : ∃ nSkipNum',
        nSkipNum' = (if nSkipNum < cached then nSkipNum + 1 else nSkipNum) ∧ nSkipNum' ≤ cached ∧
          cached ≤ nSkipNum' + rest.length ∧ (nSkipNum' < cached → 0 < rest.length) := by
      refine ⟨_, rfl, ?_⟩
      split
      · omega
      · omega
    rw [writeListed, ← next]
    by_cases written : nSkipNum' ≥ cached
    · cases sentencePuncList with
      | nil => simp [written]
      | cons mark marks =>
        have later := inductionHypothesis (Nat.lt_of_succ_lt_succ fewer) skipped' reached'
        simp [written, later]
    · have shorter : sentencePuncList.tail.length < rest.length := by
        rw [List.length_tail]
        omega
      have later := inductionHypothesis shorter skipped' reached'
      simp [written, later]

/-- Words that are all in the cache are not written. -/
theorem writeListed_cached {words : List CString} (sentencePuncList : List CString)
    {cached nSkipNum : Nat} (inside : nSkipNum + words.length < cached) :
    writeListed cached nSkipNum words sentencePuncList = some [] := by
  induction words generalizing sentencePuncList nSkipNum with
  | nil => rfl
  | cons word rest inductionHypothesis =>
    rw [List.length_cons] at inside
    have skip : nSkipNum < cached := by omega
    have more : ¬ nSkipNum + 1 ≥ cached := by omega
    have later := @inductionHypothesis sentencePuncList.tail (nSkipNum + 1) (by omega)
    simp [writeListed, skip, more, later]

/-- With all marks the loop is that over labelled words. -/
theorem writeListed_eq {words : List CString} {punction : List Nat}
    (length : punction.length = words.length) {sentencePuncList : List CString}
    (listed : punction.mapM tokenizer.id2Punc = some sentencePuncList) (cached nSkipNum : Nat) :
    writeListed cached nSkipNum words sentencePuncList =
      writeNew tokenizer cached nSkipNum (words.zip punction) := by
  induction words generalizing punction sentencePuncList nSkipNum with
  | nil => rfl
  | cons word rest inductionHypothesis =>
    cases punction with
    | nil => cases length
    | cons label punction =>
      rw [List.mapM_cons] at listed
      obtain ⟨mark, marked, listed⟩ := Option.bind_eq_some_iff.mp listed
      obtain ⟨marks, listed', same⟩ := Option.bind_eq_some_iff.mp listed
      obtain rfl := Option.some.inj same
      have later := inductionHypothesis (Nat.succ.inj length) listed'
      rw [writeListed, List.zip_cons_cons, writeNew, marked]
      simp only [List.head?_cons, List.tail_cons, Option.bind_eq_bind, Option.bind_some, later]
      generalize (if nSkipNum < cached then nSkipNum + 1 else nSkipNum) = nSkipNum'
      generalize (if nSkipNum < cached then ([] : List CString) else [word]) = pushed
      by_cases written : nSkipNum' ≥ cached
      · simp [written]
      · simp [written]

theorem mapM_id2Punc {punction : List Nat}
    (bounded : ∀ label ∈ punction, label < tokenizer.puncList.length) :
    ∃ marks, punction.mapM tokenizer.id2Punc = some marks ∧ marks.length = punction.length := by
  induction punction with
  | nil => exact ⟨[], rfl, rfl⟩
  | cons label rest inductionHypothesis =>
    obtain ⟨first, others⟩ := List.forall_mem_cons.mp bounded
    obtain ⟨marks, eq, length⟩ := inductionHypothesis others
    obtain ⟨mark, -, marked⟩ := id2Punc_some first
    refine ⟨mark :: marks, ?_, congrArg Nat.succ length⟩
    rw [List.mapM_cons, marked, eq]
    rfl

/-- The call returns the words behind the cached ones, in order and each once, before it takes the
    mark off the end; windows without labels set none. -/
def SurvivesOnline (answers : Answers tokenizer) (input : CString) (arrCache : List CString) : Prop :=
  FailedUnlabelled answers (fullText arrCache input) ∧ ∃ minis wordWithPunc arrCache',
    miniSentencesOf answers (fullText arrCache input) = some minis ∧
    writtenWords minis = tokenizer.tokenize (fullText arrCache input) ∧
    Punctuated tokenizer ((tokenizer.tokenize (fullText arrCache input)).drop arrCache.length)
      wordWithPunc ∧
    addPuncOnlineFrom answers input arrCache = some (dropMark tokenizer wordWithPunc, arrCache')

/-- What the loop over the words writes decides. -/
theorem survivesOnline_of_written {answers : Answers tokenizer} {input : CString}
    {arrCache : List CString} {minis : List MiniSentence}
    (eq : miniSentencesOf answers (fullText arrCache input) = some minis)
    (words : writtenWords minis = tokenizer.tokenize (fullText arrCache input))
    {sentencePuncList wordWithPunc : List CString}
    (listed : (minis.flatMap (·.punction)).mapM tokenizer.id2Punc = some sentencePuncList)
    (written : writeListed arrCache.length 0 (spaceWords (minis.flatMap (·.inputStr)))
      sentencePuncList = some wordWithPunc)
    (punctuated : Punctuated tokenizer
      ((tokenizer.tokenize (fullText arrCache input)).drop arrCache.length) wordWithPunc) :
    SurvivesOnline answers input arrCache := by
  obtain ⟨sentEnd, ended⟩ := @lastSentenceEnd_some (minis.flatMap (·.punction))
    ((minis.flatMap (·.punction)).length - 2) (by omega)
  refine ⟨failedUnlabelled _ _, minis, wordWithPunc, (spaceWords (minis.flatMap (·.inputStr))).drop
    (sentEnd.elim 0 fun nIndex => nIndex + 1), eq, words, punctuated, ?_⟩
  simp only [addPuncOnlineFrom, eq, listed, written, ended, Option.bind_eq_bind, Option.bind_some]
  rfl

/-- The labels of sentences that have them all. -/
theorem Complete.flatMap {minis : List MiniSentence}
    (complete : ∀ mini ∈ minis, mini.Complete tokenizer) :
    MiniSentence.Complete tokenizer ⟨minis.flatMap (·.inputStr), minis.flatMap (·.punction)⟩ := by
  induction minis with
  | nil => exact ⟨rfl, by simp⟩
  | cons mini rest inductionHypothesis =>
    obtain ⟨first, others⟩ := List.forall_mem_cons.mp complete
    obtain ⟨length, bounded⟩ := inductionHypothesis others
    constructor
    · simp only [List.flatMap_cons, List.length_append, first.length] at length ⊢
      rw [length]
    · intro label member
      cases List.mem_append.mp member with
      | inl here => exact first.bounded label here
      | inr there => exact bounded label there

/-- With labels for the words of all windows there is a mark for each of them. -/
theorem Complete.listed {minis : List MiniSentence}
    (complete : ∀ mini ∈ minis, mini.Complete tokenizer) :
    ∃ marks, (minis.flatMap (·.punction)).mapM tokenizer.id2Punc = some marks ∧
      (minis.flatMap (·.punction)).length = (spaceWords (minis.flatMap (·.inputStr))).length ∧
      ∀ cached nSkipNum,
        writeListed cached nSkipNum (spaceWords (minis.flatMap (·.inputStr))) marks =
          writeNew tokenizer cached nSkipNum
            ((spaceWords (minis.flatMap (·.inputStr))).zip (minis.flatMap (·.punction))) := by
  obtain ⟨length, bounded⟩ := Complete.flatMap complete
  obtain ⟨marks, listed, -⟩ := mapM_id2Punc bounded
  have spaced : (minis.flatMap (·.punction)).length =
      (spaceWords (minis.flatMap (·.inputStr))).length := by
    rw [spaceWords_length]
    exact length
  exact ⟨marks, listed, spaced, writeListed_eq spaced listed⟩

/-- With labels for the words of all windows the call survives. -/
theorem survivesOnline_of_complete {answers : Answers tokenizer} {input : CString}
    {arrCache : List CString} {minis : List MiniSentence}
    (eq : miniSentencesOf answers (fullText arrCache input) = some minis)
    (words : minis.flatMap (·.inputStr) = tokenizer.tokenize (fullText arrCache input))
    (complete : ∀ mini ∈ minis, mini.Complete tokenizer) : SurvivesOnline answers input arrCache := by
  have bounded := (Complete.flatMap complete).2
  obtain ⟨marks, listed, spaced, same⟩ := Complete.listed complete
  obtain ⟨wordWithPunc, written, punctuated⟩ := writeNew_punctuated
    (spaceWords_written (minis.flatMap (·.inputStr))) spaced bounded (Nat.zero_le arrCache.length)
  rw [words, Nat.sub_zero] at punctuated
  rw [← same] at written
  exact survivesOnline_of_written eq words listed written punctuated

theorem survivesOnline_iff (answers : Answers tokenizer) (input : CString) (arrCache : List CString) :
    SurvivesOnline answers input arrCache ↔
      RightBatches (tokenizer.tokens (fullText arrCache input)) ∧
        (LastSucceeds answers (fullText arrCache input) ∨
          (tokenizer.tokenize (fullText arrCache input)).length < arrCache.length) := by
  by_cases right : RightBatches (tokenizer.tokens (fullText arrCache input))
  swap
  · refine ⟨?_, fun both => absurd both.1 right⟩
    rintro ⟨-, minis, -, -, eq, words, -⟩
    exact absurd (rightBatches_of_words eq (by rw [words])) right
  rw [and_iff_right right]
  rcases miniSentencesOf_cut answers right with ⟨none, eq⟩ | ⟨minis, last, eq, length, filled, cut⟩
  · refine ⟨fun _ => .inl (.inl none), fun _ => survivesOnline_of_written eq none.symm rfl rfl ?_⟩
    rw [none, List.drop_nil]
    exact .nil
  · have spoken := cut.spoken filled
    have answered := cut.answered_last length
    rw [LastSucceeds, or_iff_right spoken]
    cases answer : answers (totalBatch (tokenizer.tokens (fullText arrCache input)) - 1) with
    | none =>
      rw [answer] at answered
      have unlabelled : last.punction = [] := answered
      have complete := Complete.flatMap cut.complete
      have labels : (minis ++ [last]).flatMap (·.punction) = minis.flatMap (·.punction) := by
        simp [unlabelled]
      obtain ⟨marks, listed, count⟩ := mapM_id2Punc complete.bounded
      rw [complete.length] at count
      -- Every window but the last has labels for its words, so there are fewer labels than words.
      have fewer : marks.length < (tokenizer.tokenize (fullText arrCache input)).length := by
        have positive := List.length_pos_of_ne_nil filled
        rw [← cut.words, List.flatMap_append, List.length_append, count]
        simpa using positive
      have words : (spaceWords ((minis ++ [last]).flatMap (·.inputStr))).length =
          (tokenizer.tokenize (fullText arrCache input)).length := by
        rw [spaceWords_length, cut.words]
      rw [← labels] at listed
      constructor
      · rintro ⟨-, minis', wordWithPunc, arrCache', -, -, -, returned⟩
        by_contra long
        simp only [Option.isSome_none, Bool.false_eq_true, false_or, Nat.not_lt] at long
        have unread := @writeListed_eq_none
          (spaceWords ((minis ++ [last]).flatMap (·.inputStr))) marks arrCache.length 0
          (by rwa [words]) (Nat.zero_le _) (by rwa [Nat.zero_add, words])
        simp only [addPuncOnlineFrom, eq, listed, unread, Option.bind_eq_bind, Option.bind_some,
          Option.bind_none] at returned
        cases returned
      · intro short
        have inside : (tokenizer.tokenize (fullText arrCache input)).length < arrCache.length := by
          simpa using short
        refine survivesOnline_of_written eq cut.words listed
          (writeListed_cached marks (by rwa [Nat.zero_add, words])) ?_
        rw [List.drop_of_length_le (Nat.le_of_lt inside)]
        exact .nil
    | some labels =>
      rw [answer] at answered
      have survives := survivesOnline_of_complete eq cut.words (cut.complete_last answered)
      exact ⟨fun _ => .inl rfl, fun _ => survives⟩

/-! ## Calls that do not fail -/

theorem miniSentences_eq (labels : Labels tokenizer) (nTotalBatch nCurBatch : Nat)
    (remain : List Token) (rest : List (List Token)) :
    miniSentences labels nTotalBatch nCurBatch remain rest =
      (cutAll (fun _ => some labels) nTotalBatch nCurBatch remain rest).map
        (List.map MiniSentence.labelled) := by
  induction rest generalizing nCurBatch remain with
  | nil => rfl
  | cons slice rest inductionHypothesis =>
    rw [miniSentences, cutAll, infer_succeeds rfl]
    split
    · cases cutWindow tokenizer (remain ++ slice).length
        (labels.infer ((remain ++ slice).map Prod.snd)) with
      | none => rfl
      | some cut =>
        simp only [Option.bind_eq_bind, Option.bind_some, inductionHypothesis]
        cases cutAll (fun _ => some labels) nTotalBatch (nCurBatch + 1)
          ((remain ++ slice).drop cut.1) rest with
        | none => rfl
        | some later => rfl
    · simp only [Option.bind_eq_bind, inductionHypothesis]
      cases cutAll (fun _ => some labels) nTotalBatch (nCurBatch + 1) remain rest with
      | none => rfl
      | some later => rfl

theorem cutAll_complete (labels : Labels tokenizer) (nTotalBatch nCurBatch : Nat)
    (remain : List Token) (rest : List (List Token)) :
    ∃ minis, cutAll (fun _ => some labels) nTotalBatch nCurBatch remain rest = some minis ∧
      ∀ mini ∈ minis, mini.Complete tokenizer := by
  induction rest generalizing nCurBatch remain with
  | nil => exact ⟨[], rfl, by simp⟩
  | cons slice rest inductionHypothesis =>
    by_cases going : nCurBatch + 1 < nTotalBatch
    · obtain ⟨cut, punction', cutUp, complete⟩ :=
        cutWindow_answers (fun _ => some labels) nCurBatch (remain ++ slice)
      obtain ⟨later, eq, others⟩ := inductionHypothesis (nCurBatch + 1) ((remain ++ slice).drop cut)
      refine ⟨⟨((remain ++ slice).take cut).map Prod.fst, punction'.take cut⟩ :: later, ?_,
        List.forall_mem_cons.mpr ⟨complete, others⟩⟩
      rw [cutAll, if_pos going, cutUp]
      simp [eq]
    · have complete := infer_answered (fun _ => some labels) nCurBatch (remain ++ slice)
      obtain ⟨later, eq, others⟩ := inductionHypothesis (nCurBatch + 1) remain
      refine ⟨_, ?_, List.forall_mem_cons.mpr ⟨complete, others⟩⟩
      rw [cutAll, if_neg going, eq]
      rfl

/-- The sentences of calls that do not fail. -/
theorem miniSentencesOf_succeeds (labels : Labels tokenizer) (input : CString) :
    ∃ minis, miniSentencesOf (fun _ => some labels) input = some minis ∧
      miniSentences labels (totalBatch (tokenizer.tokens input)) 0 []
        (slices (tokenizer.tokens input)) = some (minis.map MiniSentence.labelled) ∧
      ∀ mini ∈ minis, mini.Complete tokenizer := by
  obtain ⟨minis, eq, complete⟩ := cutAll_complete labels (totalBatch (tokenizer.tokens input)) 0 []
    (slices (tokenizer.tokens input))
  exact ⟨minis, eq, by rw [miniSentences_eq, eq]; rfl, complete⟩

theorem addPuncFrom_succeeds (labels : Labels tokenizer) (input language : CString) :
    addPuncFrom (fun _ => some labels) input language = addPunc labels input language := by
  obtain ⟨minis, eq, eq', complete⟩ := miniSentencesOf_succeeds labels input
  have same : sentenceOutFrom (fun _ => some labels) input = sentenceOut labels input := by
    simp only [sentenceOutFrom, sentenceOut, eq, eq', Option.bind_eq_bind, Option.bind_some,
      MiniSentence.mapM_write complete, ne_eq, List.map_eq_nil_iff, List.length_map]
  rw [addPuncFrom, addPunc, same]

theorem addPuncOnlineFrom_succeeds (labels : Nat → Labels tokenizer) (input : CString)
    (arrCache : List CString) :
    addPuncOnlineFrom (fun _ => some (labels arrCache.length)) input arrCache =
      addPuncOnline labels input arrCache := by
  obtain ⟨minis, eq, eq', complete⟩ :=
    miniSentencesOf_succeeds (labels arrCache.length) (fullText arrCache input)
  obtain ⟨words, punction⟩ := MiniSentence.labelled_flatten complete
  obtain ⟨marks, listed, -, same⟩ := Complete.listed complete
  simp only [addPuncOnlineFrom, addPuncOnline, eq, eq', listed, words, punction, same,
    Option.bind_eq_bind, Option.bind_some]

/-! ## Calls that fail -/

/-- Both survive every pattern of calls that fail exactly where the windows are counted right and the
    last call does not fail; the online one then reads no label either where the cache holds more than
    all the words. -/
theorem failure_is_survived_iff (answers : Answers tokenizer) (input : CString) :
    (∀ language, Survives answers input language ↔
        RightBatches (tokenizer.tokens input) ∧ LastSucceeds answers input) ∧
      ∀ arrCache, SurvivesOnline answers input arrCache ↔
        RightBatches (tokenizer.tokens (fullText arrCache input)) ∧
          (LastSucceeds answers (fullText arrCache input) ∨
            (tokenizer.tokenize (fullText arrCache input)).length < arrCache.length) :=
  ⟨survives_iff answers input, survivesOnline_iff answers input⟩

/-- A single call, which fails. -/
theorem not_survived_hello :
    addPuncFrom (fun _ => none : Answers released) (bytes "hello") (bytes "zh-cn") = none ∧
      addPuncOnlineFrom (fun _ => none : Answers released) (bytes "hello") [] = none := by
  decide +kernel

end Asr2Pass.Punctuation
