import Asr2Pass.Library.BinaryRounding
import Asr2Pass.Punctuation.Tokenizer

/-! # The windows of `AddPunc`

Both transformers label their tokens in windows of 20.  A window that is not the last one is cut
after its last sentence end, and what follows goes to the front of the next one.
-/

namespace Asr2Pass.Punctuation

open Library Text

/-- `TOKEN_LEN`. -/
def tokenLen : Nat := 20
/-- `NOTPUNC_INDEX`. -/
def notPuncIndex : Nat := 1
/-- `COMMA_INDEX`. -/
def commaIndex : Nat := 2
/-- `PERIOD_INDEX`. -/
def periodIndex : Nat := 3
/-- `QUESTION_INDEX`. -/
def questionIndex : Nat := 4
/-- `DUN_INDEX`. -/
def dunIndex : Nat := 5
/-- `CACHE_POP_TRIGGER_LIMIT`. -/
def cachePopTriggerLimit : Nat := 200

/-- A token with its id; the source has them in two vectors. -/
abbrev Token := CString × Nat

/-- The tokens of a text with their ids. -/
def CTokenizer.tokens (tokenizer : CTokenizer) (input : CString) : List Token :=
  (tokenizer.tokenize input).map fun word => (word, tokenizer.string2Id word)

/-- A token with its label. -/
abbrev Labelled := CString × Nat

/-- What `Infer` answers: one label for an id, each one a place in `punc_list`.  The list has the
    marks that the constants name, and no mark holds a space. -/
structure Labels (tokenizer : CTokenizer) where
  infer : List Nat → List Nat
  length_infer : ∀ ids, (infer ids).length = ids.length
  bounded : ∀ ids, ∀ label ∈ infer ids, label < tokenizer.puncList.length
  named : 6 ≤ tokenizer.puncList.length
  noSpace : ∀ mark ∈ tokenizer.puncList, 0x20 ∉ mark

/-- `nTotalBatch`, the ceiling of a `float` quotient. -/
def totalBatch (tokens : List Token) : Nat := (ceilQuotient 24 tokens.length tokenLen).toNat

/-- The rounds of the loop. -/
def windowCount (tokens : List Token) : Nat := (tokens.length + (tokenLen - 1)) / tokenLen

/-- `nTotalBatch` counts the rounds. -/
def RightBatches (tokens : List Token) : Prop := totalBatch tokens = windowCount tokens

instance (tokens : List Token) : Decidable (RightBatches tokens) := inferInstanceAs (Decidable (_ = _))

/-- The tokens that the rounds of the loop take. -/
def slices (tokens : List Token) : List (List Token) :=
  (List.range (windowCount tokens)).map fun round => (tokens.drop (round * tokenLen)).take tokenLen

/-- The loop over `nIndex`: `nSentEnd` and `nLastCommaIndex`. -/
def findEnd (tokenizer : CTokenizer) (punction : List Nat) :
    Nat → Option Nat → Option (Option Nat × Option Nat)
  | 0, lastComma => some (none, lastComma)
  | nIndex + 1, lastComma => do
    let label ← punction[nIndex + 1]?
    let mark ← tokenizer.id2Punc label
    let period ← tokenizer.id2Punc periodIndex
    let question ← tokenizer.id2Punc questionIndex
    let comma ← tokenizer.id2Punc commaIndex
    if mark = period ∨ mark = question then return (some (nIndex + 1), lastComma)
    else if lastComma = none ∧ mark = comma then findEnd tokenizer punction nIndex (some (nIndex + 1))
    else findEnd tokenizer punction nIndex lastComma

/-- Where a window of `words` tokens is cut, and its labels. -/
def cutWindow (tokenizer : CTokenizer) (words : Nat) (punction : List Nat) :
    Option (Nat × List Nat) := do
  let (sentEnd, lastComma) ← findEnd tokenizer punction (punction.length - 2) none
  match sentEnd, lastComma with
  | some nIndex, _ => return (nIndex + 1, punction)
  | none, some nIndex =>
    -- A long window without a sentence end is cut at a comma.
    if words > cachePopTriggerLimit then return (nIndex + 1, punction.set nIndex periodIndex)
    else return (0, punction)
  | none, none => return (0, punction)

/-- The loop over the windows: the sentences that each of them gives. -/
def miniSentences {tokenizer : CTokenizer} (labels : Labels tokenizer) (nTotalBatch nCurBatch : Nat)
    (remain : List Token) : List (List Token) → Option (List (List Labelled))
  | [] => some []
  | slice :: rest => do
    let input := remain ++ slice
    let punction := labels.infer (input.map Prod.snd)
    if nCurBatch + 1 < nTotalBatch then
      let (cut, punction') ← cutWindow tokenizer input.length punction
      let later ← miniSentences labels nTotalBatch (nCurBatch + 1) (input.drop cut) rest
      return ((input.take cut).map Prod.fst).zip (punction'.take cut) :: later
    else
      -- `RemainStr` and `RemainIDs` stay as they are.
      let later ← miniSentences labels nTotalBatch (nCurBatch + 1) remain rest
      return (input.map Prod.fst).zip punction :: later

/-! ## What the windows keep -/

theorem slices_flatten (tokens : List Token) : (slices tokens).flatten = tokens := by
  have prefixes (rounds : Nat) : ((List.range rounds).map fun round =>
      (tokens.drop (round * tokenLen)).take tokenLen).flatten = tokens.take (rounds * tokenLen) := by
    induction rounds with
    | zero => simp
    | succ rounds inductionHypothesis =>
      rw [List.range_succ, List.map_append, List.flatten_append, inductionHypothesis, Nat.succ_mul,
        List.take_add]
      simp
  rw [slices, prefixes, List.take_of_length_le]
  simp only [windowCount, tokenLen]
  omega

theorem slices_length (tokens : List Token) : (slices tokens).length = windowCount tokens := by
  rw [slices, List.length_map, List.length_range]

theorem slices_filled (tokens : List Token) : ∀ slice ∈ slices tokens, slice ≠ [] := by
  intro slice member empty
  obtain ⟨round, inside, rfl⟩ := List.mem_map.mp member
  rw [List.mem_range, windowCount] at inside
  have length := congrArg List.length empty
  rw [List.length_take, List.length_drop, List.length_nil] at length
  simp only [tokenLen] at inside length
  omega

/-- A `float` has the right quotient for fewer than `2 ^ 24` tokens. -/
theorem rightBatches_of_lt {tokens : List Token} (few : tokens.length < 2 ^ 24) :
    RightBatches tokens := by
  have rounds : ceilQuotient 24 tokens.length tokenLen = (windowCount tokens : Int) := by
    rw [ceilQuotient_eq (by decide) (by decide) few (by decide), windowCount]
    simp only [tokenLen]
    omega
  rw [RightBatches, totalBatch, rounds, Int.toNat_natCast]

theorem slices_nonempty {tokens : List Token} (nonempty : tokens ≠ []) : slices tokens ≠ [] := by
  intro none
  have flat := slices_flatten tokens
  rw [none] at flat
  exact nonempty flat.symm

theorem one_lt_totalBatch {tokens : List Token} (many : 2 ^ 24 ≤ tokens.length) :
    1 < totalBatch tokens := by
  have more := @ceilQuotient_mono 24 (by decide) (2 ^ 23) tokens.length tokenLen (by omega) (by decide)
  have enough : ceilQuotient 24 (2 ^ 23) tokenLen = 419431 := by decide +kernel
  rw [totalBatch]
  omega

variable {tokenizer : CTokenizer}

theorem id2Punc_some {label : Nat} (inside : label < tokenizer.puncList.length) :
    ∃ mark ∈ tokenizer.puncList, tokenizer.id2Punc label = some mark :=
  ⟨tokenizer.puncList[label], List.getElem_mem inside, List.getElem?_eq_getElem inside⟩

/-- The marks that the constants name are there. -/
theorem Labels.id2Punc (labels : Labels tokenizer) {index : Nat} (small : index < 6) :
    ∃ mark ∈ tokenizer.puncList, tokenizer.id2Punc index = some mark :=
  id2Punc_some (Nat.lt_of_lt_of_le small labels.named)

/-- The search for the sentence end reads labels only. -/
theorem findEnd_some (labels : Labels tokenizer) {punction : List Nat}
    (bounded : ∀ label ∈ punction, label < tokenizer.puncList.length) {nIndex : Nat}
    (inside : nIndex = 0 ∨ nIndex < punction.length) (lastComma : Option Nat) :
    ∃ sentEnd lastComma', findEnd tokenizer punction nIndex lastComma = some (sentEnd, lastComma') := by
  induction nIndex generalizing lastComma with
  | zero => exact ⟨none, lastComma, rfl⟩
  | succ nIndex inductionHypothesis =>
    have within : nIndex + 1 < punction.length := by omega
    have shorter : nIndex = 0 ∨ nIndex < punction.length := by omega
    obtain ⟨mark, -, marked⟩ := id2Punc_some (bounded _ (List.getElem_mem within))
    obtain ⟨period, -, period'⟩ := labels.id2Punc (show periodIndex < 6 by decide)
    obtain ⟨question, -, question'⟩ := labels.id2Punc (show questionIndex < 6 by decide)
    obtain ⟨comma, -, comma'⟩ := labels.id2Punc (show commaIndex < 6 by decide)
    simp only [findEnd, List.getElem?_eq_getElem within, marked, period', question', comma',
      Option.bind_eq_bind, Option.bind_some]
    by_cases sentenceEnd : mark = period ∨ mark = question
    · rw [if_pos sentenceEnd]
      exact ⟨_, _, rfl⟩
    · rw [if_neg sentenceEnd]
      by_cases firstComma : lastComma = none ∧ mark = comma
      · rw [if_pos firstComma]
        exact inductionHypothesis shorter _
      · rw [if_neg firstComma]
        exact inductionHypothesis shorter _

/-- The search starts from index `nIndex`. -/
theorem findEnd_le {punction : List Nat} {nIndex : Nat} {lastComma sentEnd lastComma' : Option Nat}
    (found : findEnd tokenizer punction nIndex lastComma = some (sentEnd, lastComma')) :
    (∀ index, sentEnd = some index → index ≤ nIndex ∧ 0 < nIndex) ∧
      ∀ index, lastComma' = some index → index ≤ nIndex ∧ 0 < nIndex ∨ lastComma = some index := by
  induction nIndex generalizing lastComma with
  | zero =>
    cases found
    exact ⟨by simp, fun index same => .inr same⟩
  | succ nIndex inductionHypothesis =>
    simp only [findEnd, Option.bind_eq_bind, Option.bind_eq_some_iff] at found
    obtain ⟨label, -, mark, -, period, -, question, -, comma, -, found⟩ := found
    have rest {lastComma : Option Nat}
        (found : findEnd tokenizer punction nIndex lastComma = some (sentEnd, lastComma')) :
        (∀ index, sentEnd = some index → index ≤ nIndex + 1 ∧ 0 < nIndex + 1) ∧
          ∀ index, lastComma' = some index →
            index ≤ nIndex + 1 ∧ 0 < nIndex + 1 ∨ lastComma = some index := by
      obtain ⟨ends, commas⟩ := inductionHypothesis found
      refine ⟨fun index same => ?_, fun index same => (commas index same).imp_left fun within => ?_⟩
      · have within := ends index same
        omega
      · omega
    split at found
    · cases found
      refine ⟨fun index same => ?_, fun index same => .inr same⟩
      cases same
      omega
    · split at found
      · refine ⟨(rest found).1, fun index same => .inl ?_⟩
        rcases (rest found).2 index same with within | here
        · exact within
        · cases here
          omega
      · exact rest found

/-- A window is never cut after its last word. -/
theorem cutWindow_lt {words cut : Nat} {punction punction' : List Nat}
    (cutUp : cutWindow tokenizer words punction = some (cut, punction'))
    (labelled : punction.length ≤ words) (some : 0 < words) : cut < words := by
  simp only [cutWindow, Option.bind_eq_bind, Option.bind_eq_some_iff] at cutUp
  obtain ⟨⟨sentEnd, lastComma⟩, found, cutUp⟩ := cutUp
  obtain ⟨ends, commas⟩ := findEnd_le found
  cases sentEnd with
  | some nIndex =>
    have within := ends nIndex rfl
    cases cutUp
    omega
  | none =>
    cases lastComma with
    | none =>
      cases cutUp
      exact some
    | some nIndex =>
      rcases commas nIndex rfl with within | none
      · simp only at cutUp
        split at cutUp
        · cases cutUp
          omega
        · cases cutUp
          exact some
      · cases none

/-- A window that is cut keeps a label for each of its tokens. -/
theorem cutWindow_some (labels : Labels tokenizer) {punction : List Nat} (words : Nat)
    (bounded : ∀ label ∈ punction, label < tokenizer.puncList.length) :
    ∃ cut punction', cutWindow tokenizer words punction = some (cut, punction') ∧
      punction'.length = punction.length ∧
      ∀ label ∈ punction', label < tokenizer.puncList.length := by
  obtain ⟨sentEnd, lastComma, found⟩ :=
    findEnd_some labels bounded (show punction.length - 2 = 0 ∨ punction.length - 2 < punction.length by omega)
      none
  simp only [cutWindow, found, Option.bind_eq_bind, Option.bind_some]
  cases sentEnd with
  | some nIndex => exact ⟨_, _, rfl, rfl, bounded⟩
  | none =>
    cases lastComma with
    | none => exact ⟨_, _, rfl, rfl, bounded⟩
    | some nIndex =>
      by_cases long : words > cachePopTriggerLimit
      · refine ⟨nIndex + 1, punction.set nIndex periodIndex, ?_, List.length_set, ?_⟩
        · simp [long]
        · intro label member
          cases List.mem_or_eq_of_mem_set member with
          | inl before => exact bounded label before
          | inr period =>
            have named := labels.named
            rw [period, periodIndex]
            omega
      · exact ⟨0, punction, by simp [long], rfl, bounded⟩

/-- Each window gives a sentence. -/
theorem miniSentences_length {labels : Labels tokenizer} {nTotalBatch nCurBatch : Nat}
    {remain : List Token} {rest : List (List Token)} {sentences : List (List Labelled)}
    (ran : miniSentences labels nTotalBatch nCurBatch remain rest = some sentences) :
    sentences.length = rest.length := by
  induction rest generalizing nCurBatch remain sentences with
  | nil =>
    cases ran
    rfl
  | cons slice rest inductionHypothesis =>
    simp only [miniSentences, Option.bind_eq_bind] at ran
    split at ran
    · obtain ⟨cut, -, ran⟩ := Option.bind_eq_some_iff.mp ran
      obtain ⟨later, eq, same⟩ := Option.bind_eq_some_iff.mp ran
      cases same
      rw [List.length_cons, inductionHypothesis eq, List.length_cons]
    · obtain ⟨later, eq, same⟩ := Option.bind_eq_some_iff.mp ran
      cases same
      rw [List.length_cons, inductionHypothesis eq, List.length_cons]

/-- The sentences of the windows have the words in order, each once, and a label for each. -/
theorem miniSentences_words (labels : Labels tokenizer) {nTotalBatch nCurBatch : Nat}
    {remain : List Token} {rest : List (List Token)} (waiting : rest ≠ [])
    (count : nCurBatch + rest.length = nTotalBatch) :
    ∃ sentences, miniSentences labels nTotalBatch nCurBatch remain rest = some sentences ∧
      sentences.flatten.map Prod.fst = (remain ++ rest.flatten).map Prod.fst ∧
      ∀ labelled ∈ sentences.flatten, labelled.2 < tokenizer.puncList.length := by
  induction rest generalizing nCurBatch remain with
  | nil => exact absurd rfl waiting
  | cons slice rest inductionHypothesis =>
    have length := labels.length_infer ((remain ++ slice).map Prod.snd)
    have bounded := labels.bounded ((remain ++ slice).map Prod.snd)
    generalize labelled : labels.infer ((remain ++ slice).map Prod.snd) = punction at length bounded
    rw [List.length_map] at length
    cases rest with
    | nil =>
      -- The last window keeps everything.
      have last : ¬ nCurBatch + 1 < nTotalBatch := by simp at count; omega
      refine ⟨[((remain ++ slice).map Prod.fst).zip punction], ?_, ?_, ?_⟩
      · simp [miniSentences, last, ← labelled]
      · simp only [List.flatten_cons, List.flatten_nil, List.append_nil]
        rw [List.map_fst_zip (by rw [List.length_map]; omega)]
      · intro entry member
        simp only [List.flatten_singleton] at member
        exact bounded _ (List.of_mem_zip member).2
    | cons next rest =>
      have going : nCurBatch + 1 < nTotalBatch := by simp at count; omega
      obtain ⟨cut, punction', cutUp, length', bounded'⟩ :=
        cutWindow_some labels (remain ++ slice).length bounded
      obtain ⟨later, eq, words, bounded''⟩ :=
        @inductionHypothesis (nCurBatch + 1) ((remain ++ slice).drop cut) (List.cons_ne_nil _ _)
          (by rw [List.length_cons] at count; omega)
      refine ⟨(((remain ++ slice).take cut).map Prod.fst).zip (punction'.take cut) :: later, ?_, ?_, ?_⟩
      · rw [miniSentences, if_pos going, labelled, cutUp]
        simp only [Option.bind_eq_bind, Option.bind_some, eq]
        rfl
      · have paired : (((remain ++ slice).take cut).map Prod.fst).length ≤ (punction'.take cut).length := by
          simp [length', length]
        rw [List.flatten_cons, List.map_append, words, List.map_fst_zip paired, ← List.map_append,
          ← List.append_assoc, List.take_append_drop]
        simp
      · intro entry member
        rw [List.flatten_cons] at member
        cases List.mem_append.mp member with
        | inl here => exact bounded' _ (List.mem_of_mem_take (List.of_mem_zip here).2)
        | inr there => exact bounded'' entry there

theorem tokens_words (tokenizer : CTokenizer) (input : CString) :
    (tokenizer.tokens input).map Prod.fst = tokenizer.tokenize input := by
  rw [CTokenizer.tokens, List.map_map]
  exact List.map_id _

theorem sentences_words (labels : Labels tokenizer) {tokens : List Token}
    (right : RightBatches tokens) :
    ∃ sentences, miniSentences labels (totalBatch tokens) 0 [] (slices tokens) = some sentences ∧
      sentences.flatten.map Prod.fst = tokens.map Prod.fst ∧
      ∀ labelled ∈ sentences.flatten, labelled.2 < tokenizer.puncList.length := by
  by_cases empty : tokens = []
  · subst empty
    exact ⟨[], rfl, rfl, by simp⟩
  · have count : 0 + (slices tokens).length = totalBatch tokens := by
      rw [slices_length, Nat.zero_add, right]
    have windows := @miniSentences_words _ labels _ _ [] _ (slices_nonempty empty) count
    rwa [List.nil_append, slices_flatten] at windows

end Asr2Pass.Punctuation
