import Asr2Pass.Text.Vocab
import Mathlib.Logic.Function.Basic

/-! # Sessions that share a `Vocab`

A call of `Vector2StringV2` spells words and writes them.  Only the spaces before the words that
are not Chinese see the member, so two sessions notice each other where one of these words follows
a member that the session itself would not have left.
-/

namespace Asr2Pass.Text

/-! ## What a call spells -/

/-- A word of a call; `complete` when the call ends with it and it is a whole English word. -/
structure Word where
  word : CString
  complete : Bool

def spelled (vocab : List CString) (spelling : Spelling) : List Nat → Option (List Word)
  | [] => some []
  | id :: rest => do
    let word ← vocab[id]?
    if isSpecial word then spelled vocab spelling rest
    else
      let (spelling', formed) ← spelling.spell vocab word rest
      match formed with
      | none => spelled vocab spelling' rest
      | some (word', subWord) =>
        let later ← spelled vocab spelling' rest
        return ⟨word', rest.isEmpty && !isChinese word' && !subWord⟩ :: later

def Written.writeAll (firstWordNeedSpace : Bool) (written : Written) (words : List Word) : Written :=
  words.foldl (fun written word => written.write firstWordNeedSpace word.word) written

/-- The member after the words of a call. -/
def leftBy (lastIsCompleteEnglish : Bool) (words : List Word) : Bool :=
  words.foldl (fun _ word => word.complete) lastIsCompleteEnglish

theorem joinWords_eq (vocab : List CString) (firstWordNeedSpace : Bool) (ids : List Nat)
    (spelling : Spelling) (written : Written) (lastIsCompleteEnglish : Bool) :
    joinWords vocab firstWordNeedSpace spelling written lastIsCompleteEnglish ids =
      (spelled vocab spelling ids).map fun words =>
        (written.writeAll firstWordNeedSpace words, leftBy lastIsCompleteEnglish words) := by
  induction ids generalizing spelling written lastIsCompleteEnglish with
  | nil => rfl
  | cons id rest inductionHypothesis =>
    cases token : vocab[id]? with
    | none => simp [joinWords, spelled, token]
    | some word =>
      by_cases special : isSpecial word
      · simp [joinWords, spelled, token, special, inductionHypothesis]
      · cases step : spelling.spell vocab word rest with
        | none => simp [joinWords, spelled, token, special, step]
        | some formed =>
          obtain ⟨spelling', formed⟩ := formed
          cases formed with
          | none => simp [joinWords, spelled, token, special, step, inductionHypothesis]
          | some formed =>
            cases later : spelled vocab spelling' rest with
            | none =>
              simp [joinWords, spelled, token, special, step, inductionHypothesis, later]
            | some words =>
              simp [joinWords, spelled, token, special, step, inductionHypothesis, later,
                Written.writeAll, leftBy]

/-! ## The spaces -/

/-- Two texts that differ in their spaces only: with `firstWordNeedSpace` one is longer. -/
structure Longer (shorter longer : Written) (spaces : Nat) : Prop where
  isPreEnglish : longer.isPreEnglish = shorter.isPreEnglish
  preEnglishLen : longer.preEnglishLen = shorter.preEnglishLen
  length : longer.words.flatten.length = shorter.words.flatten.length + spaces

theorem Longer.chinese {shorter longer : Written} {spaces : Nat}
    (more : Longer shorter longer spaces) {word : CString} (chinese : isChinese word) :
    Longer (shorter.write false word) (longer.write true word) spaces := by
  obtain ⟨isPreEnglish, preEnglishLen, length⟩ := more
  constructor
  · simp [Written.write, chinese]
  · simp [Written.write, chinese, preEnglishLen]
  · simp [Written.write, Written.push, chinese, length]
    omega

theorem Longer.english {shorter longer : Written} {spaces : Nat}
    (more : Longer shorter longer spaces) {word : CString} (english : ¬ isChinese word) :
    Longer (shorter.write false word) (longer.write true word)
      (if shorter.isPreEnglish then spaces else spaces + 1) := by
  obtain ⟨isPreEnglish, preEnglishLen, length⟩ := more
  cases before : shorter.isPreEnglish with
  | false =>
    constructor
    · simp [Written.write, english, before, isPreEnglish]
    · simp [Written.write, english, before, isPreEnglish]
    · have blank : (bytes " ").length = 1 := by decide
      simp [Written.write, Written.push, english, before, isPreEnglish, length, blank]
      omega
  | true =>
    constructor
    · simp [Written.write, english, before, isPreEnglish]
    · simp [Written.write, english, before, isPreEnglish]
    · simp only [Written.write, Written.push, english, before, isPreEnglish, preEnglishLen]
      simp [length]
      omega

theorem Longer.all {shorter longer : Written} {spaces : Nat} (more : Longer shorter longer spaces)
    (words : List Word) :
    ∃ added, spaces ≤ added ∧
      Longer (shorter.writeAll false words) (longer.writeAll true words) added ∧
      (shorter.isPreEnglish = false → (∃ word ∈ words, ¬ isChinese word.word) → spaces < added) := by
  induction words generalizing shorter longer spaces with
  | nil => exact ⟨spaces, Nat.le_refl _, more, by simp⟩
  | cons word words inductionHypothesis =>
    by_cases chinese : isChinese word.word
    · obtain ⟨added, atLeast, longer', some⟩ := inductionHypothesis (more.chinese chinese)
      refine ⟨added, atLeast, longer', fun before english => some ?_ ?_⟩
      · simp [Written.write, chinese]
      · simpa [chinese] using english
    · obtain ⟨added, atLeast, longer', -⟩ := inductionHypothesis (more.english chinese)
      refine ⟨added, ?_, longer', fun before _ => ?_⟩
      · split at atLeast <;> omega
      · rw [before] at atLeast
        simp only [Bool.false_eq_true, if_false] at atLeast
        omega

theorem writeAll_chinese {words : List Word} (chinese : ∀ word ∈ words, isChinese word.word)
    (written : Written) : written.writeAll true words = written.writeAll false words := by
  induction words generalizing written with
  | nil => rfl
  | cons word words inductionHypothesis =>
    obtain ⟨first, others⟩ := List.forall_mem_cons.mp chinese
    have same : written.write true word.word = written.write false word.word := by
      simp [Written.write, first]
    simp only [Written.writeAll, List.foldl_cons, same]
    exact inductionHypothesis others _

/-- The text of a call sees the member exactly if it has a word that is not Chinese. -/
theorem writeAll_eq_iff (need need' : Bool) (words : List Word) :
    (({} : Written).writeAll need words).words.flatten =
        (({} : Written).writeAll need' words).words.flatten ↔
      ((∃ word ∈ words, ¬ isChinese word.word) → need = need') := by
  have differ (english : ∃ word ∈ words, ¬ isChinese word.word) :
      (({} : Written).writeAll false words).words.flatten.length <
        (({} : Written).writeAll true words).words.flatten.length := by
    obtain ⟨added, -, longer, some⟩ :=
      Longer.all (⟨rfl, rfl, rfl⟩ : Longer ({} : Written) {} 0) words
    have positive := some rfl english
    have length := longer.length
    omega
  constructor
  · intro same english
    have shorter := differ english
    cases need <;> cases need'
    · rfl
    · rw [same] at shorter
      exact absurd shorter (Nat.lt_irrefl _)
    · rw [same] at shorter
      exact absurd shorter (Nat.lt_irrefl _)
    · rfl
  · intro same
    by_cases english : ∃ word ∈ words, ¬ isChinese word.word
    · rw [same english]
    · have chinese : ∀ word ∈ words, isChinese word.word := by simpa using english
      have equal := writeAll_chinese chinese {}
      cases need <;> cases need' <;> simp [equal]

/-! ## Calls of several sessions -/

structure Call (ι : Type) where
  session : ι
  ids : List Nat
  language : CString := []

variable {ι : Type} [DecidableEq ι]

/-- The texts that the calls return, each with its session. -/
def decodeAll (vocab : Vocab) : List (Call ι) → Option (List (ι × CString))
  | [] => some []
  | call :: rest => do
    let (text, vocab') ← vocab.vector2StringV2 call.ids call.language
    let later ← decodeAll vocab' rest
    return (call.session, text) :: later

/-- The words of a call that see the member: none for `en-bpe`. -/
def Call.words (vocab : List CString) (call : Call ι) : List Word :=
  if call.language = bytes "en-bpe" then [] else (spelled vocab {} call.ids).getD []

/-- The member after calls. -/
def leftByAll (vocab : List CString) (lastIsCompleteEnglish : Bool) (calls : List (Call ι)) : Bool :=
  calls.foldl (fun left call => leftBy left (call.words vocab)) lastIsCompleteEnglish

def ofSession (session : ι) (calls : List (Call ι)) : List (Call ι) :=
  calls.filter fun call => call.session = session

/-- Wherever a call has a word that is not Chinese, the calls of all sessions before it leave the
    member as those of its own session do. -/
def Undisturbed (vocab : List CString) (calls : List (Call ι)) : Prop :=
  ∀ before call after, calls = before ++ call :: after →
    (∃ word ∈ call.words vocab, ¬ isChinese word.word) →
      leftByAll vocab false before = leftByAll vocab false (ofSession call.session before)

omit [DecidableEq ι] in
/-- A call on two objects that differ in the member. -/
theorem vector2StringV2_member {vocab : List CString} {need : Bool} {call : Call ι} {text : CString}
    {vocab' : Vocab}
    (returned : (⟨vocab, need⟩ : Vocab).vector2StringV2 call.ids call.language = some (text, vocab'))
    (need' : Bool) :
    vocab' = ⟨vocab, leftBy need (call.words vocab)⟩ ∧
      ∃ text', (⟨vocab, need'⟩ : Vocab).vector2StringV2 call.ids call.language =
          some (text', ⟨vocab, leftBy need' (call.words vocab)⟩) ∧
        (text' = text ↔ ((∃ word ∈ call.words vocab, ¬ isChinese word.word) → need' = need)) := by
  by_cases bpe : call.language = bytes "en-bpe"
  · have none : call.words vocab = [] := if_pos bpe
    simp only [Vocab.vector2StringV2, bpe, if_true, Option.bind_eq_bind, Option.bind_eq_some_iff]
      at returned
    obtain ⟨words, joined, same⟩ := returned
    cases same
    refine ⟨by rw [none]; rfl, words.flatten, ?_, ?_⟩
    · simp [Vocab.vector2StringV2, bpe, joined, none, leftBy]
    · simp [none]
  · have some : call.words vocab = (spelled vocab {} call.ids).getD [] := if_neg bpe
    simp only [Vocab.vector2StringV2, bpe, if_false, joinWords_eq, Option.bind_eq_bind,
      Option.bind_eq_some_iff, Option.map_eq_some_iff] at returned
    obtain ⟨-, ⟨words, spelling, rfl⟩, same⟩ := returned
    cases same
    rw [some, spelling, Option.getD_some]
    refine ⟨rfl, (({} : Written).writeAll need' words).words.flatten, ?_, writeAll_eq_iff _ _ _⟩
    simp [Vocab.vector2StringV2, bpe, joinWords_eq, spelling]

/-- `Undisturbed` from a member of the shared object and the members that each session would have. -/
def UndisturbedFrom (vocab : List CString) (shared : Bool) (own : ι → Bool) (calls : List (Call ι)) :
    Prop :=
  ∀ before call after, calls = before ++ call :: after →
    (∃ word ∈ call.words vocab, ¬ isChinese word.word) →
      leftByAll vocab shared before =
        leftByAll vocab (own call.session) (ofSession call.session before)

theorem undisturbedFrom_cons {vocab : List CString} {shared : Bool} {own : ι → Bool} {call : Call ι}
    {calls : List (Call ι)} :
    UndisturbedFrom vocab shared own (call :: calls) ↔
      ((∃ word ∈ call.words vocab, ¬ isChinese word.word) → own call.session = shared) ∧
        UndisturbedFrom vocab (leftBy shared (call.words vocab))
          (Function.update own call.session (leftBy (own call.session) (call.words vocab))) calls := by
  -- The call moves the flag of its own session only.
  have ownAfter (session : ι) (before : List (Call ι)) :
      leftByAll vocab (own session) (ofSession session (call :: before)) =
        leftByAll vocab
          (Function.update own call.session (leftBy (own call.session) (call.words vocab)) session)
          (ofSession session before) := by
    by_cases same : call.session = session
    · subst same
      simp [leftByAll, ofSession]
    · simp [leftByAll, ofSession, same, Ne.symm same]
  constructor
  · intro undisturbed
    refine ⟨fun english => (undisturbed [] call calls rfl english).symm, ?_⟩
    intro before later after split english
    have same := undisturbed (call :: before) later after (by rw [split]; rfl) english
    rw [ownAfter] at same
    exact same
  · rintro ⟨first, others⟩ before later after split english
    cases before with
    | nil =>
      cases split
      exact (first english).symm
    | cons head before =>
      cases split
      rw [ownAfter]
      exact others before later after rfl english

theorem decodeAll_iff {vocab : List CString} {shared : Bool} {calls : List (Call ι)}
    {texts : List (ι × CString)} (returned : decodeAll ⟨vocab, shared⟩ calls = some texts)
    (own : ι → Bool) :
    (∀ session, decodeAll ⟨vocab, own session⟩ (ofSession session calls) =
        some (texts.filter fun text => text.1 = session)) ↔
      UndisturbedFrom vocab shared own calls := by
  -- On the calls. Only the session of the first one sees its flag change.
  induction calls generalizing shared texts own with
  | nil =>
    cases returned
    simp [decodeAll, ofSession, UndisturbedFrom]
  | cons call calls inductionHypothesis =>
    simp only [decodeAll, Option.bind_eq_bind, Option.bind_eq_some_iff] at returned
    obtain ⟨⟨text, vocab'⟩, first, later, rest, same⟩ := returned
    cases same
    obtain ⟨rfl, text', own', equal⟩ := vector2StringV2_member first (own call.session)
    rw [undisturbedFrom_cons, ← equal, ← inductionHypothesis rest]
    have own'' (calls : List (Call ι)) (texts : List (ι × CString)) :
        decodeAll ⟨vocab, own call.session⟩ (call :: calls) = some ((call.session, text) :: texts) ↔
          text' = text ∧ decodeAll ⟨vocab, leftBy (own call.session) (call.words vocab)⟩ calls =
            some texts := by
      cases rest : decodeAll ⟨vocab, leftBy (own call.session) (call.words vocab)⟩ calls with
      | none => simp [decodeAll, own', rest]
      | some texts' => simp [decodeAll, own', rest]
    constructor
    · intro alone
      have mine := alone call.session
      simp only [ofSession, List.filter_cons, decide_true, if_true] at mine
      obtain ⟨same, others⟩ := (own'' _ _).mp mine
      refine ⟨same, fun session => ?_⟩
      by_cases other : session = call.session
      · subst other
        rw [Function.update_self]
        exact others
      · have theirs := alone session
        rw [Function.update_of_ne other]
        simpa [ofSession, Ne.symm other] using theirs
    · rintro ⟨same, alone⟩ session
      have theirs := alone session
      by_cases other : session = call.session
      · subst other
        rw [Function.update_self] at theirs
        simp only [ofSession, List.filter_cons, decide_true, if_true]
        exact (own'' _ _).mpr ⟨same, theirs⟩
      · rw [Function.update_of_ne other] at theirs
        simpa [ofSession, Ne.symm other] using theirs

/-- Every session gets the texts that it would get alone on a fresh object exactly if no call with
    a word that is not Chinese finds a member that its own session would not have left. -/
theorem decodeAll_alone_iff {vocab : List CString} {calls : List (Call ι)}
    {texts : List (ι × CString)} (returned : decodeAll { vocab } calls = some texts) :
    (∀ session, decodeAll { vocab } (ofSession session calls) =
        some (texts.filter fun text => text.1 = session)) ↔
      Undisturbed vocab calls :=
  decodeAll_iff returned fun _ => false

/-! ## Two sessions -/

def englishVocab : List CString := [bytes "hello", bytes "world"]

/-- One session says "hello", then the other "world". -/
def helloWorld : List (Call Bool) := [⟨true, [0], []⟩, ⟨false, [1], []⟩]

theorem decodeAll_alone_iff_helloWorld :
    (∀ session, decodeAll { vocab := englishVocab } (ofSession session helloWorld) =
        some ([(true, bytes "hello"), (false, bytes " world")].filter fun text => text.1 = session)) ↔
      Undisturbed englishVocab helloWorld :=
  decodeAll_alone_iff rfl

/-- The second session's text begins with a space, which it would not do alone. -/
theorem not_alone_helloWorld :
    ∃ texts, decodeAll { vocab := englishVocab } helloWorld = some texts ∧
      ¬ ∀ session, decodeAll { vocab := englishVocab } (ofSession session helloWorld) =
        some (texts.filter fun text => text.1 = session) := by
  refine ⟨[(true, bytes "hello"), (false, bytes " world")], rfl, fun alone => ?_⟩
  have second := alone false
  revert second
  decide

end Asr2Pass.Text
