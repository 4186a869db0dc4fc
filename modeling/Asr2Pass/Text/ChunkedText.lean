import Asr2Pass.Text.Detokenize
import Mathlib.Data.List.Chain

/-! # Text in chunks

Inside a call the space before an English word depends on the lengths of it and of the one before.
Behind a chunk it depends on the member, for every English word up to the next chunk that has no
other one directly before it.
-/

namespace Asr2Pass.Text

/-! ## The words of two chunks -/

/-- What is kept goes before the first word. -/
theorem wordsOf_combine (combine : CString) (tokens : List CString) :
    wordsOf combine tokens = (wordsOf [] tokens).modifyHead (combine ++ ·) := by
  induction tokens generalizing combine with
  | nil => rfl
  | cons token rest inductionHypothesis =>
    rw [wordsOf, wordsOf]
    split
    · exact inductionHypothesis combine
    · split
      · rw [inductionHypothesis, inductionHypothesis ([] ++ _), List.modifyHead_modifyHead]
        congr 1
        funext word
        simp
      · simp

theorem wordsOf_append {first : List CString} (whole : first.getLast?.all (!isSubWord ·))
    (combine : CString) (second : List CString) :
    wordsOf combine (first ++ second) =
      wordsOf combine first ++ wordsOf (keptBy combine first) second := by
  induction first generalizing combine with
  | nil => rfl
  | cons token rest inductionHypothesis =>
    cases rest with
    | nil =>
      -- The last token is no sub-word, so what follows it does not matter.
      have plain : isSubWord token = false := by
        simpa using whole
      rw [List.cons_append, wordsOf, wordsOf, keptBy]
      split
      · rfl
      · simp [isKept, wordEnd, plain, wordsOf, keptBy]
    | cons next rest =>
      have later := inductionHypothesis (by simpa using whole)
      have same : isKept token (next :: rest ++ second) = isKept token (next :: rest) := rfl
      have ending : wordEnd token (next :: rest ++ second) = wordEnd token (next :: rest) := by
        simp [wordEnd]
      rw [List.cons_append, wordsOf, wordsOf, keptBy, same, ending]
      split
      · exact later combine
      · split
        · exact later _
        · rw [later [], List.cons_append]

theorem not_forfeits_of_endsWhole {tokens : List CString} (whole : endsWhole tokens)
    (keep : UInt8 → Bool) : ¬ Forfeits keep tokens := by
  rintro ⟨before, token, after, rfl, -, -, trailing⟩
  obtain ⟨last, isLast, special⟩ := (Option.any_eq_true _ _).mp trailing.2
  simp [endsWhole, List.getLast?_cons, isLast, special] at whole

/-! ## The spaces between them -/

def lengthOf (word : CString) : Option Nat := if isChinese word then none else some word.length

/-- The length of the English word at the end, or before where there are no words. -/
def lengthBefore (previous : Option Nat) (words : List CString) : Option Nat :=
  words.getLast?.elim previous lengthOf

def spaceBefore (firstWordNeedSpace : Bool) (previous : Option Nat) (word : CString) : CString :=
  if !isChinese word &&
      previous.elim firstWordNeedSpace (fun length => 1 < length || 1 < word.length) then bytes " "
  else []

theorem textFrom_cons (need : Bool) (previous : Option Nat) (word : CString) (rest : List CString) :
    textFrom need previous (word :: rest) =
      spaceBefore need previous word ++ (word ++ textFrom need (lengthOf word) rest) := by
  cases chinese : isChinese word with
  | true => simp [textFrom, spaceBefore, lengthOf, chinese]
  | false => simp [textFrom, spaceBefore, lengthOf, chinese]

theorem textFrom_append (need : Bool) (previous : Option Nat) (words words' : List CString) :
    textFrom need previous (words ++ words') =
      textFrom need previous words ++ textFrom need (lengthBefore previous words) words' := by
  induction words generalizing previous with
  | nil => rfl
  | cons word rest inductionHypothesis =>
    have same : lengthBefore (lengthOf word) rest = lengthBefore previous (word :: rest) := by
      cases rest with
      | nil => rfl
      | cons next rest => simp [lengthBefore, List.getLast?_cons]
    rw [List.cons_append, textFrom_cons, textFrom_cons, inductionHypothesis, same]
    simp only [List.append_assoc]

theorem spaceBefore_chinese {word : CString} (chinese : isChinese word) (need : Bool)
    (previous : Option Nat) : spaceBefore need previous word = [] := by
  simp [spaceBefore, chinese]

/-- Without the member there are no more spaces. -/
theorem textFrom_length_le (previous : Option Nat) (words : List CString) :
    (textFrom false previous words).length ≤ (textFrom true previous words).length := by
  induction words generalizing previous with
  | nil => exact Nat.le_refl _
  | cons word rest inductionHypothesis =>
    have space : (spaceBefore false previous word).length ≤ (spaceBefore true previous word).length := by
      cases previous with
      | none => simp [spaceBefore]
      | some length => exact Nat.le_refl _
    have later := inductionHypothesis (lengthOf word)
    simp only [textFrom_cons, List.length_append]
    omega

/-- No English word follows a Chinese character. -/
def StaysChinese (words : List CString) : Prop :=
  words.IsChain fun word next => isChinese word → isChinese next

instance (words : List CString) : Decidable (StaysChinese words) :=
  inferInstanceAs (Decidable (List.IsChain _ _))

/-- The member is seen where an English word has no other one before it. -/
theorem textFrom_need_iff (previous : Option Nat) (words : List CString) :
    textFrom true previous words = textFrom false previous words ↔
      StaysChinese words ∧ (previous = none → ∀ word ∈ words.head?, isChinese word) := by
  induction words generalizing previous with
  | nil => simp [textFrom, StaysChinese]
  | cons word rest inductionHypothesis =>
    have later := inductionHypothesis (lengthOf word)
    rw [textFrom_cons, textFrom_cons, StaysChinese, List.isChain_cons]
    cases chinese : isChinese word with
    | true =>
      rw [spaceBefore_chinese chinese, spaceBefore_chinese chinese, List.nil_append, List.nil_append,
        List.append_cancel_left_eq, later, StaysChinese]
      simp [lengthOf, chinese, and_comm]
    | false =>
      cases previous with
      | none =>
        have longer := textFrom_length_le (lengthOf word) rest
        have different : spaceBefore true none word ++ (word ++ textFrom true (lengthOf word) rest) ≠
            spaceBefore false none word ++ (word ++ textFrom false (lengthOf word) rest) := by
          intro same
          have lengths := congrArg List.length same
          simp only [spaceBefore, chinese, Bool.not_false, Option.elim_none, Bool.and_true,
            Bool.and_false, Bool.false_eq_true, if_true, if_false, List.length_append,
            List.length_nil, show (bytes " ").length = 1 by decide] at lengths
          omega
        simp [different, chinese]
      | some length =>
        rw [show spaceBefore true (some length) word = spaceBefore false (some length) word from rfl,
          List.append_cancel_left_eq, List.append_cancel_left_eq, later, StaysChinese]
        simp [lengthOf, chinese]

/-- A longer word before is followed by no fewer spaces. -/
theorem textFrom_longer {previous : Option Nat} {longer : Nat}
    (longest : ∀ length ∈ previous, length ≤ longer) (words : List CString) :
    (textFrom false previous words).length ≤ (textFrom false (some longer) words).length := by
  cases words with
  | nil => exact Nat.le_refl _
  | cons word rest =>
    have space : (spaceBefore false previous word).length ≤
        (spaceBefore false (some longer) word).length := by
      cases previous with
      | none => simp [spaceBefore]
      | some length =>
        have le := longest length rfl
        simp only [spaceBefore, Option.elim_some, Bool.and_eq_true, Bool.or_eq_true,
          decide_eq_true_eq]
        split <;> split
        · exact Nat.le_refl _
        · rename_i spaced notSpaced
          exact absurd ⟨spaced.1, spaced.2.imp_left fun longerThan => by omega⟩ notSpaced
        · exact Nat.zero_le _
        · exact Nat.le_refl _
    simp only [textFrom_cons, List.length_append]
    omega

/-- What is kept of a chunk is seen in the text. -/
theorem textFrom_kept_ne {kept : CString} (some : kept ≠ []) (previous : Option Nat) (next : CString)
    (others : List CString) :
    textFrom false none (next :: others) ≠ textFrom false previous ((kept ++ next) :: others) := by
  intro same
  have spaces : visible kept = [] := by
    have visibly := congrArg visible same
    rw [visible_textFrom, visible_textFrom, List.flatten_cons, List.flatten_cons, visible_append,
      visible_append, visible_append, List.append_assoc] at visibly
    exact List.self_eq_append_left.mp visibly
  have english : isChinese (kept ++ next) = false := by
    rw [← Bool.not_eq_true]
    intro chinese
    obtain ⟨byte, byte', byte'', same, lead, -⟩ := isChinese_bytes chinese
    obtain ⟨first, kept, rfl⟩ := List.exists_cons_of_ne_nil some
    obtain ⟨rfl, -⟩ := List.cons.inj same
    have space : first = 0x20 := by
      by_contra other
      simp [visible, other] at spaces
    rw [space] at lead
    exact absurd lead (by decide)
  have positive := List.length_pos_of_ne_nil some
  have shorter : (textFrom false (lengthOf next) others).length ≤
      (textFrom false (lengthOf (kept ++ next)) others).length := by
    rw [show lengthOf (kept ++ next) = Option.some (kept ++ next).length by simp [lengthOf, english]]
    apply textFrom_longer
    intro length isLength
    rw [lengthOf] at isLength
    split at isLength
    · cases isLength
    · cases isLength
      simp
  have noSpace : spaceBefore false none next = [] := by
    simp [spaceBefore]
  have lengths := congrArg List.length same
  simp only [textFrom_cons, noSpace, List.length_append, List.length_nil] at lengths
  omega

/-! ## Texts of chunks -/

/-- The second chunk has no words, or the first one keeps nothing for it, and behind an English word
    the chunk makes the spaces that one call makes. -/
def Joins (first second : List CString) : Prop :=
  wordsOf [] second = [] ∨
    ¬ Forfeits (fun _ => true) first ∧
      ∀ last ∈ (wordsOf [] first).getLast?, isChinese last = false →
        (∀ next ∈ (wordsOf [] second).head?, isChinese next = false →
          (endsWhole first ↔ 1 < last.length ∨ 1 < next.length)) ∧
        (endsWhole first → StaysChinese (wordsOf [] second))

theorem textFrom_behind_iff (word : CString) (rest : List CString) :
    textFrom true (lengthOf word) rest = textFrom false (lengthOf word) rest ↔
      StaysChinese (word :: rest) := by
  rw [textFrom_need_iff, StaysChinese, StaysChinese, List.isChain_cons, and_comm]
  cases chinese : isChinese word with
  | true => simp [lengthOf, chinese]
  | false => simp [lengthOf, chinese]

instance (first second : List CString) : Decidable (Joins first second) :=
  inferInstanceAs (Decidable (_ ∨ _))

/-- Words behind words, where nothing is kept for them. -/
theorem textFrom_joins_iff (complete : Bool) {previous : Option Nat}
    (english : complete → previous ≠ none) (next : CString) (others : List CString) :
    textFrom complete none (next :: others) = textFrom false previous (next :: others) ↔
      ∀ length ∈ previous, (isChinese next = false → (complete ↔ 1 < length ∨ 1 < next.length)) ∧
        (complete → StaysChinese (next :: others)) := by
  cases previous with
  | none =>
    cases complete with
    | true => exact absurd rfl (english rfl)
    | false => simp
  | some length =>
    rw [textFrom_cons, textFrom_cons]
    simp only [Option.mem_def, Option.some.injEq, forall_eq']
    cases complete with
    | false =>
      have noSpace : spaceBefore false none next = [] := by
        simp [spaceBefore]
      rw [noSpace, List.nil_append, List.self_eq_append_left, spaceBefore]
      cases chinese : isChinese next with
      | true => simp
      | false => simp [show bytes " " ≠ [] by decide]
    | true =>
      have later := textFrom_behind_iff next others
      cases chinese : isChinese next with
      | true =>
        rw [spaceBefore_chinese chinese, spaceBefore_chinese chinese, List.nil_append,
          List.nil_append, List.append_cancel_left_eq, later]
        simp
      | false =>
        have space : spaceBefore true none next = bytes " " := by
          simp [spaceBefore, chinese]
        by_cases long : 1 < length ∨ 1 < next.length
        · rw [space, show spaceBefore false (some length) next = bytes " " by
            simp [spaceBefore, chinese, long], List.append_cancel_left_eq,
            List.append_cancel_left_eq, later]
          simp [long]
        · -- The space is there for the member only.
          have shorter := textFrom_length_le (lengthOf next) others
          have different : bytes " " ++ (next ++ textFrom true (lengthOf next) others) ≠
              next ++ textFrom false (lengthOf next) others := by
            intro same
            have lengths := congrArg List.length same
            simp only [List.length_append, show (bytes " ").length = 1 by decide] at lengths
            omega
          rw [space, show spaceBefore false (some length) next = [] by
            simp [spaceBefore, long], List.nil_append]
          simp [different, long]

theorem textFrom_chunks_iff {first : List CString} (whole : first.getLast?.all (!isSubWord ·))
    (second : List CString) :
    textFrom false none (wordsOf [] first) ++
          textFrom (leavesWhole first) none (wordsOf [] second) =
        textFrom false none (wordsOf [] (first ++ second)) ↔
      Joins first second := by
  rw [wordsOf_append whole, textFrom_append, List.append_cancel_left_eq,
    wordsOf_combine (keptBy [] first), Joins]
  have forfeits : Forfeits (fun _ => true) first ↔ keptBy [] first ≠ [] := by
    rw [forfeits_iff, List.filter_true]
  cases words : wordsOf [] second with
  | nil => simp [textFrom]
  | cons next others =>
    by_cases kept : keptBy [] first = []
    · rw [kept, List.modifyHead_cons, List.nil_append, lengthBefore, leavesWhole]
      cases last : (wordsOf [] first).getLast? with
      | none => simp [forfeits, kept]
      | some word =>
        cases chinese : isChinese word with
        | true => simp [forfeits, kept, lengthOf, chinese]
        | false =>
          have joins := @textFrom_joins_iff (endsWhole first) (some word.length) (by simp) next others
          simpa [forfeits, kept, lengthOf, chinese] using joins
    · have incomplete : leavesWhole first = false := by
        have lasts := mt (fun whole => not_forfeits_of_endsWhole whole _) (not_not.mpr (forfeits.mpr kept))
        simp [leavesWhole, lasts]
      simp [incomplete, forfeits, kept, textFrom_kept_ne kept]

/-- The texts of two chunks, one after the other. -/
def Vocab.inChunks (vocab : Vocab) (ids ids' : List Nat) (language : CString) : Option CString := do
  let (text, vocab') ← vocab.vector2StringV2 ids language
  let (text', _) ← vocab'.vector2StringV2 ids' language
  return text ++ text'

/-- The texts of two chunks are the text of both exactly where the chunks join, from a new `Vocab`
    and where the first chunk does not end inside a word. -/
theorem inChunks_iff {vocab : List CString} {ids ids' : List Nat} {first second : List CString}
    (spells : Spells vocab ids first) (spells' : Spells vocab ids' second)
    (whole : first.getLast?.all (!isSubWord ·)) {language : CString}
    (other : language ≠ bytes "en-bpe") :
    (∃ text, (⟨vocab, false⟩ : Vocab).inChunks ids ids' language = some text ∧
        ∃ vocab', (⟨vocab, false⟩ : Vocab).vector2StringV2 (ids ++ ids') language =
          some (text, vocab')) ↔
      Joins first second := by
  have both : Spells vocab (ids ++ ids') (first ++ second) := by
    rw [Spells, List.map_append, spells, spells', List.map_append]
  have flag : (if wordsOf [] first = [] then false else leavesWhole first) = leavesWhole first := by
    split
    · rename_i none
      simp [leavesWhole, none]
    · rfl
  have chunks : (⟨vocab, false⟩ : Vocab).inChunks ids ids' language =
      some (textFrom false none (wordsOf [] first) ++
        textFrom (leavesWhole first) none (wordsOf [] second)) := by
    simp [Vocab.inChunks, vector2StringV2_eq spells other, vector2StringV2_eq spells' other, flag]
  rw [chunks, vector2StringV2_eq both other, ← textFrom_chunks_iff whole]
  constructor
  · rintro ⟨text, same, vocab', joined⟩
    obtain rfl := Option.some.inj same
    exact (Prod.mk.inj (Option.some.inj joined)).1.symm
  · exact fun same => ⟨_, rfl, _, by rw [same]⟩

private def mixed : List CString := [bytes "hi", bytes "你", bytes "ok"]

theorem inChunks_iff_mixed : ∃ text, (⟨mixed, false⟩ : Vocab).inChunks [0, 1] [1] [] = some text ∧
    ∃ vocab', (⟨mixed, false⟩ : Vocab).vector2StringV2 [0, 1, 1] [] = some (text, vocab') :=
  (@inChunks_iff mixed [0, 1] [1] [bytes "hi", bytes "你"] [bytes "你"] rfl rfl (by decide) []
    (by decide)).mpr (by decide)

/-- `hi` and `你ok`: the space for `你` goes to `ok`. -/
theorem not_inChunks_mixed :
    Spells mixed [0] [bytes "hi"] ∧ isSubWord (bytes "hi") = false ∧
      (⟨mixed, false⟩ : Vocab).inChunks [0] [1, 2] [] = some (bytes "hi你 ok") ∧
      ((⟨mixed, false⟩ : Vocab).vector2StringV2 [0, 1, 2] []).map Prod.fst =
        some (bytes "hi你ok") :=
  ⟨rfl, by decide, by decide, by decide⟩

end Asr2Pass.Text
