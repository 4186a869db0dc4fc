import Asr2Pass.Text.SharedVocab
import Asr2Pass.Text.Splitting

/-! # The words of tokens

A sub-word ends in `@@` and is kept for the token behind it.  What is kept when the tokens end is
written nowhere.
-/

namespace Asr2Pass.Text

/-- A token that `word.find("@@")` takes for a sub-word. -/
def isSubWord (token : CString) : Bool := contains token (bytes "@@")

/-! ## Words -/

/-- A sub-word is kept for the token behind it, unless it is a Chinese character. -/
def isKept (token : CString) (rest : List CString) : Bool :=
  isSubWord token && !rest.head?.all isChinese

/-- The end of a word. -/
def wordEnd (token : CString) (rest : List CString) : CString :=
  if isSubWord token then eraseMark token ++ (if rest = [] then [] else bytes " ") else token

/-- The words that tokens spell, after what has been kept for the first one. -/
def wordsOf (combine : CString) : List CString → List CString
  | [] => []
  | token :: rest =>
    if isSpecial token then wordsOf combine rest
    else if isKept token rest then wordsOf (combine ++ eraseMark token) rest
    else (combine ++ wordEnd token rest) :: wordsOf [] rest

/-- What is kept at the end of the tokens. -/
def keptBy (combine : CString) : List CString → CString
  | [] => combine
  | token :: rest =>
    if isSpecial token then keptBy combine rest
    else if isKept token rest then keptBy (combine ++ eraseMark token) rest
    else keptBy [] rest

/-- The call ends with a whole word. -/
def endsWhole (tokens : List CString) : Bool :=
  tokens.getLast?.any fun last => !isSpecial last && !isSubWord last

/-- The tokens of the ids. -/
def Spells (vocab : List CString) (ids : List Nat) (tokens : List CString) : Prop :=
  ids.map (vocab[·]?) = tokens.map some

@[simp] theorem endsWhole_cons (token next : CString) (rest : List CString) :
    endsWhole (token :: next :: rest) = endsWhole (next :: rest) := by
  rw [endsWhole, endsWhole, List.getLast?_cons_cons]

/-- The last token completes a word. -/
theorem wordsOf_ne_nil {tokens : List CString} (whole : endsWhole tokens) (combine : CString) :
    wordsOf combine tokens ≠ [] := by
  induction tokens generalizing combine with
  | nil => cases whole
  | cons token rest inductionHypothesis =>
    cases rest with
    | nil =>
      have plain : isSpecial token = false ∧ isSubWord token = false := by
        simpa [endsWhole] using whole
      simp [wordsOf, isKept, plain.1, plain.2]
    | cons next rest =>
      rw [endsWhole_cons] at whole
      have later := inductionHypothesis whole
      rw [wordsOf]
      split
      · exact later combine
      · split
        · exact later _
        · exact List.cons_ne_nil _ _

theorem spells_cons {vocab : List CString} {id : Nat} {ids : List Nat} {tokens : List CString}
    (spells : Spells vocab (id :: ids) tokens) :
    ∃ token rest, tokens = token :: rest ∧ vocab[id]? = some token ∧ Spells vocab ids rest := by
  cases tokens with
  | nil => cases spells
  | cons token rest =>
    have both := List.cons.inj spells
    exact ⟨token, rest, rfl, both.1, both.2⟩

theorem spells_nil {vocab : List CString} {tokens : List CString} (spells : Spells vocab [] tokens) :
    tokens = [] :=
  List.map_eq_nil_iff.mp spells.symm

theorem finish_eq (spelling : Spelling) (idle : spelling.isCombining = false → spelling.combine = [])
    (word : CString) :
    ∃ spelling', spelling.finish word = (spelling', spelling.combine ++ word) ∧
      spelling'.isCombining = false ∧ spelling'.combine = [] := by
  rw [Spelling.finish]
  cases combining : spelling.isCombining with
  | false => exact ⟨spelling, by simp [idle combining], combining, idle combining⟩
  | true => exact ⟨{}, rfl, rfl, rfl⟩

/-- What the loop makes of the token: it keeps it, or it has a word. -/
theorem spell_eq {vocab : List CString} {spelling : Spelling}
    (idle : spelling.isCombining = false → spelling.combine = []) {token : CString} {ids : List Nat}
    {rest : List CString} (spells : Spells vocab ids rest) :
    isKept token rest = true ∧ spelling.spell vocab token ids =
        some ({ isCombining := true, combine := spelling.combine ++ eraseMark token }, none) ∨
      isKept token rest = false ∧ ∃ spelling', spelling.spell vocab token ids =
          some (spelling', some (spelling.combine ++ wordEnd token rest, isSubWord token)) ∧
        spelling'.isCombining = false ∧ spelling'.combine = [] := by
  unfold Spelling.spell isKept wordEnd
  rw [show contains token (bytes "@@") = isSubWord token from rfl]
  cases sub : isSubWord token with
  | false =>
    obtain ⟨spelling', same, idle'⟩ := finish_eq spelling idle token
    exact .inr ⟨rfl, spelling', by simp [same], idle'⟩
  | true =>
    cases ids with
    | nil =>
      obtain rfl := spells_nil spells
      obtain ⟨spelling', same, idle'⟩ := finish_eq spelling idle (eraseMark token)
      exact .inr ⟨rfl, spelling', by simp [same], idle'⟩
    | cons id ids =>
      obtain ⟨next, rest, rfl, found, -⟩ := spells_cons spells
      cases chinese : isChinese next with
      | true =>
        obtain ⟨spelling', same, idle'⟩ :=
          finish_eq spelling idle (eraseMark token ++ bytes " ")
        exact .inr ⟨by simp [chinese], spelling', by simp [same, found, chinese], idle'⟩
      | false => exact .inl ⟨by simp [chinese], by simp [found, chinese]⟩

/-- The member after the words of a call that began with `false`. -/
def leavesWhole (tokens : List CString) : Bool :=
  endsWhole tokens && (wordsOf [] tokens).getLast?.any (!isChinese ·)

/-- A call spells the words of its tokens, and says whether it ends with a whole English word. -/
theorem spelled_words {vocab : List CString} {ids : List Nat} {tokens : List CString}
    (spells : Spells vocab ids tokens) {spelling : Spelling}
    (idle : spelling.isCombining = false → spelling.combine = []) :
    ∃ words, spelled vocab spelling ids = some words ∧
      words.map Word.word = wordsOf spelling.combine tokens ∧
      ∀ flag, leftBy flag words = if wordsOf spelling.combine tokens = [] then flag
        else endsWhole tokens && (wordsOf spelling.combine tokens).getLast?.any (!isChinese ·) := by
  induction ids generalizing tokens spelling with
  | nil =>
    obtain rfl := spells_nil spells
    exact ⟨[], rfl, rfl, fun flag => rfl⟩
  | cons id ids inductionHypothesis =>
    obtain ⟨token, rest, rfl, found, spells'⟩ := spells_cons spells
    have sameEnd (more : rest ≠ []) : endsWhole (token :: rest) = endsWhole rest := by
      obtain ⟨next, rest, rfl⟩ := List.exists_cons_of_ne_nil more
      exact endsWhole_cons token next rest
    rw [spelled, found, Option.bind_eq_bind, Option.bind_some, wordsOf]
    cases special : isSpecial token with
    | true =>
      obtain ⟨words, later, same, left⟩ := inductionHypothesis spells' idle
      refine ⟨words, later, same, fun flag => ?_⟩
      rw [left flag]
      cases rest with
      | nil => rfl
      | cons next rest => simp [sameEnd]
    | false =>
      cases @spell_eq vocab spelling idle token ids rest spells' with
      | inl keeps =>
        obtain ⟨kept, step⟩ := keeps
        obtain ⟨words, later, same, left⟩ := @inductionHypothesis rest spells'
          { isCombining := true, combine := spelling.combine ++ eraseMark token } (by simp)
        refine ⟨words, by simp [step, later], by simpa [kept] using same, fun flag => ?_⟩
        have more : rest ≠ [] := by
          rintro rfl
          simp [isKept] at kept
        simpa [kept, sameEnd more] using left flag
      | inr completes =>
        obtain ⟨notKept, spelling', step, notCombining, empty⟩ := completes
        obtain ⟨words, later, same, left⟩ := inductionHypothesis spells' (fun _ => empty)
        rw [empty] at same left
        refine ⟨⟨spelling.combine ++ wordEnd token rest, ids.isEmpty &&
          !isChinese (spelling.combine ++ wordEnd token rest) && !isSubWord token⟩ :: words,
          by simp [step, later], by simp [notKept, same], fun flag => ?_⟩
        have ends : ids.isEmpty = rest.isEmpty := by
          have length := congrArg List.length spells'
          rw [List.length_map, List.length_map] at length
          cases ids <;> cases rest <;> simp_all
        have first := left (ids.isEmpty && !isChinese (spelling.combine ++ wordEnd token rest) &&
          !isSubWord token)
        simp only [notKept, Bool.false_eq_true, if_false, reduceCtorEq]
        rw [show leftBy flag (_ :: words) = leftBy (ids.isEmpty &&
          !isChinese (spelling.combine ++ wordEnd token rest) && !isSubWord token) words from rfl, first]
        cases rest with
        | nil => simp [wordsOf, ends, endsWhole, special, Bool.and_comm]
        | cons next rest =>
          rw [sameEnd (List.cons_ne_nil _ _)]
          by_cases none : wordsOf [] (next :: rest) = []
          · have notWhole : endsWhole (next :: rest) = false := by
              rw [← Bool.not_eq_true]
              exact fun whole => wordsOf_ne_nil whole [] none
            simp [none, ends, notWhole]
          · obtain ⟨word, others, some⟩ := List.exists_cons_of_ne_nil none
            simp [some]

/-! ## The text of the words -/

/-- The spaces and the words; `previous` is the length of the English word before. -/
def textFrom (firstWordNeedSpace : Bool) (previous : Option Nat) : List CString → CString
  | [] => []
  | word :: rest =>
    if isChinese word then word ++ textFrom firstWordNeedSpace none rest
    else
      (if previous.elim firstWordNeedSpace (fun length => 1 < length || 1 < word.length) then bytes " "
        else []) ++ (word ++ textFrom firstWordNeedSpace (some word.length) rest)

/-- `pre_english_len` where `is_pre_english` is set. -/
def Written.previous (written : Written) : Option Nat :=
  if written.isPreEnglish then some written.preEnglishLen else none

theorem write_chinese {word : CString} (chinese : isChinese word) (need : Bool) (written : Written) :
    (written.write need word).words.flatten = written.words.flatten ++ word ∧
      (written.write need word).previous = none := by
  simp [Written.write, Written.push, Written.previous, chinese]

theorem write_english {word : CString} (english : isChinese word = false) (need : Bool)
    (written : Written) :
    (written.write need word).words.flatten = written.words.flatten ++
        ((if written.previous.elim need (fun length => 1 < length || 1 < word.length) then bytes " "
          else []) ++ word) ∧
      (written.write need word).previous = some word.length := by
  cases before : written.isPreEnglish with
  | false => cases need <;> simp [Written.write, Written.push, Written.previous, english, before]
  | true =>
    simp only [Written.write, Written.push, Written.previous, english, before, Bool.not_true,
      Bool.false_eq_true, if_false, if_true, Option.elim_some, Bool.or_eq_true, decide_eq_true_eq]
    split
    · simp
    · simp

theorem writeAll_flatten (need : Bool) (words : List Word) (written : Written) :
    (written.writeAll need words).words.flatten =
      written.words.flatten ++ textFrom need written.previous (words.map Word.word) := by
  induction words generalizing written with
  | nil => simp [Written.writeAll, textFrom]
  | cons word rest inductionHypothesis =>
    have later := inductionHypothesis (written.write need word.word)
    rw [List.map_cons, textFrom]
    cases chinese : isChinese word.word with
    | true =>
      obtain ⟨text, previous⟩ := write_chinese chinese need written
      rw [text, previous, List.append_assoc] at later
      exact later
    | false =>
      obtain ⟨text, previous⟩ := write_english chinese need written
      rw [text, previous, List.append_assoc, List.append_assoc] at later
      exact later

/-- The text of a call, and the object after it. -/
theorem vector2StringV2_eq {vocab : List CString} {ids : List Nat} {tokens : List CString}
    (spells : Spells vocab ids tokens) {language : CString} (other : language ≠ bytes "en-bpe")
    (need : Bool) :
    (⟨vocab, need⟩ : Vocab).vector2StringV2 ids language =
      some (textFrom need none (wordsOf [] tokens),
        ⟨vocab, if wordsOf [] tokens = [] then need else leavesWhole tokens⟩) := by
  obtain ⟨words, all, same, left⟩ := @spelled_words vocab ids tokens spells {} (fun _ => rfl)
  have text := writeAll_flatten need words {}
  rw [same] at text
  simp only [Vocab.vector2StringV2, if_neg other, joinWords_eq, all, Option.map_some,
    Option.bind_eq_bind, Option.bind_some, text, left need]
  rfl

/-! ## What the spaces do not change -/

/-- The text without its spaces. -/
def visible (text : CString) : CString := text.filter fun byte => byte ≠ 0x20

@[simp] theorem visible_append (text text' : CString) :
    visible (text ++ text') = visible text ++ visible text' :=
  List.filter_append ..

@[simp] theorem visible_nil : visible [] = [] := rfl

@[simp] theorem visible_space : visible (bytes " ") = [] := by decide

theorem visible_textFrom (need : Bool) (previous : Option Nat) (words : List CString) :
    visible (textFrom need previous words) = visible words.flatten := by
  induction words generalizing previous with
  | nil => rfl
  | cons word rest inductionHypothesis =>
    rw [textFrom]
    split
    · simp [inductionHypothesis]
    · split
      · simp [inductionHypothesis]
      · simp [inductionHypothesis]

/-- A token as it is spelled: without its mark. -/
def dropMark (token : CString) : CString :=
  if bytes "@@" <:+ token then eraseMark token else token

/-- The tokens one after the other, without the special ones. -/
def detokenized (tokens : List CString) : CString :=
  (tokens.filter (!isSpecial ·)).flatMap dropMark

/-- Sub-words end in `@@`. -/
def MarksAtEnd (tokens : List CString) : Prop :=
  ∀ token ∈ tokens, isSubWord token → bytes "@@" <:+ token

theorem isSubWord_of_suffix {token : CString} (suffix : bytes "@@" <:+ token) : isSubWord token := by
  obtain ⟨front, rfl⟩ := suffix
  rw [isSubWord, contains, Option.isSome_iff_ne_none, ne_eq, find_eq_none (by decide)]
  intro absent
  apply absent front.length
  rw [List.drop_left]

/-- The words and what is kept are all that the tokens spell. -/
theorem wordsOf_visible {tokens : List CString} (marks : MarksAtEnd tokens) (combine : CString) :
    visible (wordsOf combine tokens).flatten ++ visible (keptBy combine tokens) =
      visible combine ++ visible (detokenized tokens) := by
  induction tokens generalizing combine with
  | nil => simp [wordsOf, keptBy, detokenized]
  | cons token rest inductionHypothesis =>
    obtain ⟨mark, others⟩ := List.forall_mem_cons.mp marks
    have dropped : dropMark token = if isSubWord token then eraseMark token else token := by
      rw [dropMark]
      by_cases suffix : bytes "@@" <:+ token
      · rw [if_pos suffix, if_pos (isSubWord_of_suffix suffix)]
      · rw [if_neg suffix, if_neg fun sub => suffix (mark sub)]
    cases special : isSpecial token with
    | true => simpa [wordsOf, keptBy, special, detokenized] using inductionHypothesis others combine
    | false =>
      have text : detokenized (token :: rest) = dropMark token ++ detokenized rest := by
        simp [detokenized, special]
      rw [wordsOf, keptBy, text, dropped]
      cases kept : isKept token rest with
      | true =>
        have sub : isSubWord token = true := by
          rw [isKept, Bool.and_eq_true] at kept
          exact kept.1
        simpa [special, sub] using inductionHypothesis others (combine ++ eraseMark token)
      | false =>
        have later := inductionHypothesis others []
        have ending : visible (wordEnd token rest) =
            visible (if isSubWord token then eraseMark token else token) := by
          rw [wordEnd]
          split
          · split <;> simp
          · rfl
        simp only [special, Bool.false_eq_true, if_false, List.flatten_cons, visible_append,
          List.append_assoc, later, ending, visible_nil, List.nil_append]

/-! ## What is kept at the end -/

/-- Special tokens and sub-words, the last one special. -/
def Trailing (tokens : List CString) : Prop :=
  (∀ token ∈ tokens, isSpecial token ∨ isSubWord token) ∧ tokens.getLast?.any isSpecial

/-- Only special tokens and sub-words, the last one special, are behind a sub-word of which there
    are bytes to `keep`. -/
def Forfeits (keep : UInt8 → Bool) (tokens : List CString) : Prop :=
  ∃ before token after, tokens = before ++ token :: after ∧ isSubWord token ∧
    (eraseMark token).filter keep ≠ [] ∧ Trailing after

theorem trailing_cons {token : CString} {rest : List CString} :
    Trailing (token :: rest) ↔ (isSpecial token ∨ isSubWord token) ∧
      (rest = [] ∧ isSpecial token ∨ Trailing rest) := by
  rw [Trailing, Trailing, List.forall_mem_cons]
  cases rest with
  | nil => simp
  | cons next rest => simp [and_assoc]

theorem forfeits_cons {keep : UInt8 → Bool} {token : CString} {rest : List CString} :
    Forfeits keep (token :: rest) ↔
      isSubWord token ∧ (eraseMark token).filter keep ≠ [] ∧ Trailing rest ∨ Forfeits keep rest := by
  constructor
  · rintro ⟨before, piece, after, split, sub, some, trailing⟩
    cases before with
    | nil =>
      cases split
      exact .inl ⟨sub, some, trailing⟩
    | cons first before =>
      cases split
      exact .inr ⟨before, piece, after, rfl, sub, some, trailing⟩
  · rintro (⟨sub, some, trailing⟩ | ⟨before, piece, after, rfl, sub, some, trailing⟩)
    · exact ⟨[], token, rest, rfl, sub, some, trailing⟩
    · exact ⟨token :: before, piece, after, rfl, sub, some, trailing⟩

theorem not_subWord_of_special {token : CString} (special : isSpecial token) :
    isSubWord token = false := by
  simp only [isSpecial, Bool.or_eq_true, decide_eq_true_eq] at special
  rcases special with (rfl | rfl) | rfl
  all_goals decide

/-- The bytes of a Chinese character are those of three-byte UTF-8. -/
theorem isChinese_bytes {word : CString} (chinese : isChinese word) :
    ∃ byte byte' byte'', word = [byte, byte', byte''] ∧ byte &&& 0xf0 = 0xe0 ∧
      byte' &&& 0xc0 = 0x80 ∧ byte'' &&& 0xc0 = 0x80 := by
  fun_cases isChinese word with
  | case1 byte byte' byte'' =>
    refine ⟨byte, byte', byte'', rfl, ?_⟩
    by_contra invalid
    have zero : str2Int byte byte' byte'' = 0 := by
      rw [str2Int, if_pos]
      by_contra valid
      simp only [not_or, not_not] at valid
      exact invalid valid
    simp [isChinese, zero] at chinese
  | case2 => simp_all [isChinese]

theorem not_trailing_of_chinese {word : CString} (chinese : isChinese word) :
    isSpecial word = false ∧ isSubWord word = false := by
  obtain ⟨byte, byte', byte'', rfl, lead, middle, last⟩ := isChinese_bytes chinese
  constructor
  · rw [← Bool.not_eq_true, isSpecial, Bool.or_eq_true, Bool.or_eq_true, decide_eq_true_eq,
      decide_eq_true_eq, decide_eq_true_eq]
    rintro ((same | same) | same)
    · obtain rfl : byte = 0x3c := List.head_eq_of_cons_eq same
      exact absurd lead (by decide)
    · exact absurd (congrArg List.length same) (show 3 ≠ 4 by decide)
    · exact absurd (congrArg List.length same) (show 3 ≠ 5 by decide)
  · rw [isSubWord, contains, find_of_not_mem (show 0x40 ∈ bytes "@@" by decide)]
    · rfl
    · simp only [List.mem_cons, List.not_mem_nil, or_false, not_or]
      refine ⟨?_, ?_, ?_⟩
      · rintro rfl
        exact absurd lead (by decide)
      · rintro rfl
        exact absurd middle (by decide)
      · rintro rfl
        exact absurd last (by decide)

/-- Bytes are kept at the end exactly from the sub-words that are forfeited, or from before. -/
theorem keptBy_eq_nil (keep : UInt8 → Bool) (tokens : List CString) (combine : CString) :
    (keptBy combine tokens).filter keep = [] ↔ ¬ Forfeits keep tokens ∧
      (tokens = [] ∨ Trailing tokens → combine.filter keep = []) := by
  induction tokens generalizing combine with
  | nil =>
    have none : ¬ Forfeits keep [] := by
      rintro ⟨before, token, after, split, -⟩
      simp at split
    simp [keptBy, none]
  | cons token rest inductionHypothesis =>
    rw [keptBy, forfeits_cons, trailing_cons]
    cases special : isSpecial token with
    | true =>
      have sub := not_subWord_of_special special
      simp [sub, inductionHypothesis]
    | false =>
      cases kept : isKept token rest with
      | true =>
        rw [isKept, Bool.and_eq_true] at kept
        have more : rest ≠ [] := by
          rintro rfl
          simp at kept
        simp only [Bool.false_eq_true, if_false, if_true, inductionHypothesis, kept.1, more,
          List.filter_append, List.append_eq_nil_iff, reduceCtorEq, true_and, and_false, or_true,
          false_or]
        grind
      | false =>
        have last : isSubWord token → ¬ Trailing rest := by
          intro sub trailing
          cases rest with
          | nil => cases trailing.2
          | cons next rest =>
            have chinese : isChinese next = true := by
              simpa [isKept, sub] using kept
            obtain ⟨notSpecial, notSub⟩ := not_trailing_of_chinese chinese
            simpa [notSpecial, notSub] using trailing.1 next List.mem_cons_self
        simp only [Bool.false_eq_true, if_false, inductionHypothesis]
        grind

theorem forfeits_iff {keep : UInt8 → Bool} {tokens : List CString} :
    Forfeits keep tokens ↔ (keptBy [] tokens).filter keep ≠ [] := by
  rw [ne_eq, keptBy_eq_nil, List.filter_nil, and_iff_left fun _ => rfl, not_not]

instance (keep : UInt8 → Bool) (tokens : List CString) : Decidable (Forfeits keep tokens) :=
  decidable_of_iff' _ forfeits_iff

end Asr2Pass.Text
