import Asr2Pass.Text.Utf8

/-! # `CTokenizer`

`Tokenize` cuts a text at its spaces, takes each run of ASCII bytes for a token, and cuts the rest
with jieba or into characters.
-/

namespace Asr2Pass.Punctuation

open Text

/-- The lists of the configuration; `segJieba` is jieba's `Cut` when `seg_jieba` is set. -/
structure CTokenizer where
  puncList : List CString
  token2Id : CString → Option Nat
  segJieba : Option (CString → List CString) := none

/-! ## `Tokenize` -/

/-- The pieces between the occurrences of `split`, after the bytes of the first piece so far. -/
def strSplitFrom (split : UInt8) (current : CString) : CString → List CString
  | [] => [current]
  | byte :: rest =>
    if byte = split then current :: strSplitFrom split [] rest
    else strSplitFrom split (current ++ [byte]) rest

def strSplit (split : UInt8) (str : CString) : List CString :=
  if str = [] then [] else strSplitFrom split [] str

/-- The loop of `SplitChineseString`, with a bound on its rounds. -/
def splitCharacters : Nat → CString → List CString
  | 0, _ => []
  | _ + 1, [] => []
  | count + 1, byte :: rest =>
    (byte :: rest).take (charLen byte) :: splitCharacters count ((byte :: rest).drop (charLen byte))

def splitChineseString (str : CString) : List CString := splitCharacters str.length str

/-- `tolower` in the C locale. -/
def toLower (byte : UInt8) : UInt8 := if 0x41 ≤ byte ∧ byte ≤ 0x5a then byte + 0x20 else byte

namespace CTokenizer

def splitChinese (tokenizer : CTokenizer) : CString → List CString :=
  tokenizer.segJieba.getD splitChineseString

/-- The loop over an item between spaces, with `current_eng` and `current_chinese`. -/
def tokenizeItem (tokenizer : CTokenizer) (currentEng currentChinese : CString) :
    CString → List CString
  | [] =>
    (if currentChinese = [] then [] else tokenizer.splitChinese currentChinese) ++
      (if currentEng = [] then [] else [currentEng])
  | ch :: rest =>
    if isAscii ch then
      (if currentChinese = [] then [] else tokenizer.splitChinese currentChinese) ++
        tokenizer.tokenizeItem (currentEng ++ [ch]) [] rest
    else
      (if currentEng = [] then [] else [currentEng]) ++
        tokenizer.tokenizeItem [] (currentChinese ++ [ch]) rest

/-- `Tokenize`: the tokens, `str_out`. -/
def tokenize (tokenizer : CTokenizer) (str : CString) : List CString :=
  (strSplit 0x20 str).flatMap (tokenizer.tokenizeItem [] [])

/-- `String2Ids` of a token.  An id for `<unk>` is made when there is none. -/
def string2Id (tokenizer : CTokenizer) (item : CString) : Nat :=
  match tokenizer.token2Id (item.map toLower) with
  | some id => id
  | none => (tokenizer.token2Id (bytes "<unk>")).getD 0

def id2Punc (tokenizer : CTokenizer) (label : Nat) : Option CString := tokenizer.puncList[label]?

def isPunc (tokenizer : CTokenizer) (punc : CString) : Bool := tokenizer.puncList.contains punc

end CTokenizer

/-! ## The tokens of a list of characters -/

def isSpace (unit : CString) : Bool := unit = [0x20]

/-- `current_eng`, when it holds something. -/
def pending (currentEng : CString) : List CString := if currentEng = [] then [] else [currentEng]

/-- The tokens of characters. -/
def unitTokens (currentEng : CString) : List CString → List CString
  | [] => pending currentEng
  | unit :: rest =>
    if isSpace unit then pending currentEng ++ unitTokens [] rest
    else if startsAscii unit then unitTokens (currentEng ++ unit) rest
    else pending currentEng ++ unit :: unitTokens [] rest

/-- What `SplitChineseString` gets, in characters. -/
def AllWide (units : List CString) : Prop := ∀ unit ∈ units, Utf8Unit unit ∧ ¬ startsAscii unit

theorem splitCharacters_units {units : List CString} (wide : AllWide units) (count : Nat)
    (enough : units.flatten.length ≤ count) : splitCharacters count units.flatten = units := by
  induction units generalizing count with
  | nil => cases count <;> rfl
  | cons unit units inductionHypothesis =>
    obtain ⟨valid, notAscii⟩ := wide unit List.mem_cons_self
    have others : AllWide units := fun unit' member => wide unit' (List.mem_cons_of_mem _ member)
    cases valid with
    | ascii one => simp [startsAscii, one] at notAscii
    | @wide byte rest length _ =>
      cases count with
      | zero => simp at enough
      | succ count =>
        have size : charLen byte = (byte :: rest).length := by simpa using length
        rw [List.flatten_cons, List.cons_append, splitCharacters, ← List.cons_append, size,
          List.take_left', List.drop_left' rfl, inductionHypothesis others]
        · simp only [List.flatten_cons, List.length_append, List.length_cons] at enough
          omega
        · rfl

theorem splitChineseString_units {units : List CString} (wide : AllWide units) :
    splitChineseString units.flatten = units :=
  splitCharacters_units wide _ (Nat.le_refl _)

section
variable {tokenizer : CTokenizer}

/-- The bytes of a character that is not ASCII go to `current_chinese`. -/
theorem tokenizeItem_wide {bytes : CString} (wide : ∀ byte ∈ bytes, ¬ isAscii byte)
    (nonempty : bytes ≠ []) (currentEng currentChinese rest : CString) :
    tokenizer.tokenizeItem currentEng currentChinese (bytes ++ rest) =
      pending currentEng ++ tokenizer.tokenizeItem [] (currentChinese ++ bytes) rest := by
  induction bytes generalizing currentEng currentChinese with
  | nil => exact absurd rfl nonempty
  | cons byte bytes inductionHypothesis =>
    obtain ⟨first, others⟩ := List.forall_mem_cons.mp wide
    rw [List.cons_append, CTokenizer.tokenizeItem, if_neg first]
    cases bytes with
    | nil => rfl
    | cons byte' bytes =>
      rw [inductionHypothesis others (List.cons_ne_nil _ _)]
      simp [pending]

/-- What is left of `current_chinese` when the run of characters ends. -/
theorem splitChinese_flush (noJieba : tokenizer.segJieba = none) {wides : List CString}
    (wide : AllWide wides) :
    (if wides.flatten = [] then [] else tokenizer.splitChinese wides.flatten) = wides := by
  rw [CTokenizer.splitChinese, noJieba, Option.getD_none, splitChineseString_units wide]
  cases wides with
  | nil => rfl
  | cons unit units =>
    have nonempty := (wide unit List.mem_cons_self).1.nonempty
    simp [nonempty]

/-- The characters of an item, after a run of ASCII characters or of characters that are not. -/
theorem tokenizeItem_units (noJieba : tokenizer.segJieba = none) {units : List CString}
    (valid : ∀ unit ∈ units, Utf8Unit unit ∧ ¬ isSpace unit) {wides : List CString}
    (wide : AllWide wides) {currentEng : CString} (one : wides = [] ∨ currentEng = []) :
    tokenizer.tokenizeItem currentEng wides.flatten units.flatten =
      wides ++ unitTokens currentEng units := by
  -- On the characters: a run of either kind ends where the other one begins.
  induction units generalizing wides currentEng with
  | nil =>
    rw [List.flatten_nil, CTokenizer.tokenizeItem, splitChinese_flush noJieba wide, unitTokens,
      pending]
  | cons unit units inductionHypothesis =>
    obtain ⟨⟨valid', notSpace⟩, others⟩ := List.forall_mem_cons.mp valid
    cases valid' with
    | @ascii byte one' =>
      have starts : startsAscii [byte] := one'
      rw [List.flatten_cons, List.singleton_append, CTokenizer.tokenizeItem, if_pos one',
        splitChinese_flush noJieba wide, unitTokens, if_neg notSpace, if_pos starts]
      congr 1
      exact inductionHypothesis others (by simp [AllWide]) (.inl rfl)
    | @wide byte rest length notAscii =>
      have starts : ¬ startsAscii (byte :: rest) := notAscii byte List.mem_cons_self
      have wide' : AllWide (wides ++ [byte :: rest]) := by
        intro unit member
        cases List.mem_append.mp member with
        | inl before => exact wide unit before
        | inr last =>
          cases List.mem_singleton.mp last
          exact ⟨.wide length notAscii, starts⟩
      have flat : wides.flatten ++ byte :: rest = (wides ++ [byte :: rest]).flatten := by simp
      rw [List.flatten_cons, tokenizeItem_wide notAscii (List.cons_ne_nil _ _), unitTokens,
        if_neg notSpace, if_neg starts, flat, inductionHypothesis others wide' (.inr rfl)]
      cases one with
      | inl none => simp [none]
      | inr none => simp [none, pending]

/-- The items between spaces, in characters. -/
def splitUnits (current : List CString) : List CString → List (List CString)
  | [] => [current]
  | unit :: rest =>
    if isSpace unit then current :: splitUnits [] rest else splitUnits (current ++ [unit]) rest

/-- No byte of a wide character is a space. -/
theorem strSplitFrom_wide {bytes : CString} (wide : ∀ byte ∈ bytes, ¬ isAscii byte)
    (current rest : CString) :
    strSplitFrom 0x20 current (bytes ++ rest) = strSplitFrom 0x20 (current ++ bytes) rest := by
  induction bytes generalizing current with
  | nil => simp
  | cons byte bytes inductionHypothesis =>
    obtain ⟨first, others⟩ := List.forall_mem_cons.mp wide
    have notSpace : byte ≠ 0x20 := by
      intro same
      subst same
      exact first (by decide)
    rw [List.cons_append, strSplitFrom, if_neg notSpace, inductionHypothesis others]
    simp

theorem strSplitFrom_units {units : List CString} (valid : ∀ unit ∈ units, Utf8Unit unit)
    (current : List CString) :
    strSplitFrom 0x20 current.flatten units.flatten = (splitUnits current units).map List.flatten := by
  induction units generalizing current with
  | nil => rfl
  | cons unit units inductionHypothesis =>
    obtain ⟨valid', others⟩ := List.forall_mem_cons.mp valid
    have snoc : current.flatten ++ unit = (current ++ [unit]).flatten := by simp
    rw [List.flatten_cons, splitUnits]
    cases valid' with
    | @ascii byte _ =>
      by_cases space : byte = 0x20
      · rw [if_pos (by simp [isSpace, space]), List.singleton_append, strSplitFrom, if_pos space,
          List.map_cons, ← inductionHypothesis others []]
        rfl
      · rw [if_neg (by simp [isSpace, space]), List.singleton_append, strSplitFrom, if_neg space,
          snoc, inductionHypothesis others]
    | @wide byte rest _ notAscii =>
      have notSpace : ¬ isSpace (byte :: rest) := by
        intro space
        have same : byte :: rest = [0x20] := by simpa [isSpace] using space
        cases same
        exact notAscii _ List.mem_cons_self (by decide)
      rw [if_neg notSpace, strSplitFrom_wide notAscii, snoc, inductionHypothesis others]

/-- A space ends an item and its last token. -/
theorem unitTokens_space {current : List CString} (noSpace : ∀ unit ∈ current, ¬ isSpace unit)
    (currentEng : CString) {space : CString} (isSpace' : isSpace space) (rest : List CString) :
    unitTokens currentEng (current ++ space :: rest) =
      unitTokens currentEng current ++ unitTokens [] rest := by
  induction current generalizing currentEng with
  | nil => simp [unitTokens, isSpace']
  | cons unit current inductionHypothesis =>
    obtain ⟨first, others⟩ := List.forall_mem_cons.mp noSpace
    simp only [List.cons_append, unitTokens, if_neg first, inductionHypothesis others]
    by_cases starts : startsAscii unit
    · simp [starts]
    · simp [starts]

theorem splitUnits_tokens (noJieba : tokenizer.segJieba = none) {units current : List CString}
    (valid : ∀ unit ∈ units, Utf8Unit unit)
    (valid' : ∀ unit ∈ current, Utf8Unit unit ∧ ¬ isSpace unit) :
    ((splitUnits current units).map List.flatten).flatMap (tokenizer.tokenizeItem [] []) =
      unitTokens [] (current ++ units) := by
  have item {current : List CString} (valid : ∀ unit ∈ current, Utf8Unit unit ∧ ¬ isSpace unit) :
      tokenizer.tokenizeItem [] [] current.flatten = unitTokens [] current := by
    have tokens := @tokenizeItem_units tokenizer noJieba current valid [] (by simp [AllWide]) []
      (.inl rfl)
    simpa using tokens
  induction units generalizing current with
  | nil => simp [splitUnits, item valid']
  | cons unit units inductionHypothesis =>
    obtain ⟨first, others⟩ := List.forall_mem_cons.mp valid
    rw [splitUnits]
    by_cases space : isSpace unit
    · rw [if_pos space, List.map_cons, List.flatMap_cons, item valid',
        inductionHypothesis others (by simp),
        unitTokens_space (fun unit member => (valid' unit member).2) [] space, List.nil_append]
    · have valid'' : ∀ unit' ∈ current ++ [unit], Utf8Unit unit' ∧ ¬ isSpace unit' := by
        intro unit' member
        cases List.mem_append.mp member with
        | inl before => exact valid' unit' before
        | inr last =>
          cases List.mem_singleton.mp last
          exact ⟨first, space⟩
      rw [if_neg space, inductionHypothesis others valid'', List.append_assoc, List.singleton_append]

/-- The tokens of a text of characters, when jieba is off. -/
theorem tokenize_units (noJieba : tokenizer.segJieba = none) {units : List CString}
    (valid : ∀ unit ∈ units, Utf8Unit unit) :
    tokenizer.tokenize units.flatten = unitTokens [] units := by
  cases units with
  | nil => rfl
  | cons unit rest =>
    have nonempty : (unit :: rest).flatten ≠ [] := by
      have first := (valid unit List.mem_cons_self).nonempty
      simp [first]
    rw [CTokenizer.tokenize, strSplit, if_neg nonempty]
    have split := strSplitFrom_units valid []
    rw [List.flatten_nil] at split
    rw [split, splitUnits_tokens noJieba valid (by simp), List.nil_append]

end

end Asr2Pass.Punctuation
