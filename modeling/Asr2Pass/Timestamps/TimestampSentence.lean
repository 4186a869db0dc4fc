import Asr2Pass.Library.Json
import Asr2Pass.Timestamps.Alignment
import Asr2Pass.Timestamps.Spans

/-! # `TimestampSentence`

The words between two punctuation marks and their timestamps become an object of a JSON array, which
the servers parse.  The text of the array is put together by hand.
-/

namespace Asr2Pass.Timestamps

open Library
open Text (CString bytes toStringInt)

/-- `ts_sent`: the object of a sentence. -/
def tsSent (textSeg punc : CString) (start stop : Int) (tsSeg : List Span) : CString :=
  bytes "\x7b\"text_seg\":\"" ++ textSeg ++ bytes "\"," ++
  bytes "\"punc\":\"" ++ punc ++ bytes "\"," ++
  bytes "\"start\":" ++ toStringInt start ++ bytes "," ++
  bytes "\"end\":" ++ toStringInt stop ++ bytes "," ++
  bytes "\"ts_list\":" ++ vectorToString tsSeg false ++ bytes "\x7d"

/-- The variables of the loop; `stop` is `end`. -/
structure Sentencing where
  idxTs : Nat := 0
  start : Int := -1
  stop : Int := -1
  textSeg : CString := []
  tsSentences : CString := []
  tsSeg : List Span := []

namespace Sentencing

/-- The object of the words so far.  `start` and `end` keep their values when there is no
    timestamp. -/
def close (sentencing : Sentencing) (punc : CString) : CString :=
  tsSent sentencing.textSeg punc
    ((sentencing.tsSeg.head?.map (·.1)).getD sentencing.start)
    ((sentencing.tsSeg.getLast?.map (·.2)).getD sentencing.stop)
    sentencing.tsSeg

def punctuate (sentencing : Sentencing) (mark : CString) (isLast : Bool) : Sentencing :=
  { sentencing with
    start := 0
    stop := 0
    textSeg := []
    tsSentences :=
      sentencing.tsSentences ++ sentencing.close mark ++ if isLast then [] else bytes ","
    tsSeg := [] }

/-- A word without a timestamp is left out. -/
def speak (timestamps : List Span) (sentencing : Sentencing) (word : CString) : Sentencing :=
  match timestamps[sentencing.idxTs]? with
  | none => sentencing
  | some timestamp =>
    { sentencing with
      idxTs := sentencing.idxTs + 1
      textSeg :=
        if sentencing.textSeg = [] then word else sentencing.textSeg ++ bytes " " ++ word
      tsSeg := sentencing.tsSeg ++ [timestamp] }

/-- The loop over the characters. -/
def loop (timestamps : List Span) (sentencing : Sentencing) : List CString → Sentencing
  | [] => sentencing
  | character :: characters =>
    if timestampIsPunctuation character then
      loop timestamps (sentencing.punctuate character characters.isEmpty) characters
    else loop timestamps (sentencing.speak timestamps character) characters

/-- `ts_sentences` after the block for words without a mark behind them. -/
def finish (sentencing : Sentencing) : CString :=
  sentencing.tsSentences ++ if sentencing.tsSeg = [] then [] else sentencing.close []

end Sentencing

/-- `TimestampSentence`; none where `std::stoi` throws. -/
def timestampSentence (text strTime : CString) : Option CString := do
  let timestamps ← parseTimestamps strTime
  let sentencing := Sentencing.loop timestamps {} (timestampSplitChiEngCharacters text)
  return bytes "[" ++ sentencing.finish ++ bytes "]"

/-! ## What the servers expect -/

/-- The object of a sentence: its fields and their types. -/
def IsSentence (value : Json.Value) : Prop :=
  ∃ textSeg punc start stop tsList,
    value = .object [(bytes "text_seg", .string textSeg), (bytes "punc", .string punc),
      (bytes "start", .number start), (bytes "end", .number stop),
      (bytes "ts_list", .array tsList)] ∧
    ∀ span ∈ tsList, ∃ begin last, span = .array [.number begin, .number last]

/-- The text is a JSON array of sentences. -/
def AreSentences (text : CString) : Prop :=
  ∃ sentences, Json.parse text = some (.array sentences) ∧
    ∀ sentence ∈ sentences, IsSentence sentence

/-! ## A sentence as JSON -/

def numberValue (number : Int) : Json.Value := .number (toStringInt number)

def spanValue (span : Span) : Json.Value := .array [numberValue span.1, numberValue span.2]

theorem isDecimalDigit_of_isDigit {byte : UInt8} (digit : Text.isDigit 10 byte) :
    Json.isDecimalDigit byte := by
  have range := Text.isDigit_range digit
  unfold Json.isDecimalDigit
  simp only [Bool.and_eq_true, decide_eq_true_eq, UInt8.le_iff_toNat_le]
  exact range

theorem run_integer {digits : CString} (all : ∀ byte ∈ digits, Text.isDigit 10 byte) :
    run Json.Numeral.next .integer digits = some .integer := by
  induction digits with
  | nil => rfl
  | cons digit digits inductionHypothesis =>
    obtain ⟨first, others⟩ := List.forall_mem_cons.mp all
    have stepped : Json.Numeral.next .integer digit = some .integer :=
      if_pos (isDecimalDigit_of_isDigit first)
    rw [run_cons, stepped]
    exact inductionHypothesis others

/-- The digits of a number other than zero, and what they are to the scanner of numbers. -/
theorem decimal_scanned {number : Nat} (nonzero : number ≠ 0) :
    ∃ first rest, Text.decimal number = first :: rest ∧
      Json.Numeral.start first = some .integer ∧ Json.Numeral.next .minus first = some .integer ∧
      run Json.Numeral.next .integer rest = some .integer := by
  obtain ⟨first, rest, same⟩ := List.exists_cons_of_ne_nil (Text.decimal_ne_nil number)
  have all : ∀ byte ∈ Text.decimal number, Text.isDigit 10 byte :=
    fun byte => Text.isDigit_of_mem_decimal
  have notZero := Text.head_decimal_ne nonzero
  rw [same] at all notZero
  obtain ⟨digit, others⟩ := List.forall_mem_cons.mp all
  have notZero : first ≠ 0x30 := fun zero => notZero (congrArg some zero)
  have decimalDigit := isDecimalDigit_of_isDigit digit
  have notMinus : first ≠ 0x2d := by
    rintro rfl
    exact absurd decimalDigit Bool.false_ne_true
  refine ⟨first, rest, same, ?_, ?_, run_integer others⟩
  · simp [Json.Numeral.start, notMinus, notZero, decimalDigit]
  · simp [Json.Numeral.next, notZero, decimalDigit]

theorem reads_toStringInt (number : Int) : Json.Reads (toStringInt number) (numberValue number) := by
  unfold numberValue toStringInt
  by_cases zero : number.natAbs = 0
  · obtain rfl : number = 0 := by omega
    have started : Json.Numeral.start 0x30 = some .zero := rfl
    exact Json.reads_number started rfl rfl
  · obtain ⟨first, rest, same, started, signed, ran⟩ := decimal_scanned zero
    rw [same]
    split
    · have sign : Json.Numeral.start 0x2d = some .minus := rfl
      have scanned : run Json.Numeral.next .minus (first :: rest) = some .integer := by
        rw [run_cons, signed]
        exact ran
      exact Json.reads_number sign scanned rfl
    · exact Json.reads_number started ran rfl

theorem closed_span (span : Span) : Json.Closed (spanText span) (spanValue span) := by
  have numbers : List.Forall₂ Json.Reads [toStringInt span.1, toStringInt span.2]
      [numberValue span.1, numberValue span.2] :=
    .cons (reads_toStringInt _) (.cons (reads_toStringInt _) .nil)
  have text : spanText span = 0x5b ::
      List.intercalate [0x2c] [toStringInt span.1, toStringInt span.2] ++ [0x5d] := by
    rw [List.intercalate_cons_cons, List.intercalate_singleton]
    rfl
  rw [text]
  exact Json.closed_array numbers

theorem closed_vectorToString (spans : List Span) :
    Json.Closed (vectorToString spans false) (.array (spans.map spanValue)) := by
  have each : List.Forall₂ Json.Reads (spans.map spanText) (spans.map spanValue) := by
    rw [List.forall₂_map_left_iff, List.forall₂_map_right_iff, List.forall₂_same]
    exact fun span _ => (closed_span span).reads
  unfold vectorToString
  rw [if_neg (fun empty => absurd empty.2 Bool.false_ne_true)]
  exact Json.closed_array each

/-! ## Words in a string -/

/-- Neither a control character nor a quote, a backslash or a surrogate. -/
def IsPlainUnit (unit : Nat) : Prop :=
  0x20 ≤ unit ∧ unit ≠ 0x22 ∧ unit ≠ 0x5c ∧ (unit < 0xd800 ∨ 0xdfff < unit)

/-- A word that needs no escape sequence. -/
def IsPlainWord (word : CString) : Prop := ∀ unit ∈ utf8ToUtf16 word, IsPlainUnit unit

theorem spell_one : ∀ unit < 0x80, unit ≠ 0x22 → unit ≠ 0x5c →
    Json.spell .plain [unit.toUInt8] = if 0x20 ≤ unit then some .plain else none := by
  decide +kernel

theorem spell_two : ∀ lead < 32, 2 ≤ lead →
    Json.spell .plain [(0xc0 + lead).toUInt8] = some (.tail 0x80 0xbf 0) := by
  decide +kernel

theorem spell_last : ∀ bits < 64,
    Json.spell (.tail 0x80 0xbf 0) [(0x80 + bits).toUInt8] = some .plain := by
  decide +kernel

/-- The first two bytes of three. -/
theorem spell_three : ∀ lead < 16, ∀ bits < 64, (lead = 0 → 32 ≤ bits) →
    Json.spell .plain [(0xe0 + lead).toUInt8, (0x80 + bits).toUInt8] =
      if lead = 13 ∧ 32 ≤ bits then none else some (.tail 0x80 0xbf 0) := by
  decide +kernel

instance : DecidablePred IsPlainUnit := fun unit =>
  inferInstanceAs (Decidable (0x20 ≤ unit ∧ unit ≠ 0x22 ∧ unit ≠ 0x5c ∧ _))

/-- A unit is written as it is.  The scanner refuses what would need an escape sequence. -/
theorem spell_unitText {unit : Nat} (isUnit : IsCodeUnit unit) (notQuote : unit ≠ 0x22)
    (notBackslash : unit ≠ 0x5c) :
    Json.spell .plain (unitText unit) = if IsPlainUnit unit then some .plain else none := by
  obtain ⟨positive, most⟩ := isUnit
  have last := spell_last (unit % 64) (by omega)
  unfold unitText
  rw [if_neg (by omega)]
  split
  · rw [spell_one unit (by omega) notQuote notBackslash]
    exact if_congr (by unfold IsPlainUnit; omega) rfl rfl
  · split
    · -- Two bytes: the unit is at least 0x80.
      rw [← List.singleton_append, Json.spell_append, spell_two (unit / 64) (by omega) (by omega),
        Option.bind_some, last]
      exact (if_pos (by unfold IsPlainUnit; omega)).symm
    · -- Three bytes: the second one tells the surrogates.
      have lead := spell_three (unit / 4096) (by omega) (unit / 64 % 64) (by omega) (by omega)
      have parts : ∀ first second third : UInt8, [first, second, third] = [first, second] ++ [third] :=
        fun _ _ _ => rfl
      rw [parts, Json.spell_append, lead]
      split
      · exact (if_neg (by unfold IsPlainUnit; omega)).symm
      · rw [Option.bind_some, last]
        exact (if_pos (by unfold IsPlainUnit; omega)).symm

/-- A byte that is not part of a longer character is the unit. -/
theorem eq_of_mem_unitText {unit : Nat} {byte : UInt8} (isUnit : IsCodeUnit unit)
    (small : byte < 0x80) (member : byte ∈ unitText unit) : unit = byte.toNat := by
  obtain ⟨positive, most⟩ := isUnit
  have small : byte.toNat < 0x80 := UInt8.lt_iff_toNat_lt.mp small
  have large : ∀ value, 0x80 ≤ value → value < 0x100 → byte ≠ value.toUInt8 := by
    rintro value least most rfl
    rw [Nat.toUInt8, UInt8.toNat_ofNat'] at small
    omega
  unfold unitText at member
  rw [if_neg (by omega)] at member
  split at member
  · rw [List.mem_singleton.mp member, Nat.toUInt8, UInt8.toNat_ofNat']
    omega
  · exfalso
    split at member
    · simp only [List.mem_cons, List.not_mem_nil, or_false] at member
      rcases member with lead | last
      · exact large _ (by omega) (by omega) lead
      · exact large _ (by omega) (by omega) last
    · simp only [List.mem_cons, List.not_mem_nil, or_false] at member
      rcases member with lead | middle | last
      · exact large _ (by omega) (by omega) lead
      · exact large _ (by omega) (by omega) middle
      · exact large _ (by omega) (by omega) last

/-- The units of a word, apart from a quote or a backslash, which are words of their own. -/
def AreStringUnits (units : List Nat) : Prop :=
  ∀ unit ∈ units, IsCodeUnit unit ∧ unit ≠ 0x22 ∧ unit ≠ 0x5c

section
variable {units : List Nat} {word token : CString}

theorem quote_not_mem (areUnits : AreStringUnits units) : 0x22 ∉ units.flatMap unitText := by
  intro quote
  obtain ⟨unit, inside, here⟩ := List.mem_flatMap.mp quote
  exact (areUnits unit inside).2.1 (eq_of_mem_unitText (areUnits unit inside).1 (by decide) here)

theorem spell_units (areUnits : AreStringUnits units) :
    Json.spell .plain (units.flatMap unitText) =
      if ∀ unit ∈ units, IsPlainUnit unit then some .plain else none := by
  induction units with
  | nil => rfl
  | cons unit units inductionHypothesis =>
    obtain ⟨⟨isUnit, notQuote, notBackslash⟩, others⟩ := List.forall_mem_cons.mp areUnits
    rw [List.flatMap_cons, Json.spell_append, spell_unitText isUnit notQuote notBackslash]
    by_cases plain : IsPlainUnit unit
    · rw [if_pos plain, Option.bind_some, inductionHypothesis others]
      exact if_congr (by simp [plain]) rfl rfl
    · rw [if_neg plain]
      exact (if_neg fun all => plain (all unit (List.mem_cons_self ..))).symm

/-- A word is a quote, a backslash or neither. -/
inductive StringWord : CString → Prop where
  | quote : StringWord [0x22]
  | backslash : StringWord [0x5c]
  | units {units : List Nat} : AreStringUnits units → StringWord (units.flatMap unitText)

theorem IsToken.stringWord (isToken : IsToken token) : StringWord token := by
  obtain ⟨units, rfl, -, areUnits, ⟨unit, rfl⟩ | word⟩ := isToken
  · by_cases quote : unit = 0x22
    · subst quote
      exact .quote
    · by_cases backslash : unit = 0x5c
      · subst backslash
        exact .backslash
      · exact .units (List.forall_mem_singleton.mpr
          ⟨areUnits unit (List.mem_singleton_self unit), quote, backslash⟩)
  · refine .units fun unit inside => ⟨areUnits unit inside, ?_, ?_⟩
    · rintro rfl
      exact absurd (word _ inside) (by decide)
    · rintro rfl
      exact absurd (word _ inside) (by decide)

/-- A comma is a mark. -/
theorem comma_not_mem (isToken : IsToken token) (word : isWord token) : 0x2c ∉ token := by
  obtain ⟨units, rfl, -, areUnits, single | others⟩ := isToken
  · obtain ⟨unit, rfl⟩ := single
    intro comma
    rw [List.flatMap_singleton] at comma
    obtain rfl : unit = 0x2c :=
      eq_of_mem_unitText (areUnits unit (List.mem_singleton_self unit)) (by decide) comma
    exact absurd word (by decide)
  · intro comma
    obtain ⟨unit, inside, here⟩ := List.mem_flatMap.mp comma
    obtain rfl := eq_of_mem_unitText (areUnits unit inside) (by decide) here
    exact absurd (others _ inside) (by decide)

theorem AreStringUnits.isPlainWord_iff (areUnits : AreStringUnits units) :
    IsPlainWord (units.flatMap unitText) ↔ ∀ unit ∈ units, IsPlainUnit unit := by
  unfold IsPlainWord
  rw [utf8ToUtf16_units fun unit inside => (areUnits unit inside).1]

theorem isContent_of_isPlainWord (isWord : StringWord word) (plain : IsPlainWord word) :
    Json.IsContent word := by
  cases isWord with
  | quote => exact absurd rfl (plain 0x22 (by decide)).2.1
  | backslash => exact absurd rfl (plain 0x5c (by decide)).2.2.1
  | units areUnits =>
    refine ⟨quote_not_mem areUnits, ?_⟩
    rw [spell_units areUnits, if_pos (areUnits.isPlainWord_iff.mp plain)]

/-- The bytes of a mark need no escape sequence. -/
theorem isPlainWord_of_punctuation (isToken : IsToken token)
    (mark : timestampIsPunctuation token) : IsPlainWord token := by
  obtain ⟨units, rfl, -, areUnits, -⟩ := isToken
  unfold IsPlainWord
  rw [utf8ToUtf16_units areUnits]
  intro unit inside
  have marks : ∀ byte ∈ unitText unit, byte ∈ punctuation := by
    intro byte member
    have all := List.all_eq_true.mp mark byte (List.mem_flatMap.mpr ⟨unit, inside, member⟩)
    exact of_decide_eq_true all
  obtain ⟨positive, most⟩ := areUnits unit inside
  by_cases small : unit ≤ 0x7f
  · have text : unitText unit = [unit.toUInt8] := by
      unfold unitText
      rw [if_neg (by omega), if_pos small]
    have each : ∀ unit < 0x80, unit.toUInt8 ∈ punctuation → IsPlainUnit unit := by decide
    exact each unit (by omega) (marks _ (text ▸ List.mem_singleton_self _))
  · by_contra notPlain
    -- What is left are the surrogates, which begin with a byte of no mark.
    have lead : unit / 4096 = 13 := by
      unfold IsPlainUnit at notPlain
      omega
    have text : 0xed ∈ unitText unit := by
      unfold unitText
      rw [if_neg (by omega), if_neg small, if_neg (by omega), lead]
      exact List.mem_cons_self ..
    exact absurd (marks _ text) (by decide)

/-! ## A word that closes or breaks the string -/

theorem intercalate_cons (word : CString) (words : List CString) :
    ∃ tail, List.intercalate [0x20] (word :: words) = word ++ tail ∧
      (words = [] ∧ tail = [] ∨ words ≠ [] ∧ tail = [0x20] ++ List.intercalate [0x20] words) := by
  cases words with
  | nil => exact ⟨[], by simp [List.intercalate_singleton], .inl ⟨rfl, rfl⟩⟩
  | cons next words =>
    refine ⟨_, ?_, .inr ⟨List.cons_ne_nil _ _, rfl⟩⟩
    rw [List.intercalate_cons_cons, List.append_assoc]

/-- The text between the words of a sentence and the quote that opens its mark. -/
def beforePunc : CString := [0x22, 0x2c, 0x22] ++ bytes "punc" ++ [0x22]

variable {stack : List Json.Frame} {words : List CString}

/-- A word with a quote or a backslash, a control character or a surrogate: the text is refused
    before its mark. -/
theorem read_words_none (areWords : ∀ word ∈ words, StringWord word ∧ 0x2c ∉ word)
    (notPlain : ¬ ∀ word ∈ words, IsPlainWord word) (content more : CString) :
    Json.read ⟨stack, .string false .plain content⟩
      (List.intercalate [0x20] words ++ (beforePunc ++ more)) = none := by
  induction words generalizing content with
  | nil => exact absurd (fun word member => absurd member List.not_mem_nil) notPlain
  | cons word words inductionHypothesis =>
    obtain ⟨⟨stringWord, -⟩, others⟩ := List.forall_mem_cons.mp areWords
    obtain ⟨tail, text, ends⟩ := intercalate_cons word words
    have tailComma : 0x2c ∉ tail := by
      rcases ends with ⟨-, rfl⟩ | ⟨-, rfl⟩
      · exact List.not_mem_nil
      · intro comma
        cases List.mem_append.mp comma with
        | inl space => exact absurd space (by decide)
        | inr later =>
          rcases Text.mem_intercalate later with space | ⟨other, inside, here⟩
          · exact absurd space (by decide)
          · exact (others other inside).2 here
    rw [text, List.append_assoc, Json.read_append]
    cases stringWord with
    | quote =>
      have closed : Json.read ⟨stack, .string false .plain content⟩ [0x22] =
          some (Json.put stack (.string content)) := rfl
      rw [closed]
      exact (Json.put_isPast stack _).read_quote tailComma _
    | backslash =>
      have escaped : Json.read ⟨stack, .string false .plain content⟩ [0x5c] =
          some ⟨stack, .string false .escape (content ++ [0x5c])⟩ := rfl
      rw [escaped, Option.bind_some]
      rcases ends with ⟨-, rfl⟩ | ⟨-, rfl⟩
      · -- The quote behind the words is escaped, and the next one closes the string.
        have closed : Json.read ⟨stack, .string false .escape (content ++ [0x5c])⟩
            [0x22, 0x2c, 0x22] =
              some (Json.put stack (.string (content ++ [0x5c] ++ [0x22] ++ [0x2c]))) := rfl
        unfold beforePunc
        rw [List.nil_append, List.append_assoc, List.append_assoc, Json.read_append, closed]
        exact (Json.put_isPast stack _).read_quote (by decide) _
      · -- A space cannot be escaped.
        rw [List.append_assoc, Json.read_append]
        rfl
    | units areUnits =>
      rename_i units
      rw [Json.read_unquoted _ _ _ (quote_not_mem areUnits), spell_units areUnits]
      by_cases plain : ∀ unit ∈ units, IsPlainUnit unit
      · rw [if_pos plain, Option.map_some, Option.bind_some]
        rcases ends with ⟨rfl, -⟩ | ⟨more, rfl⟩
        · exact absurd (List.forall_mem_singleton.mpr (areUnits.isPlainWord_iff.mpr plain)) notPlain
        · rw [List.append_assoc, Json.read_append]
          refine inductionHypothesis others (fun rest => notPlain ?_) _
          exact List.forall_mem_cons.mpr ⟨areUnits.isPlainWord_iff.mpr plain, rest⟩
      · rw [if_neg plain]
        rfl

end

end Asr2Pass.Timestamps
