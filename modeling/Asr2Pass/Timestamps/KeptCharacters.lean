import Asr2Pass.Hotwords.Lexicon
import Asr2Pass.Text.Utf8
import Asr2Pass.Timestamps.EncodeConverter

/-! # What the splitters keep

`TimestampSplitChiEngCharacters` and `SplitChiEngCharacters` go through units of 16 bits.  The four
bytes of a character beyond them are four units 0, whose texts are empty.
-/

namespace Asr2Pass.Timestamps

open EncodeConverter (castInt unitToUtf8 unitToUtf8_eq)
open Text (CString encode)

/-- `TimestampSplitChiEngCharacters` with its sizes as `int`. -/
def intTimestampSplitChiEngCharacters (inputStr : CString) : Option (List CString) :=
  (EncodeConverter.utf8ToUtf16 inputStr).map fun pu16 => splitUnits [] (pu16.map UInt16.toNat)

/-- `SplitChiEngCharacters` with its sizes as `int`. -/
def intSplitChiEngCharacters (inputStr : CString) : Option (List CString) :=
  (EncodeConverter.utf8ToUtf16 inputStr).map fun pu16 =>
    Hotwords.splitChiEngUnits [] (pu16.map UInt16.toNat)

/-- The pieces make up the text of the characters but for spaces. -/
def Keeps (split : CString → Option (List CString)) (chars : List Char) : Prop :=
  ∃ characters, split (encode chars) = some characters ∧
    characters.flatten = (encode chars).filter (· ≠ 0x20)

/-! ## Pieces -/

theorem flatten_flushWord (engWord : CString) : (flushWord engWord).flatten = engWord := by
  unfold flushWord
  split
  next empty => simp [empty]
  next => simp

/-- The loop over the units, with the units that stand alone. -/
def splitAlone (alone : Nat → Bool) (engWord : CString) : List Nat → List CString
  | [] => flushWord engWord
  | unit :: units =>
    if alone unit then flushWord engWord ++ unitText unit :: splitAlone alone [] units
    else if unit = 0x20 then flushWord engWord ++ splitAlone alone [] units
    else splitAlone alone (engWord ++ unitText unit) units

def timestampAlone (unit : Nat) : Bool :=
  isChineseCharacter unit || timestampIsDigit unit || unitIsPunctuation unit

theorem splitUnits_eq (engWord : CString) (units : List Nat) :
    splitUnits engWord units = splitAlone timestampAlone engWord units := by
  induction units generalizing engWord with
  | nil => rfl
  | cons unit units inductionHypothesis =>
    simp only [splitUnits, splitAlone, timestampAlone, inductionHypothesis]
    rfl

theorem splitChiEngUnits_eq (engWord : CString) (units : List Nat) :
    Hotwords.splitChiEngUnits engWord units = splitAlone isChineseCharacter engWord units := by
  induction units generalizing engWord with
  | nil => rfl
  | cons unit units inductionHypothesis =>
    simp only [Hotwords.splitChiEngUnits, splitAlone, inductionHypothesis]

/-- What the units spell, but for spaces. -/
def unitsText (units : List Nat) : CString := (units.filter (· ≠ 0x20)).flatMap unitText

theorem flatten_splitAlone {alone : Nat → Bool} (space : alone 0x20 = false) (engWord : CString)
    (units : List Nat) : (splitAlone alone engWord units).flatten = engWord ++ unitsText units := by
  induction units generalizing engWord with
  | nil => simp [splitAlone, flatten_flushWord, unitsText]
  | cons unit units inductionHypothesis =>
    rw [splitAlone]
    split
    next isAlone =>
      have notSpace : unit ≠ 0x20 := by
        rintro rfl
        simp [space] at isAlone
      simp [flatten_flushWord, inductionHypothesis, unitsText, notSpace]
    next =>
      by_cases isSpace : unit = 0x20
      · simp [isSpace, flatten_flushWord, inductionHypothesis, unitsText]
      · simp [isSpace, inductionHypothesis, unitsText]

/-! ## Characters and units -/

/-- The unit of a character of the basic plane. -/
def charUnit (char : Char) : UInt16 := UInt16.ofNat char.toNat

theorem toNat_charUnit {char : Char} (basic : char.toNat ≤ 0xffff) :
    (charUnit char).toNat = char.toNat := by
  rw [charUnit, UInt16.toNat_ofNat']
  omega

theorem unitToUtf8_charUnit {char : Char} (basic : char.toNat ≤ 0xffff) :
    unitToUtf8 (charUnit char) = String.utf8EncodeChar char := by
  apply List.map_injective_iff.mpr fun _ _ => UInt8.toNat_inj.mp
  have isCode : char.val.toNat = char.toNat := rfl
  rw [unitToUtf8_eq, toNat_charUnit basic]
  fun_cases String.utf8EncodeChar char with
  | case1 code one =>
    rw [if_pos (by omega)]
    simp [code]
    omega
  | case2 code _ two =>
    rw [if_neg (by omega), if_pos (by omega)]
    simp [code]
    omega
  | case3 code _ _ three =>
    rw [if_neg (by omega), if_neg (by omega)]
    simp [code]
    omega
  | case4 code _ _ large => omega

theorem unitText_eq {pu16 : UInt16} (nonzero : pu16.toNat ≠ 0) :
    unitText pu16.toNat = unitToUtf8 pu16 := by
  apply List.map_injective_iff.mpr fun _ _ => UInt8.toNat_inj.mp
  have bound := pu16.toNat_lt
  rw [unitToUtf8_eq, unitText, if_neg nonzero]
  split
  · simp [Nat.toUInt8]
    omega
  · split
    · simp [Nat.toUInt8]
      omega
    · simp [Nat.toUInt8]
      omega

/-- No unit has a first byte of four. -/
theorem lt_of_mem_unitText {pu16 : UInt16} {byte : UInt8} (member : byte ∈ unitText pu16.toNat) :
    byte.toNat < 0xf0 := by
  by_cases nonzero : pu16.toNat = 0
  · simp [unitText, nonzero] at member
  · have bound := pu16.toNat_lt
    rw [unitText_eq nonzero] at member
    have isByte : byte.toNat ∈ (unitToUtf8 pu16).map UInt8.toNat := List.mem_map_of_mem member
    rw [unitToUtf8_eq] at isByte
    split at isByte
    · simp only [List.mem_singleton] at isByte
      omega
    · split at isByte
      · simp only [List.mem_cons, List.not_mem_nil, or_false] at isByte
        omega
      · simp only [List.mem_cons, List.not_mem_nil, or_false] at isByte
        omega

/-- The first byte of four. -/
theorem exists_lead {char : Char} (large : 0xffff < char.toNat) :
    ∃ byte ∈ String.utf8EncodeChar char, 0xf0 ≤ byte.toNat := by
  have isCode : char.val.toNat = char.toNat := rfl
  fun_cases String.utf8EncodeChar char with
  | case1 code one => omega
  | case2 code _ two => omega
  | case3 code _ _ three => omega
  | case4 code =>
    refine ⟨_, List.mem_cons_self, ?_⟩
    simp
    omega

/-- Only a space has the byte of a space. -/
theorem space_mem_utf8EncodeChar {char : Char} :
    0x20 ∈ String.utf8EncodeChar char ↔ char = ' ' := by
  constructor
  · intro member
    have isCode : char.val.toNat = char.toNat := rfl
    apply Char.toNat_inj.mp
    revert member
    fun_cases String.utf8EncodeChar char with
    | case1 code one =>
      simp [← UInt8.toNat_inj]
      omega
    | case2 code _ two =>
      simp [← UInt8.toNat_inj]
      omega
    | case3 code _ _ three =>
      simp [← UInt8.toNat_inj]
      omega
    | case4 code =>
      simp [← UInt8.toNat_inj]
      omega
  · rintro rfl
    decide

/-! ## Texts -/

/-- The bytes of the characters but for spaces. -/
def unspaced (chars : List Char) : CString := (encode chars).filter (· ≠ 0x20)

theorem unspaced_append (chars chars' : List Char) :
    unspaced (chars ++ chars') = unspaced chars ++ unspaced chars' := by
  simp [unspaced, encode]

theorem unspaced_space : unspaced [' '] = [] := by decide

theorem unspaced_singleton {char : Char} (notSpace : char ≠ ' ') :
    unspaced [char] = String.utf8EncodeChar char := by
  simp only [unspaced, encode, List.flatMap_singleton]
  refine List.filter_eq_self.mpr fun byte member => ?_
  simp only [decide_eq_true_eq]
  rintro rfl
  exact notSpace (space_mem_utf8EncodeChar.mp member)

theorem unspaced_eq_nil_iff {chars : List Char} : unspaced chars = [] ↔ ∀ char ∈ chars, char = ' ' := by
  induction chars with
  | nil => simp [unspaced, encode]
  | cons char chars inductionHypothesis =>
    rw [← List.singleton_append, unspaced_append, List.append_eq_nil_iff, inductionHypothesis,
      List.singleton_append, List.forall_mem_cons]
    refine and_congr_left fun _ => ⟨fun nothing => ?_, fun isSpace => by rw [isSpace, unspaced_space]⟩
    by_contra notSpace
    rw [unspaced_singleton notSpace] at nothing
    exact String.utf8EncodeChar_ne_nil nothing

/-- The units of characters of the basic plane spell these. -/
theorem unitsText_map {chars : List Char} (nulFree : '\x00' ∉ chars)
    (basic : ∀ char ∈ chars, char.toNat ≤ 0xffff) :
    unitsText ((chars.map charUnit).map UInt16.toNat) = unspaced chars := by
  induction chars with
  | nil => rfl
  | cons char chars inductionHypothesis =>
    obtain ⟨isBasic, areBasic⟩ := List.forall_mem_cons.mp basic
    have rest := inductionHypothesis (fun nul => nulFree (List.mem_cons_of_mem _ nul)) areBasic
    have value := toNat_charUnit isBasic
    rw [← List.singleton_append, unspaced_append, ← rest]
    by_cases isSpace : char = ' '
    · subst isSpace
      rw [unspaced_space]
      rfl
    · have notNul : char ≠ '\x00' := fun nul => nulFree (nul ▸ List.mem_cons_self)
      have nonzero : (charUnit char).toNat ≠ 0 := fun zero =>
        notNul (Char.toNat_inj.mp (value.symm.trans zero))
      have notSpace : (charUnit char).toNat ≠ 0x20 := fun space =>
        isSpace (Char.toNat_inj.mp (value.symm.trans space))
      simp [unitsText, notSpace, unspaced_singleton isSpace, unitText_eq nonzero,
        unitToUtf8_charUnit isBasic]

theorem encode_eq {chars : List Char} (basic : ∀ char ∈ chars, char.toNat ≤ 0xffff) :
    encode chars = (chars.map charUnit).flatMap unitToUtf8 := by
  rw [encode, List.flatMap_map]
  exact List.flatMap_congr fun char member => (unitToUtf8_charUnit (basic char member)).symm

/-! ## What is kept -/

/-- What either of the two makes of a text is the text of its units. -/
theorem keeps_iff_unitsText {alone : Nat → Bool} (space : alone 0x20 = false)
    {split : CString → Option (List CString)}
    (splits : ∀ inputStr, split inputStr = (EncodeConverter.utf8ToUtf16 inputStr).map fun pu16 =>
      splitAlone alone [] (pu16.map UInt16.toNat)) {chars : List Char} {pu16 : List UInt16}
    (read : EncodeConverter.utf8ToUtf16 (encode chars) = some pu16) :
    Keeps split chars ↔ unitsText (pu16.map UInt16.toNat) = unspaced chars := by
  simp [Keeps, splits, read, flatten_splitAlone space, unspaced]

/-- The characters that a buffer of the size of the text, as an `int`, has units for. -/
def room (chars : List Char) : Nat := (castInt ((encode chars).length + 1)).toNat

/-- All characters are in the basic plane, and behind those that there is room for are only spaces. -/
def FitsUnits (chars : List Char) : Prop :=
  (∀ char ∈ chars, char.toNat ≤ 0xffff) ∧ ∀ char ∈ chars.drop (room chars), char = ' '

theorem length_le_encode (chars : List Char) : chars.length ≤ (encode chars).length := by
  induction chars with
  | nil => simp
  | cons char chars inductionHypothesis =>
    have some' := List.length_pos_iff.mpr (@String.utf8EncodeChar_ne_nil char)
    simp only [encode, List.flatMap_cons, List.length_append, List.length_cons] at inductionHypothesis ⊢
    omega

/-- In a text whose size is an `int` there is room for all. -/
theorem fitsUnits_iff_basic {chars : List Char} (isInt : (encode chars).length + 1 < 2 ^ 31) :
    FitsUnits chars ↔ ∀ char ∈ chars, char.toNat ≤ 0xffff := by
  have least := length_le_encode chars
  have all : chars.drop (room chars) = [] := by
    rw [room, EncodeConverter.castInt_of_lt isInt]
    exact List.drop_eq_nil_of_le (by omega)
  simp [FitsUnits, all]

theorem unitsText_iff_fitsUnits {chars : List Char} (nulFree : '\x00' ∉ chars) {pu16 : List UInt16}
    (read : EncodeConverter.utf8ToUtf16 (encode chars) = some pu16) :
    unitsText (pu16.map UInt16.toNat) = unspaced chars ↔ FitsUnits chars := by
  by_cases basic : ∀ char ∈ chars, char.toNat ≤ 0xffff
  · have units := EncodeConverter.utf8ToUtf16_units (chars.map charUnit)
    rw [← encode_eq basic, read, ← List.map_take, ← room, Option.some.injEq] at units
    rw [units, unitsText_map (fun nul => nulFree (List.mem_of_mem_take nul))
      fun char member => basic char (List.mem_of_mem_take member)]
    have parts := unspaced_append (chars.take (room chars)) (chars.drop (room chars))
    rw [List.take_append_drop] at parts
    rw [parts, List.self_eq_append_right, unspaced_eq_nil_iff]
    exact (and_iff_right basic).symm
  · refine iff_of_false (fun same => basic fun char member => ?_) fun fits => basic fits.1
    by_contra large
    obtain ⟨byte, isByte, lead⟩ := exists_lead (Nat.lt_of_not_le large)
    have inText : byte ∈ unspaced chars := by
      refine List.mem_filter.mpr ⟨List.mem_flatMap.mpr ⟨char, member, isByte⟩, ?_⟩
      have notSpace : byte ≠ 0x20 := by
        rintro rfl
        exact absurd lead (by decide)
      simpa using notSpace
    rw [← same] at inText
    obtain ⟨unit, isUnit, here⟩ := List.mem_flatMap.mp inText
    obtain ⟨pu16, -, rfl⟩ := List.mem_map.mp (List.mem_of_mem_filter isUnit)
    have := lt_of_mem_unitText here
    omega

/-- Characters are kept exactly where all are in the basic plane and the size of the buffer does not
    cut any off but spaces. -/
theorem keeps_iff (chars : List Char) (nulFree : '\x00' ∉ chars) :
    (Keeps intTimestampSplitChiEngCharacters chars ↔ FitsUnits chars) ∧
      (Keeps intSplitChiEngCharacters chars ↔ FitsUnits chars) := by
  obtain ⟨pu16, read, -⟩ := EncodeConverter.exists_utf8ToUtf16Loop ((encode chars).length + 1) []
    (encode chars) (Nat.le_refl _)
  have fits := unitsText_iff_fitsUnits nulFree read
  constructor
  · have space : timestampAlone 0x20 = false := by decide
    refine (keeps_iff_unitsText space (fun inputStr => ?_) read).trans fits
    simp only [intTimestampSplitChiEngCharacters, splitUnits_eq]
  · have space : isChineseCharacter 0x20 = false := by decide
    refine (keeps_iff_unitsText space (fun inputStr => ?_) read).trans fits
    simp only [intSplitChiEngCharacters, splitChiEngUnits_eq]

/-- A word and a character of the basic plane. -/
theorem keeps_iff_word :
    '\x00' ∉ ['a', ' ', '中'] ∧
      (Keeps intTimestampSplitChiEngCharacters ['a', ' ', '中'] ↔ FitsUnits ['a', ' ', '中']) ∧
      (Keeps intSplitChiEngCharacters ['a', ' ', '中'] ↔ FitsUnits ['a', ' ', '中']) :=
  ⟨by decide, keeps_iff _ (by decide)⟩

/-- Nothing is left of a character beyond the basic plane. -/
theorem not_keeps_beyond :
    '\x00' ∉ ['𠀀'] ∧ ¬ Keeps intTimestampSplitChiEngCharacters ['𠀀'] ∧
      ¬ Keeps intSplitChiEngCharacters ['𠀀'] := by
  have lost : intTimestampSplitChiEngCharacters (encode ['𠀀']) = some [] := by decide +kernel
  have lost' : intSplitChiEngCharacters (encode ['𠀀']) = some [] := by decide +kernel
  have some' : (encode ['𠀀']).filter (· ≠ 0x20) ≠ [] := by decide
  refine ⟨by decide, ?_, ?_⟩
  · rintro ⟨characters, same, text⟩
    cases lost.symm.trans same
    exact some' text.symm
  · rintro ⟨characters, same, text⟩
    cases lost'.symm.trans same
    exact some' text.symm

/-! ## Sizes that are an `int` -/

/-- On a text whose size is an `int` these are the characters that the timestamps are given to. -/
theorem intTimestampSplitChiEngCharacters_eq {inputStr : CString} (isInt : inputStr.length + 1 < 2 ^ 31) :
    intTimestampSplitChiEngCharacters inputStr = some (timestampSplitChiEngCharacters inputStr) := by
  have units := EncodeConverter.utf8ToUtf16_characters isInt
  obtain ⟨pu16, read, same⟩ := Option.map_eq_some_iff.mp units
  simp [intTimestampSplitChiEngCharacters, timestampSplitChiEngCharacters, read, same]

theorem intSplitChiEngCharacters_eq {inputStr : CString} (isInt : inputStr.length + 1 < 2 ^ 31) :
    intSplitChiEngCharacters inputStr = some (Hotwords.splitChiEngCharacters inputStr) := by
  have units := EncodeConverter.utf8ToUtf16_characters isInt
  obtain ⟨pu16, read, same⟩ := Option.map_eq_some_iff.mp units
  simp [intSplitChiEngCharacters, Hotwords.splitChiEngCharacters, read, same]

end Asr2Pass.Timestamps
