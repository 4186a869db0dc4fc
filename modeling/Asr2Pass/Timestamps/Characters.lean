import Asr2Pass.Text.Strings

/-! # Characters of a text

`TimestampSplitChiEngCharacters` cuts a text into Chinese characters, digits, punctuation marks and
the words between them.
-/

namespace Asr2Pass.Timestamps

open Text (CString bytes)

/-! ## UTF-16 -/

/-- The unit of three bytes; none where they are not an encoding. -/
def threeByteUnit (byte byte' byte'' : UInt8) : Option Nat :=
  let unit := (byte &&& 0x0f).toNat * 4096 + (byte' &&& 0x3f).toNat * 64 + (byte'' &&& 0x3f).toNat
  if byte' &&& 0xc0 = 0x80 ∧ byte'' &&& 0xc0 = 0x80 ∧ 0x800 ≤ unit then some unit else none

def twoByteUnit (byte byte' : UInt8) : Option Nat :=
  let unit := (byte &&& 0x1f).toNat * 64 + (byte' &&& 0x3f).toNat
  if byte' &&& 0xc0 = 0x80 ∧ 0x80 ≤ unit ∧ unit ≤ 0x7ff then some unit else none

/-- The unit of a single byte; 0 where it is not an encoding. -/
def oneByteUnit (byte : UInt8) : Nat := if byte &&& 0x80 = 0 then byte.toNat else 0

/-- `Utf8ToUtf16`. -/
def utf8ToUtf16 : CString → List Nat
  | byte :: byte' :: byte'' :: rest =>
    if byte &&& 0xf0 = 0xe0 then
      match threeByteUnit byte byte' byte'' with
      | some unit => unit :: utf8ToUtf16 rest
      | none => 0 :: utf8ToUtf16 (byte' :: byte'' :: rest)
    else if byte &&& 0xe0 = 0xc0 then
      match twoByteUnit byte byte' with
      | some unit => unit :: utf8ToUtf16 (byte'' :: rest)
      | none => 0 :: utf8ToUtf16 (byte' :: byte'' :: rest)
    else oneByteUnit byte :: utf8ToUtf16 (byte' :: byte'' :: rest)
  | [byte, byte'] =>
    if byte &&& 0xe0 = 0xc0 then
      match twoByteUnit byte byte' with
      | some unit => [unit]
      | none => 0 :: utf8ToUtf16 [byte']
    else oneByteUnit byte :: utf8ToUtf16 [byte']
  | [byte] => [oneByteUnit byte]
  | [] => []

/-- `Utf16ToUtf8`, then the result as a `const char*`, which ends at a zero. -/
def unitText (unit : Nat) : CString :=
  if unit = 0 then []
  else if unit ≤ 0x7f then [unit.toUInt8]
  else if unit ≤ 0x7ff then [(0xc0 + unit / 64).toUInt8, (0x80 + unit % 64).toUInt8]
  else [(0xe0 + unit / 4096).toUInt8, (0x80 + unit / 64 % 64).toUInt8, (0x80 + unit % 64).toUInt8]

/-! ## Characters -/

def isChineseCharacter (unit : Nat) : Bool :=
  (0x4e00 ≤ unit && unit ≤ 0x9fff) || (0x3400 ≤ unit && unit ≤ 0x4dff)

def timestampIsDigit (unit : Nat) : Bool := 48 ≤ unit && unit ≤ 57

/-- `TimestampIsPunctuation` of a character: not `&`, `'` and `-`, which are in the dictionary. -/
def unitIsPunctuation (unit : Nat) : Bool :=
  if unit = 0x26 ∨ unit = 0x27 ∨ unit = 0x2d then false
  else
    (0x21 ≤ unit && unit ≤ 0x2f) || (0x3a ≤ unit && unit ≤ 0x40) || (0x5b ≤ unit && unit ≤ 0x60) ||
      (0x7b ≤ unit && unit ≤ 0x7e) || (0x2000 ≤ unit && unit ≤ 0x206f) ||
      (0x3000 ≤ unit && unit ≤ 0x303f)

/-- The word before a character that stands alone. -/
def flushWord (engWord : CString) : List CString := if engWord = [] then [] else [engWord]

/-- The loop over the units. -/
def splitUnits (engWord : CString) : List Nat → List CString
  | [] => flushWord engWord
  | unit :: units =>
    if isChineseCharacter unit || timestampIsDigit unit || unitIsPunctuation unit then
      flushWord engWord ++ unitText unit :: splitUnits [] units
    else if unit = 0x20 then flushWord engWord ++ splitUnits [] units
    else splitUnits (engWord ++ unitText unit) units

/-- `TimestampSplitChiEngCharacters`. -/
def timestampSplitChiEngCharacters (inputStr : CString) : List CString :=
  splitUnits [] (utf8ToUtf16 inputStr)

/-- The bytes of the marks that a token is compared with. -/
def punctuation : CString := bytes "，。？、,?"

/-- `TimestampIsPunctuation` of a token: all of its bytes are bytes of a mark. -/
def timestampIsPunctuation (str : CString) : Bool := str.all (· ∈ punctuation)

/-! ## The units of a token -/

/-- A unit that has a text. -/
def IsCodeUnit (unit : Nat) : Prop := 0 < unit ∧ unit ≤ 0xffff

theorem continuation_bits : ∀ bits < 64,
    (0x80 + bits).toUInt8 &&& 0xc0 = 0x80 ∧ ((0x80 + bits).toUInt8 &&& 0x3f).toNat = bits := by
  decide

theorem threeByteLead_bits : ∀ bits < 16,
    (0xe0 + bits).toUInt8 &&& 0xf0 = 0xe0 ∧ ((0xe0 + bits).toUInt8 &&& 0x0f).toNat = bits := by
  decide

theorem twoByteLead_bits : ∀ bits < 32,
    (0xc0 + bits).toUInt8 &&& 0xf0 ≠ 0xe0 ∧ (0xc0 + bits).toUInt8 &&& 0xe0 = 0xc0 ∧
      ((0xc0 + bits).toUInt8 &&& 0x1f).toNat = bits := by
  decide

theorem oneByte_bits : ∀ unit < 128,
    unit.toUInt8 &&& 0xf0 ≠ 0xe0 ∧ unit.toUInt8 &&& 0xe0 ≠ 0xc0 ∧ oneByteUnit unit.toUInt8 = unit := by
  decide

theorem utf8ToUtf16_one {byte : UInt8} (notThree : byte &&& 0xf0 ≠ 0xe0)
    (notTwo : byte &&& 0xe0 ≠ 0xc0) (rest : CString) :
    utf8ToUtf16 (byte :: rest) = oneByteUnit byte :: utf8ToUtf16 rest := by
  match rest with
  | [] => rfl
  | [byte'] => simp [utf8ToUtf16, notTwo]
  | byte' :: byte'' :: rest => simp [utf8ToUtf16, notThree, notTwo]

theorem utf8ToUtf16_two {byte byte' : UInt8} {unit : Nat} (notThree : byte &&& 0xf0 ≠ 0xe0)
    (two : byte &&& 0xe0 = 0xc0) (decoded : twoByteUnit byte byte' = some unit) (rest : CString) :
    utf8ToUtf16 (byte :: byte' :: rest) = unit :: utf8ToUtf16 rest := by
  cases rest with
  | nil => simp [utf8ToUtf16, two, decoded]
  | cons byte'' rest => simp [utf8ToUtf16, notThree, two, decoded]

theorem utf8ToUtf16_three {byte byte' byte'' : UInt8} {unit : Nat} (three : byte &&& 0xf0 = 0xe0)
    (decoded : threeByteUnit byte byte' byte'' = some unit) (rest : CString) :
    utf8ToUtf16 (byte :: byte' :: byte'' :: rest) = unit :: utf8ToUtf16 rest := by
  simp [utf8ToUtf16, three, decoded]

/-- What a unit spells is read as the unit. -/
theorem utf8ToUtf16_unitText {unit : Nat} (isUnit : IsCodeUnit unit) (rest : CString) :
    utf8ToUtf16 (unitText unit ++ rest) = unit :: utf8ToUtf16 rest := by
  obtain ⟨positive, most⟩ := isUnit
  have last := continuation_bits (unit % 64) (by omega)
  unfold unitText
  rw [if_neg (by omega)]
  split
  · obtain ⟨notThree, notTwo, same⟩ := oneByte_bits unit (by omega)
    exact (utf8ToUtf16_one notThree notTwo rest).trans (by rw [same])
  · split
    · obtain ⟨notThree, two, bits⟩ := twoByteLead_bits (unit / 64) (by omega)
      have whole : unit / 64 * 64 + unit % 64 = unit := by omega
      refine utf8ToUtf16_two notThree two ?_ rest
      unfold twoByteUnit
      dsimp only
      rw [bits, last.2, whole, if_pos ⟨last.1, by omega, by omega⟩]
    · obtain ⟨three, bits⟩ := threeByteLead_bits (unit / 4096) (by omega)
      have middle := continuation_bits (unit / 64 % 64) (by omega)
      have whole : unit / 4096 * 4096 + unit / 64 % 64 * 64 + unit % 64 = unit := by omega
      refine utf8ToUtf16_three three ?_ rest
      unfold threeByteUnit
      dsimp only
      rw [bits, middle.2, last.2, whole, if_pos ⟨middle.1, last.1, by omega⟩]

theorem utf8ToUtf16_units {units : List Nat} (areUnits : ∀ unit ∈ units, IsCodeUnit unit) :
    utf8ToUtf16 (units.flatMap unitText) = units := by
  induction units with
  | nil => rfl
  | cons unit units inductionHypothesis =>
    obtain ⟨isUnit, others⟩ := List.forall_mem_cons.mp areUnits
    rw [List.flatMap_cons, utf8ToUtf16_unitText isUnit, inductionHypothesis others]

theorem and_toNat_le (byte mask : UInt8) : (byte &&& mask).toNat ≤ mask.toNat := by
  rw [UInt8.toNat_and]
  exact Nat.and_le_right

theorem threeByteUnit_le {byte byte' byte'' : UInt8} {unit : Nat}
    (decoded : threeByteUnit byte byte' byte'' = some unit) : unit ≤ 0xffff := by
  have lead := and_toNat_le byte 0x0f
  have middle := and_toNat_le byte' 0x3f
  have last := and_toNat_le byte'' 0x3f
  rw [← Option.some.inj (Option.ite_none_right_eq_some.mp decoded).2]
  simp only [UInt8.reduceToNat] at lead middle last
  omega

theorem twoByteUnit_le {byte byte' : UInt8} {unit : Nat}
    (decoded : twoByteUnit byte byte' = some unit) : unit ≤ 0xffff := by
  have range := (Option.ite_none_right_eq_some.mp decoded).1.2.2
  rw [← Option.some.inj (Option.ite_none_right_eq_some.mp decoded).2]
  omega

theorem oneByteUnit_le (byte : UInt8) : oneByteUnit byte ≤ 0xffff := by
  have small := byte.toNat_lt
  unfold oneByteUnit
  split <;> omega

/-- Every unit of a text has at most 16 bits. -/
theorem le_of_mem_utf8ToUtf16 (inputStr : CString) : ∀ unit ∈ utf8ToUtf16 inputStr, unit ≤ 0xffff := by
  fun_induction utf8ToUtf16 inputStr with
  | case1 _ _ _ _ _ _ decoded others =>
    exact List.forall_mem_cons.mpr ⟨threeByteUnit_le decoded, others⟩
  | case2 _ _ _ _ _ _ others => exact List.forall_mem_cons.mpr ⟨Nat.zero_le _, others⟩
  | case3 _ _ _ _ _ _ _ decoded others =>
    exact List.forall_mem_cons.mpr ⟨twoByteUnit_le decoded, others⟩
  | case4 _ _ _ _ _ _ _ others => exact List.forall_mem_cons.mpr ⟨Nat.zero_le _, others⟩
  | case5 _ _ _ _ _ _ others => exact List.forall_mem_cons.mpr ⟨oneByteUnit_le _, others⟩
  | case6 _ _ _ _ decoded => exact List.forall_mem_singleton.mpr (twoByteUnit_le decoded)
  | case7 _ _ _ _ others => exact List.forall_mem_cons.mpr ⟨Nat.zero_le _, others⟩
  | case8 _ _ _ others => exact List.forall_mem_cons.mpr ⟨oneByteUnit_le _, others⟩
  | case9 => exact List.forall_mem_singleton.mpr (oneByteUnit_le _)
  | case10 => exact fun unit member => absurd member List.not_mem_nil

/-- The units of a token: one that stands alone, or a word's. -/
def IsToken (token : CString) : Prop :=
  ∃ units, token = units.flatMap unitText ∧ units ≠ [] ∧ (∀ unit ∈ units, IsCodeUnit unit) ∧
    ((∃ unit, units = [unit]) ∨ ∀ unit ∈ units, unitIsPunctuation unit = false)

theorem unitText_ne_nil {unit : Nat} (isUnit : IsCodeUnit unit) : unitText unit ≠ [] := by
  unfold unitText
  rw [if_neg (Nat.ne_of_gt isUnit.1)]
  split
  · exact List.cons_ne_nil _ _
  · split <;> exact List.cons_ne_nil _ _

theorem IsToken.ne_nil {token : CString} (isToken : IsToken token) : token ≠ [] := by
  obtain ⟨units, rfl, some, areUnits, -⟩ := isToken
  obtain ⟨unit, units, rfl⟩ := List.exists_cons_of_ne_nil some
  intro empty
  rw [List.flatMap_cons] at empty
  exact unitText_ne_nil (areUnits unit (List.mem_cons_self ..)) (List.append_eq_nil_iff.mp empty).1

/-- The units of a word that is not complete yet. -/
def AreWordUnits (units : List Nat) : Prop :=
  ∀ unit ∈ units, IsCodeUnit unit ∧ unitIsPunctuation unit = false

theorem isToken_of_mem_flushWord {units : List Nat} {token : CString} (areUnits : AreWordUnits units)
    (member : token ∈ flushWord (units.flatMap unitText)) : IsToken token := by
  unfold flushWord at member
  split at member
  · cases member
  · rename_i nonempty
    refine ⟨units, List.mem_singleton.mp member, ?_, fun unit inside => (areUnits unit inside).1,
      .inr fun unit inside => (areUnits unit inside).2⟩
    rintro rfl
    exact nonempty rfl

theorem isToken_of_mem_splitUnits {units inputUnits : List Nat} {token : CString}
    (areUnits : AreWordUnits units) (bounded : ∀ unit ∈ inputUnits, unit ≤ 0xffff)
    (member : token ∈ splitUnits (units.flatMap unitText) inputUnits) : IsToken token := by
  induction inputUnits generalizing units with
  | nil => exact isToken_of_mem_flushWord areUnits member
  | cons unit inputUnits inductionHypothesis =>
    obtain ⟨most, others⟩ := List.forall_mem_cons.mp bounded
    have again : token ∈ splitUnits [] inputUnits → IsToken token :=
      @inductionHypothesis [] (fun unit member => absurd member List.not_mem_nil) others
    unfold splitUnits at member
    split at member
    · rename_i alone
      rcases List.mem_append.mp member with first | rest
      · exact isToken_of_mem_flushWord areUnits first
      · rcases List.mem_cons.mp rest with rfl | rest
        · have positive : unit ≠ 0 := by
            rintro rfl
            cases alone
          refine ⟨[unit], (List.flatMap_singleton ..).symm, List.cons_ne_nil _ _,
            List.forall_mem_singleton.mpr ⟨Nat.pos_of_ne_zero positive, most⟩, .inl ⟨unit, rfl⟩⟩
        · exact again rest
    · rename_i notAlone
      split at member
      · rcases List.mem_append.mp member with first | rest
        · exact isToken_of_mem_flushWord areUnits first
        · exact again rest
      · by_cases zero : unit = 0
        · -- A zero ends the text of the unit before its first byte.
          rw [zero, show unitText 0 = [] from rfl, List.append_nil] at member
          exact inductionHypothesis areUnits others member
        · rw [← List.flatMap_singleton unitText unit, ← List.flatMap_append] at member
          refine inductionHypothesis ?_ others member
          intro unit' inside
          cases List.mem_append.mp inside with
          | inl old => exact areUnits unit' old
          | inr new =>
            rw [List.mem_singleton.mp new]
            simp only [Bool.or_eq_true, not_or, Bool.not_eq_true] at notAlone
            exact ⟨⟨Nat.pos_of_ne_zero zero, most⟩, notAlone.2⟩

theorem isToken_of_mem {inputStr token : CString}
    (member : token ∈ timestampSplitChiEngCharacters inputStr) : IsToken token :=
  @isToken_of_mem_splitUnits [] _ _ (fun _ member => absurd member List.not_mem_nil)
    (le_of_mem_utf8ToUtf16 inputStr) member

end Asr2Pass.Timestamps
