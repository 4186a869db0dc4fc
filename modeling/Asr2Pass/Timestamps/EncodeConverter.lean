import Asr2Pass.Timestamps.Characters
import Mathlib.Algebra.Group.Int.Defs
import Mathlib.Algebra.Group.Nat.Defs
import Mathlib.Data.List.Flatten
import Mathlib.Order.Basic

/-! # `EncodeConverter` between strings of bytes and of 16-bit units

The bits are packed unit by unit.  The loops over a string compare its sizes as `int`, so they break
off when the size of a buffer is not one.
-/

namespace Asr2Pass.Timestamps.EncodeConverter

open Text (CString)

/-- `static_cast<int>` of a `size_t`. -/
def castInt (size : Nat) : Int := (size : Int).bmod (2 ^ 32)

/-! ## `Utf16ToUtf8` -/

/-- The bytes of one unit. -/
def unitToUtf8 (pu16 : UInt16) : CString :=
  if pu16 ≤ 0x007F then [(pu16 &&& 0x7F).toUInt8]
  else if pu16 ≥ 0x0080 ∧ pu16 ≤ 0x07FF then
    [((0xC0 : UInt16) ||| ((pu16 >>> 6) &&& 0x001F)).toUInt8,
      ((0x80 : UInt16) ||| (pu16 &&& 0x003F)).toUInt8]
  else if pu16 ≥ 0x0800 then
    [((0xE0 : UInt16) ||| ((pu16 >>> 12) &&& 0x000F)).toUInt8,
      ((0x80 : UInt16) ||| ((pu16 >>> 6) &&& 0x003F)).toUInt8,
      ((0x80 : UInt16) ||| (pu16 &&& 0x003F)).toUInt8]
  else []

/-- The loop, with the bytes below `offset`.  Bytes that are not counted are written over. -/
def utf16ToUtf8Loop (olen : Nat) (written : CString) : List UInt16 → CString
  | [] => written
  | pu16 :: rest =>
    if castInt written.length < castInt olen then
      let sz := (unitToUtf8 pu16).length
      if castInt (written.length + sz) ≤ castInt olen then
        utf16ToUtf8Loop olen (written ++ unitToUtf8 pu16) rest
      else utf16ToUtf8Loop olen written rest
    else written

/-- The overload for strings. -/
def utf16ToUtf8 (u16str : List UInt16) : CString :=
  utf16ToUtf8Loop (u16str.length * 3 + 1) [] u16str

/-! ## `Utf8ToUtf16` -/

def is2ByteUtf16 (u16 : UInt16) : Prop := u16 ≥ 0x0080 ∧ u16 ≤ 0x07FF

def is3ByteUtf16 (u16 : UInt16) : Prop := u16 ≥ 0x0800

instance : DecidablePred is2ByteUtf16 := fun u16 =>
  inferInstanceAs (Decidable (u16 ≥ 0x0080 ∧ u16 ≤ 0x07FF))

instance : DecidablePred is3ByteUtf16 := fun u16 => inferInstanceAs (Decidable (u16 ≥ 0x0800))

def threeByteBits (byte byte' byte'' : UInt8) : UInt16 :=
  (((byte.toUInt16 &&& 0x0F) <<< 4 ||| (byte'.toUInt16 &&& 0x3C) >>> 2) <<< 8) |||
    ((byte'.toUInt16 &&& 0x03) <<< 6 ||| (byte''.toUInt16 &&& 0x3F))

def twoByteBits (byte byte' : UInt8) : UInt16 :=
  (((byte.toUInt16 &&& 0x1C) >>> 2) <<< 8) |||
    ((byte.toUInt16 &&& 0x03) <<< 6 ||| (byte'.toUInt16 &&& 0x3F))

/-- The unit at the first of the `ilen` bytes and how many of them it takes; none for a byte that is
    read behind them. -/
def utf8ToUnit (pu8 : CString) (ilen : Nat) : Option (UInt16 × Nat) := do
  let byte ← pu8[0]?
  -- A byte that begins no sequence becomes a unit 0, and the next byte is tried.
  if byte &&& 0xF0 = 0xE0 ∧ ilen ≥ 3 then
    let byte' ← pu8[1]?
    if byte' &&& 0xC0 = 0x80 then
      let byte'' ← pu8[2]?
      if byte'' &&& 0xC0 = 0x80 then
        let pu16 := threeByteBits byte byte' byte''
        if ¬ is3ByteUtf16 pu16 then return (0x0000, 1) else return (pu16, 3)
      else return (0x0000, 1)
    else return (0x0000, 1)
  else if byte &&& 0xE0 = 0xC0 ∧ ilen ≥ 2 then
    let byte' ← pu8[1]?
    if byte' &&& 0xC0 = 0x80 then
      let pu16 := twoByteBits byte byte'
      if ¬ is2ByteUtf16 pu16 then return (0x0000, 1) else return (pu16, 2)
    else return (0x0000, 1)
  else if byte &&& 0x80 = 0x00 then return (byte.toUInt16, 1)
  else return (0x0000, 1)

/-- The loop, from `pu8 + i` on with the units below `offset`; none when a byte is read that is not
    there, and when the turns are used up. -/
def utf8ToUtf16Loop (olen : Nat) : Nat → List UInt16 → CString → Option (List UInt16)
  | _, units, [] => some units
  | 0, _, _ :: _ => none
  | turns + 1, units, byte :: rest =>
    if units.length < castInt olen then
      (utf8ToUnit (byte :: rest) (byte :: rest).length).bind fun unit =>
        if unit.2 = 0 then some units
        else utf8ToUtf16Loop olen turns (units ++ [unit.1]) ((byte :: rest).drop unit.2)
    else some units

/-- The overload for strings. -/
def utf8ToUtf16 (u8str : CString) : Option (List UInt16) :=
  utf8ToUtf16Loop (u8str.length + 1) u8str.length [] u8str

/-! ## Bits as numbers -/

theorem shiftLeft_or {high low i : Nat} (small : low < 2 ^ i) :
    high <<< i ||| low = high * 2 ^ i + low := by
  rw [← Nat.shiftLeft_add_eq_or_of_lt small, Nat.shiftLeft_eq]

theorem shiftLeft_mod {high i : Nat} (small : high * 2 ^ i < 2 ^ 16) :
    (high <<< i) % 2 ^ 16 = high <<< i := by
  rw [Nat.shiftLeft_eq]
  exact Nat.mod_eq_of_lt small

theorem low_bits (value : Nat) :
    value &&& 0x03 = value % 4 ∧ value &&& 0x0F = value % 16 ∧ value &&& 0x1F = value % 32 ∧
      value &&& 0x3F = value % 64 ∧ value &&& 0x7F = value % 128 :=
  ⟨Nat.and_two_pow_sub_one_eq_mod value 2, Nat.and_two_pow_sub_one_eq_mod value 4,
    Nat.and_two_pow_sub_one_eq_mod value 5, Nat.and_two_pow_sub_one_eq_mod value 6,
    Nat.and_two_pow_sub_one_eq_mod value 7⟩

theorem high_bits (value : Nat) :
    (value &&& 0x3C) >>> 2 = value / 4 % 16 ∧ (value &&& 0x1C) >>> 2 = value / 4 % 8 := by
  constructor
  · rw [Nat.shiftRight_and_distrib, Nat.shiftRight_eq_div_pow]
    exact Nat.and_two_pow_sub_one_eq_mod (value / 4) 4
  · rw [Nat.shiftRight_and_distrib, Nat.shiftRight_eq_div_pow]
    exact Nat.and_two_pow_sub_one_eq_mod (value / 4) 3

theorem toNat_threeByteBits (byte byte' byte'' : UInt8) :
    (threeByteBits byte byte' byte'').toNat =
      byte.toNat % 16 * 4096 + byte'.toNat % 64 * 64 + byte''.toNat % 64 := by
  have second := byte'.toNat_lt
  have high : byte.toNat % 16 * 2 ^ 4 + byte'.toNat / 4 % 16 < 256 := by omega
  have low : byte'.toNat % 4 * 2 ^ 6 + byte''.toNat % 64 < 256 := by omega
  simp only [threeByteBits, UInt16.toNat_or, UInt16.toNat_and, UInt16.toNat_shiftLeft,
    UInt16.toNat_shiftRight, UInt8.toNat_toUInt16, UInt16.reduceToNat, Nat.reduceMod, low_bits,
    high_bits]
  rw [@shiftLeft_mod _ 4 (by omega), @shiftLeft_mod _ 6 (by omega), shiftLeft_or (by omega),
    shiftLeft_or (by omega), shiftLeft_mod (by omega), shiftLeft_or low]
  omega

theorem toNat_twoByteBits (byte byte' : UInt8) :
    (twoByteBits byte byte').toNat = byte.toNat % 32 * 64 + byte'.toNat % 64 := by
  have low : byte.toNat % 4 * 2 ^ 6 + byte'.toNat % 64 < 256 := by omega
  simp only [twoByteBits, UInt16.toNat_or, UInt16.toNat_and, UInt16.toNat_shiftLeft,
    UInt16.toNat_shiftRight, UInt8.toNat_toUInt16, UInt16.reduceToNat, Nat.reduceMod, low_bits,
    high_bits]
  rw [@shiftLeft_mod _ 6 (by omega), @shiftLeft_or _ _ 6 (by omega), shiftLeft_mod (by omega),
    shiftLeft_or low]
  omega

theorem or_bits {bits : Nat} :
    (bits < 64 → 0x80 ||| bits = 0x80 + bits) ∧ (bits < 32 → 0xC0 ||| bits = 0xC0 + bits) ∧
      (bits < 16 → 0xE0 ||| bits = 0xE0 + bits) :=
  ⟨@shiftLeft_or 2 bits 6, @shiftLeft_or 6 bits 5, @shiftLeft_or 14 bits 4⟩

/-- The bytes of a unit as numbers. -/
theorem unitToUtf8_eq (pu16 : UInt16) :
    (unitToUtf8 pu16).map UInt8.toNat =
      if pu16.toNat ≤ 0x7f then [pu16.toNat]
      else if pu16.toNat ≤ 0x7ff then [0xc0 + pu16.toNat / 64, 0x80 + pu16.toNat % 64]
      else [0xe0 + pu16.toNat / 4096, 0x80 + pu16.toNat / 64 % 64, 0x80 + pu16.toNat % 64] := by
  have bound := pu16.toNat_lt
  have asNat : (pu16 ≤ 0x007F ↔ pu16.toNat ≤ 0x7f) ∧ (pu16 ≤ 0x07FF ↔ pu16.toNat ≤ 0x7ff) ∧
      (pu16 ≥ 0x0080 ↔ 0x80 ≤ pu16.toNat) ∧ (pu16 ≥ 0x0800 ↔ 0x800 ≤ pu16.toNat) :=
    ⟨UInt16.le_iff_toNat_le, UInt16.le_iff_toNat_le, UInt16.le_iff_toNat_le, UInt16.le_iff_toNat_le⟩
  unfold unitToUtf8
  simp only [asNat]
  split
  · simp [low_bits]
    omega
  · by_cases two : pu16.toNat ≤ 0x7ff
    · rw [if_pos ⟨by omega, two⟩, if_pos two]
      simp only [List.map_cons, List.map_nil, UInt16.toNat_toUInt8, UInt16.toNat_or,
        UInt16.toNat_and, UInt16.toNat_shiftRight, UInt16.reduceToNat, Nat.reduceMod, low_bits,
        Nat.shiftRight_eq_div_pow]
      rw [or_bits.2.1 (by omega), or_bits.1 (by omega)]
      simp
      omega
    · rw [if_neg (by omega), if_pos (by omega), if_neg two]
      simp only [List.map_cons, List.map_nil, UInt16.toNat_toUInt8, UInt16.toNat_or,
        UInt16.toNat_and, UInt16.toNat_shiftRight, UInt16.reduceToNat, Nat.reduceMod, low_bits,
        Nat.shiftRight_eq_div_pow]
      rw [or_bits.2.2 (by omega), or_bits.1 (by omega), or_bits.1 (by omega)]
      simp
      omega

theorem lead_bits_of_lt : ∀ value < 256,
    (value.toUInt8 &&& 0xF0 = 0xE0 ↔ 0xe0 ≤ value ∧ value < 0xf0) ∧
      (value.toUInt8 &&& 0xE0 = 0xC0 ↔ 0xc0 ≤ value ∧ value < 0xe0) ∧
      (value.toUInt8 &&& 0xC0 = 0x80 ↔ 0x80 ≤ value ∧ value < 0xc0) ∧
      (value.toUInt8 &&& 0x80 = 0x00 ↔ value < 0x80) := by
  decide +kernel

/-- What the masks say about a byte. -/
theorem lead_bits (byte : UInt8) :
    (byte &&& 0xF0 = 0xE0 ↔ 0xe0 ≤ byte.toNat ∧ byte.toNat < 0xf0) ∧
      (byte &&& 0xE0 = 0xC0 ↔ 0xc0 ≤ byte.toNat ∧ byte.toNat < 0xe0) ∧
      (byte &&& 0xC0 = 0x80 ↔ 0x80 ≤ byte.toNat ∧ byte.toNat < 0xc0) ∧
      (byte &&& 0x80 = 0x00 ↔ byte.toNat < 0x80) := by
  simpa using lead_bits_of_lt byte.toNat byte.toNat_lt

/-! ## One unit -/

theorem unitToUtf8_length (pu16 : UInt16) :
    1 ≤ (unitToUtf8 pu16).length ∧ (unitToUtf8 pu16).length ≤ 3 := by
  rw [← List.length_map UInt8.toNat, unitToUtf8_eq]
  split
  · simp
  · split <;> simp

/-! ## Shortest form -/

def IsContinuation (byte : UInt8) : Prop := 0x80 ≤ byte.toNat ∧ byte.toNat < 0xc0

/-- One to three bytes are the shortest form of a unit. -/
inductive Spells : CString → UInt16 → Prop where
  | one {byte : UInt8} {pu16 : UInt16} (value : pu16.toNat = byte.toNat)
      (least : byte.toNat < 0x80) : Spells [byte] pu16
  | two {byte byte' : UInt8} {pu16 : UInt16} (lead : 0xc0 ≤ byte.toNat ∧ byte.toNat < 0xe0)
      (isContinuation : IsContinuation byte')
      (value : pu16.toNat = byte.toNat % 32 * 64 + byte'.toNat % 64)
      (shortest : 0x80 ≤ pu16.toNat) : Spells [byte, byte'] pu16
  | three {byte byte' byte'' : UInt8} {pu16 : UInt16}
      (lead : 0xe0 ≤ byte.toNat ∧ byte.toNat < 0xf0) (isContinuation : IsContinuation byte')
      (isContinuation' : IsContinuation byte'')
      (value : pu16.toNat = byte.toNat % 16 * 4096 + byte'.toNat % 64 * 64 + byte''.toNat % 64)
      (shortest : 0x800 ≤ pu16.toNat) : Spells [byte, byte', byte''] pu16

/-- A sequence of one to three bytes in shortest form, with its unit. -/
structure ShortestForm where
  bytes : CString
  unit : UInt16
  spells : Spells bytes unit

theorem spells_unitToUtf8 (pu16 : UInt16) : Spells (unitToUtf8 pu16) pu16 := by
  have bound := pu16.toNat_lt
  have values := unitToUtf8_eq pu16
  generalize unitToUtf8 pu16 = bytes at values
  split at values
  · simp only [List.map_eq_cons_iff, List.map_eq_nil_iff] at values
    obtain ⟨byte, _, rfl, single, rfl⟩ := values
    exact .one single.symm (by omega)
  · split at values
    · simp only [List.map_eq_cons_iff, List.map_eq_nil_iff] at values
      obtain ⟨byte, _, rfl, lead, byte', _, rfl, last, rfl⟩ := values
      exact .two (by omega) ⟨by omega, by omega⟩ (by omega) (by omega)
    · simp only [List.map_eq_cons_iff, List.map_eq_nil_iff] at values
      obtain ⟨byte, _, rfl, lead, byte', _, rfl, middle, byte'', _, rfl, last, rfl⟩ := values
      exact .three (by omega) ⟨by omega, by omega⟩ ⟨by omega, by omega⟩ (by omega) (by omega)

/-- A unit has one shortest form, and it is what the unit is written as. -/
theorem Spells.unitToUtf8_eq {bytes : CString} {pu16 : UInt16} (spells : Spells bytes pu16) :
    unitToUtf8 pu16 = bytes := by
  apply List.map_injective_iff.mpr (fun _ _ => UInt8.toNat_inj.mp)
  rw [EncodeConverter.unitToUtf8_eq]
  cases spells with
  | one value least =>
    rw [if_pos (by omega), value]
    rfl
  | two lead isContinuation value shortest =>
    have ⟨_, _⟩ := isContinuation
    rw [if_neg (by omega), if_pos (by omega)]
    simp
    omega
  | three lead isContinuation isContinuation' value shortest =>
    have ⟨_, _⟩ := isContinuation
    have ⟨_, _⟩ := isContinuation'
    rw [if_neg (by omega), if_neg (by omega)]
    simp
    omega

/-- A shortest form is read as its unit, whatever follows. -/
theorem Spells.utf8ToUnit_eq {bytes : CString} {pu16 : UInt16} (spells : Spells bytes pu16)
    (rest : CString) {ilen : Nat} (long : bytes.length ≤ ilen) :
    utf8ToUnit (bytes ++ rest) ilen = some (pu16, bytes.length) := by
  cases spells with
  | @one byte _ value least =>
    obtain ⟨three, two, -, single⟩ := lead_bits byte
    have same : byte.toUInt16 = pu16 := UInt16.toNat_inj.mp (by simp [value])
    have notThree : ¬ byte &&& 0xF0 = 0xE0 := fun lead => by have := three.mp lead; omega
    have notTwo : ¬ byte &&& 0xE0 = 0xC0 := fun lead => by have := two.mp lead; omega
    simp [utf8ToUnit, notThree, notTwo, single.mpr least, same]
  | @two byte byte' _ lead isContinuation value shortest =>
    obtain ⟨three, two, -, -⟩ := lead_bits byte
    have same : twoByteBits byte byte' = pu16 :=
      UInt16.toNat_inj.mp (by rw [toNat_twoByteBits, value])
    have isTwo : is2ByteUtf16 pu16 := ⟨UInt16.le_iff_toNat_le.mpr shortest,
      UInt16.le_iff_toNat_le.mpr (show pu16.toNat ≤ 0x7ff by omega)⟩
    have notThree : ¬ byte &&& 0xF0 = 0xE0 := fun lead => by have := three.mp lead; omega
    have long : 2 ≤ ilen := long
    simp [utf8ToUnit, notThree, two.mpr lead, (lead_bits byte').2.2.1.mpr isContinuation, same, isTwo,
      long]
  | @three byte byte' byte'' _ lead isContinuation isContinuation' value shortest =>
    have same : threeByteBits byte byte' byte'' = pu16 :=
      UInt16.toNat_inj.mp (by rw [toNat_threeByteBits, value])
    have isThree : is3ByteUtf16 pu16 := UInt16.le_iff_toNat_le.mpr shortest
    have long : 3 ≤ ilen := long
    simp [utf8ToUnit, (lead_bits byte).1.mpr lead, (lead_bits byte').2.2.1.mpr isContinuation,
      (lead_bits byte'').2.2.1.mpr isContinuation', same, isThree, long]

/-! ## Characters of a text -/

theorem threeByteUnit_eq (byte byte' byte'' : UInt8) :
    threeByteUnit byte byte' byte'' =
      if byte' &&& 0xC0 = 0x80 ∧ byte'' &&& 0xC0 = 0x80 ∧ is3ByteUtf16 (threeByteBits byte byte' byte'')
      then some (threeByteBits byte byte' byte'').toNat else none := by
  have isThree : is3ByteUtf16 (threeByteBits byte byte' byte'') ↔
      0x800 ≤ (threeByteBits byte byte' byte'').toNat := UInt16.le_iff_toNat_le
  simp only [threeByteUnit, isThree, toNat_threeByteBits, UInt8.toNat_and, UInt8.reduceToNat, low_bits]

theorem twoByteUnit_eq (byte byte' : UInt8) :
    twoByteUnit byte byte' =
      if byte' &&& 0xC0 = 0x80 ∧ is2ByteUtf16 (twoByteBits byte byte')
      then some (twoByteBits byte byte').toNat else none := by
  have isTwo : is2ByteUtf16 (twoByteBits byte byte') ↔
      0x80 ≤ (twoByteBits byte byte').toNat ∧ (twoByteBits byte byte').toNat ≤ 0x7ff :=
    and_congr UInt16.le_iff_toNat_le UInt16.le_iff_toNat_le
  simp only [twoByteUnit, isTwo, toNat_twoByteBits, UInt8.toNat_and, UInt8.reduceToNat, low_bits]

theorem oneByteUnit_eq (byte : UInt8) :
    oneByteUnit byte = (if byte &&& 0x80 = 0x00 then byte.toUInt16 else 0x0000).toNat := by
  unfold oneByteUnit
  split <;> simp

/-- A turn of the loop takes the unit that is taken of the text, and no byte that is not there. -/
theorem exists_utf8ToUnit (byte : UInt8) (rest : CString) :
    ∃ pu16 size, utf8ToUnit (byte :: rest) (rest.length + 1) = some (pu16, size + 1) ∧
      size ≤ rest.length ∧
      Timestamps.utf8ToUtf16 (byte :: rest) = pu16.toNat :: Timestamps.utf8ToUtf16 (rest.drop size) := by
  -- One, two or three bytes are looked at, as many as there are.
  match rest with
  | [] =>
    refine ⟨_, 0, ?_, by simp, by simp [Timestamps.utf8ToUtf16, oneByteUnit_eq]; rfl⟩
    simp [utf8ToUnit]
    split <;> rfl
  | [byte'] =>
    by_cases two : byte &&& 0xE0 = 0xC0
    · by_cases decoded : byte' &&& 0xC0 = 0x80 ∧ is2ByteUtf16 (twoByteBits byte byte')
      · refine ⟨_, 1, ?_, by simp, by simp [Timestamps.utf8ToUtf16, twoByteUnit_eq, two, decoded]; rfl⟩
        simp [utf8ToUnit, two, decoded]
      · refine ⟨0, 0, ?_, by simp, by simp [Timestamps.utf8ToUtf16, twoByteUnit_eq, two, decoded]⟩
        simp [utf8ToUnit, two]
        grind
    · refine ⟨_, 0, ?_, by simp, by simp [Timestamps.utf8ToUtf16, oneByteUnit_eq, two]; rfl⟩
      simp [utf8ToUnit, two]
      split <;> rfl
  | byte' :: byte'' :: rest =>
    by_cases three : byte &&& 0xF0 = 0xE0
    · by_cases decoded : byte' &&& 0xC0 = 0x80 ∧ byte'' &&& 0xC0 = 0x80 ∧
          is3ByteUtf16 (threeByteBits byte byte' byte'')
      · refine ⟨_, 2, ?_, by simp, by simp [Timestamps.utf8ToUtf16, threeByteUnit_eq, three, decoded]; rfl⟩
        simp [utf8ToUnit, three, decoded]
      · refine ⟨0, 0, ?_, by simp, by simp [Timestamps.utf8ToUtf16, threeByteUnit_eq, three, decoded]⟩
        simp [utf8ToUnit, three]
        grind
    · by_cases two : byte &&& 0xE0 = 0xC0
      · by_cases decoded : byte' &&& 0xC0 = 0x80 ∧ is2ByteUtf16 (twoByteBits byte byte')
        · refine ⟨_, 1, ?_, by simp, by
            simp [Timestamps.utf8ToUtf16, twoByteUnit_eq, three, two, decoded]; rfl⟩
          simp [utf8ToUnit, three, two, decoded]
        · refine ⟨0, 0, ?_, by simp, by
            simp [Timestamps.utf8ToUtf16, twoByteUnit_eq, three, two, decoded]⟩
          simp [utf8ToUnit, three, two]
          grind
      · refine ⟨_, 0, ?_, by simp, by simp [Timestamps.utf8ToUtf16, oneByteUnit_eq, three, two]; rfl⟩
        simp [utf8ToUnit, three, two]
        split <;> rfl

/-! ## Sizes -/

theorem castInt_spec (size : Nat) :
    castInt size % 2 ^ 32 = size % 2 ^ 32 ∧ -2 ^ 31 ≤ castInt size ∧ castInt size < 2 ^ 31 := by
  have least := @Int.le_bmod size (2 ^ 32) (by decide)
  have most := @Int.bmod_lt size (2 ^ 32) (by decide)
  have same := @Int.bmod_emod size (2 ^ 32)
  unfold castInt
  omega

theorem castInt_of_lt {size : Nat} (small : size < 2 ^ 31) : castInt size = size := by
  have := castInt_spec size
  omega

theorem length_flatMap_unitToUtf8 (units : List UInt16) :
    units.length ≤ (units.flatMap unitToUtf8).length ∧
      (units.flatMap unitToUtf8).length ≤ 3 * units.length := by
  induction units with
  | nil => simp
  | cons pu16 units inductionHypothesis =>
    have := unitToUtf8_length pu16
    simp only [List.flatMap_cons, List.length_append, List.length_cons]
    omega

/-- A part of the units that is written as long as all of them is all of them. -/
theorem eq_of_sublist {kept units : List UInt16} (sublist : kept.Sublist units)
    (long : (units.flatMap unitToUtf8).length ≤ (kept.flatMap unitToUtf8).length) :
    kept = units := by
  induction sublist with
  | slnil => rfl
  | @cons kept units pu16 sublist inductionHypothesis =>
    have := unitToUtf8_length pu16
    have less := (sublist.flatMap unitToUtf8).length_le
    simp only [List.flatMap_cons, List.length_append] at long
    omega
  | @cons_cons kept units pu16 sublist inductionHypothesis =>
    simp only [List.flatMap_cons, List.length_append, Nat.add_le_add_iff_left] at long
    rw [inductionHypothesis long]

/-! ## The loops -/

/-- What is written are the units that were counted, and the counter never passes the size of the
    buffer as an `int`. -/
theorem exists_kept (olen : Nat) (units : List UInt16) {written : CString}
    (inside : castInt written.length ≤ castInt olen) :
    ∃ kept : List UInt16, kept.Sublist units ∧
      utf16ToUtf8Loop olen written units = written ++ kept.flatMap unitToUtf8 ∧
      castInt (written ++ kept.flatMap unitToUtf8).length ≤ castInt olen := by
  induction units generalizing written with
  | nil => exact ⟨[], .slnil, by simp [utf16ToUtf8Loop], by simpa using inside⟩
  | cons pu16 units inductionHypothesis =>
    simp only [utf16ToUtf8Loop]
    split
    · split
      next counted =>
        rw [← List.length_append] at counted
        obtain ⟨kept, sublist, same, still⟩ := inductionHypothesis counted
        refine ⟨pu16 :: kept, sublist.cons_cons pu16, ?_, ?_⟩
        · simpa using same
        · simpa using still
      next dropped =>
        obtain ⟨kept, sublist, same, still⟩ := inductionHypothesis inside
        exact ⟨kept, sublist.cons pu16, same, still⟩
    · exact ⟨[], List.nil_sublist _, by simp, by simpa using inside⟩

/-- With a buffer whose size is an `int` every unit is counted. -/
theorem utf16ToUtf8Loop_all {olen : Nat} (isInt : olen < 2 ^ 31) (units : List UInt16)
    {written : CString} (room : written.length + 3 * units.length < olen) :
    utf16ToUtf8Loop olen written units = written ++ units.flatMap unitToUtf8 := by
  induction units generalizing written with
  | nil => simp [utf16ToUtf8Loop]
  | cons pu16 units inductionHypothesis =>
    have size := unitToUtf8_length pu16
    rw [List.length_cons] at room
    simp only [utf16ToUtf8Loop]
    rw [castInt_of_lt isInt, castInt_of_lt (by omega), castInt_of_lt (by omega), if_pos (by omega),
      if_pos (by omega), inductionHypothesis (by rw [List.length_append]; omega)]
    simp

/-- Of units in shortest form as many are read as the buffer has room for. -/
theorem utf8ToUtf16Loop_units {olen turns : Nat} (read rest : List UInt16)
    (enough : rest.length ≤ turns) :
    utf8ToUtf16Loop olen turns read (rest.flatMap unitToUtf8) =
      some (read ++ rest.take (castInt olen - read.length).toNat) := by
  induction rest generalizing read turns with
  | nil => simp [utf8ToUtf16Loop]
  | cons pu16 rest inductionHypothesis =>
    obtain ⟨turns, rfl⟩ := Nat.exists_eq_add_of_le' (Nat.zero_lt_of_lt enough)
    have taken := (spells_unitToUtf8 pu16).utf8ToUnit_eq (rest.flatMap unitToUtf8)
      (Nat.le_add_right _ (rest.flatMap unitToUtf8).length)
    rw [← List.length_append] at taken
    have positive := (unitToUtf8_length pu16).1
    have behind : (unitToUtf8 pu16 ++ rest.flatMap unitToUtf8).drop (unitToUtf8 pu16).length =
        rest.flatMap unitToUtf8 := List.drop_left
    rw [List.flatMap_cons]
    obtain ⟨byte, bytes, isCons⟩ := List.exists_cons_of_length_pos
      (show 0 < (unitToUtf8 pu16 ++ rest.flatMap unitToUtf8).length by simp; omega)
    rw [isCons] at taken behind ⊢
    -- The unit is read if the buffer has room; a full buffer ends the loop.
    rw [utf8ToUtf16Loop]
    split
    next room =>
      rw [taken, Option.bind_some, if_neg (Nat.ne_of_gt positive)]
      simp only [behind]
      rw [inductionHypothesis _ (Nat.le_of_succ_le_succ enough)]
      obtain ⟨more, isMore⟩ : ∃ more : Nat, castInt olen - read.length = more + 1 :=
        ⟨(castInt olen - read.length - 1).toNat, by omega⟩
      have less : castInt olen - (read ++ [pu16]).length = more := by simp; omega
      rw [less, isMore]
      have : ((more : Int) + 1).toNat = more + 1 := by omega
      simp [this]
    next full =>
      have none' : (castInt olen - read.length).toNat = 0 := by omega
      simp [none']

/-- Whatever the bytes are, the loop ends and has read a unit for each byte at most. -/
theorem exists_utf8ToUtf16Loop (olen : Nat) {turns : Nat} (read : List UInt16) (rest : CString)
    (enough : rest.length ≤ turns) :
    ∃ units, utf8ToUtf16Loop olen turns read rest = some units ∧
      units.length ≤ read.length + rest.length := by
  induction turns generalizing read rest with
  | zero =>
    obtain rfl := List.length_eq_zero_iff.mp (Nat.le_zero.mp enough)
    exact ⟨read, by simp [utf8ToUtf16Loop], Nat.le_add_right ..⟩
  | succ turns inductionHypothesis =>
    cases rest with
    | nil => exact ⟨read, by simp [utf8ToUtf16Loop], Nat.le_add_right ..⟩
    | cons byte rest =>
      rw [List.length_cons] at enough
      obtain ⟨pu16, size, taken, inside, -⟩ := exists_utf8ToUnit byte rest
      rw [utf8ToUtf16Loop]
      split
      · rw [List.length_cons, taken, Option.bind_some, if_neg (Nat.succ_ne_zero size)]
        obtain ⟨units, same, most⟩ := inductionHypothesis (read ++ [pu16])
          ((byte :: rest).drop (size + 1)) (by rw [List.drop_succ_cons, List.length_drop]; omega)
        refine ⟨units, same, ?_⟩
        simp at most ⊢
        omega
      · exact ⟨read, rfl, Nat.le_add_right ..⟩

theorem utf8ToUtf16Loop_characters {olen turns : Nat} (isInt : olen < 2 ^ 31) (read : List UInt16)
    {rest : CString} (enough : rest.length ≤ turns) (room : read.length + rest.length < olen) :
    (utf8ToUtf16Loop olen turns read rest).map (List.map UInt16.toNat) =
      some (read.map UInt16.toNat ++ Timestamps.utf8ToUtf16 rest) := by
  induction turns generalizing read rest with
  | zero =>
    obtain rfl := List.length_eq_zero_iff.mp (Nat.le_zero.mp enough)
    simp [utf8ToUtf16Loop, Timestamps.utf8ToUtf16]
  | succ turns inductionHypothesis =>
    cases rest with
    | nil => simp [utf8ToUtf16Loop, Timestamps.utf8ToUtf16]
    | cons byte rest =>
      obtain ⟨pu16, size, taken, -, sameUnit⟩ := exists_utf8ToUnit byte rest
      rw [List.length_cons] at enough room
      rw [utf8ToUtf16Loop, castInt_of_lt isInt, if_pos (by omega), List.length_cons, taken,
        Option.bind_some, if_neg (Nat.succ_ne_zero size), List.drop_succ_cons,
        inductionHypothesis _ (by rw [List.length_drop]; omega)
          (by rw [List.length_append, List.length_singleton, List.length_drop]; omega), sameUnit]
      simp

/-- On a text whose size is an `int` these are the units that its characters are cut from. -/
theorem utf8ToUtf16_characters {u8str : CString} (isInt : u8str.length + 1 < 2 ^ 31) :
    (utf8ToUtf16 u8str).map (List.map UInt16.toNat) = some (Timestamps.utf8ToUtf16 u8str) :=
  utf8ToUtf16Loop_characters isInt [] (Nat.le_refl _) (by simp)

/-! ## Round trips -/

/-- Every unit is written, and there is room to read them all again. -/
def Survives (units : List UInt16) : Prop :=
  utf16ToUtf8 units = units.flatMap unitToUtf8 ∧
    units.length ≤ (castInt ((units.flatMap unitToUtf8).length + 1)).toNat

theorem utf8ToUtf16_units (units : List UInt16) :
    utf8ToUtf16 (units.flatMap unitToUtf8) =
      some (units.take (castInt ((units.flatMap unitToUtf8).length + 1)).toNat) := by
  rw [utf8ToUtf16, utf8ToUtf16Loop_units [] units (length_flatMap_unitToUtf8 units).1]
  rw [List.nil_append, List.length_nil, Int.natCast_zero, Int.sub_zero]

/-- An `int` holds the size of the buffer exactly where everything survives. -/
theorem survives_iff (units : List UInt16) : Survives units ↔ 3 * units.length + 1 < 2 ^ 31 := by
  have ⟨least, most⟩ := length_flatMap_unitToUtf8 units
  have none' : castInt ([] : CString).length = 0 := castInt_of_lt (by simp)
  constructor
  · rintro ⟨written, room⟩
    by_contra large
    have room : (units.length : Int) ≤ castInt ((units.flatMap unitToUtf8).length + 1) := by
      obtain ⟨size, isSize⟩ := Nat.exists_eq_succ_of_ne_zero (show units.length ≠ 0 by omega)
      rw [isSize] at room ⊢
      exact Int.lt_toNat.mp room
    have buffer := castInt_spec (units.length * 3 + 1)
    have again := castInt_spec ((units.flatMap unitToUtf8).length + 1)
    by_cases positive : 0 ≤ castInt (units.length * 3 + 1)
    · obtain ⟨kept, -, same, inside⟩ := exists_kept _ units (none'.trans_le positive)
      rw [← same] at inside
      change castInt (utf16ToUtf8 units).length ≤ _ at inside
      rw [written] at inside
      -- The buffer is longer than 2 ^ 32, so the units are too many to be written up to its size as
      -- an `int`, and too few to be written beyond 2 ^ 32.
      have few : units.length < 2 ^ 31 := by omega
      have olen : castInt (units.length * 3 + 1) = units.length * 3 + 1 - 2 ^ 32 := by omega
      by_cases short : (units.flatMap unitToUtf8).length + 1 < 2 ^ 31
      · rw [castInt_of_lt (by omega)] at inside
        omega
      · have : castInt ((units.flatMap unitToUtf8).length + 1) =
            (units.flatMap unitToUtf8).length + 1 - 2 ^ 32 := by omega
        omega
    · -- Nothing is written.
      cases units with
      | nil => simp at large
      | cons pu16 units =>
        rw [utf16ToUtf8, utf16ToUtf8Loop, none', if_neg (by omega)] at written
        have empty := congrArg List.length written
        rw [List.length_nil] at empty
        rw [List.length_cons] at least
        omega
  · intro small
    constructor
    · rw [utf16ToUtf8, utf16ToUtf8Loop_all (by omega) units (by rw [List.length_nil]; omega)]
      rfl
    · rw [castInt_of_lt (by omega), Int.toNat_natCast]
      omega

/-- What is written of some units are some of them. -/
theorem exists_utf16ToUtf8 (units : List UInt16) :
    ∃ kept : List UInt16, kept.Sublist units ∧ utf16ToUtf8 units = kept.flatMap unitToUtf8 := by
  have none' : castInt ([] : CString).length = 0 := castInt_of_lt (by simp)
  by_cases positive : 0 ≤ castInt (units.length * 3 + 1)
  · obtain ⟨kept, sublist, same, -⟩ := exists_kept _ units (none'.trans_le positive)
    exact ⟨kept, sublist, same⟩
  · refine ⟨[], List.nil_sublist _, ?_⟩
    cases units with
    | nil => rfl
    | cons pu16 units =>
      rw [utf16ToUtf8, utf16ToUtf8Loop, none', if_neg (by omega)]
      rfl

theorem utf8ToUtf16_utf16ToUtf8_iff (units : List UInt16) :
    utf8ToUtf16 (utf16ToUtf8 units) = some units ↔ 3 * units.length + 1 < 2 ^ 31 := by
  rw [← survives_iff]
  constructor
  · intro same
    obtain ⟨kept, sublist, written⟩ := exists_utf16ToUtf8 units
    rw [written, utf8ToUtf16_units, Option.some.injEq] at same
    have read := congrArg List.length same
    rw [List.length_take] at read
    have less := sublist.length_le
    obtain rfl := sublist.eq_of_length (by omega)
    exact ⟨written, by omega⟩
  · rintro ⟨written, room⟩
    rw [written, utf8ToUtf16_units, List.take_of_length_le (by omega)]

theorem utf16ToUtf8_utf8ToUtf16_iff (units : List UInt16) :
    (utf8ToUtf16 (units.flatMap unitToUtf8)).map utf16ToUtf8 = some (units.flatMap unitToUtf8) ↔
      3 * units.length + 1 < 2 ^ 31 := by
  rw [← survives_iff, utf8ToUtf16_units, Option.map_some, Option.some.injEq]
  constructor
  · intro same
    obtain ⟨kept, sublist, written⟩ :=
      exists_utf16ToUtf8 (units.take (castInt ((units.flatMap unitToUtf8).length + 1)).toNat)
    have all : kept = units := eq_of_sublist (sublist.trans (List.take_sublist ..))
      (Nat.le_of_eq (by rw [← written, same]))
    have read := sublist.length_le
    rw [all, List.length_take] at read
    rw [List.take_of_length_le (by omega)] at same
    exact ⟨same, by omega⟩
  · rintro ⟨written, room⟩
    rw [List.take_of_length_le (by omega), written]

theorem flatMap_bytes (sequences : List ShortestForm) :
    sequences.flatMap ShortestForm.bytes = (sequences.map ShortestForm.unit).flatMap unitToUtf8 := by
  rw [List.flatMap_map]
  exact List.flatMap_congr fun sequence _ => sequence.spells.unitToUtf8_eq.symm

/-- Units and sequences in shortest form are kept on the way there and back exactly where an `int`
    holds the size of the buffer of bytes; reading ends on all bytes. -/
theorem converts_iff (units : List UInt16) (sequences : List ShortestForm) (u8str : CString) :
    (utf8ToUtf16 (utf16ToUtf8 units) = some units ↔ 3 * units.length + 1 < 2 ^ 31) ∧
      ((utf8ToUtf16 (sequences.flatMap ShortestForm.bytes)).map utf16ToUtf8 =
          some (sequences.flatMap ShortestForm.bytes) ↔
        3 * sequences.length + 1 < 2 ^ 31) ∧
      ∃ read, utf8ToUtf16 u8str = some read ∧ read.length ≤ u8str.length := by
  refine ⟨utf8ToUtf16_utf16ToUtf8_iff units, ?_, ?_⟩
  · rw [flatMap_bytes, utf16ToUtf8_utf8ToUtf16_iff, List.length_map]
  · obtain ⟨read, same, most⟩ := exists_utf8ToUtf16Loop (u8str.length + 1) [] u8str (Nat.le_refl _)
    exact ⟨read, same, by simpa using most⟩

/-- The buffer for this many units has 2 ^ 31 + 2 bytes. -/
theorem not_converts_long :
    utf8ToUtf16 (utf16ToUtf8 (List.replicate 715827883 0x61)) ≠
      some (List.replicate 715827883 0x61) := by
  intro same
  have small := (utf8ToUtf16_utf16ToUtf8_iff _).mp same
  rw [List.length_replicate] at small
  omega

end Asr2Pass.Timestamps.EncodeConverter
