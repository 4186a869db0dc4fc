import Asr2Pass.Timestamps.EncodeConverter

/-! # `IsUTF8`, `GetUTF8Len` and `Utf16ToUtf8Len`

The loop over the bytes counts sequences of one to three bytes.  `GetUTF8Len` answers 0 where the loop
has come to the end of the string, so that it counts no string of which all bytes are in sequences.
-/

namespace Asr2Pass.Timestamps.EncodeConverter

open Text (CString)

/-! ## The loops -/

/-- `n` for the bytes from `pu8 + i` on, 0 where the loop breaks off.  The byte behind the string
    is 0, so that a sequence is not cut off by its end. -/
def sequenceLength : CString → Nat
  | [] => 0
  | byte :: rest =>
    if byte &&& 0xF0 = 0xE0 ∧ rest.headD 0 &&& 0xC0 = 0x80 ∧ rest.tail.headD 0 &&& 0xC0 = 0x80 then 3
    else if byte &&& 0xE0 = 0xC0 ∧ rest.headD 0 &&& 0xC0 = 0x80 then 2
    else if byte &&& 0x80 = 0x00 then 1
    else 0

/-- The loop of `IsUTF8` and of `GetUTF8Len`: the bytes from `pu8 + i` on at its end, and `rlen`. -/
def scanSequences (rlen : Nat) (pu8 : CString) : CString × Nat :=
  match pu8 with
  | [] => ([], rlen)
  | byte :: rest =>
    match sequenceLength (byte :: rest) with
    | 0 => (byte :: rest, rlen)
    | n + 1 => scanSequences (rlen + 1) (rest.drop n)
termination_by pu8.length
decreasing_by
  rw [List.length_drop, List.length_cons]
  omega

def isUtf8 (u8str : CString) : Bool := (scanSequences 0 u8str).1 = []

def getUtf8Len (u8str : CString) : Nat :=
  let (left, rlen) := scanSequences 0 u8str
  if left = [] then 0 else rlen

/-- What a unit adds to `offset`. -/
def unitLength (pu16 : UInt16) : Nat :=
  if pu16 ≤ 0x007F then 1
  else if pu16 ≥ 0x0080 ∧ pu16 ≤ 0x07FF then 2
  else if pu16 ≥ 0x0800 then 3
  else 0

/-- `Utf16ToUtf8Len` counts in an `int` and returns a `size_t`. -/
def utf16ToUtf8Len (pu16 : List UInt16) : Nat :=
  let offset := pu16.foldl (fun (offset : Int) unit => (offset + unitLength unit).bmod (2 ^ 32)) 0
  (offset % 2 ^ 64).toNat

/-! ## What they count -/

/-- A unit is written as one sequence. -/
theorem Spells.sequenceLength_eq {bytes : CString} {pu16 : UInt16} (spells : Spells bytes pu16)
    (rest : CString) : sequenceLength (bytes ++ rest) = bytes.length := by
  cases spells with
  | @one byte _ _ least =>
    simp only [List.cons_append, sequenceLength, lead_bits]
    rw [if_neg (by omega), if_neg (by omega), if_pos least]
    rfl
  | @two byte byte' _ lead isContinuation =>
    simp only [List.cons_append, sequenceLength, List.headD_cons, lead_bits]
    rw [if_neg (by omega), if_pos ⟨lead, isContinuation⟩]
    rfl
  | @three byte byte' byte'' _ lead isContinuation isContinuation' =>
    simp only [List.cons_append, sequenceLength, List.headD_cons, List.tail_cons, lead_bits]
    rw [if_pos ⟨lead, isContinuation, isContinuation'⟩]
    rfl

theorem scanSequences_flatMap (units : List UInt16) (rlen : Nat) :
    scanSequences rlen (units.flatMap unitToUtf8) = ([], rlen + units.length) := by
  induction units generalizing rlen with
  | nil => rw [List.flatMap_nil, scanSequences, List.length_nil, Nat.add_zero]
  | cons pu16 rest inductionHypothesis =>
    have sequence := (spells_unitToUtf8 pu16).sequenceLength_eq (rest.flatMap unitToUtf8)
    have size := unitToUtf8_length pu16
    rw [List.flatMap_cons]
    cases written : unitToUtf8 pu16 with
    | nil => simp [written] at size
    | cons byte others =>
      rw [written, List.length_cons] at sequence
      rw [List.cons_append] at sequence ⊢
      rw [scanSequences, sequence]
      dsimp only
      rw [List.drop_left, inductionHypothesis, List.length_cons]
      congr 1
      omega

/-- What is written of units is made of sequences, so that `GetUTF8Len` does not count them. -/
theorem isUtf8_utf16ToUtf8 (units : List UInt16) :
    isUtf8 (utf16ToUtf8 units) = true ∧ getUtf8Len (utf16ToUtf8 units) = 0 := by
  obtain ⟨kept, -, written⟩ := exists_utf16ToUtf8 units
  rw [isUtf8, getUtf8Len, written, scanSequences_flatMap]
  exact ⟨rfl, rfl⟩

theorem length_unitToUtf8 (pu16 : UInt16) : (unitToUtf8 pu16).length = unitLength pu16 := by
  rw [unitToUtf8, unitLength]
  split
  · rfl
  · split
    · rfl
    · split
      · rfl
      · rfl

/-- `Utf16ToUtf8Len` counts the bytes of a string as long as an `int` holds them. -/
theorem utf16ToUtf8Len_eq {units : List UInt16} (small : 3 * units.length + 1 < 2 ^ 31) :
    utf16ToUtf8Len units = (utf16ToUtf8 units).length := by
  have counted (units : List UInt16) (offset : Nat) (room : offset + 3 * units.length < 2 ^ 31) :
      units.foldl (fun (offset : Int) unit => (offset + unitLength unit).bmod (2 ^ 32)) offset =
        (offset + (units.flatMap unitToUtf8).length : Nat) := by
    induction units generalizing offset with
    | nil => simp
    | cons pu16 rest inductionHypothesis =>
      have size := unitToUtf8_length pu16
      rw [length_unitToUtf8] at size
      rw [List.length_cons] at room
      have fits : ((offset : Int) + unitLength pu16).bmod (2 ^ 32) = (offset + unitLength pu16 : Nat) := by
        rw [← Int.natCast_add]
        exact castInt_of_lt (by omega)
      rw [List.foldl_cons, fits, inductionHypothesis _ (by omega), List.flatMap_cons,
        List.length_append, length_unitToUtf8, Nat.add_assoc]
  have written := (survives_iff units).mpr small
  have most := (length_flatMap_unitToUtf8 units).2
  have offset := counted units 0 (by omega)
  rw [Int.natCast_zero, Nat.zero_add] at offset
  rw [written.1, utf16ToUtf8Len, offset]
  omega

/-! ## Agreement -/

/-- The three functions say of units and of what they are written as what it is. -/
def LengthsAgree (units : List UInt16) : Prop :=
  isUtf8 (utf16ToUtf8 units) = true ∧ utf16ToUtf8Len units = (utf16ToUtf8 units).length ∧
    getUtf8Len (utf16ToUtf8 units) = units.length

theorem lengthsAgree_iff (units : List UInt16) : LengthsAgree units ↔ units = [] := by
  obtain ⟨isUtf8, uncounted⟩ := isUtf8_utf16ToUtf8 units
  constructor
  · rintro ⟨-, -, counted⟩
    exact List.length_eq_zero_iff.mp (counted.symm.trans uncounted)
  · rintro rfl
    exact ⟨isUtf8, utf16ToUtf8Len_eq (by decide), uncounted⟩

/-- One letter is counted as none. -/
theorem not_lengthsAgree_a :
    utf16ToUtf8 [0x61] = [0x61] ∧ getUtf8Len (utf16ToUtf8 [0x61]) = 0 ∧ ¬ LengthsAgree [0x61] := by
  have uncounted := (isUtf8_utf16ToUtf8 [0x61]).2
  refine ⟨by decide +kernel, uncounted, ?_⟩
  rintro ⟨-, -, counted⟩
  rw [uncounted] at counted
  cases counted

end Asr2Pass.Timestamps.EncodeConverter
