import Asr2Pass.Text.Utf8
import Mathlib.Data.List.DropRight

/-! # Strings as lists of characters

The length of a character is read off its first byte; a first byte that no character starts with
fails a `CHECK`, which ends the process.
-/

namespace Asr2Pass.Itn

open Text

/-- `char_length`, none when the `CHECK` fails. -/
def charLength (ch : UInt8) : Option Nat :=
  if ch &&& 0xF8 ≤ 0xF0 then
    some <|
      if ch &&& 0x80 = 0x00 then 1
      else if ch &&& 0xE0 = 0xC0 then 2
      else if ch &&& 0xF0 = 0xE0 then 3
      else if ch &&& 0xF8 = 0xF0 then 4
      else 1
  else none

theorem charLength_pos {ch : UInt8} {numBytes : Nat} (length : charLength ch = some numBytes) :
    0 < numBytes := by
  rw [charLength] at length
  split at length
  case isTrue =>
    cases length
    repeat' split
    all_goals decide
  case isFalse => cases length

/-- `string2chars`. -/
def string2chars : CString → Option (List CString)
  | [] => some []
  | ch :: rest =>
    match _length : charLength ch with
    | none => none
    | some numBytes =>
      (string2chars ((ch :: rest).drop numBytes)).map ((ch :: rest).take numBytes :: ·)
termination_by str => str.length
decreasing_by
  have := charLength_pos _length
  simp only [List.length_drop, List.length_cons]
  omega

def whitespace : CString := bytes " \n\r\t\x0c\x0b"

def ltrim (str : CString) : CString := str.dropWhile (· ∈ whitespace)

def rtrim (str : CString) : CString := str.rdropWhile (· ∈ whitespace)

def trim (str : CString) : CString := rtrim (ltrim str)

/-! ## Valid UTF-8 -/

/-- The first byte of a code point says how many bytes it has. -/
theorem charLength_encode (char : Char) : ∃ ch rest,
    String.utf8EncodeChar char = ch :: rest ∧ charLength ch = some (rest.length + 1) := by
  have announced := @announced_encode (fun ch => (charLength ch).getD 0)
    (by decide) (by decide) (by decide) (by decide) char
  cases encoded : String.utf8EncodeChar char with
  | nil => rw [encoded] at announced; cases announced
  | cons ch rest =>
    rw [encoded] at announced
    cases announced with
    | word length =>
      cases found : charLength ch with
      | none => simp [found] at length
      | some numBytes => exact ⟨ch, rest, rfl, by simpa [found] using length⟩

theorem string2chars_cons {ch : UInt8} {rest further : CString}
    (length : charLength ch = some (rest.length + 1)) :
    string2chars (ch :: rest ++ further) = (string2chars further).map ((ch :: rest) :: ·) := by
  rw [List.cons_append, string2chars]
  split
  case h_1 missing => rw [missing] at length; cases length
  case h_2 numBytes found =>
    rw [length] at found
    cases found
    simp

/-- Every string of the list is one code point. -/
def Characters (symbols : List CString) : Prop :=
  ∀ symbol ∈ symbols, ∃ char, symbol = String.utf8EncodeChar char

theorem characters_map (chars : List Char) : Characters (chars.map String.utf8EncodeChar) := by
  intro symbol member
  obtain ⟨char, _, rfl⟩ := List.mem_map.mp member
  exact ⟨char, rfl⟩

theorem Characters.append {symbols symbols' : List CString} (characters : Characters symbols)
    (characters' : Characters symbols') : Characters (symbols ++ symbols') :=
  List.forall_mem_append.mpr ⟨characters, characters'⟩

theorem Characters.suffix {symbols symbols' : List CString} (characters : Characters symbols)
    (suffix : symbols' <:+ symbols) : Characters symbols' :=
  fun symbol member => characters symbol (suffix.subset member)

theorem string2chars_flatten {symbols : List CString} (characters : Characters symbols) :
    string2chars symbols.flatten = some symbols := by
  induction symbols with
  | nil => simp [string2chars]
  | cons symbol rest inductionHypothesis =>
    obtain ⟨⟨char, rfl⟩, others⟩ := List.forall_mem_cons.mp characters
    obtain ⟨ch, tail, encoded, length⟩ := charLength_encode char
    rw [List.flatten_cons, encoded, string2chars_cons length, inductionHypothesis others]
    rfl

/-- Valid UTF-8 is cut into its code points. -/
theorem string2chars_encode (chars : List Char) :
    string2chars (encode chars) = some (chars.map String.utf8EncodeChar) := by
  rw [encode_units]
  exact string2chars_flatten (characters_map chars)

/-- An ASCII byte is a code point. -/
theorem encode_ascii : ∀ code < 128, [UInt8.ofNat code] = String.utf8EncodeChar (Char.ofNat code) := by
  decide

theorem characters_ascii {text : CString} (ascii : ∀ byte ∈ text, byte < 128) :
    Characters (text.map ([·])) := by
  intro symbol member
  obtain ⟨byte, inside, rfl⟩ := List.mem_map.mp member
  exact ⟨Char.ofNat byte.toNat, by simpa using encode_ascii byte.toNat (ascii byte inside)⟩

end Asr2Pass.Itn
