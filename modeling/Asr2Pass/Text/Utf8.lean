import Asr2Pass.Library.SelfDelimiting
import Asr2Pass.Text.Strings

/-! # Characters in a byte string

The source takes a byte without its highest bit for a character of its own, and else reads the
length of a character off the leading ones of its first byte.
-/

namespace Asr2Pass.Text

open Library

/-- `!(ch & 0x80)`. -/
def isAscii (byte : UInt8) : Bool := byte &&& 0x80 = 0

/-- `str[0] & 0x80` of a string that may be empty. -/
def startsAscii (text : CString) : Bool := isAscii (text.headD 0)

/-- The loop over `j`, with the rounds that are left. -/
def leadingOnes (byte : UInt8) (j : Nat) : Nat → Nat
  | 0 => j
  | left + 1 => if byte &&& (0x80 >>> UInt8.ofNat j) ≠ 0 then leadingOnes byte (j + 1) left else j

/-- How many bytes the character of a first byte has. -/
def charLen (byte : UInt8) : Nat := max 1 (leadingOnes byte 0 6)

/-- The bytes of one character. -/
inductive Utf8Unit : CString → Prop where
  | ascii {byte : UInt8} : isAscii byte → Utf8Unit [byte]
  | wide {byte : UInt8} {rest : CString} : charLen byte = rest.length + 1 →
      (∀ byte' ∈ byte :: rest, ¬ isAscii byte') → Utf8Unit (byte :: rest)

theorem Utf8Unit.nonempty {unit : CString} (valid : Utf8Unit unit) : unit ≠ [] := by
  cases valid <;> simp

theorem isAscii_ofNat : ∀ code < 128, isAscii (UInt8.ofNat code) := by
  decide

theorem not_isAscii_ofNat : ∀ code < 128, ¬ isAscii (UInt8.ofNat (code + 0x80)) := by
  decide

/-- A length that is right on the first bytes of the four forms is announced by every code point. -/
theorem announced_encode {size : UInt8 → Nat} (one : ∀ code < 128, size (UInt8.ofNat code) = 1)
    (two : ∀ code < 0x20, size (UInt8.ofNat (code + 0xc0)) = 2)
    (three : ∀ code < 0x10, size (UInt8.ofNat (code + 0xe0)) = 3)
    (four : ∀ code < 0x08, size (UInt8.ofNat (code + 0xf0)) = 4) (char : Char) :
    Announced size (String.utf8EncodeChar char) := by
  fun_cases String.utf8EncodeChar char with
  | case1 => exact .word (one _ (by omega))
  | case2 => exact .word (two _ (by omega))
  | case3 => exact .word (three _ (by omega))
  | case4 => exact .word (four _ (by omega))

theorem utf8Unit_of_announced {text : CString} (announced : Announced charLen text)
    (form : (∃ byte, text = [byte] ∧ isAscii byte) ∨ ∀ byte ∈ text, ¬ isAscii byte) :
    Utf8Unit text := by
  rcases form with ⟨byte, rfl, one⟩ | wide
  · exact .ascii one
  · cases announced with
    | word length => exact .wide length wide

/-- Every code point in UTF-8 is a character of the source. -/
theorem utf8Unit_encode (char : Char) : Utf8Unit (String.utf8EncodeChar char) := by
  have follows (code : Nat) : ¬ isAscii (UInt8.ofNat (code % 0x40 + 0x80)) :=
    not_isAscii_ofNat _ (by omega)
  have announced : Announced charLen (String.utf8EncodeChar char) :=
    announced_encode (by decide) (by decide) (by decide) (by decide) char
  refine utf8Unit_of_announced announced ?_
  fun_cases String.utf8EncodeChar char with
  | case1 code one => exact .inl ⟨_, rfl, isAscii_ofNat _ (by omega)⟩
  | case2 code _ two =>
    right
    have leads := not_isAscii_ofNat (code / 64 % 0x20 + 0x40) (by omega)
    simp only [List.forall_mem_cons]
    exact ⟨leads, follows _, by simp⟩
  | case3 code _ _ three =>
    right
    have leads := not_isAscii_ofNat (code / 4096 % 0x10 + 0x60) (by omega)
    simp only [List.forall_mem_cons]
    exact ⟨leads, follows _, follows _, by simp⟩
  | case4 code _ _ four =>
    right
    have leads := not_isAscii_ofNat (code / 262144 % 0x08 + 0x70) (by omega)
    simp only [List.forall_mem_cons]
    exact ⟨leads, follows _, follows _, follows _, by simp⟩

/-- The text of code points. -/
def encode (chars : List Char) : CString := chars.flatMap String.utf8EncodeChar

theorem encode_units (chars : List Char) :
    encode chars = (chars.map String.utf8EncodeChar).flatten :=
  List.flatMap_def

end Asr2Pass.Text
