import Mathlib.Data.List.Basic

/-! # `std::string`

A string is a list of bytes.
-/

namespace Asr2Pass.Text

abbrev CString := List UInt8

instance : LawfulBEq CString := inferInstance

/-- A literal. -/
def bytes (literal : String) : CString := literal.toUTF8.data.toList

/-- Where `pattern` occurs first. -/
def find (pattern : CString) : CString → Option Nat
  | [] => if pattern = [] then some 0 else none
  | byte :: rest =>
    if pattern.isPrefixOf (byte :: rest) then some 0 else (find pattern rest).map (· + 1)

def contains (text pattern : CString) : Bool := (find pattern text).isSome

end Asr2Pass.Text
