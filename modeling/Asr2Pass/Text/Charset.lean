import Asr2Pass.Library.SelfDelimiting
import Asr2Pass.Text.Strings

/-! # `Utf8ToCharset`

The loop cuts a string by the lengths that first bytes say, and ends where `i` is the length of the
string.  The last character of a string that ends inside it takes `i` past that place.  There are two
copies of the function.
-/

namespace Asr2Pass.Text

open Library

/-- `len` for a first byte. -/
def charsetLen (byte : UInt8) : Nat :=
  if byte ≥ 0xFC then 6
  else if byte ≥ 0xF8 then 5
  else if byte ≥ 0xF0 then 4
  else if byte ≥ 0xE0 then 3
  else if byte ≥ 0xC0 then 2
  else 1

theorem charsetLen_pos (byte : UInt8) : 0 < charsetLen byte := by
  unfold charsetLen
  repeat' split
  all_goals decide

/-- The loop.  Where `i` is greater than the length, `input[i]` is no byte of the string and `substr`
    throws: none. -/
def charsetLoop (input : CString) (i : Nat) (output : List CString) : Option (List CString) :=
  if i = input.length then some output
  else
    match _at : input[i]? with
    | none => none
    | some byte =>
      let len := charsetLen byte
      let ch := (input.drop i).take len
      charsetLoop input (i + len) (output ++ [ch])
termination_by input.length - i
decreasing_by
  have inside := (List.getElem?_eq_some_iff.mp _at).1
  have := charsetLen_pos byte
  omega

/-- `output`, and its size, which is returned. -/
def utf8ToCharset (input : CString) (output : List CString) : Option (List CString × Nat) :=
  (charsetLoop input 0 output).map fun output => (output, output.length)

def EncodeConverter.utf8ToCharset (input : CString) (output : List CString) :
    Option (List CString × Nat) :=
  Text.utf8ToCharset input output

/-! ## The characters -/

theorem charsetLoop_none {input : CString} {i : Nat} (past : input.length < i)
    (output : List CString) : charsetLoop input i output = none := by
  rw [charsetLoop, if_neg (by omega)]
  split
  · rfl
  next byte inside =>
    have := (List.getElem?_eq_some_iff.mp inside).1
    omega

theorem charsetLoop_words {words : List CString} (announced : ∀ word ∈ words, Announced charsetLen word)
    (read : CString) (output : List CString) :
    charsetLoop (read ++ words.flatten) read.length output = some (output ++ words) := by
  induction words generalizing read output with
  | nil => rw [charsetLoop, if_pos (by simp), List.append_nil]
  | cons word words inductionHypothesis =>
    obtain ⟨@⟨byte, rest, length⟩, others⟩ := List.forall_mem_cons.mp announced
    have read' := inductionHypothesis others (read ++ byte :: rest) (output ++ [byte :: rest])
    rw [List.append_assoc, List.append_assoc, List.length_append, List.length_cons, ← length] at read'
    rw [List.flatten_cons, charsetLoop, if_neg (by simp)]
    split
    next missing => simp at missing
    next byte' inside =>
      obtain rfl : byte' = byte := by simpa using inside.symm
      dsimp only
      rw [List.drop_left, List.cons_append, take_announced length]
      exact read'

/-- The pieces of the loop are characters, and nothing is left behind them. -/
theorem exists_words {input : CString} {i : Nat} {output result : List CString}
    (ends : charsetLoop input i output = some result) :
    ∃ words, (∀ word ∈ words, Announced charsetLen word) ∧ words.flatten = input.drop i ∧
      result = output ++ words := by
  fun_induction charsetLoop input i output with
  | case1 output =>
    obtain rfl := Option.some.inj ends
    exact ⟨[], by simp, by simp, by simp⟩
  | case2 => cases ends
  | case3 i output _ byte inside len ch inductionHypothesis =>
    obtain ⟨words, announced, written, rfl⟩ := inductionHypothesis ends
    obtain ⟨isInside, rfl⟩ := List.getElem?_eq_some_iff.mp inside
    have enough : i + len ≤ input.length := by
      by_contra past
      rw [charsetLoop_none (by omega)] at ends
      cases ends
    refine ⟨ch :: words, ?_, ?_, by simp⟩
    · refine List.forall_mem_cons.mpr ⟨?_, announced⟩
      have size : len ≤ (input.drop i).length := by rw [List.length_drop]; omega
      simp only [ch]
      rw [List.drop_eq_getElem_cons isInside] at size ⊢
      exact announced_take (charsetLen_pos _) size
    · rw [List.flatten_cons, written, ← List.drop_drop, List.take_append_drop]

/-! ## Totality -/

/-- The function ends inside the string, and appends pieces that are the string. -/
def CutsWhole (utf8ToCharset : CString → List CString → Option (List CString × Nat))
    (input : CString) : Prop :=
  ∀ output, ∃ pieces, utf8ToCharset input output = some (output ++ pieces, (output ++ pieces).length) ∧
    pieces.flatten = input

/-- It does exactly on the strings that do not end inside a character. -/
theorem cutsWhole_iff (input : CString) :
    (CutsWhole utf8ToCharset input ∧ CutsWhole EncodeConverter.utf8ToCharset input) ↔
      MadeOf charsetLen input := by
  constructor
  · rintro ⟨cuts, -⟩
    obtain ⟨pieces, cut, -⟩ := cuts []
    obtain ⟨result, ends, -⟩ := Option.map_eq_some_iff.mp cut
    obtain ⟨words, announced, written, -⟩ := exists_words ends
    exact ⟨words, announced, written⟩
  · rintro ⟨words, announced, rfl⟩
    have cuts : CutsWhole utf8ToCharset words.flatten := by
      intro output
      refine ⟨words, ?_, rfl⟩
      have ends := charsetLoop_words announced [] output
      rw [List.nil_append, List.length_nil] at ends
      rw [utf8ToCharset, ends, Option.map_some]
    exact ⟨cuts, cuts⟩

/-- A first byte of three alone. -/
theorem not_cutsWhole_half :
    utf8ToCharset [0xE4] [] = none ∧ EncodeConverter.utf8ToCharset [0xE4] [] = none ∧
      ¬ CutsWhole utf8ToCharset [0xE4] := by
  have past : utf8ToCharset [0xE4] [] = none := by
    rw [utf8ToCharset, charsetLoop]
    exact congrArg _ (charsetLoop_none (by decide) _)
  refine ⟨past, past, ?_⟩
  intro cuts
  obtain ⟨pieces, cut, -⟩ := cuts []
  rw [past] at cut
  cases cut

end Asr2Pass.Text
