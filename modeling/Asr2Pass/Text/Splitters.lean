import Asr2Pass.Ctc.BuildContextGraph
import Asr2Pass.Punctuation.Tokenizer
import Asr2Pass.Text.Charset
import Asr2Pass.Timestamps.EncodeConverter

/-! # The splitters of UTF-8 strings

Four functions cut a string into characters and two count the characters, each in a loop of its own.
`SplitChineseString` keeps the size of the string in an `int`, where the others compare with a `size_t`.
-/

namespace Asr2Pass.Text

open Library Itn Ctc Punctuation
open Timestamps.EncodeConverter (castInt castInt_spec castInt_of_lt)

/-! ## The loops -/

theorem leadingOnes_le (byte : UInt8) (j left : Nat) : leadingOnes byte j left ≤ j + left := by
  induction left generalizing j with
  | zero => exact Nat.le_refl _
  | succ left inductionHypothesis =>
    have next := inductionHypothesis (j + 1)
    rw [leadingOnes]
    split <;> omega

theorem charLen_bounds (byte : UInt8) : 0 < charLen byte ∧ charLen byte ≤ 6 := by
  have := leadingOnes_le byte 0 6
  unfold charLen
  omega

/-- The loop of `SplitChineseString` over the bytes from `i` on; none where `i` is no `int` any more. -/
def splitChineseLoop (strSize : Int) (i : Nat) (str : CString) : Option (List CString) :=
  match str with
  | [] => some []
  | byte :: rest =>
    if i < strSize then
      let len := charLen byte
      if i + len < 2 ^ 31 then
        (splitChineseLoop strSize (i + len) ((byte :: rest).drop len)).map ((byte :: rest).take len :: ·)
      else none
    else some []
termination_by str.length
decreasing_by
  have := charLen_bounds byte
  rw [List.length_drop, List.length_cons]
  omega

/-- `SplitChineseString` with its `int strSize`. -/
def intSplitChineseString (str : CString) : Option (List CString) :=
  splitChineseLoop (castInt str.length) 0 str

/-- The loop of `UTF8StringLength`, with at most `turns` turns. -/
def utf8LengthLoop (len : Int) (bytes : Nat) : Nat → CString → Int
  | 0, _ | _, [] => len
  | turns + 1, ch :: rest =>
    let bytes := utf8Bytes bytes ch
    utf8LengthLoop ((len + 1).bmod (2 ^ 32)) bytes turns ((ch :: rest).drop bytes)

/-- `UTF8StringLength` with its `int len`. -/
def intUtf8StringLength (str : CString) : Int := utf8LengthLoop 0 1 str.length str

/-- The loop of `string_length`, none when the `CHECK` of `char_length` fails. -/
def stringLengthLoop (len : Int) (str : CString) : Option Int :=
  match str with
  | [] => some len
  | ch :: rest =>
    match _length : charLength ch with
    | none => none
    | some numBytes => stringLengthLoop ((len + 1).bmod (2 ^ 32)) ((ch :: rest).drop numBytes)
termination_by str.length
decreasing_by
  have := charLength_pos _length
  rw [List.length_drop, List.length_cons]
  omega

def stringLength (str : CString) : Option Int := stringLengthLoop 0 str

/-! ## Strings whose size is an `int` -/

/-- Well inside the range of an `int`, the loop is that of the tokenizer. -/
theorem splitChineseLoop_eq {strSize : Int} {i count : Nat} {str : CString}
    (size : str ≠ [] → strSize = i + str.length) (isInt : strSize + 6 < 2 ^ 31)
    (enough : str.length ≤ count) :
    splitChineseLoop strSize i str = some (splitCharacters count str) := by
  induction count generalizing i str with
  | zero =>
    rw [List.length_eq_zero_iff.mp (Nat.le_zero.mp enough), splitChineseLoop]
    rfl
  | succ count inductionHypothesis =>
    cases str with
    | nil => rw [splitChineseLoop]; rfl
    | cons byte rest =>
      have bounds := charLen_bounds byte
      have here := size (List.cons_ne_nil _ _)
      rw [List.length_cons] at here enough
      have following := @inductionHypothesis (i + charLen byte) ((byte :: rest).drop (charLen byte))
        (fun further => by
          have := List.length_pos_iff.mpr further
          rw [List.length_drop, List.length_cons] at this ⊢
          omega)
        (by rw [List.length_drop, List.length_cons]; omega)
      rw [splitChineseLoop, if_pos (by omega)]
      dsimp only
      rw [if_pos (by omega), following, Option.map_some]
      rfl

theorem intSplitChineseString_eq {str : CString} (isInt : str.length + 6 < 2 ^ 31) :
    intSplitChineseString str = some (splitChineseString str) := by
  rw [intSplitChineseString, castInt_of_lt (by omega)]
  exact splitChineseLoop_eq (fun _ => by omega) (by omega) (Nat.le_refl _)

theorem utf8LengthLoop_eq {len turns : Nat} (isInt : len + turns < 2 ^ 31) (bytes : Nat)
    (str : CString) :
    utf8LengthLoop len bytes turns str = (len + (splitCharsLoop bytes turns str).length : Nat) := by
  induction turns generalizing len bytes str with
  | zero => rfl
  | succ turns inductionHypothesis =>
    cases str with
    | nil => rfl
    | cons ch rest =>
      have next : ((len : Int) + 1).bmod (2 ^ 32) = (len + 1 : Nat) :=
        @castInt_of_lt (len + 1) (by omega)
      rw [utf8LengthLoop, splitCharsLoop, next, inductionHypothesis (by omega), List.length_cons,
        Nat.add_assoc, Nat.add_comm 1]

theorem intUtf8StringLength_eq {str : CString} (isInt : str.length < 2 ^ 31) :
    intUtf8StringLength str = utf8StringLength str := by
  have counted := @utf8LengthLoop_eq 0 str.length (by omega) 1 str
  rw [Nat.zero_add] at counted
  exact counted

/-- `string_length` counts what `string2chars` cuts, and fails where it fails. -/
theorem stringLengthLoop_eq {len : Nat} {str : CString} (isInt : len + str.length < 2 ^ 31) :
    stringLengthLoop len str =
      (string2chars str).map fun chars => ((len + chars.length : Nat) : Int) := by
  fun_induction string2chars str generalizing len with
  | case1 => rw [stringLengthLoop, Option.map_some]; rfl
  | case2 ch rest failed =>
    rw [stringLengthLoop]
    split
    · rfl
    next found => rw [failed] at found; cases found
  | case3 ch rest numBytes length inductionHypothesis =>
    have pos := charLength_pos length
    have next : ((len : Int) + 1).bmod (2 ^ 32) = (len + 1 : Nat) :=
      @castInt_of_lt (len + 1) (by rw [List.length_cons] at isInt; omega)
    rw [stringLengthLoop]
    split
    next failed => rw [length] at failed; cases failed
    next found isFound =>
      obtain rfl := Option.some.inj (length.symm.trans isFound)
      have shorter : len + 1 + ((ch :: rest).drop numBytes).length < 2 ^ 31 := by
        rw [List.length_cons] at isInt
        rw [List.length_drop, List.length_cons]
        omega
      have added : ((fun chars : List CString => ((len + chars.length : Nat) : Int)) ∘
          ((ch :: rest).take numBytes :: ·)) = fun chars => ((len + 1 + chars.length : Nat) : Int) := by
        funext chars
        rw [Function.comp_apply, List.length_cons, Nat.add_assoc, Nat.add_comm 1]
      rw [next, inductionHypothesis shorter, Option.map_map, added]

theorem stringLength_eq {str : CString} (isInt : str.length < 2 ^ 31) :
    stringLength str = (string2chars str).map fun chars => (chars.length : Int) := by
  have counted := @stringLengthLoop_eq 0 str (by omega)
  simp only [Nat.zero_add] at counted
  exact counted

/-! ## First bytes -/

theorem utf8Bytes_eq {ch : UInt8} (begins : utf8Bytes 0 ch ≠ 0) (bytes : Nat) :
    utf8Bytes bytes ch = utf8Bytes 0 ch := by
  unfold utf8Bytes at *
  split
  · rfl
  · split
    · rfl
    · split
      · rfl
      · split
        · rfl
        · simp_all

theorem lengths_agree_ofNat : ∀ code < 256, utf8Bytes 0 (UInt8.ofNat code) ≠ 0 →
    charLength (UInt8.ofNat code) = some (utf8Bytes 0 (UInt8.ofNat code)) ∧
      charLen (UInt8.ofNat code) = utf8Bytes 0 (UInt8.ofNat code) ∧
        charsetLen (UInt8.ofNat code) = utf8Bytes 0 (UInt8.ofNat code) := by
  decide +kernel

/-- On a byte that begins a character, the masks, the bits and the thresholds say the same. -/
theorem lengths_agree {ch : UInt8} (begins : utf8Bytes 0 ch ≠ 0) :
    charLength ch = some (utf8Bytes 0 ch) ∧ charLen ch = utf8Bytes 0 ch ∧
      charsetLen ch = utf8Bytes 0 ch := by
  have agree := lengths_agree_ofNat ch.toNat ch.toNat_lt
  rw [UInt8.ofNat_toNat] at agree
  exact agree begins

theorem announced_characters (chars : List Char) :
    ∀ word ∈ chars.map String.utf8EncodeChar, Announced (utf8Bytes 0) word := by
  intro word member
  obtain ⟨char, -, rfl⟩ := List.mem_map.mp member
  exact announced_encode (by decide) (by decide) (by decide) (by decide) char

/-! ## The loops over characters -/

section
variable {words : List CString} (announced : ∀ word ∈ words, Announced (utf8Bytes 0) word)
include announced

theorem charsetLoop_characters :
    charsetLoop words.flatten 0 [] = some words := by
  have announced' : ∀ word ∈ words, Announced charsetLen word := fun word member =>
    (announced word member).of_agree fun _ begins => (lengths_agree begins).2.2
  exact charsetLoop_words announced' [] []

theorem splitChineseLoop_characters {strSize : Int} {i : Nat} (size : strSize = i + words.flatten.length)
    (isInt : strSize < 2 ^ 31) : splitChineseLoop strSize i words.flatten = some words := by
  induction words generalizing i with
  | nil => rw [List.flatten_nil, splitChineseLoop]
  | cons word words inductionHypothesis =>
    obtain ⟨@⟨byte, rest, length⟩, others⟩ := List.forall_mem_cons.mp announced
    have len : charLen byte = rest.length + 1 := (lengths_agree (by omega)).2.1.trans length
    simp only [List.flatten_cons, List.length_append, List.length_cons] at size
    have following := @inductionHypothesis others (i + charLen byte) (by omega)
    rw [List.flatten_cons, List.cons_append, splitChineseLoop, if_pos (by omega)]
    dsimp only
    rw [if_pos (by omega), take_announced len, drop_announced len, following, Option.map_some]

theorem splitCharsLoop_characters (bytes : Nat) {turns : Nat} (enough : words.flatten.length ≤ turns) :
    splitCharsLoop bytes turns words.flatten = words := by
  induction words generalizing bytes turns with
  | nil => cases turns <;> rfl
  | cons word words inductionHypothesis =>
    obtain ⟨@⟨ch, rest, length⟩, others⟩ := List.forall_mem_cons.mp announced
    have len : utf8Bytes bytes ch = rest.length + 1 := (utf8Bytes_eq (by omega) bytes).trans length
    simp only [List.flatten_cons, List.length_append, List.length_cons] at enough
    obtain ⟨left, rfl⟩ : ∃ left, turns = left + 1 := ⟨turns - 1, by omega⟩
    rw [List.flatten_cons, List.cons_append, splitCharsLoop, take_announced len, drop_announced len,
      inductionHypothesis others _ (by omega)]

end

/-- `SplitChineseString` takes no character that begins behind `strSize`. -/
theorem splitChineseLoop_length {strSize : Int} {i : Nat} {str : CString} {list : List CString}
    (ends : splitChineseLoop strSize i str = some list) :
    list = [] ∨ i + list.flatten.length < strSize + 6 := by
  fun_induction splitChineseLoop strSize i str generalizing list
  case case1 => exact .inl (Option.some.inj ends).symm
  case case2 i byte rest inside len fits inductionHypothesis =>
    obtain ⟨others, following, rfl⟩ := Option.map_eq_some_iff.mp ends
    have most := (charLen_bounds byte).2
    have piece := List.length_take_le len (byte :: rest)
    right
    rw [List.flatten_cons, List.length_append]
    rcases inductionHypothesis following with rfl | fewer
    · rw [List.flatten_nil, List.length_nil]
      omega
    · omega
  case case3 => cases ends
  case case4 => exact .inl (Option.some.inj ends).symm

/-! ## Agreement -/

/-- The splitters return the characters, which make up the string, and the counters their number. -/
structure SplittersAgree (str : CString) (chars : List CString) : Prop where
  concatenation : chars.flatten = str
  utf8ToCharset : utf8ToCharset str [] = some (chars, chars.length)
  splitChineseString : intSplitChineseString str = some chars
  string2chars : string2chars str = some chars
  splitUTF8StringToChars : splitUTF8StringToChars str = chars
  utf8StringLength : intUtf8StringLength str = chars.length
  stringLength : stringLength str = some (chars.length : Int)

/-- They do exactly when the size of the string is an `int`. -/
theorem splittersAgree_iff (chars : List Char) :
    SplittersAgree (encode chars) (chars.map String.utf8EncodeChar) ↔ (encode chars).length < 2 ^ 31 := by
  have announced := announced_characters chars
  have written := encode_units chars
  constructor
  · intro agree
    by_contra long
    have spec := castInt_spec (encode chars).length
    rcases splitChineseLoop_length agree.splitChineseString with none | fewer
    · rw [written, none] at long
      simp at long
    · rw [← written] at fewer
      omega
  · intro isInt
    have size := castInt_of_lt isInt
    have counted := intUtf8StringLength_eq isInt
    have counted' := stringLength_eq isInt
    have split : splitUTF8StringToChars (encode chars) = chars.map String.utf8EncodeChar := by
      rw [written]
      exact splitCharsLoop_characters announced _ (Nat.le_refl _)
    constructor
    case concatenation => exact written.symm
    case utf8ToCharset => rw [written, utf8ToCharset, charsetLoop_characters announced, Option.map_some]
    case splitChineseString =>
      rw [intSplitChineseString, size, written]
      rw [written] at isInt
      exact splitChineseLoop_characters announced (by omega) (by omega)
    case string2chars => exact string2chars_encode chars
    case splitUTF8StringToChars => exact split
    case utf8StringLength => rw [counted, utf8StringLength, split]
    case stringLength => rw [counted', string2chars_encode, Option.map_some]

/-- The size of 2 ^ 31 + 1 bytes is negative as an `int`, and `SplitChineseString` returns nothing of
    them. -/
theorem not_splittersAgree_long :
    intSplitChineseString (encode (List.replicate 715827883 '中')) = some [] ∧
      ¬ SplittersAgree (encode (List.replicate 715827883 '中'))
        ((List.replicate 715827883 '中').map String.utf8EncodeChar) := by
  have three : (String.utf8EncodeChar '中').length = 3 := by decide
  have size : (encode (List.replicate 715827883 '中')).length = 2 ^ 31 + 1 := by
    rw [encode, List.length_flatMap, List.map_replicate, List.sum_replicate_nat, three]
    rfl
  have nothing : intSplitChineseString (encode (List.replicate 715827883 '中')) = some [] := by
    rw [intSplitChineseString, size]
    cases encode (List.replicate 715827883 '中') with
    | nil => rw [splitChineseLoop]
    | cons byte rest => rw [splitChineseLoop, if_neg (by decide)]
  refine ⟨nothing, ?_⟩
  intro agree
  have isEmpty := Option.some.inj (nothing.symm.trans agree.splitChineseString)
  rw [← agree.concatenation, ← isEmpty] at size
  simp at size

end Asr2Pass.Text
