import Mathlib.Data.List.Induction
import Mathlib.Data.Rat.Floor
import Mathlib.Tactic.FieldSimp
import Mathlib.Tactic.IntervalCases
import Mathlib.Tactic.Ring
import Asr2Pass.Text.Strings

/-! # Numbers as text

`std::to_string`, `std::stof` and `std::stoi`.  Numbers are exact: a `float` is the rational number
that it stands for, and its range is not modelled.  A reader answers `none` where the library throws
an exception, and for an infinity or a NaN, which no `int` can hold.
-/

namespace Asr2Pass.Text

/-! ## Writing -/

def decimal (number : Nat) : CString :=
  (Nat.toDigits 10 number).map fun digit => digit.toNat.toUInt8

/-- `std::to_string` of an `int`. -/
def toStringInt (number : Int) : CString :=
  (if number < 0 then bytes "-" else []) ++ decimal number.natAbs

/-- The nearest number, and of two the even one. -/
def roundHalfEven (value : ℚ) : Nat :=
  if value - ⌊value⌋₊ < 1 / 2 then ⌊value⌋₊
  else if 1 / 2 < value - ⌊value⌋₊ then ⌊value⌋₊ + 1
  else ⌊value⌋₊ + ⌊value⌋₊ % 2

/-- The digits that `%f` prints. -/
def millionths (value : ℚ) : Nat := roundHalfEven (|value| * 10 ^ 6)

/-- `std::to_string` of a `float`. -/
def toStringFloat (value : ℚ) : CString :=
  (if value < 0 then bytes "-" else []) ++ decimal (millionths value / 10 ^ 6) ++ bytes "." ++
    (decimal (millionths value % 10 ^ 6)).leftpad 6 48

/-- The number that is printed. -/
def printed (value : ℚ) : ℚ := (if value < 0 then -1 else 1) * (millionths value / 10 ^ 6)

/-! ## Reading -/

def isSpace (byte : UInt8) : Bool := byte = 32 || (9 ≤ byte && byte ≤ 13)

def digitValue (byte : UInt8) : Nat :=
  if 48 ≤ byte.toNat ∧ byte.toNat ≤ 57 then byte.toNat - 48
  else if 97 ≤ byte.toNat ∧ byte.toNat ≤ 102 then byte.toNat - 87
  else if 65 ≤ byte.toNat ∧ byte.toNat ≤ 70 then byte.toNat - 55
  else 16

def isDigit (base : Nat) (byte : UInt8) : Bool := digitValue byte < base

def numeral (base : Nat) (digits : CString) : Nat :=
  digits.foldl (fun value digit => base * value + digitValue digit) 0

/-- An optional sign. -/
def readSign (text : CString) : Bool × CString :=
  match text with
  | [] => (false, [])
  | byte :: rest =>
    if byte = 45 then (true, rest) else if byte = 43 then (false, rest) else (false, byte :: rest)

/-- The digits after an optional point, and what follows them. -/
def readFraction (base : Nat) (text : CString) : CString × CString :=
  match text with
  | [] => ([], [])
  | byte :: rest =>
    if byte = 46 then (rest.takeWhile (isDigit base), rest.dropWhile (isDigit base))
    else ([], byte :: rest)

/-- An optional exponent; zero where no digit follows the mark. -/
def readExponent (marks : List UInt8) (text : CString) : Int :=
  match text with
  | [] => 0
  | mark :: rest =>
    let (negative, digits) := readSign rest
    if mark ∉ marks then 0
    else if negative then -(numeral 10 (digits.takeWhile (isDigit 10)) : Int)
    else numeral 10 (digits.takeWhile (isDigit 10))

def readMagnitude (base radix : Nat) (marks : List UInt8) (text : CString) : Option ℚ :=
  let whole := text.takeWhile (isDigit base)
  let (fraction, rest) := readFraction base (text.dropWhile (isDigit base))
  let exponent := readExponent marks rest
  if whole = [] ∧ fraction = [] then none
  else some (numeral base (whole ++ fraction) / base ^ fraction.length * radix ^ exponent.toNat /
    radix ^ (-exponent).toNat)

/-- A hexadecimal number begins with `0x`; where no digit follows, this is a zero. -/
def readUnsigned (text : CString) : Option ℚ :=
  if text.head? = some 48 ∧ (text[1]? = some 120 ∨ text[1]? = some 88) then
    (readMagnitude 16 2 (bytes "pP") (text.drop 2)).or (some 0)
  else readMagnitude 10 10 (bytes "eE") text

/-- `std::stof`. -/
def stof (text : CString) : Option ℚ :=
  let (negative, rest) := readSign (text.dropWhile isSpace)
  (readUnsigned rest).map fun value => if negative then -value else value

/-- `std::stoi`. -/
def stoi (text : CString) : Option Int :=
  let (negative, rest) := readSign (text.dropWhile isSpace)
  let digits := rest.takeWhile (isDigit 10)
  let value : Int := if negative then -(numeral 10 digits : Int) else numeral 10 digits
  if digits = [] ∨ value < -2 ^ 31 ∨ 2 ^ 31 ≤ value then none else some value

/-! ## Digits -/

section
variable {base number : Nat} {digits more : CString}

theorem digit_range {digit : Char} (isDigit : digit.isDigit) :
    48 ≤ digit.toNat ∧ digit.toNat ≤ 57 := by
  simp only [Char.isDigit, ge_iff_le, Bool.and_eq_true, decide_eq_true_eq,
    UInt32.le_iff_toNat_le] at isDigit
  exact isDigit

theorem digitValue_toUInt8 {digit : Char} (isDigit : digit.isDigit) :
    digitValue digit.toNat.toUInt8 = digit.toNat - 48 := by
  have range := digit_range isDigit
  have small : digit.toNat.toUInt8.toNat = digit.toNat := by
    rw [Nat.toUInt8, UInt8.toNat_ofNat']
    omega
  unfold digitValue
  rw [small, if_pos range]

theorem isDigit_range {byte : UInt8} (digit : isDigit 10 byte) :
    48 ≤ byte.toNat ∧ byte.toNat ≤ 57 := by
  unfold isDigit at digit
  rw [decide_eq_true_eq] at digit
  unfold digitValue at digit
  split at digit
  · assumption
  · split at digit
    · omega
    · split at digit <;> omega

theorem isDigit_of_mem_decimal {byte : UInt8} (member : byte ∈ decimal number) :
    isDigit 10 byte := by
  obtain ⟨digit, inside, rfl⟩ := List.mem_map.mp member
  have decimalDigit := Nat.isDigit_of_mem_toDigits (by decide) (by decide) inside
  have range := digit_range decimalDigit
  unfold isDigit
  rw [digitValue_toUInt8 decimalDigit, decide_eq_true_eq]
  omega

theorem decimal_ne_nil (number : Nat) : decimal number ≠ [] := by
  unfold decimal
  rw [Ne, List.map_eq_nil_iff]
  exact Nat.toDigits_ne_nil

/-- A number other than zero has no leading zero. -/
theorem head_decimal_ne : ∀ {number : Nat}, number ≠ 0 → (decimal number).head? ≠ some 48 := by
  intro number
  induction number using Nat.strongRecOn with
  | ind number inductionHypothesis =>
    intro nonzero
    unfold decimal
    rw [Nat.toDigits_eq_if (by decide)]
    split
    · rename_i small
      interval_cases number <;> first | exact absurd rfl nonzero | simp [Nat.digitChar]
    · -- The first digit is that of a tenth of the number.
      rename_i large
      obtain ⟨first, rest, same⟩ := List.exists_cons_of_ne_nil (decimal_ne_nil (number / 10))
      have smaller := inductionHypothesis (number / 10) (by omega) (by omega)
      rw [same] at smaller
      rw [List.map_append]
      show (decimal (number / 10) ++ _).head? ≠ _
      rw [same]
      exact smaller

theorem numeral_decimal (number : Nat) : numeral 10 (decimal number) = number := by
  have whole := @Nat.ofDigitChars_ten_toDigits number
  rw [Nat.ofDigitChars_eq_foldl] at whole
  unfold numeral decimal
  rw [List.foldl_map]
  calc _ = _ := by
        apply List.foldl_ext
        intro value digit member
        rw [digitValue_toUInt8 (Nat.isDigit_of_mem_toDigits (by decide) (by decide) member)]
        rfl
    _ = number := whole

theorem numeral_append (base : Nat) (digits more : CString) :
    numeral base (digits ++ more) = numeral base digits * base ^ more.length + numeral base more := by
  induction more using List.reverseRecOn with
  | nil => simp [numeral]
  | append_singleton more last inductionHypothesis =>
    have snoc : ∀ list : CString,
        numeral base (list ++ [last]) = base * numeral base list + digitValue last := by
      intro list
      simp [numeral]
    rw [← List.append_assoc, snoc, snoc, inductionHypothesis, List.length_append,
      List.length_singleton]
    ring

theorem numeral_leftpad (size : Nat) (digits : CString) :
    numeral 10 (digits.leftpad size 48) = numeral 10 digits := by
  unfold List.leftpad
  rw [numeral_append]
  have zeros : ∀ count, numeral 10 (List.replicate count 48) = 0 := by
    intro count
    induction count with
    | zero => rfl
    | succ count inductionHypothesis =>
      rw [List.replicate_succ']
      unfold numeral at inductionHypothesis ⊢
      rw [List.foldl_append, inductionHypothesis]
      rfl
  rw [zeros, Nat.zero_mul, Nat.zero_add]

theorem decimal_length_le : number < 10 ^ 6 → (decimal number).length ≤ 6 := by
  intro small
  unfold decimal
  rw [List.length_map]
  exact (Nat.length_toDigits_le_iff (by decide) (by decide)).mpr small

/-- The digits of a number end where something else begins. -/
theorem span_digits (all : ∀ byte ∈ digits, isDigit base byte)
    (stop : ∀ byte ∈ more.head?, ¬ isDigit base byte) :
    (digits ++ more).takeWhile (isDigit base) = digits ∧
      (digits ++ more).dropWhile (isDigit base) = more := by
  rw [List.takeWhile_append_of_pos all, List.dropWhile_append_of_pos all]
  cases more with
  | nil => simp
  | cons byte more =>
    have other := stop byte rfl
    simp [other]

end

/-! ## What is written can be read -/

section
variable {number : Nat} {value : ℚ}

theorem readSign_digits {digits : CString} (some : digits ≠ []) (all : ∀ byte ∈ digits, isDigit 10 byte)
    (more : CString) (negative : Prop) [Decidable negative] :
    readSign ((if negative then bytes "-" else []) ++ digits ++ more) =
      (decide negative, digits ++ more) := by
  obtain ⟨first, rest, rfl⟩ := List.exists_cons_of_ne_nil some
  by_cases sign : negative
  · simp only [if_pos sign, decide_eq_true sign]
    rfl
  · have digit := all first (List.mem_cons_self ..)
    have plain : first ≠ 45 ∧ first ≠ 43 := by
      constructor <;> rintro rfl <;> exact absurd digit (by decide)
    simp only [if_neg sign, decide_eq_false sign, List.nil_append, List.cons_append, readSign,
      if_neg plain.1, if_neg plain.2]

theorem dropWhile_isSpace {digits : CString} (some : digits ≠ [])
    (all : ∀ byte ∈ digits, isDigit 10 byte) (more : CString) (negative : Prop)
    [Decidable negative] :
    ((if negative then bytes "-" else []) ++ digits ++ more).dropWhile isSpace =
      (if negative then bytes "-" else []) ++ digits ++ more := by
  obtain ⟨first, rest, rfl⟩ := List.exists_cons_of_ne_nil some
  by_cases sign : negative
  · rw [if_pos sign]
    rfl
  · have digit := all first (List.mem_cons_self ..)
    have plain : ¬ isSpace first := by
      have range := isDigit_range digit
      simp only [isSpace, Bool.or_eq_true, Bool.and_eq_true, decide_eq_true_eq,
        UInt8.le_iff_toNat_le]
      rintro (rfl | ⟨-, least⟩)
      · exact absurd range (by decide)
      · exact absurd (range.1.trans least) (by decide)
    rw [if_neg sign, List.nil_append, List.cons_append, List.dropWhile_cons_of_neg plain]

/-- The places of a printed `float`. -/
theorem places (value : ℚ) :
    ((decimal (millionths value % 10 ^ 6)).leftpad 6 48).length = 6 ∧
      ∀ byte ∈ (decimal (millionths value % 10 ^ 6)).leftpad 6 48, isDigit 10 byte := by
  have small : millionths value % 10 ^ 6 < 10 ^ 6 := Nat.mod_lt _ (by decide)
  constructor
  · rw [List.length_leftpad]
    exact Nat.max_eq_left (decimal_length_le small)
  · intro byte member
    cases List.mem_append.mp member with
    | inl padding =>
      rw [List.eq_of_mem_replicate padding]
      rfl
    | inr digit => exact isDigit_of_mem_decimal digit

theorem readUnsigned_places (value : ℚ) :
    readUnsigned (decimal (millionths value / 10 ^ 6) ++
        (bytes "." ++ (decimal (millionths value % 10 ^ 6)).leftpad 6 48)) =
      some ((millionths value : ℚ) / 10 ^ 6) := by
  obtain ⟨six, digits⟩ := places value
  have whole := fun byte => @isDigit_of_mem_decimal (millionths value / 10 ^ 6) byte
  -- No byte is an `x`, so the number is not read as hexadecimal.
  have plain : ∀ byte ∈ decimal (millionths value / 10 ^ 6) ++
      (bytes "." ++ (decimal (millionths value % 10 ^ 6)).leftpad 6 48),
      byte ≠ 120 ∧ byte ≠ 88 := by
    intro byte member
    rcases List.mem_append.mp member with first | point
    · constructor <;> rintro rfl <;> exact absurd (whole _ first) (by decide)
    · rcases List.mem_append.mp point with point | last
      · rw [List.mem_singleton.mp point]
        decide
      · constructor <;> rintro rfl <;> exact absurd (digits _ last) (by decide)
  unfold readUnsigned
  rw [if_neg]
  · obtain ⟨take, drop⟩ := @span_digits 10 (decimal (millionths value / 10 ^ 6))
      (bytes "." ++ (decimal (millionths value % 10 ^ 6)).leftpad 6 48) whole (by
        intro byte member
        cases member
        decide)
    have places := @span_digits 10 _ [] digits (by simp)
    rw [List.append_nil] at places
    have fraction : readFraction 10
        (bytes "." ++ (decimal (millionths value % 10 ^ 6)).leftpad 6 48) =
          ((decimal (millionths value % 10 ^ 6)).leftpad 6 48, []) := by
      change (List.takeWhile _ ((decimal _).leftpad 6 48), List.dropWhile _ _) = _
      rw [places.1]
      exact congrArg _ places.2
    have parts : ((millionths value / 10 ^ 6 * 10 ^ 6 + millionths value % 10 ^ 6 : Nat) : ℚ) =
        millionths value := by
      rw [Nat.div_add_mod']
    simp only [readMagnitude, take, drop, fraction, decimal_ne_nil, false_and, if_false, six,
      numeral_append, numeral_decimal, numeral_leftpad, parts, readExponent]
    simp
  · rintro ⟨-, second⟩
    rcases second with second | second
    · exact (plain _ (List.mem_of_getElem? second)).1 rfl
    · exact (plain _ (List.mem_of_getElem? second)).2 rfl

theorem stof_space (text : CString) : stof (bytes " " ++ text) = stof text := rfl

/-- A printed `float` is read back as what was printed. -/
theorem stof_toStringFloat (value : ℚ) : stof (toStringFloat value) = some (printed value) := by
  have some := decimal_ne_nil (millionths value / 10 ^ 6)
  have all := fun byte => @isDigit_of_mem_decimal (millionths value / 10 ^ 6) byte
  unfold stof toStringFloat
  rw [List.append_assoc, dropWhile_isSpace some all, readSign_digits some all]
  simp only [readUnsigned_places, Option.map_some, decide_eq_true_eq, printed]
  split <;> simp

/-- A printed `int` is read back. -/
theorem stoi_toStringInt {number : Int} (least : -2 ^ 31 ≤ number) (most : number < 2 ^ 31) :
    stoi (toStringInt number) = some number := by
  have some := decimal_ne_nil number.natAbs
  have all := fun byte => @isDigit_of_mem_decimal number.natAbs byte
  have skip := dropWhile_isSpace some all [] (number < 0)
  have sign := readSign_digits some all [] (number < 0)
  have digits := (@span_digits 10 (decimal number.natAbs) [] all (by simp)).1
  rw [List.append_nil] at skip sign digits
  have back : (if number < 0 then -(number.natAbs : Int) else number.natAbs) = number := by
    split <;> omega
  unfold stoi toStringInt
  rw [skip, sign]
  simp only [List.append_nil, digits, numeral_decimal, decide_eq_true_eq, back]
  rw [if_neg]
  rintro (none | low | high)
  · exact some none
  · omega
  · omega

theorem mem_toStringInt {number : Int} {byte : UInt8} (member : byte ∈ toStringInt number) :
    byte = 45 ∨ isDigit 10 byte := by
  cases List.mem_append.mp member with
  | inl sign =>
    split at sign
    · exact Or.inl (List.mem_singleton.mp sign)
    · cases sign
  | inr digit => exact Or.inr (isDigit_of_mem_decimal digit)

theorem mem_toStringFloat {value : ℚ} {byte : UInt8} (member : byte ∈ toStringFloat value) :
    byte = 45 ∨ byte = 46 ∨ isDigit 10 byte := by
  rcases List.mem_append.mp member with first | last
  · rcases List.mem_append.mp first with first | point
    · rcases List.mem_append.mp first with sign | digit
      · split at sign
        · exact Or.inl (List.mem_singleton.mp sign)
        · cases sign
      · exact Or.inr (Or.inr (isDigit_of_mem_decimal digit))
    · exact Or.inr (Or.inl (List.mem_singleton.mp point))
  · exact Or.inr (Or.inr ((places value).2 byte last))

end

end Asr2Pass.Text
