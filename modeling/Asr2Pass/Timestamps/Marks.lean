import Asr2Pass.Text.Utf8
import Asr2Pass.Timestamps.Characters

/-! # Which characters pass for punctuation

`TimestampIsPunctuation` looks for each byte of a token among the bytes of the marks, so a character
that borrows all of its bytes from different marks passes too.
-/

namespace Asr2Pass.Timestamps

open Text (CString bytes encode)

/-- The listed marks. -/
def marks : List Char := ['，', '。', '？', '、', ',', '?']

/-- The last six bits of the continuation bytes of the marks. -/
def markBits : List Nat := [0, 1, 2, 12, 31, 60]

/-- A character that is no mark but has the first byte of one and two continuation bytes of marks. -/
def IsLookalike (char : Char) : Prop :=
  char ∉ marks ∧
    ∃ lead ∈ [0x3000, 0xf000], ∃ middle ∈ markBits, ∃ last ∈ markBits,
      char.toNat = lead + middle * 64 + last

instance : DecidablePred IsLookalike :=
  fun char => inferInstanceAs (Decidable (char ∉ marks ∧ _))

/-! ## The bytes of the marks -/

theorem oneByte_mark : ∀ code < 0x80,
    UInt8.ofNat code ∈ punctuation ↔ code = 0x2c ∨ code = 0x3f := by
  decide

theorem continuation_mark : ∀ code < 0x40,
    UInt8.ofNat (code + 0x80) ∈ punctuation ↔ code ∈ markBits := by
  decide

theorem twoByteLead_mark : ∀ code < 0x20, UInt8.ofNat (code + 0xc0) ∉ punctuation := by
  decide

theorem threeByteLead_mark : ∀ code < 0x10,
    UInt8.ofNat (code + 0xe0) ∈ punctuation ↔ code = 3 ∨ code = 15 := by
  decide

theorem fourByteLead_mark : ∀ code < 0x08, UInt8.ofNat (code + 0xf0) ∉ punctuation := by
  decide

theorem mem_marks (char : Char) :
    char ∈ marks ↔ char.toNat ∈ [0xff0c, 0x3002, 0xff1f, 0x3001, 0x2c, 0x3f] := by
  have same (other : Char) : char = other ↔ char.toNat = other.toNat :=
    ⟨congrArg Char.toNat, fun equal => Char.toNat_inj.mp equal⟩
  simp only [marks, List.mem_cons, List.not_mem_nil, or_false, same]
  rfl

/-- Three bytes of marks: `E3` or `EF` and two of the six continuation bytes. -/
theorem lookalike_of_bits {char : Char} (lead : char.toNat / 4096 = 3 ∨ char.toNat / 4096 = 15)
    (middle : char.toNat / 64 % 64 ∈ markBits) (last : char.toNat % 64 ∈ markBits) :
    char ∈ marks ∨ IsLookalike char := by
  by_cases mark : char ∈ marks
  · exact .inl mark
  · refine .inr ⟨mark, char.toNat / 4096 * 4096, ?_, _, middle, _, last, by omega⟩
    cases lead with
    | inl lead => simp [lead]
    | inr lead => simp [lead]

theorem bits_of_lookalike {char : Char} (lookalike : char ∈ marks ∨ IsLookalike char)
    (wide : 0x80 ≤ char.toNat) :
    (char.toNat / 4096 = 3 ∨ char.toNat / 4096 = 15) ∧ char.toNat / 64 % 64 ∈ markBits ∧
      char.toNat % 64 ∈ markBits := by
  cases lookalike with
  | inl mark =>
    have code := (mem_marks char).mp mark
    simp only [List.mem_cons, List.not_mem_nil, or_false] at code
    rcases code with code | code | code | code | code | code
    all_goals first | omega | (rw [code]; decide)
  | inr lookalike =>
    obtain ⟨-, lead, isLead, middle, isMiddle, last, isLast, code⟩ := lookalike
    have small : ∀ bits ∈ markBits, bits < 64 := by decide
    have middleSmall := small middle isMiddle
    have lastSmall := small last isLast
    simp only [List.mem_cons, List.not_mem_nil, or_false] at isLead
    have leadBits : char.toNat / 4096 = 3 ∨ char.toNat / 4096 = 15 := by omega
    have middleBits : char.toNat / 64 % 64 = middle := by omega
    have lastBits : char.toNat % 64 = last := by omega
    exact ⟨leadBits, middleBits ▸ isMiddle, lastBits ▸ isLast⟩

theorem IsLookalike.code {char : Char} (lookalike : IsLookalike char) :
    0x3000 ≤ char.toNat ∧ char.toNat ≤ 0xffff := by
  obtain ⟨-, lead, isLead, middle, isMiddle, last, isLast, code⟩ := lookalike
  have small : ∀ bits ∈ markBits, bits ≤ 60 := by decide
  have middleSmall := small middle isMiddle
  have lastSmall := small last isLast
  simp only [List.mem_cons, List.not_mem_nil, or_false] at isLead
  omega

theorem mark_code {char : Char} (mark : char ∈ marks) :
    char.toNat = 0x2c ∨ char.toNat = 0x3f ∨ 0x3000 ≤ char.toNat ∧ char.toNat ≤ 0xffff := by
  have code := (mem_marks char).mp mark
  simp only [List.mem_cons, List.not_mem_nil, or_false] at code
  omega

/-- The characters whose bytes are all bytes of marks. -/
theorem utf8EncodeChar_marks (char : Char) :
    (∀ byte ∈ String.utf8EncodeChar char, byte ∈ punctuation) ↔
      char ∈ marks ∨ IsLookalike char := by
  fun_cases String.utf8EncodeChar char with
  | case1 code one =>
    have same : char.toNat = code := rfl
    rw [List.forall_mem_singleton, oneByte_mark code (by omega)]
    constructor
    · intro ascii
      left
      rw [mem_marks, same]
      cases ascii with
      | inl comma => simp [comma]
      | inr question => simp [question]
    · rintro (mark | lookalike)
      · have := mark_code mark
        omega
      · have := lookalike.code
        omega
  | case2 code _ two =>
    have same : char.toNat = code := rfl
    refine iff_of_false (fun borrowed => ?_) ?_
    · exact twoByteLead_mark _ (Nat.mod_lt _ (by decide)) (borrowed _ List.mem_cons_self)
    · rintro (mark | lookalike)
      · have := mark_code mark
        omega
      · have := lookalike.code
        omega
  | case3 code _ wide three =>
    have same : char.toNat = code := rfl
    have lead : code / 4096 % 16 = code / 4096 := Nat.mod_eq_of_lt (by omega)
    simp only [List.forall_mem_cons, List.not_mem_nil, false_implies, implies_true, and_true, lead]
    rw [threeByteLead_mark _ (by omega), continuation_mark _ (Nat.mod_lt _ (by decide)),
      continuation_mark _ (Nat.mod_lt _ (by decide))]
    constructor
    · rintro ⟨leads, middle, last⟩
      exact lookalike_of_bits leads middle last
    · intro lookalike
      exact bits_of_lookalike lookalike (by omega)
  | case4 code _ _ four =>
    have same : char.toNat = code := rfl
    refine iff_of_false (fun borrowed => ?_) ?_
    · exact fourByteLead_mark _ (Nat.mod_lt _ (by decide)) (borrowed _ List.mem_cons_self)
    · rintro (mark | lookalike)
      · have := mark_code mark
        omega
      · have := lookalike.code
        omega

/-! ## A text -/

theorem timestampIsPunctuation_encode (chars : List Char) :
    timestampIsPunctuation (encode chars) = true ↔
      ∀ char ∈ chars, char ∈ marks ∨ IsLookalike char := by
  simp only [timestampIsPunctuation, encode, List.all_eq_true, decide_eq_true_eq, List.mem_flatMap,
    forall_exists_index, and_imp]
  constructor
  · intro borrowed char member
    exact (utf8EncodeChar_marks char).mp fun byte inside => borrowed byte char member inside
  · intro each byte char member inside
    exact (utf8EncodeChar_marks char).mpr (each char member) byte inside

/-- The answer is right where no character is a lookalike, or another one is neither a lookalike nor
    a mark. -/
theorem punctuation_right_iff (chars : List Char) :
    (timestampIsPunctuation (encode chars) = true ↔ ∀ char ∈ chars, char ∈ marks) ↔
      (∀ char ∈ chars, ¬ IsLookalike char) ∨ ∃ char ∈ chars, char ∉ marks ∧ ¬ IsLookalike char := by
  rw [timestampIsPunctuation_encode]
  constructor
  · intro right
    by_cases plain : ∃ char ∈ chars, char ∉ marks ∧ ¬ IsLookalike char
    · exact .inr plain
    · have each : ∀ char ∈ chars, char ∈ marks ∨ IsLookalike char := by
        intro char member
        by_contra neither
        exact plain ⟨char, member, not_or.mp neither⟩
      exact .inl fun char member lookalike => lookalike.1 (right.mp each char member)
  · rintro (none | ⟨char, member, noMark, noLookalike⟩)
    · refine ⟨fun each char member => ?_, fun each char member => .inl (each char member)⟩
      exact (each char member).resolve_right (none char member)
    · refine iff_of_false (fun each => ?_) fun each => noMark (each char member)
      exact (each char member).elim noMark noLookalike

/-- The hiragana `あ` is `E3 81 82`: the ideographic comma and full stop have these bytes. -/
theorem not_punctuation_right_hiragana :
    ¬ (timestampIsPunctuation (encode ['あ']) = true ↔ ∀ char ∈ ['あ'], char ∈ marks) := by
  intro right
  have passes : timestampIsPunctuation (encode ['あ']) = true := by decide
  have noMark : 'あ' ∉ marks := by decide
  exact noMark (right.mp passes 'あ' List.mem_cons_self)

end Asr2Pass.Timestamps
