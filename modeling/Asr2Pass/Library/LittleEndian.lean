import Mathlib.Data.Nat.Digits.Defs

/-! # Numbers with the low byte first -/

namespace Asr2Pass.Library

def littleEndian (bytes : List UInt8) : Nat := Nat.ofDigits 256 (bytes.map UInt8.toNat)

/-- The bytes of a number, of which the higher ones are left out when it does not fit. -/
def toLittleEndian : Nat → Nat → List UInt8
  | 0, _ => []
  | count + 1, value => UInt8.ofNat value :: toLittleEndian count (value / 256)

variable {count value : Nat} {bytes bytes' : List UInt8}

@[simp] theorem littleEndian_nil : littleEndian [] = 0 := rfl

@[simp] theorem littleEndian_cons (byte : UInt8) (rest : List UInt8) :
    littleEndian (byte :: rest) = byte.toNat + 256 * littleEndian rest := by
  simp [littleEndian, Nat.ofDigits_cons]

@[simp] theorem length_toLittleEndian (count value : Nat) : (toLittleEndian count value).length = count := by
  induction count generalizing value with
  | zero => rfl
  | succ count inductionHypothesis => rw [toLittleEndian, List.length_cons, inductionHypothesis]

theorem littleEndian_lt (bytes : List UInt8) : littleEndian bytes < 256 ^ bytes.length := by
  have digits : ∀ digit ∈ bytes.map UInt8.toNat, digit < 256 := by
    intro digit member
    obtain ⟨byte, -, rfl⟩ := List.mem_map.mp member
    exact byte.toNat_lt
  have bound := Nat.ofDigits_lt_base_pow_length (by decide) digits
  rwa [List.length_map] at bound

/-- What fits into the bytes comes back. -/
theorem littleEndian_toLittleEndian (count value : Nat) :
    littleEndian (toLittleEndian count value) = value % 256 ^ count := by
  induction count generalizing value with
  | zero => simp [toLittleEndian, Nat.mod_one]
  | succ count inductionHypothesis =>
    have low : (UInt8.ofNat value).toNat = value % 256 := UInt8.toNat_ofNat'
    rw [toLittleEndian, littleEndian_cons, inductionHypothesis, low, Nat.pow_succ', Nat.mod_mul]

theorem toLittleEndian_littleEndian (bytes : List UInt8) :
    toLittleEndian bytes.length (littleEndian bytes) = bytes := by
  induction bytes with
  | nil => rfl
  | cons byte rest inductionHypothesis =>
    have low := byte.toNat_lt
    have quotient : (byte.toNat + 256 * littleEndian rest) / 256 = littleEndian rest := by omega
    have first : UInt8.ofNat (byte.toNat + 256 * littleEndian rest) = byte := by
      rw [← UInt8.toNat_inj, UInt8.toNat_ofNat']
      omega
    rw [List.length_cons, littleEndian_cons, toLittleEndian, quotient, first, inductionHypothesis]

/-- As many bytes with the same value are the same. -/
theorem littleEndian_inj (length : bytes.length = bytes'.length)
    (same : littleEndian bytes = littleEndian bytes') : bytes = bytes' := by
  rw [← toLittleEndian_littleEndian bytes, length, same, toLittleEndian_littleEndian]

/-! ## Signed numbers -/

/-- The number as a signed one of that many bytes. -/
@[irreducible] def signed (bytes : List UInt8) : Int := (littleEndian bytes : Int).bmod (256 ^ bytes.length)

theorem signed_toLittleEndian (count value : Nat) :
    signed (toLittleEndian count value) = (value : Int).bmod (256 ^ count) := by
  rw [signed, littleEndian_toLittleEndian, length_toLittleEndian, Int.natCast_mod, Int.emod_bmod]

theorem signed_inj (length : bytes.length = bytes'.length) (same : signed bytes = signed bytes') :
    bytes = bytes' := by
  refine littleEndian_inj length ?_
  rw [signed, signed, length] at same
  have less := littleEndian_lt bytes
  have less' := littleEndian_lt bytes'
  rw [length] at less
  have modulo := congrArg (· % ((256 ^ bytes'.length : Nat) : Int)) same
  simp only [Int.bmod_emod] at modulo
  rwa [← Int.natCast_mod, ← Int.natCast_mod, Nat.mod_eq_of_lt less, Nat.mod_eq_of_lt less',
    Nat.cast_inj] at modulo

end Asr2Pass.Library
