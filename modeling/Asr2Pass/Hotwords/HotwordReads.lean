import Asr2Pass.Hotwords.HotwordMatrix

/-! # When the hotword matrix is consistent

The matrix and the lengths stay in step over all hotwords that are left out.  What can go wrong is that
a number is no `int`: a product of sizes, or how many units a hotword has.
-/

namespace Asr2Pass.Hotwords

open Library
open Text (CString bytes split)
open Timestamps.EncodeConverter (castInt castInt_spec)

section
variable (phoneSet : PhoneSet) (segDict : SegDict) (hotwords : CString) (dim : Nat)

def charsOf (hotword : CString) : List CString := (hotwordChars segDict hotword).getD []

/-- A hotword with units, all of which are known as far as they are looked at. -/
def isKept (hotword : CString) : Bool :=
  charsOf segDict hotword ≠ [] &&
    ((charsOf segDict hotword).take (vectorLen (charsOf segDict hotword)).toNat).all phoneSet.find

def kept : List CString := (split hotwords 0x20).filter (isKept phoneSet segDict)

/-- The lengths of the rows, the row for no hotword among them. -/
def rowLengths : List Int :=
  (kept phoneSet segDict hotwords).map (fun hotword => vectorLen (charsOf segDict hotword)) ++ [1]

/-- The number of all pieces, and the size that is reserved for them. -/
def Reserves : Prop :=
  hotwords = [] ∨ 0 ≤ castInt ((split hotwords 0x20).length + 1) ∧
    castInt ((split hotwords 0x20).length + 1) * maxHotwordLen < 2 ^ 31

/-- Every number that is an `int` in the source can be one, and no hotword has so many units that their
    number is none. -/
structure FitsInt : Prop where
  array : Reserves hotwords
  chars : ∀ hotword ∈ split hotwords 0x20, charsOf segDict hotword ≠ [] →
    0 < castInt (charsOf segDict hotword).length
  rows : ((kept phoneSet segDict hotwords).length + 1) * maxHotwordLen < 2 ^ 31
  width : 0 ≤ castInt dim
  starts : ∀ (j : Nat) (length : Int), (rowLengths phoneSet segDict hotwords)[j]? = some length →
    (((kept phoneSet segDict hotwords).length + 1) * (length - 1) + j) * castInt dim < 2 ^ 31

end

section
variable {phoneSet : PhoneSet} {segDict : SegDict} {hotwords : CString}

theorem checkInt_eq_some_iff {number result : Int} :
    checkInt number = some result ↔ (-2 ^ 31 ≤ number ∧ number < 2 ^ 31) ∧ number = result := by
  rw [checkInt, Option.ite_none_right_eq_some, Option.some.injEq]

theorem checkInt_of_lt {number : Int} (least : 0 ≤ number) (most : number < 2 ^ 31) :
    checkInt number = some number := checkInt_eq_some_iff.mpr ⟨⟨by omega, most⟩, rfl⟩

theorem hotwordChars_eq (segDict : SegDict) (hotword : CString) :
    hotwordChars segDict hotword = some (charsOf segDict hotword) := by
  obtain ⟨units, read, -⟩ := Timestamps.EncodeConverter.exists_utf8ToUtf16Loop (hotword.length + 1) []
    hotword (Nat.le_refl _)
  have read : Timestamps.EncodeConverter.utf8ToUtf16 hotword = some units := read
  suffices some' : (hotwordChars segDict hotword).isSome by
    obtain ⟨chars, same⟩ := Option.isSome_iff_exists.mp some'
    rw [charsOf, same, Option.getD_some]
  by_cases empty : hotword.length ≤ 0
  · simp [hotwordChars, isAllChineseCharactor, empty]
  · simp only [hotwordChars, isAllChineseCharactor, if_neg empty, read, keepChineseCharacterAndSplit,
      Option.map_some, Option.bind_eq_bind, Option.bind_some]
    split <;> rfl

theorem string2Id_eq_iff {char : CString} : phoneSet.string2Id char = -1 ↔ phoneSet.find char = false := by
  cases found : phoneSet.find char with
  | true =>
    have := PhoneSet.string2Id_bounds found
    simp
    omega
  | false => simp [PhoneSet.string2Id, found]

theorem writeIds_spec (i : Nat) (hwVector : List Int) (chars : List CString) :
    (writeIds phoneSet i hwVector chars).1.length = hwVector.length ∧
      (writeIds phoneSet i hwVector chars).2 = !chars.all phoneSet.find := by
  induction chars generalizing i hwVector with
  | nil => simp [writeIds]
  | cons char chars inductionHypothesis =>
    obtain ⟨size, oov⟩ := inductionHypothesis (i + 1) (hwVector.set i (phoneSet.string2Id char))
    simp only [writeIds]
    split
    next unknown => simp [string2Id_eq_iff.mp unknown]
    next known =>
      rw [size, oov, List.length_set, List.all_cons]
      have isKnown : phoneSet.find char = true := by
        simpa [string2Id_eq_iff] using known
      simp [isKnown]

/-- The row of a hotword. -/
def hwVector (phoneSet : PhoneSet) (chars : List CString) (len : Int) : List Int :=
  (writeIds phoneSet 0 (List.replicate maxHotwordLen 0) (chars.take len.toNat)).1

theorem length_hwVector (chars : List CString) (len : Int) :
    (hwVector phoneSet chars len).length = maxHotwordLen := by
  rw [hwVector, (writeIds_spec _ _ _).1, List.length_replicate]

/-- A hotword that is kept is a row more; any other changes nothing. -/
theorem compileHotword_eq (compiling : Compiling) (hotword : CString) :
    compileHotword phoneSet segDict compiling hotword =
      if isKept phoneSet segDict hotword then
        (checkInt (compiling.realHwSize + 1)).map fun realHwSize =>
          ⟨compiling.hotwordMatrix ++
              hwVector phoneSet (charsOf segDict hotword) (vectorLen (charsOf segDict hotword)),
            compiling.lengths ++ [vectorLen (charsOf segDict hotword)], realHwSize⟩
      else some compiling := by
  rw [compileHotword, hotwordChars_eq, Option.bind_eq_bind, Option.bind_some, isKept]
  generalize vectorLen (charsOf segDict hotword) = len
  generalize charsOf segDict hotword = chars
  cases chars with
  | nil => simp
  | cons char chars =>
    have oov := (@writeIds_spec phoneSet 0 (List.replicate maxHotwordLen 0)
      ((char :: chars).take len.toNat)).2
    have nonempty : ¬(char :: chars).length = 0 := Nat.succ_ne_zero _
    rw [if_neg nonempty, hwVector]
    generalize writeIds phoneSet 0 (List.replicate maxHotwordLen 0) ((char :: chars).take len.toNat) =
      written at oov
    obtain ⟨ids, chsOov⟩ := written
    cases known : ((char :: chars).take len.toNat).all phoneSet.find with
    | false =>
      obtain rfl : chsOov = true := by simpa [known] using oov
      simp
    | true =>
      obtain rfl : chsOov = false := by simpa [known] using oov
      cases checkInt (compiling.realHwSize + 1) with
      | none => simp
      | some realHwSize => simp

/-! ## The loop over the hotwords -/

/-- The matrix and the lengths grow by the hotwords that are kept. -/
structure Grows (phoneSet : PhoneSet) (segDict : SegDict) (hotwordArray : List CString)
    (compiling last : Compiling) : Prop where
  matrix : last.hotwordMatrix.length =
    compiling.hotwordMatrix.length + (hotwordArray.filter (isKept phoneSet segDict)).length * maxHotwordLen
  lengths : last.lengths = compiling.lengths ++
    (hotwordArray.filter (isKept phoneSet segDict)).map fun hotword => vectorLen (charsOf segDict hotword)
  realHwSize : last.realHwSize =
    compiling.realHwSize + (hotwordArray.filter (isKept phoneSet segDict)).length

theorem grows_of_foldlM {hotwordArray : List CString} {compiling last : Compiling}
    (ran : hotwordArray.foldlM (compileHotword phoneSet segDict) compiling = some last) :
    Grows phoneSet segDict hotwordArray compiling last := by
  induction hotwordArray generalizing compiling with
  | nil =>
    cases ran
    exact ⟨by simp, by simp, by simp⟩
  | cons hotword hotwordArray inductionHypothesis =>
    rw [List.foldlM_cons, compileHotword_eq] at ran
    cases isRow : isKept phoneSet segDict hotword with
    | false =>
      rw [isRow] at ran
      obtain ⟨matrix, lengths, realHwSize⟩ := inductionHypothesis ran
      exact ⟨by simpa [isRow] using matrix, by simpa [isRow] using lengths, by simpa [isRow] using realHwSize⟩
    | true =>
      rw [isRow] at ran
      obtain ⟨next, stepped, ran⟩ := Option.bind_eq_some_iff.mp ran
      obtain ⟨size, isSize, rfl⟩ := Option.map_eq_some_iff.mp stepped
      obtain ⟨matrix, lengths, realHwSize⟩ := inductionHypothesis ran
      obtain ⟨-, rfl⟩ := checkInt_eq_some_iff.mp isSize
      simp only [List.length_append, length_hwVector] at matrix
      refine ⟨?_, by simpa [isRow] using lengths, ?_⟩
      · simp only [isRow, List.filter_cons_of_pos, List.length_cons, Nat.add_mul]
        omega
      · simp only [isRow, List.filter_cons_of_pos, List.length_cons]
        simp only at realHwSize
        omega

/-- The loop ends as long as the number of the rows is an `int`. -/
theorem exists_foldlM {hotwordArray : List CString} {compiling : Compiling}
    (least : 0 ≤ compiling.realHwSize)
    (most : compiling.realHwSize + (hotwordArray.filter (isKept phoneSet segDict)).length < 2 ^ 31) :
    ∃ last, hotwordArray.foldlM (compileHotword phoneSet segDict) compiling = some last := by
  induction hotwordArray generalizing compiling with
  | nil => exact ⟨compiling, rfl⟩
  | cons hotword hotwordArray inductionHypothesis =>
    rw [List.foldlM_cons, compileHotword_eq]
    cases isRow : isKept phoneSet segDict hotword with
    | false =>
      simp only [isRow, List.filter_cons] at most
      exact inductionHypothesis least most
    | true =>
      simp only [isRow, List.filter_cons_of_pos, List.length_cons] at most
      have isInt := checkInt_of_lt (show 0 ≤ compiling.realHwSize + 1 by omega) (by omega)
      simp only [isInt, if_true, Option.map_some]
      exact inductionHypothesis (by simp only; omega) (by simp only; omega)

theorem split_nil (delim : UInt8) : split [] delim = [] := rfl

/-- What is made of the hotwords is made of those that are kept. -/
theorem compileHotwords_some {compiled : Compiling × Int}
    (made : compileHotwords phoneSet segDict hotwords = some compiled) :
    compiled.1.hotwordMatrix.length = (kept phoneSet segDict hotwords).length * maxHotwordLen ∧
      compiled.1.lengths =
        (kept phoneSet segDict hotwords).map (fun hotword => vectorLen (charsOf segDict hotword)) ∧
      compiled.2 = (kept phoneSet segDict hotwords).length + 1 ∧ Reserves hotwords := by
  rw [compileHotwords] at made
  split at made
  next nothing =>
    cases made
    simp [nothing, kept, split_nil, Reserves]
  next =>
    obtain ⟨reserved, isReserved, made⟩ := Option.bind_eq_some_iff.mp made
    obtain ⟨⟨-, most⟩, rfl⟩ := checkInt_eq_some_iff.mp isReserved
    split at made
    next => cases made
    next notNegative =>
      obtain ⟨compiling, ran, made⟩ := Option.bind_eq_some_iff.mp made
      obtain ⟨hotwordSize, isSize, made⟩ := Option.bind_eq_some_iff.mp made
      cases made
      obtain ⟨matrix, lengths, realHwSize⟩ := grows_of_foldlM ran
      obtain ⟨-, rfl⟩ := checkInt_eq_some_iff.mp isSize
      refine ⟨by simpa [kept] using matrix, by simpa [kept] using lengths, ?_, .inr ⟨?_, most⟩⟩
      · simp only [kept, realHwSize]
        omega
      · simp only [maxHotwordLen] at notNegative
        omega

theorem exists_compileHotwords (array : Reserves hotwords)
    (rows : (kept phoneSet segDict hotwords).length + 1 < 2 ^ 31) :
    ∃ compiled, compileHotwords phoneSet segDict hotwords = some compiled := by
  rw [compileHotwords]
  split
  next => exact ⟨_, rfl⟩
  next some' =>
    obtain ⟨least, most⟩ := array.resolve_left some'
    have notNegative : 0 ≤ castInt ((split hotwords 0x20).length + 1) * maxHotwordLen := by
      simp only [maxHotwordLen]
      omega
    obtain ⟨last, ran⟩ := @exists_foldlM phoneSet segDict (split hotwords 0x20) {} (Int.le_refl 0)
      (by
        rw [kept] at rows
        simp only
        omega)
    have grows := (grows_of_foldlM ran).realHwSize
    have isSize : checkInt (last.realHwSize + 1) = some (last.realHwSize + 1) :=
      checkInt_of_lt (by rw [grows]; simp only; omega) (by
        rw [kept] at rows
        rw [grows]
        simp only
        omega)
    refine ⟨(last, last.realHwSize + 1), ?_⟩
    dsimp only
    generalize castInt ((split hotwords 0x20).length + 1) * maxHotwordLen = reserved at most notNegative
    rw [checkInt_of_lt notNegative most, Option.bind_eq_bind, Option.bind_some,
      if_neg (Int.not_lt.mpr notNegative), ran, Option.bind_eq_bind, Option.bind_some, isSize,
      Option.bind_some, Option.pure_def]

theorem hotwordInput_some {input : HotwordInput}
    (made : hotwordInput phoneSet segDict hotwords = some input) :
    input.hotwordMatrix.length = ((kept phoneSet segDict hotwords).length + 1) * maxHotwordLen ∧
      input.lengths = rowLengths phoneSet segDict hotwords ∧
      input.hotwordSize = (kept phoneSet segDict hotwords).length + 1 ∧ Reserves hotwords ∧
      ((kept phoneSet segDict hotwords).length + 1) * maxHotwordLen < 2 ^ 31 := by
  obtain ⟨⟨compiling, hotwordSize⟩, compiled, made⟩ := Option.bind_eq_some_iff.mp made
  obtain ⟨product, isProduct, made⟩ := Option.bind_eq_some_iff.mp made
  cases made
  obtain ⟨matrix, lengths, size, array⟩ := compileHotwords_some compiled
  obtain ⟨⟨-, most⟩, -⟩ := checkInt_eq_some_iff.mp isProduct
  simp only at matrix lengths size
  refine ⟨?_, by rw [lengths, rowLengths], size, array, ?_⟩
  · simp only [List.length_append, matrix, List.length_set, List.length_replicate, Nat.add_mul,
      Nat.one_mul]
  · rw [size] at most
    exact_mod_cast most

theorem exists_hotwordInput (array : Reserves hotwords)
    (rows : ((kept phoneSet segDict hotwords).length + 1) * maxHotwordLen < 2 ^ 31) :
    ∃ input, hotwordInput phoneSet segDict hotwords = some input := by
  simp only [maxHotwordLen] at rows
  obtain ⟨compiled, made⟩ := @exists_compileHotwords phoneSet segDict hotwords array (by omega)
  obtain ⟨-, -, size, -⟩ := compileHotwords_some made
  have isInt : checkInt (compiled.2 * maxHotwordLen) = some (compiled.2 * maxHotwordLen) := by
    apply checkInt_of_lt
    · rw [size]
      simp only [maxHotwordLen]
      omega
    · rw [size]
      simp only [maxHotwordLen]
      omega
  simp only [hotwordInput, made, Option.bind_eq_bind, Option.bind_some, isInt, Option.pure_def]
  exact ⟨_, rfl⟩

/-! ## The reads -/

theorem startPos_some {hotwordSize embeddingDim length j start : Int}
    (made : startPos hotwordSize embeddingDim length j = some start) :
    start = (hotwordSize * (length - 1) + j) * embeddingDim ∧ start < 2 ^ 31 := by
  obtain ⟨before, isBefore, made⟩ := Option.bind_eq_some_iff.mp made
  obtain ⟨rows, isRows, made⟩ := Option.bind_eq_some_iff.mp made
  obtain ⟨product, isProduct, made⟩ := Option.bind_eq_some_iff.mp made
  obtain ⟨offset, isOffset, made⟩ := Option.bind_eq_some_iff.mp made
  obtain ⟨-, rfl⟩ := checkInt_eq_some_iff.mp isBefore
  obtain ⟨-, rfl⟩ := checkInt_eq_some_iff.mp isRows
  obtain ⟨-, rfl⟩ := checkInt_eq_some_iff.mp isProduct
  obtain ⟨-, rfl⟩ := checkInt_eq_some_iff.mp isOffset
  obtain ⟨⟨-, most⟩, rfl⟩ := checkInt_eq_some_iff.mp made
  exact ⟨(Int.add_mul ..).symm, most⟩

/-- Nothing overflows where the sum does not. -/
theorem startPos_eq {hotwordSize embeddingDim length j : Int} (positive : 0 < hotwordSize)
    (size : hotwordSize * maxHotwordLen < 2 ^ 31) (width : 0 ≤ embeddingDim)
    (bounds : 1 ≤ length ∧ length ≤ maxHotwordLen) (least : 0 ≤ j)
    (most : (hotwordSize * (length - 1) + j) * embeddingDim < 2 ^ 31) :
    startPos hotwordSize embeddingDim length j =
      some ((hotwordSize * (length - 1) + j) * embeddingDim) := by
  obtain ⟨one, ten⟩ := bounds
  have rows : 0 ≤ hotwordSize * (length - 1) := Int.mul_nonneg (by omega) (by omega)
  have rows' : hotwordSize * (length - 1) ≤ hotwordSize * maxHotwordLen :=
    Int.mul_le_mul_of_nonneg_left (by omega) (by omega)
  have product : 0 ≤ hotwordSize * (length - 1) * embeddingDim := Int.mul_nonneg rows width
  have offset : 0 ≤ j * embeddingDim := Int.mul_nonneg least width
  rw [Int.add_mul] at most ⊢
  simp only [maxHotwordLen] at ten
  rw [startPos, checkInt_of_lt (by omega) (by omega), Option.bind_eq_bind, Option.bind_some,
    checkInt_of_lt rows (by omega), Option.bind_some, checkInt_of_lt product (by omega),
    Option.bind_some, checkInt_of_lt offset (by omega), Option.bind_some,
    checkInt_of_lt (by omega) most]

theorem castInt_le (size : Nat) : castInt size ≤ size := by
  have := castInt_spec size
  omega

theorem length_rowLengths :
    (rowLengths phoneSet segDict hotwords).length = (kept phoneSet segDict hotwords).length + 1 := by
  simp [rowLengths]

/-- The lengths and the counter are in step. -/
theorem length_lengths {input : HotwordInput} (made : hotwordInput phoneSet segDict hotwords = some input) :
    input.lengths.length = input.hotwordSize := by
  obtain ⟨-, lengths, size, -⟩ := hotwordInput_some made
  rw [lengths, length_rowLengths, size]
  rfl

/-- Rows of no units at all would be those of hotwords with too many of them. -/
theorem rowLengths_bounds (chars : ∀ hotword ∈ split hotwords 0x20, charsOf segDict hotword ≠ [] →
      0 < castInt (charsOf segDict hotword).length) :
    ∀ length ∈ rowLengths phoneSet segDict hotwords, 1 ≤ length ∧ length ≤ maxHotwordLen := by
  intro length member
  simp only [rowLengths, List.mem_append, List.mem_map, List.mem_singleton] at member
  rcases member with ⟨hotword, isRow, rfl⟩ | rfl
  · obtain ⟨inside, isKept⟩ := List.mem_filter.mp isRow
    simp only [Hotwords.isKept, Bool.and_eq_true, decide_eq_true_eq] at isKept
    have := chars hotword inside isKept.1
    simp only [vectorLen, maxHotwordLen]
    omega
  · simp only [maxHotwordLen]
    omega

/-- The reads of an input, one for each length. -/
theorem getElem?_reads {input : HotwordInput} {dim : Nat} {reads : List (Int × Int)}
    (made : input.reads dim = some reads) {j : Nat} (inside : j < input.hotwordSize.toNat) {length : Int}
    (isLength : input.lengths[j]? = some length) :
    ∃ start, startPos input.hotwordSize (castInt dim) length j = some start ∧
      reads[j]? = some (start, start + castInt dim) := by
  have entry := getElem?_of_mapM made j
  rw [List.getElem?_range inside, Option.bind_some, isLength, Option.bind_eq_bind,
    Option.bind_some] at entry
  have all := length_of_mapM made
  rw [List.length_range] at all
  obtain ⟨read, isRead⟩ : ∃ read, reads[j]? = some read :=
    ⟨_, List.getElem?_eq_getElem (by omega)⟩
  rw [isRead] at entry
  obtain ⟨start, isStart, same⟩ := Option.bind_eq_some_iff.mp entry.symm
  exact ⟨start, isStart, by rw [isRead, ← same]; rfl⟩

/-- Every read is that of a row. -/
theorem exists_row {input : HotwordInput} {dim : Nat} {reads : List (Int × Int)} {read : Int × Int}
    (made : input.reads dim = some reads) (lengths : input.lengths.length = input.hotwordSize)
    (member : read ∈ reads) :
    ∃ j length start, j < input.hotwordSize.toNat ∧ input.lengths[j]? = some length ∧
      startPos input.hotwordSize (castInt dim) length j = some start ∧
      read = (start, start + castInt dim) := by
  obtain ⟨j, isRead⟩ := List.getElem?_of_mem member
  have inside : j < input.hotwordSize.toNat := by
    have here := (List.getElem?_eq_some_iff.mp isRead).1
    rwa [length_of_mapM made, List.length_range] at here
  have isLength : input.lengths[j]? = some input.lengths[j] := List.getElem?_eq_getElem (by omega)
  obtain ⟨start, isStart, same⟩ := getElem?_reads made inside isLength
  exact ⟨j, _, start, inside, isLength, isStart, Option.some.inj (isRead.symm.trans same)⟩

/-- Every read is inside. -/
theorem exists_reads {input : HotwordInput} {dim : Nat} (positive : 0 < input.hotwordSize)
    (size : input.hotwordSize * maxHotwordLen < 2 ^ 31) (width : 0 ≤ castInt dim)
    (lengths : input.lengths.length = input.hotwordSize)
    (bounds : ∀ length ∈ input.lengths, 1 ≤ length ∧ length ≤ maxHotwordLen)
    (starts : ∀ (j : Nat) (length : Int), input.lengths[j]? = some length →
      (input.hotwordSize * (length - 1) + j) * castInt dim < 2 ^ 31) :
    ∃ reads, input.reads dim = some reads ∧ ∀ read ∈ reads,
      0 ≤ read.1 ∧ read.1 ≤ read.2 ∧ read.2 ≤ maxHotwordLen * input.hotwordSize * dim := by
  have all : (input.reads dim).isSome := by
    refine isSome_mapM_iff.mpr fun j member => ?_
    have inside := List.mem_range.mp member
    have isLength : input.lengths[j]? = some input.lengths[j] := List.getElem?_eq_getElem (by omega)
    have bound := bounds _ (List.mem_of_getElem? isLength)
    have isStart := startPos_eq positive size width bound (Int.natCast_nonneg j) (starts j _ isLength)
    simp only [isLength, isStart, Option.bind_eq_bind, Option.bind_some]
    rfl
  obtain ⟨reads, made⟩ := Option.isSome_iff_exists.mp all
  refine ⟨reads, made, fun read member => ?_⟩
  obtain ⟨j, length, start, inside, isLength, isStart, rfl⟩ := exists_row made lengths member
  obtain ⟨rfl, -⟩ := startPos_some isStart
  obtain ⟨one, ten⟩ := bounds _ (List.mem_of_getElem? isLength)
  -- The row ends no later than those of the longest hotwords.
  have rows : 0 ≤ input.hotwordSize * (length - 1) := Int.mul_nonneg (by omega) (by omega)
  have last : input.hotwordSize * (length - 1) + input.hotwordSize ≤
      input.hotwordSize * maxHotwordLen := by
    have longest : input.hotwordSize * (length - 1) ≤ input.hotwordSize * (maxHotwordLen - 1) :=
      Int.mul_le_mul_of_nonneg_left (by omega) (by omega)
    rw [Int.mul_sub input.hotwordSize maxHotwordLen 1, Int.mul_one] at longest
    omega
  have start : 0 ≤ (input.hotwordSize * (length - 1) + j) * castInt dim :=
    Int.mul_nonneg (by omega) width
  refine ⟨start, by simp only; omega, ?_⟩
  calc (input.hotwordSize * (length - 1) + j) * castInt dim + castInt dim
      = (input.hotwordSize * (length - 1) + j + 1) * castInt dim := by
        rw [Int.add_mul _ 1, Int.one_mul]
    _ ≤ input.hotwordSize * maxHotwordLen * castInt dim :=
        Int.mul_le_mul_of_nonneg_right (by omega) width
    _ ≤ input.hotwordSize * maxHotwordLen * dim :=
        Int.mul_le_mul_of_nonneg_left (castInt_le dim) (by simp only [maxHotwordLen]; omega)
    _ = maxHotwordLen * input.hotwordSize * dim := by rw [Int.mul_comm input.hotwordSize]

/-! ## The condition -/

/-- A consistent input has gone through every number that is an `int`. -/
theorem fitsInt_of_consistent {input : HotwordInput} {dim : Nat}
    (made : hotwordInput phoneSet segDict hotwords = some input) (consistent : input.IsConsistent dim) :
    FitsInt phoneSet segDict hotwords dim := by
  obtain ⟨-, -, bounds, reads, isReads, inside⟩ := consistent
  obtain ⟨-, lengths, size, array, rows⟩ := hotwordInput_some made
  have first : 0 < input.hotwordSize.toNat := by omega
  have read : ∀ (j : Nat) (length : Int), (rowLengths phoneSet segDict hotwords)[j]? = some length →
      ∃ start, startPos input.hotwordSize (castInt dim) length j = some start ∧
        reads[j]? = some (start, start + castInt dim) := by
    intro j length isLength
    have isRow := (List.getElem?_eq_some_iff.mp isLength).1
    rw [length_rowLengths] at isRow
    exact getElem?_reads isReads (by omega) (lengths ▸ isLength)
  refine ⟨array, ?_, rows, ?_, ?_⟩
  · intro hotword member units
    by_contra few
    have none' : vectorLen (charsOf segDict hotword) ≤ 0 := by
      simp only [vectorLen]
      omega
    have isRow : hotword ∈ kept phoneSet segDict hotwords := by
      refine List.mem_filter.mpr ⟨member, ?_⟩
      simp [isKept, units, Int.toNat_of_nonpos none']
    have isLength : vectorLen (charsOf segDict hotword) ∈ input.lengths := by
      rw [lengths, rowLengths]
      exact List.mem_append_left _ (List.mem_map_of_mem isRow)
    have := bounds _ isLength
    omega
  · obtain ⟨length, isLength⟩ : ∃ length, (rowLengths phoneSet segDict hotwords)[0]? = some length :=
      ⟨_, List.getElem?_eq_getElem (by rw [length_rowLengths]; omega)⟩
    obtain ⟨start, -, isRead⟩ := read 0 length isLength
    have := (inside _ (List.mem_of_getElem? isRead)).2.1
    simp only at this
    omega
  · intro j length isLength
    obtain ⟨start, isStart, -⟩ := read j length isLength
    obtain ⟨rfl, most⟩ := startPos_some isStart
    rwa [size] at most

theorem exists_consistent {dim : Nat} (fits : FitsInt phoneSet segDict hotwords dim) :
    ∃ input, hotwordInput phoneSet segDict hotwords = some input ∧ input.IsConsistent dim := by
  obtain ⟨array, chars, rows, width, starts⟩ := fits
  obtain ⟨input, made⟩ := exists_hotwordInput array rows
  obtain ⟨matrix, lengths, size, -, -⟩ := hotwordInput_some made
  have bounds := @rowLengths_bounds phoneSet segDict hotwords chars
  rw [← lengths] at bounds
  have count := length_lengths made
  refine ⟨input, made, ?_, count, bounds, exists_reads ?_ ?_ width count bounds ?_⟩
  · rw [matrix, size]
    rfl
  · omega
  · rw [size]
    exact_mod_cast rows
  · intro j length isLength
    rw [size]
    exact starts j length (lengths ▸ isLength)

end

/-- The matrix, the lengths and the reads are consistent exactly where every number that is an `int`
    in the source can be one. -/
theorem consistent_iff (phoneSet : PhoneSet) (segDict : SegDict) (hotwords : CString) (dim : Nat) :
    (∃ input, hotwordInput phoneSet segDict hotwords = some input ∧ input.IsConsistent dim) ↔
      FitsInt phoneSet segDict hotwords dim := by
  constructor
  · rintro ⟨input, made, consistent⟩
    exact fitsInt_of_consistent made consistent
  · exact exists_consistent

/-! ## Many hotwords -/

/-- A word of ten units. -/
def tenUnits : SegDict := fun word =>
  if word = bytes "a" then some (List.replicate 10 (bytes "a")) else none

def oneUnit : PhoneSet := ⟨[bytes "a"]⟩

def manyHotwords (count : Nat) : CString := List.intercalate [0x20] (List.replicate count (bytes "a"))

theorem split_manyHotwords {count : Nat} (positive : 0 < count) :
    split (manyHotwords count) 0x20 = List.replicate count (bytes "a") := by
  refine Text.split_intercalate (fun piece member => ?_) ?_
  · rw [List.eq_of_mem_replicate member]
    decide
  · refine ⟨bytes "a", ?_, by decide⟩
    rw [List.getLast?_replicate, if_neg (by omega)]
    rfl

theorem rowLengths_manyHotwords {count : Nat} (positive : 0 < count) :
    (kept oneUnit tenUnits (manyHotwords count)).length = count ∧
      rowLengths oneUnit tenUnits (manyHotwords count) = List.replicate count 10 ++ [1] := by
  have isRow : isKept oneUnit tenUnits (bytes "a") = true := by decide
  have units : vectorLen (charsOf tenUnits (bytes "a")) = 10 := by decide
  have rows : kept oneUnit tenUnits (manyHotwords count) = List.replicate count (bytes "a") := by
    rw [kept, split_manyHotwords positive, List.filter_replicate, if_pos isRow]
  exact ⟨by rw [rows, List.length_replicate], by rw [rowLengths, rows, List.map_replicate, units]⟩

/-- The read for the last of 419430 words would start at 2147485696. -/
theorem not_consistent_many :
    ¬ ∃ input, hotwordInput oneUnit tenUnits (manyHotwords 419430) = some input ∧
      input.IsConsistent 512 := by
  rintro ⟨input, made, consistent⟩
  have fits := fitsInt_of_consistent made consistent
  obtain ⟨count, lengths⟩ := @rowLengths_manyHotwords 419430 (by omega)
  have isLength : (rowLengths oneUnit tenUnits (manyHotwords 419430))[419429]? = some 10 := by
    rw [lengths, List.getElem?_append_left (by rw [List.length_replicate]; omega),
      List.getElem?_replicate, if_pos (by omega)]
  have most := fits.starts 419429 10 isLength
  have width : castInt 512 = 512 := by decide
  rw [count, width] at most
  omega

end Asr2Pass.Hotwords
