import Asr2Pass.Hotwords.Lexicon
import Asr2Pass.Text.Splitting
import Asr2Pass.Timestamps.EncodeConverter

/-! # `CompileHotwordEmbedding`

Every hotword whose units are all known is a row of the matrix, with the number of its units, and a row
for no hotword is the last.  The model of the hotwords gives an embedding for every unit of every row,
of which the one at the last unit is taken.
-/

namespace Asr2Pass.Hotwords

open Text (CString split)
open Timestamps (isChineseCharacter unitText)
open Timestamps.EncodeConverter (castInt)

/-- The result of an operation on `int`s; none where it is no `int`. -/
def checkInt (number : Int) : Option Int :=
  if -2 ^ 31 ≤ number ∧ number < 2 ^ 31 then some number else none

/-! ## The units of a hotword -/

def isAllChineseCharactor (pu8 : CString) : Option Bool :=
  if pu8.length ≤ 0 then some false
  else (Timestamps.EncodeConverter.utf8ToUtf16 pu8).map fun p16 =>
    p16.all fun unit => !(unit < 0x4e00 || unit > 0x9fff)

def keepChineseCharacterAndSplit (inputStr : CString) : Option (List CString) :=
  (Timestamps.EncodeConverter.utf8ToUtf16 inputStr).map fun pu16 =>
    ((pu16.map UInt16.toNat).filter isChineseCharacter).map unitText

/-- `seg_dict`. -/
abbrev SegDict := CString → Option (List CString)

def getTokensByWord (segDict : SegDict) (word : CString) : List CString := (segDict word).getD []

/-- `chars`. -/
def hotwordChars (segDict : SegDict) (hotword : CString) : Option (List CString) := do
  if ← isAllChineseCharactor hotword then keepChineseCharacterAndSplit hotword
  else some ((split hotword 0x20).flatMap (getTokensByWord segDict))

/-! ## The matrix -/

def maxHotwordLen : Nat := 10

/-- The loop over `i`: `hw_vector` and `chs_oov`. -/
def writeIds (phoneSet : PhoneSet) (i : Nat) (hwVector : List Int) : List CString → List Int × Bool
  | [] => (hwVector, false)
  | char :: chars =>
    let hwVector := hwVector.set i (phoneSet.string2Id char)
    if phoneSet.string2Id char = -1 then (hwVector, true)
    else writeIds phoneSet (i + 1) hwVector chars

/-- `hotword_matrix`, `lengths` and `real_hw_size`. -/
structure Compiling where
  hotwordMatrix : List Int := []
  lengths : List Int := []
  realHwSize : Int := 0

/-- `vector_len`. -/
def vectorLen (chars : List CString) : Int := min maxHotwordLen (castInt chars.length)

/-- One turn of the loop over the hotwords. -/
def compileHotword (phoneSet : PhoneSet) (segDict : SegDict) (compiling : Compiling)
    (hotword : CString) : Option Compiling := do
  let chars ← hotwordChars segDict hotword
  if chars.length = 0 then return compiling
  else
    let (hwVector, chsOov) := writeIds phoneSet 0 (List.replicate maxHotwordLen 0)
      (chars.take (vectorLen chars).toNat)
    if chsOov then return compiling
    else
      let realHwSize ← checkInt (compiling.realHwSize + 1)
      return {
        hotwordMatrix := compiling.hotwordMatrix ++ hwVector
        lengths := compiling.lengths ++ [vectorLen chars]
        realHwSize }

/-- What the model of the hotwords is given, and the lengths that are used afterwards. -/
structure HotwordInput where
  hotwordMatrix : List Int
  lengths : List Int
  hotwordSize : Int

/-- The loop over the hotwords, and `hotword_size`. -/
def compileHotwords (phoneSet : PhoneSet) (segDict : SegDict) (hotwords : CString) :
    Option (Compiling × Int) :=
  if hotwords = [] then some ({}, 1)
  else do
    let hotwordArray := split hotwords 0x20
    let reserved ← checkInt (castInt (hotwordArray.length + 1) * maxHotwordLen)
    -- `reserve` throws.
    if reserved < 0 then none
    else
      let compiling ← hotwordArray.foldlM (compileHotword phoneSet segDict) {}
      let hotwordSize ← checkInt (compiling.realHwSize + 1)
      return (compiling, hotwordSize)

/-- Up to the tensor of `hotword_size * max_hotword_len` entries. -/
def hotwordInput (phoneSet : PhoneSet) (segDict : SegDict) (hotwords : CString) :
    Option HotwordInput := do
  let (compiling, hotwordSize) ← compileHotwords phoneSet segDict hotwords
  let blankVec := (List.replicate maxHotwordLen 0).set 0 1
  let _ ← checkInt (hotwordSize * maxHotwordLen)
  return {
    hotwordMatrix := compiling.hotwordMatrix ++ blankVec
    lengths := compiling.lengths ++ [1]
    hotwordSize }

/-! ## The embeddings -/

def startPos (hotwordSize embeddingDim length j : Int) : Option Int := do
  let before ← checkInt (length - 1)
  let rows ← checkInt (hotwordSize * before)
  let start ← checkInt (rows * embeddingDim)
  let offset ← checkInt (j * embeddingDim)
  checkInt (start + offset)

/-- The ranges of `floatData` that are copied, for an output of shape
    `[max_hotword_len, hotword_size, dim]`. -/
def HotwordInput.reads (input : HotwordInput) (dim : Nat) : Option (List (Int × Int)) :=
  (List.range input.hotwordSize.toNat).mapM fun (j : Nat) => do
    let length ← input.lengths[j]?
    let start ← startPos input.hotwordSize (castInt dim) length j
    return (start, start + castInt dim)

/-- The values between two positions of `floatData`. -/
def copyRange {F : Type*} (floatData : List F) (read : Int × Int) : List F :=
  (floatData.drop read.1.toNat).take (read.2 - read.1).toNat

/-- `CompileHotwordEmbedding`, where the session answers with `dim` and the values of its output, or
    throws what is caught. -/
def compileHotwordEmbedding {F : Type} [Zero F] (useHotword : Bool) (encoderSize : Nat)
    (session : HotwordInput → Option (Nat × List F)) (phoneSet : PhoneSet) (segDict : SegDict)
    (hotwords : CString) : Option (List (List F)) :=
  if !useHotword then some [List.replicate encoderSize 0]
  else do
    let input ← hotwordInput phoneSet segDict hotwords
    match session input with
    | none => return []
    | some (dim, floatData) =>
      let reads ← input.reads dim
      return reads.map (copyRange floatData)

/-- The matrix and the lengths have a row for every hotword, and no read leaves the output. -/
structure HotwordInput.IsConsistent (input : HotwordInput) (dim : Nat) : Prop where
  matrix : input.hotwordMatrix.length = input.hotwordSize * maxHotwordLen
  lengths : input.lengths.length = input.hotwordSize
  bounds : ∀ length ∈ input.lengths, 1 ≤ length ∧ length ≤ maxHotwordLen
  inside : ∃ reads, input.reads dim = some reads ∧ ∀ read ∈ reads,
    0 ≤ read.1 ∧ read.1 ≤ read.2 ∧ read.2 ≤ maxHotwordLen * input.hotwordSize * dim

end Asr2Pass.Hotwords
