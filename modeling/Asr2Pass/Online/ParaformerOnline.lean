import Asr2Pass.Frontend.ExtractFeats
import Asr2Pass.Online.CifSearch

/-! # `ParaformerOnline`

`Forward` takes the samples of one frame, makes feature rows of them and hands the rows, with
those that were kept as context, to the encoder.  The network is a parameter; an exception of the
encoder or of the decoder ends in `ForwardChunk`, one on the way to the rows in `Forward`.  A
function answers `none` where the source forms an iterator outside a vector or reads past its end.
-/

namespace Asr2Pass.Online

/-- What `Forward` uses of the object and of the model it serves: features `F` are cached between
    calls, `α` are samples, `ρ` rows, and `δ` is what the decoder keeps. -/
structure OnlineParts (F α ρ K δ : Type) where
  cif : CifConfig K
  extractFeats : F → List α → Bool → Option (List ρ × F)
  /-- `reserve_waveforms_`, `input_cache_` and `lfr_splice_cache_` after `ResetCache` -/
  resetCache : F
  /-- a row scaled by `sqrt_factor`, with its position added -/
  embed : Nat → ρ → ρ
  zeroRow : ρ
  /-- rows and weights of `encoder_session_`, or an exception -/
  encoder : List ρ → Option (List (List K) × List K)
  /-- text and caches of `decoder_session_`, or an exception and what it leaves -/
  decoder : δ → List (List K) → List (List K) → Except δ (String × δ)
  fsmnInitCache : δ

/-- The members that a call changes. -/
structure ParaformerOnline (F ρ K δ : Type) where
  features : F
  startIdxCache : Nat
  cif : CifCache K
  featsCache : List ρ
  decoderOnnx : δ
  isFirstChunk : Bool
  isLastChunk : Bool

/-- An exception that only `Forward` catches: in `ExtractFeats`, with what it leaves of the caches,
    or in `GetPosEmb`. -/
inductive Fault (F : Type) where
  | extractFeats (features : F)
  | getPosEmb

structure ForwardCall (F α : Type) where
  samples : List α
  inputFinished : Bool
  fault : Option (Fault F) := none

/-- The result of `Forward`, the row lists that it handed to `ForwardChunk`, and the object. -/
structure Answer (F ρ K δ : Type) where
  result : String
  presented : List (List ρ)
  online : ParaformerOnline F ρ K δ

/-- The last `count` rows, as a copy from `end() - count` to `end()`. -/
def lastRows {ρ : Type} (rows : List ρ) (count : Int) : Option (List ρ) :=
  if 0 ≤ count ∧ count ≤ rows.length then some (rows.drop (rows.length - count.toNat)) else none

/-- `AddOverlapChunk`: the rows with the cached ones before them, and `feats_cache_`. -/
def addOverlapChunk {ρ : Type} (chunkSize : ChunkSize) (zeroRow : ρ) (isLastChunk : Bool)
    (featsCache wavFeats : List ρ) (inputFinished : Bool) : Option (List ρ × List ρ) :=
  let wavFeats := featsCache ++ wavFeats
  if inputFinished then do
    let featsCache ← lastRows wavFeats chunkSize.left
    let paddingLength := wrap (chunkSize.total - wavFeats.length)
    return (if isLastChunk then wavFeats
      else wavFeats ++ List.replicate paddingLength.toNat zeroRow, featsCache)
  else do
    -- The iterator is moved by one entry and then by the other; no `int` sum is formed.
    let featsCache ← lastRows wavFeats (chunkSize.left + chunkSize.right)
    return (wavFeats, featsCache)

/-- A number as a `size_t`. -/
def sizeT (number : Int) : Int := number % 2 ^ 64

namespace OnlineParts

variable {F α ρ K δ : Type} [Field K] [LinearOrder K] (parts : OnlineParts F α ρ K δ)

/-- `InitCache`. -/
def initCache (online : ParaformerOnline F ρ K δ) : ParaformerOnline F ρ K δ :=
  { online with
    startIdxCache := 0
    isFirstChunk := true
    isLastChunk := false
    cif := parts.cif.initCache
    featsCache := List.replicate parts.cif.chunkSize.context.toNat parts.zeroRow
    decoderOnnx := parts.fsmnInitCache }

/-- `ResetCache` and `Reset`. -/
def reset (online : ParaformerOnline F ρ K δ) : ParaformerOnline F ρ K δ :=
  parts.initCache { online with features := parts.resetCache }

/-- A new object. -/
def fresh : ParaformerOnline F ρ K δ where
  features := parts.resetCache
  startIdxCache := 0
  isFirstChunk := true
  isLastChunk := false
  cif := parts.cif.initCache
  featsCache := List.replicate parts.cif.chunkSize.context.toNat parts.zeroRow
  decoderOnnx := parts.fsmnInitCache

/-- `ForwardChunk`. -/
def forwardChunk (online : ParaformerOnline F ρ K δ) (chunkFeats : List ρ) :
    Option (String × ParaformerOnline F ρ K δ) :=
  match parts.encoder chunkFeats with
  -- An exception of the encoder comes before the predictor has changed its cache.
  | none => some ("", online)
  | some (encVec, alphaVec) => do
    let (listFrame, cif) ← parts.cif.cifSearch online.isLastChunk online.cif encVec alphaVec
    let online := { online with cif }
    if listFrame.length > 0 then
      match parts.decoder online.decoderOnnx encVec listFrame with
      | .error decoderOnnx => return ("", { online with decoderOnnx })
      | .ok (result, decoderOnnx) => return (result, { online with decoderOnnx })
    else
      return ("", online)

/-- `AddOverlapChunk` on the members. -/
def overlap (online : ParaformerOnline F ρ K δ) (wavFeats : List ρ) (inputFinished : Bool) :
    Option (List ρ × ParaformerOnline F ρ K δ) := do
  let (wavFeats, featsCache) ← addOverlapChunk parts.cif.chunkSize parts.zeroRow online.isLastChunk
    online.featsCache wavFeats inputFinished
  return (wavFeats, { online with featsCache })

/-- The last lines of `Forward`: one list of rows. -/
def forwardOne (online : ParaformerOnline F ρ K δ) (wavFeats : List ρ) (inputFinished : Bool) :
    Option (Answer F ρ K δ) := do
  let (wavFeats, online) ← parts.overlap online wavFeats inputFinished
  let (result, online) ← parts.forwardChunk online wavFeats
  return {
    result := if result ≠ "" ∧ online.isLastChunk then result.push ' ' else result
    presented := [wavFeats]
    online := if inputFinished then parts.reset online else online }

/-- The last rows of an utterance in two lists. -/
def forwardTwo (online : ParaformerOnline F ρ K δ) (wavFeats : List ρ) :
    Option (Answer F ρ K δ) := do
  let (firstChunk, online) ← parts.overlap online wavFeats true
  let (strFirstChunk, online) ← parts.forwardChunk online firstChunk
  -- For the predictor only the second list is the last one.
  let online := { online with isLastChunk := true }
  let lastChunk ← lastRows wavFeats
    (wavFeats.length + parts.cif.chunkSize.right - parts.cif.chunkSize.middle)
  let (lastChunk, online) ← parts.overlap online lastChunk true
  let (strLastChunk, online) ← parts.forwardChunk online lastChunk
  return {
    result := strFirstChunk ++ strLastChunk
    presented := [firstChunk, lastChunk]
    online := parts.reset online }

/-- `Forward` from `GetPosEmb` on. -/
def forwardRows (online : ParaformerOnline F ρ K δ) (wavFeats : List ρ) (inputFinished : Bool) :
    Option (Answer F ρ K δ) :=
  let chunkSize := parts.cif.chunkSize
  let rows := wavFeats.mapIdx fun position row => parts.embed (online.startIdxCache + position) row
  let online := { online with startIdxCache := online.startIdxCache + wavFeats.length }
  if inputFinished then
    if sizeT (rows.length + chunkSize.right) ≤ sizeT chunkSize.middle then
      parts.forwardOne { online with isLastChunk := true } rows true
    else
      parts.forwardTwo online rows
  else
    parts.forwardOne online rows false

/-- The branch for a last call of less than 60 ms. -/
def shortTail (online : ParaformerOnline F ρ K δ) : Option (Answer F ρ K δ) := do
  let online := { online with isLastChunk := true }
  let (result, online) ← parts.forwardChunk online online.featsCache
  return { result, presented := [online.featsCache], online := parts.reset online }

/-- `Forward`. -/
def forward (online : ParaformerOnline F ρ K δ) (call : ForwardCall F α) :
    Option (Answer F ρ K δ) :=
  -- The end is too short for features: what is cached is presented once more.
  if call.samples.length < 16 * 60 ∧ call.inputFinished ∧ ¬ online.isFirstChunk then
    parts.shortTail online
  else
    let online := { online with isFirstChunk := false }
    -- An exception inside `ExtractFeats` leaves the caches as they are by then.
    match call.fault with
    | some (.extractFeats features) =>
      some { result := "", presented := [], online := { online with features } }
    | fault => do
      let (wavFeats, features) ← parts.extractFeats online.features call.samples call.inputFinished
      let online := { online with features }
      if wavFeats = [] then
        return { result := "", presented := [], online }
      else if fault.isSome then
        return {
          result := ""
          presented := []
          online := { online with startIdxCache := online.startIdxCache + wavFeats.length } }
      else
        parts.forwardRows online wavFeats call.inputFinished

/-- Calls one after the other: the row lists handed to `ForwardChunk`, and the object. -/
def forwards : ParaformerOnline F ρ K δ → List (ForwardCall F α) →
    Option (List (List ρ) × ParaformerOnline F ρ K δ)
  | online, [] => some ([], online)
  | online, call :: rest => do
    let answer ← parts.forward online call
    let (more, last) ← forwards answer.online rest
    return (answer.presented ++ more, last)

end OnlineParts

open Frontend (Cmvn FeatureCache Framing LfrOptions)

/-- A model with its feature options, and the network as functions. -/
structure OnlineModel (α β K δ : Type) where
  framing : Framing
  lfr : LfrOptions
  fbank : List α → List β
  cmvn : Cmvn β
  sqrtFactor : β
  /-- what `GetPosEmb` adds, by the size of a row, its position and the column -/
  posEmb : Nat → Nat → Nat → β
  featDims : Nat
  cif : CifConfig K
  encoder : List (List β) → Option (List (List K) × List K)
  decoder : δ → List (List K) → List (List K) → Except δ (String × δ)
  fsmnInitCache : δ

/-- `Forward` with the functions of the source. -/
def OnlineModel.parts {α β K δ : Type} [Add β] [Mul β] [Zero β] (model : OnlineModel α β K δ) :
    OnlineParts (FeatureCache α β) α (List β) K δ where
  cif := model.cif
  extractFeats := fun cache waves inputFinished =>
    (Frontend.ParaformerOnline.extractFeats model.framing model.lfr model.fbank model.cmvn cache
      waves inputFinished).map fun extracted => (extracted.feats, extracted.cache)
  resetCache := Frontend.resetCache
  embed := fun position row =>
    row.mapIdx fun column value => value * model.sqrtFactor + model.posEmb row.length position column
  zeroRow := List.replicate model.featDims 0
  encoder := model.encoder
  decoder := model.decoder
  fsmnInitCache := model.fsmnInitCache

/-- Frames of one value; the network gives every row a quarter of a token and no text. -/
def plainModel (framing : Framing) (chunkSize : ChunkSize) : OnlineModel Nat Nat ℚ Unit where
  framing := framing
  lfr := .para
  fbank := fun samples => [samples.headD 0]
  cmvn := ⟨List.replicate 7 0, List.replicate 7 1⟩
  sqrtFactor := 1
  posEmb := fun _ _ _ => 0
  featDims := 7
  cif := ⟨1, 1, 9 / 20, chunkSize⟩
  encoder := fun rows => some (rows.map fun _ => [1], rows.map fun _ => 1 / 4)
  decoder := fun caches _ _ => .ok ("", caches)
  fsmnInitCache := ()

end Asr2Pass.Online
