import Asr2Pass.Frontend.OnlineLfr

/-! # `ExtractFeats`

The waveform side of streaming feature extraction: samples that no frame has used up wait in
`input_cache_`, frames that later rows need in `lfr_splice_cache_`, and their samples in
`reserve_waveforms_`.  `FsmnVadOnline` and `ParaformerOnline` share the text; the network state
that `FsmnVadOnline::Reset` clears is not part of it.
-/

namespace Asr2Pass.Frontend

open Library

/-- `frame_sample_length_` and `frame_shift_sample_length_`. -/
structure Framing where
  frameSampleLength : Nat
  frameShiftSampleLength : Nat
  pos : 0 < frameShiftSampleLength
  le : frameShiftSampleLength ≤ frameSampleLength

/-- Frames of 25 ms every 10 ms at 16 kHz. -/
def Framing.hertz16000 : Framing := ⟨400, 160, by decide, by decide⟩

structure FeatureCache (α β : Type) where
  reserveWaveforms : List α := []
  inputCache : List α := []
  lfrSpliceCache : List (List β) := []
deriving DecidableEq, Repr

/-- What a call leaves in `vad_feats`, in `waves` and in the caches. -/
structure Extracted (α β : Type) where
  feats : List (List β)
  waves : List α
  cache : FeatureCache α β
deriving DecidableEq, Repr

variable {α β : Type}

def resetCache : FeatureCache α β := {}

def computeFrameNum (framing : Framing) (sampleLength : Nat) : Nat :=
  if framing.frameSampleLength ≤ sampleLength then
    (sampleLength - framing.frameSampleLength) / framing.frameShiftSampleLength + 1
  else 0

/-- The samples of frame `i`. -/
def frameSamples (framing : Framing) (waves : List α) (i : Nat) : List α :=
  (waves.drop (i * framing.frameShiftSampleLength)).take framing.frameSampleLength

/-- `FbankKaldi`, with the features of one frame as a function of its samples. -/
def fbankKaldi (framing : Framing) (fbank : List α → List β) (cache : FeatureCache α β)
    (waves : List α) : Extracted α β :=
  let waves := cache.inputCache ++ waves
  let frameNumber := computeFrameNum framing waves.length
  let cache := { cache with inputCache := waves.drop (frameNumber * framing.frameShiftSampleLength) }
  if frameNumber = 0 then { feats := [], waves, cache }
  else
    let waves := waves.take
      ((frameNumber - 1) * framing.frameShiftSampleLength + framing.frameSampleLength)
    { feats := (List.range frameNumber).map fun i => fbank (frameSamples framing waves i)
      waves
      cache }

/-- The frames that `lfr_splice_cache_` starts a recording with. -/
def seedCache (lfr : LfrOptions) (lfrSpliceCache feats : List (List β)) : List (List β) :=
  if lfrSpliceCache = [] then List.replicate lfr.copies (feats.headD []) else lfrSpliceCache

/-! ## A call

`splice` is `OnlineLfrCmvn`.
-/

/-- The branch of `ExtractFeats` for a call with frames. -/
def spliceFeatsBy (framing : Framing) (lfr : LfrOptions)
    (splice : List (List β) → Bool → Option (Spliced β)) (extracted : Extracted α β)
    (inputFinished : Bool) : Option (Extracted α β) :=
  let cache := extracted.cache
  let waves := cache.reserveWaveforms ++ extracted.waves
  let lfrSpliceCache := seedCache lfr cache.lfrSpliceCache extracted.feats
  if extracted.feats.length + lfrSpliceCache.length ≥ lfr.lfrM then do
    let frameFromWaves :=
      (waves.length - framing.frameSampleLength) / framing.frameShiftSampleLength + 1
    let minusFrame := if cache.reserveWaveforms = [] then (lfr.lfrM - 1) / 2 else 0
    let spliced ← splice (lfrSpliceCache ++ extracted.feats) inputFinished
    let reserveFrameIdx := ((spliced.lfrSpliceFrameIdxs : Int) - minusFrame).natAbs
    let reserveWaveforms ← slice waves (reserveFrameIdx * framing.frameShiftSampleLength)
      (frameFromWaves * framing.frameShiftSampleLength)
    let sampleLength :=
      (frameFromWaves - 1) * framing.frameShiftSampleLength + framing.frameSampleLength
    return { feats := spliced.feats
             waves := waves.take sampleLength
             cache := { cache with reserveWaveforms, lfrSpliceCache := spliced.lfrSpliceCache } }
  else
    -- The frames stay in `feats` as they are, and in the cache as well.
    some
      { feats := extracted.feats
        waves
        cache := { cache with
          reserveWaveforms := waves.drop (framing.frameSampleLength - framing.frameShiftSampleLength)
          lfrSpliceCache := lfrSpliceCache ++ extracted.feats } }

/-- The branch of `ExtractFeats` for a call without frames. -/
def flushFeatsBy (splice : List (List β) → Bool → Option (Spliced β)) (extracted : Extracted α β)
    (inputFinished : Bool) : Option (Extracted α β) :=
  if inputFinished then
    let cache := extracted.cache
    let waves := if cache.reserveWaveforms = [] then extracted.waves else cache.reserveWaveforms
    if cache.lfrSpliceCache = [] then some { extracted with feats := [], waves }
    else do
      let spliced ← splice cache.lfrSpliceCache inputFinished
      return { feats := spliced.feats
               waves
               cache := { cache with lfrSpliceCache := spliced.lfrSpliceCache } }
  else some extracted

/-- `ExtractFeats`; `none` where an iterator would leave its vector. -/
def extractFeatsBy (framing : Framing) (lfr : LfrOptions) (fbank : List α → List β)
    (splice : List (List β) → Bool → Option (Spliced β)) (cache : FeatureCache α β) (waves : List α)
    (inputFinished : Bool) : Option (Extracted α β) := do
  let extracted := fbankKaldi framing fbank cache waves
  let extracted ←
    if extracted.feats ≠ [] then spliceFeatsBy framing lfr splice extracted inputFinished
    else flushFeatsBy splice extracted inputFinished
  return if inputFinished then { extracted with cache := resetCache } else extracted

variable [Add β] [Mul β]

def spliceFeats (framing : Framing) (lfr : LfrOptions) (cmvn : Cmvn β) :
    Extracted α β → Bool → Option (Extracted α β) :=
  spliceFeatsBy framing lfr (onlineLfrCmvn lfr cmvn)

/-- `ExtractFeats` with the exact ceiling. -/
def extractFeats (framing : Framing) (lfr : LfrOptions) (fbank : List α → List β) (cmvn : Cmvn β) :
    FeatureCache α β → List α → Bool → Option (Extracted α β) :=
  extractFeatsBy framing lfr fbank (onlineLfrCmvn lfr cmvn)

/-- `ExtractFeats`, the quotient in `float`. -/
def floatExtractFeats (framing : Framing) (lfr : LfrOptions) (fbank : List α → List β)
    (cmvn : Cmvn β) : FeatureCache α β → List α → Bool → Option (Extracted α β) :=
  extractFeatsBy framing lfr fbank (floatOnlineLfrCmvn lfr cmvn)

/-- `FsmnVadOnline::ExtractFeats`. -/
def FsmnVadOnline.extractFeats (framing : Framing) (fbank : List α → List β) (cmvn : Cmvn β) :
    FeatureCache α β → List α → Bool → Option (Extracted α β) :=
  Frontend.extractFeats framing .vad fbank cmvn

/-- `ParaformerOnline::ExtractFeats`, with `lfr_m` and `lfr_n` of the model it serves. -/
def ParaformerOnline.extractFeats (framing : Framing) (lfr : LfrOptions) (fbank : List α → List β)
    (cmvn : Cmvn β) : FeatureCache α β → List α → Bool → Option (Extracted α β) :=
  Frontend.extractFeats framing lfr fbank cmvn

/-! ## A recording -/

/-- Calls that are not the last one: what each leaves in `vad_feats`, and the caches. -/
def extractCalls (framing : Framing) (lfr : LfrOptions) (fbank : List α → List β) (cmvn : Cmvn β)
    (cache : FeatureCache α β) : List (List α) → Option (List (List (List β)) × FeatureCache α β)
  | [] => some ([], cache)
  | waves :: rest => do
    let extracted ← floatExtractFeats framing lfr fbank cmvn cache waves false
    let (outputs, cache) ← extractCalls framing lfr fbank cmvn extracted.cache rest
    return (extracted.feats :: outputs, cache)

/-- Calls up to the one with `input_finished`, from empty caches on. -/
def extractRecording (framing : Framing) (lfr : LfrOptions) (fbank : List α → List β)
    (cmvn : Cmvn β) (chunks : List (List α)) (last : List α) : Option (List (List (List β))) := do
  let (outputs, cache) ← extractCalls framing lfr fbank cmvn {} chunks
  let extracted ← floatExtractFeats framing lfr fbank cmvn cache last true
  return outputs ++ [extracted.feats]

/-- The call has frames, but fewer than a row needs together with the cached ones. -/
def Short (framing : Framing) (lfr : LfrOptions) (cache : FeatureCache α β) (waves : List α) : Prop :=
  let frames := computeFrameNum framing (cache.inputCache ++ waves).length
  frames ≠ 0 ∧ frames + (if cache.lfrSpliceCache = [] then lfr.copies else cache.lfrSpliceCache.length) <
    lfr.lfrM

instance (framing : Framing) (lfr : LfrOptions) (cache : FeatureCache α β) (waves : List α)
    [DecidableEq β] : Decidable (Short framing lfr cache waves) :=
  inferInstanceAs (Decidable (_ ∧ _))

/-- The frames that `OnlineLfrCmvn` gets. -/
def splicedFrames (framing : Framing) (lfr : LfrOptions) (cache : FeatureCache α β)
    (waves : List α) : Nat :=
  (if cache.lfrSpliceCache = [] then lfr.copies else cache.lfrSpliceCache.length) +
    computeFrameNum framing (cache.inputCache ++ waves).length

/-- No call of the recording is short, and each one's quotient has the right ceiling. -/
def Regular (framing : Framing) (lfr : LfrOptions) (fbank : List α → List β) (cmvn : Cmvn β)
    (cache : FeatureCache α β) : List (List α) → Prop
  | [] => True
  | waves :: rest => ¬ Short framing lfr cache waves ∧
      lfr.FloatCeil (splicedFrames framing lfr cache waves) ∧
      ∀ extracted, floatExtractFeats framing lfr fbank cmvn cache waves false = some extracted →
        Regular framing lfr fbank cmvn extracted.cache rest

/-- All frames of a waveform. -/
def fbankFrames (framing : Framing) (fbank : List α → List β) (waves : List α) : List (List β) :=
  (List.range (computeFrameNum framing waves.length)).map fun i =>
    fbank (frameSamples framing waves i)

end Asr2Pass.Frontend
