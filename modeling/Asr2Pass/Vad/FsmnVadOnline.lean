import Asr2Pass.Frontend.ExtractFeats
import Asr2Pass.Vad.Scorer

/-! # `FsmnVadOnline`

`Infer` extracts the features of a chunk, lets the network judge them and hands probabilities and
waveform to the scorer.  `threw` in a chunk says that the session's `Run` throws for it.
-/

namespace Asr2Pass.Vad

open Frontend

/-- `frame_sample_length_` and `frame_shift_sample_length_` for a rate of `khz` kHz. -/
def framing (khz : Nat) (pos : 0 < khz) : Framing where
  frameSampleLength := khz * 25
  frameShiftSampleLength := khz * 10
  pos := by omega
  le := by omega

/-- The session: one row of probabilities for a row of features. -/
structure VadSession (β δ κ : Type) where
  run : List (List β) → κ → List (List δ) × κ
  length_run : ∀ feats inCache, (run feats inCache).1.length = feats.length

/-- What `InitOnline` and `SetConfig` set. -/
structure VadConfig (α β δ κ : Type) where
  khz : Nat
  pos : 0 < khz
  fbank : List α → List β
  cmvn : Cmvn β
  session : VadSession β δ κ
  initCache : κ
  elementary : Elementary δ
  energy : List α → δ
  vadSilenceDuration : Int
  vadMaxLen : Int
  vadSpeechNoiseThres : δ

structure Chunk (α : Type) where
  waves : List α
  inputFinished : Bool
  threw : Bool := false

structure FsmnVadOnline (α β δ κ : Type) where
  features : FeatureCache α β
  inCache : κ
  vadScorer : Scorer α δ

namespace VadConfig

variable {α β δ κ : Type} [Add β] [Mul β] [Field δ] [LinearOrder δ]

def new (config : VadConfig α β δ κ) : FsmnVadOnline α β δ κ where
  features := {}
  inCache := config.initCache
  vadScorer := Scorer.new

/-- A new handle whose scorer counts its samples in `int`s, as that of the source does. -/
def newInt (config : VadConfig α β δ κ) : FsmnVadOnline α β δ κ where
  features := {}
  inCache := config.initCache
  vadScorer := { (Scorer.new : Scorer α δ) with model := { intSizes := true } }

/-- `FsmnVad::Forward`. -/
def forward (config : VadConfig α β δ κ) (feats : List (List β)) (inCache : κ) (isFinal threw : Bool) :
    List (List δ) × κ :=
  if threw then ([], inCache)
  else
    let (outProb, caches) := config.session.run feats inCache
    (outProb, if isFinal then inCache else caches)

/-- The arguments of the scorer. -/
def scorerCall (config : VadConfig α β δ κ) (vadProbs : List (List δ)) (waves : List α)
    (inputFinished : Bool) : ScorerCall α δ where
  score := vadProbs
  waveform := waves
  isFinal := inputFinished
  online := true
  maxEndSil := config.vadSilenceDuration
  maxSingleSegmentTime := config.vadMaxLen
  speechNoiseThres := config.vadSpeechNoiseThres
  sampleRate := 1000 * config.khz

def extractFeats (config : VadConfig α β δ κ) (features : FeatureCache α β) (chunk : Chunk α) :
    Option (Extracted α β) :=
  FsmnVadOnline.extractFeats (framing config.khz config.pos) config.fbank config.cmvn features
    chunk.waves chunk.inputFinished

/-- The first half of `Infer`: the features of a chunk, and the probabilities of their rows. -/
def judge (config : VadConfig α β δ κ) (handle : FsmnVadOnline α β δ κ) (chunk : Chunk α) :
    Option (Extracted α β × List (List δ) × κ) := do
  let extracted ← config.extractFeats handle.features chunk
  -- `ExtractFeats` resets the network's cache too.
  let inCache := if chunk.inputFinished then config.initCache else handle.inCache
  if extracted.feats = [] then return (extracted, [], inCache)
  else return (extracted, config.forward extracted.feats inCache chunk.inputFinished chunk.threw)

/-- `FsmnVadOnline::Infer`. -/
def infer (config : VadConfig α β δ κ) (handle : FsmnVadOnline α β δ κ) (chunk : Chunk α) :
    Option (List E2EVadModel.Segment × FsmnVadOnline α β δ κ) := do
  let (extracted, vadProbs, inCache) ← config.judge handle chunk
  if vadProbs = [] then
    -- Without features, and when the session throws.
    return ([], { handle with features := extracted.cache, inCache })
  else
    let (vadSegments, vadScorer) ← handle.vadScorer.call config.elementary config.energy
      (config.scorerCall vadProbs extracted.waves chunk.inputFinished)
    return (vadSegments, { features := extracted.cache, inCache, vadScorer })

end VadConfig

end Asr2Pass.Vad
