import Asr2Pass.Library.Runs
import Asr2Pass.Vad.E2EVadModel
import Mathlib.Algebra.Field.Defs
import Mathlib.Order.Defs.LinearOrder
import Mathlib.Algebra.BigOperators.Group.List.Defs
import Mathlib.Algebra.Field.Rat
import Mathlib.Algebra.Order.Ring.Rat

/-! # The scorer with its noise level

`E2EVadModel` takes the answers of `GetFrameState` as its rows.  `Scorer` computes them from the
probabilities of the network, and has the members that this needs.  `frame_probs` is left out:
`output_frame_probs` is false, so that nothing is ever put into it.
-/

namespace Asr2Pass.Vad

namespace VADXOptions

variable {δ : Type} [Field δ]

def snrThres : δ := -100
def decibelThres : δ := -100
def noiseFrameNumUsedForSnr : δ := 100
def speech2NoiseRatio : δ := 1
def defaultSpeechNoiseThres : δ := 9 / 10
def silPdfIds : List Nat := [0]

end VADXOptions

open VADXOptions

structure Scorer (α δ : Type) where
  model : E2EVadModel α δ
  isFinal : Bool
  silPdfIds : List Nat
  noiseAverageDecibel : δ
  speechNoiseThres : δ

/-- `log` and `exp` on the scores. -/
structure Elementary (δ : Type) where
  log : δ → δ
  exp : δ → δ

/-- The arguments of `operator()`, with the probabilities of each row. -/
structure ScorerCall (α δ : Type) where
  score : List (List δ)
  waveform : List α
  isFinal : Bool
  online : Bool
  maxEndSil : Int
  maxSingleSegmentTime : Int
  speechNoiseThres : δ
  sampleRate : Nat

namespace Scorer

variable {α δ : Type} [Field δ] [LinearOrder δ]

def new : Scorer α δ where
  model := {}
  isFinal := false
  silPdfIds := VADXOptions.silPdfIds
  noiseAverageDecibel := -100
  speechNoiseThres := defaultSpeechNoiseThres

/-- `noise_average_decibel` after a frame of noise. -/
def noiseAfter (noiseAverageDecibel curDecibel : δ) : δ :=
  if noiseAverageDecibel < -999 / 10 then curDecibel
  else (curDecibel + noiseAverageDecibel * (noiseFrameNumUsedForSnr - 1)) / noiseFrameNumUsedForSnr

/-- `GetFrameState` for a frame of energy `curDecibel`: the state, and the noise level after it.
    It is `none` where a probability is missing. -/
def frameState (elementary : Elementary δ) (silPdfIds : List Nat)
    (speechNoiseThres noiseAverageDecibel curDecibel : δ) (score : List δ) :
    Option (RowState × δ) :=
  let curSnr := curDecibel - noiseAverageDecibel
  -- Too quiet for anything: the noise level does not learn from this frame.
  if curDecibel < decibelThres then some (.sil, noiseAverageDecibel)
  else do
    let silPdfScores ← silPdfIds.mapM (score[·]?)
    let (sumScore, noiseProb) :=
      if silPdfIds.length > 0 then
        (1 - silPdfScores.sum, elementary.log silPdfScores.sum * speech2NoiseRatio)
      else (0, 0)
    let speechProb := elementary.log sumScore
    if elementary.exp speechProb ≥ elementary.exp noiseProb + speechNoiseThres then
      if curSnr ≥ snrThres ∧ curDecibel ≥ decibelThres then
        return (.speech, noiseAverageDecibel)
      else return (.sil, noiseAverageDecibel)
    else return (.sil, noiseAfter noiseAverageDecibel curDecibel)

/-- The states of the rows of a call, the first of which is frame `t`. -/
def frameStates (elementary : Elementary δ) (silPdfIds : List Nat) (speechNoiseThres : δ)
    (decibel : List δ) (noiseAverageDecibel : δ) (t : Nat) :
    List (List δ) → Option (List RowState × δ)
  | [] => some ([], noiseAverageDecibel)
  | score :: scores => do
    let curDecibel ← decibel[t]?
    let (state, noise) ←
      frameState elementary silPdfIds speechNoiseThres noiseAverageDecibel curDecibel score
    let (states, noise) ←
      frameStates elementary silPdfIds speechNoiseThres decibel noise (t + 1) scores
    return (state :: states, noise)

/-- `operator()`.  The end of a segment never outlasts its frame in this detect mode, so that
    every row of a call is looked at. -/
def call (elementary : Elementary δ) (energy : List α → δ) (scorer : Scorer α δ)
    (args : ScorerCall α δ) : Option (List E2EVadModel.Segment × Scorer α δ) := do
  let decibel := scorer.model.decibel ++ E2EVadModel.decibelOf energy args.sampleRate args.waveform
  let (rows, noiseAverageDecibel) ← frameStates elementary scorer.silPdfIds args.speechNoiseThres
    decibel scorer.noiseAverageDecibel scorer.model.frmCnt.toNat args.score
  let (segmentBatch, model) ← scorer.model.call energy rows args.waveform args.isFinal args.online
    args.maxEndSil args.maxSingleSegmentTime args.sampleRate
  let scorer : Scorer α δ :=
    { scorer with model, noiseAverageDecibel, speechNoiseThres := args.speechNoiseThres }
  -- The reset of the members that `E2EVadModel.call` has not reset.
  return (segmentBatch, if args.isFinal then { (new : Scorer α δ) with model } else scorer)

def step (elementary : Elementary δ) (energy : List α → δ) (scorer : Scorer α δ)
    (args : ScorerCall α δ) : Option (Scorer α δ) :=
  (scorer.call elementary energy args).map (·.2)

end Scorer

end Asr2Pass.Vad
