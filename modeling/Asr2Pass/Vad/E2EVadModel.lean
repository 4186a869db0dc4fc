import Asr2Pass.Vad.WindowDetector

/-! # `E2EVadModel`

The scorer as `e2e-vad.h` has it.  Two things of the source are parameters here:

* a row of `scores` is the state `GetFrameState` answers for it (`RowState`); the test on the
  energy that runs `DetectOneFrame` a second time inside `GetFrameState` cannot succeed, since
  `10 * log10(sum + 0.000001)` is at least -60 and `decibel_thres` is -100;
* `energy` is that logarithm, as a function of the samples of one window.

A function answers `none` where the source reads outside a vector or never returns.  The two sizes
of the sample buffer are `int`s that no reset clears; `intSizes` says whether they are kept so, or
as exact numbers.
-/

namespace Asr2Pass.Vad

inductive VadStateMachine where
  | startPointNotDetected
  | inSpeechSegment
  | endPointDetected
deriving DecidableEq, Repr

inductive VadDetectMode where
  | singleUtteranceDetectMode
  | mutipleUtteranceDetectMode
deriving DecidableEq, Repr

/-! ## `VADXOptions`

The members that no call writes keep the defaults of the constructor. -/

namespace VADXOptions

def detectMode : VadDetectMode := .mutipleUtteranceDetectMode
def maxEndSilenceTime : Int := 800
def maxStartSilenceTime : Int := 3000
def windowSizeMs : Nat := 200
def silToSpeechTimeThres : Nat := 150
def speechToSilTimeThres : Nat := 150
def doExtend : Bool := true
def lookbackTimeStartPoint : Int := 200
def lookaheadTimeEndPoint : Int := 100
def frameInMs : Nat := 10
def frameLengthMs : Nat := 25

end VADXOptions

open VADXOptions

inductive RowState where
  | speech
  | sil
deriving DecidableEq, Repr

def RowState.frameState : RowState → FrameState
  | .speech => .speech
  | .sil => .sil

theorem RowState.frameState_ne_invalid (row : RowState) : row.frameState ≠ .invalid := by
  cases row <;> decide

structure E2EVadSpeechBufWithDoa where
  startMs : Int := 0
  endMs : Int := 0
  containSegStartPoint : Bool := false
  containSegEndPoint : Bool := false
deriving DecidableEq, Repr

structure E2EVadModel (α δ : Type) where
  sampleRate : Nat := 16000
  maxSingleSegmentTime : Int := 15000
  nnEvalBlockSize : Nat := 8
  windowsDetector : WindowDetector :=
    WindowDetector.new windowSizeMs silToSpeechTimeThres speechToSilTimeThres frameInMs
  dataBufStartFrame : Int := 0
  frmCnt : Int := 0
  latestConfirmedSpeechFrame : Int := 0
  lastestConfirmedSilenceFrame : Int := -1
  continousSilenceFrameCount : Int := 0
  vadStateMachine : VadStateMachine := .startPointNotDetected
  confirmedStartFrame : Int := -1
  confirmedEndFrame : Int := -1
  numberEndTimeDetected : Int := 0
  silFrame : Int := 0
  preEndSilenceDetected : Bool := false
  nextSeg : Bool := true
  outputDataBuf : List E2EVadSpeechBufWithDoa := []
  outputDataBufOffset : Nat := 0
  maxEndSilFrameCntThresh : Int := maxEndSilenceTime - speechToSilTimeThres
  scores : List RowState := []
  idxPreChunk : Int := 0
  maxTimeOut : Bool := false
  decibel : List δ := []
  dataBufSize : Int := 0
  dataBufAllSize : Int := 0
  waveform : List α := []
  intSizes : Bool := false

namespace E2EVadModel

variable {α δ : Type}

/-! ## Resets -/

def resetDetection (model : E2EVadModel α δ) : E2EVadModel α δ :=
  { model with
    continousSilenceFrameCount := 0
    latestConfirmedSpeechFrame := 0
    lastestConfirmedSilenceFrame := -1
    confirmedStartFrame := -1
    confirmedEndFrame := -1
    vadStateMachine := .startPointNotDetected
    windowsDetector := model.windowsDetector.reset
    silFrame := 0 }

/-- `data_buf_size` and `data_buf_all_size` are declared anew in the source, so the members
    of that name are not written. -/
def allResetDetection (model : E2EVadModel α δ) : E2EVadModel α δ :=
  resetDetection
    { model with
      dataBufStartFrame := 0
      frmCnt := 0
      latestConfirmedSpeechFrame := 0
      lastestConfirmedSilenceFrame := -1
      continousSilenceFrameCount := 0
      vadStateMachine := .startPointNotDetected
      confirmedStartFrame := -1
      confirmedEndFrame := -1
      numberEndTimeDetected := 0
      silFrame := 0
      preEndSilenceDetected := false
      nextSeg := true
      outputDataBuf := []
      outputDataBufOffset := 0
      maxEndSilFrameCntThresh := maxEndSilenceTime - speechToSilTimeThres
      scores := []
      idxPreChunk := 0
      maxTimeOut := false
      decibel := []
      waveform := [] }

/-! ## Energy and scores -/

def frameSampleLength (sampleRate : Nat) : Nat := frameLengthMs * sampleRate / 1000

def frameShiftLength (sampleRate : Nat) : Nat := frameInMs * sampleRate / 1000

/-- How many windows `ComputeDecibel` visits in a waveform of `size` samples. -/
def windowCount (sampleRate size : Nat) : Nat :=
  if frameSampleLength sampleRate ≤ size then
    (size - frameSampleLength sampleRate) / frameShiftLength sampleRate + 1
  else 0

def decibelOf (energy : List α → δ) (sampleRate : Nat) (waveform : List α) : List δ :=
  (List.range (windowCount sampleRate waveform.length)).map fun window =>
    energy ((waveform.drop (window * frameShiftLength sampleRate)).take (frameSampleLength sampleRate))

/-- What `data_buf_all_size` holds of a number of samples. -/
def size (model : E2EVadModel α δ) (samples : Int) : Int :=
  if model.intSizes then samples.bmod (2 ^ 32) else samples

theorem size_exact {model : E2EVadModel α δ} (exact : model.intSizes = false) (samples : Int) :
    model.size samples = samples := by
  simp [size, exact]

theorem size_fits {model : E2EVadModel α δ} {samples : Int} (nonneg : 0 ≤ samples)
    (fits : model.intSizes = true → samples < 2 ^ 31) : model.size samples = samples := by
  cases int : model.intSizes with
  | false => exact size_exact int samples
  | true =>
    have bound := fits int
    rw [size, int, if_pos rfl]
    exact Int.bmod_eq_of_le (by omega) (by omega)

def computeDecibel (energy : List α → δ) (model : E2EVadModel α δ) : E2EVadModel α δ :=
  let model :=
    if model.dataBufAllSize = 0 then
      { model with
        dataBufAllSize := model.size model.waveform.length
        dataBufSize := model.size model.waveform.length }
    else { model with dataBufAllSize := model.size (model.dataBufAllSize + model.waveform.length) }
  { model with decibel := model.decibel ++ decibelOf energy model.sampleRate model.waveform }

def computeScores (model : E2EVadModel α δ) (scores : List RowState) : E2EVadModel α δ :=
  { model with
    nnEvalBlockSize := scores.length
    frmCnt := model.frmCnt + scores.length
    scores := scores }

/-! ## The sample buffer -/

/-- The product or the difference of a round is no `int`.  `data_buf_start_frame` is never negative,
    so the one can only be too large, the other too small. -/
def Overflows (model : E2EVadModel α δ) (popped : Int) : Prop :=
  model.intSizes = true ∧ (2 ^ 31 ≤ popped ∨ model.dataBufAllSize - popped < -2 ^ 31)

instance (model : E2EVadModel α δ) (popped : Int) : Decidable (model.Overflows popped) :=
  inferInstanceAs (Decidable (_ ∧ _))

/-- `count` rounds of the loop of `PopDataBufTillFrame`.  A round that does not advance
    `data_buf_start_frame` changes nothing, so the loop then runs for ever. -/
def popFrames (model : E2EVadModel α δ) : Nat → Option (E2EVadModel α δ)
  | 0 => some model
  | count + 1 =>
    let popped := (model.dataBufStartFrame + 1) * frameShiftLength model.sampleRate
    if model.dataBufSize < frameShiftLength model.sampleRate then none
    else if model.Overflows popped then none
    else
      popFrames
        { model with
          dataBufStartFrame := model.dataBufStartFrame + 1
          dataBufSize := model.dataBufAllSize - popped } count

def popDataBufTillFrame (model : E2EVadModel α δ) (frameIdx : Int) : Option (E2EVadModel α δ) :=
  popFrames model (frameIdx - model.dataBufStartFrame).toNat

/-- The sample counts that only decide which warning is printed are left out. -/
def popDataToOutputBuf (model : E2EVadModel α δ) (startFrm frmCnt : Int)
    (firstFrmIsStartPoint lastFrmIsEndPoint : Bool) : Option (E2EVadModel α δ) := do
  let model ← model.popDataBufTillFrame startFrm
  let outputDataBuf :=
    -- A start makes a new entry; otherwise the last one grows.
    if model.outputDataBuf = [] ∨ firstFrmIsStartPoint then
      model.outputDataBuf ++ [{ startMs := startFrm * frameInMs, endMs := startFrm * frameInMs }]
    else model.outputDataBuf
  return { model with
    dataBufStartFrame := model.dataBufStartFrame + frmCnt
    outputDataBuf := outputDataBuf.modifyLast fun curSeg =>
      { curSeg with
        endMs := (startFrm + frmCnt) * frameInMs
        containSegStartPoint := curSeg.containSegStartPoint || firstFrmIsStartPoint
        containSegEndPoint := curSeg.containSegEndPoint || lastFrmIsEndPoint } }

/-! ## Events -/

def onSilenceDetected (model : E2EVadModel α δ) (validFrame : Int) : Option (E2EVadModel α δ) :=
  let model := { model with lastestConfirmedSilenceFrame := validFrame }
  if model.vadStateMachine = .startPointNotDetected then model.popDataBufTillFrame validFrame
  else some model

/-- `for (int t = first; ..; t++) OnSilenceDetected(t)`, `count` times. -/
def onSilenceDetectedFrom (model : E2EVadModel α δ) (first : Int) : Nat → Option (E2EVadModel α δ)
  | 0 => some model
  | count + 1 => do
    let model ← model.onSilenceDetected first
    onSilenceDetectedFrom model (first + 1) count

def onVoiceDetected (model : E2EVadModel α δ) (validFrame : Int) : Option (E2EVadModel α δ) :=
  { model with latestConfirmedSpeechFrame := validFrame }.popDataToOutputBuf validFrame 1 false false

/-- `for (int t = first; ..; t++) OnVoiceDetected(t)`, `count` times. -/
def onVoiceDetectedFrom (model : E2EVadModel α δ) (first : Int) : Nat → Option (E2EVadModel α δ)
  | 0 => some model
  | count + 1 => do
    let model ← model.onVoiceDetected first
    onVoiceDetectedFrom model (first + 1) count

def onVoiceStart (model : E2EVadModel α δ) (startFrame : Int) (fakeResult : Bool) :
    Option (E2EVadModel α δ) :=
  let model :=
    if model.confirmedStartFrame ≠ -1 then model else { model with confirmedStartFrame := startFrame }
  if !fakeResult ∧ model.vadStateMachine = .startPointNotDetected then
    model.popDataToOutputBuf model.confirmedStartFrame 1 true false
  else some model

def onVoiceEnd (model : E2EVadModel α δ) (endFrame : Int) (fakeResult : Bool) :
    Option (E2EVadModel α δ) := do
  let model ← model.onVoiceDetectedFrom (model.latestConfirmedSpeechFrame + 1)
    (endFrame - (model.latestConfirmedSpeechFrame + 1)).toNat
  let model :=
    if model.confirmedEndFrame ≠ -1 then model else { model with confirmedEndFrame := endFrame }
  let model ←
    if fakeResult then some model
    else popDataToOutputBuf { model with silFrame := 0 } model.confirmedEndFrame 1 false true
  return { model with numberEndTimeDetected := model.numberEndTimeDetected + 1 }

def setState (model : E2EVadModel α δ) (vadStateMachine : VadStateMachine) : E2EVadModel α δ :=
  { model with vadStateMachine }

def maybeOnVoiceEndIfLastFrame (model : E2EVadModel α δ) (isFinalFrame : Bool) (curFrmIdx : Int) :
    Option (E2EVadModel α δ) :=
  if isFinalFrame then (model.onVoiceEnd curFrmIdx false).map (·.setState .endPointDetected)
  else some model

def latencyFrmNumAtStartPoint (model : E2EVadModel α δ) : Int :=
  if doExtend then model.windowsDetector.getWinSize + lookbackTimeStartPoint / frameInMs
  else model.windowsDetector.getWinSize

/-! ## One frame -/

/-- The tail that three changes share while a segment is open: the length limit first, then
    the last frame. -/
def limitSegment (model : E2EVadModel α δ) (curFrmIdx : Int) (isFinalFrame : Bool) :
    Option (E2EVadModel α δ) :=
  if curFrmIdx - model.confirmedStartFrame + 1 > model.maxSingleSegmentTime.tdiv frameInMs then
    (model.onVoiceEnd curFrmIdx false).map (·.setState .endPointDetected)
  else if !isFinalFrame then model.onVoiceDetected curFrmIdx
  else model.maybeOnVoiceEndIfLastFrame isFinalFrame curFrmIdx

def onSil2Speech (model : E2EVadModel α δ) (curFrmIdx : Int) (isFinalFrame : Bool) :
    Option (E2EVadModel α δ) :=
  let model := { model with continousSilenceFrameCount := 0, preEndSilenceDetected := false }
  match model.vadStateMachine with
  | .startPointNotDetected => do
    let startFrame := max model.dataBufStartFrame (curFrmIdx - model.latencyFrmNumAtStartPoint)
    let model ← model.onVoiceStart startFrame false
    (model.setState .inSpeechSegment).onVoiceDetectedFrom (startFrame + 1)
      (curFrmIdx - startFrame).toNat
  | .inSpeechSegment => do
    let model ← model.onVoiceDetectedFrom (model.latestConfirmedSpeechFrame + 1)
      (curFrmIdx - (model.latestConfirmedSpeechFrame + 1)).toNat
    model.limitSegment curFrmIdx isFinalFrame
  | .endPointDetected => some model

def onSpeech2Sil (model : E2EVadModel α δ) (curFrmIdx : Int) (isFinalFrame : Bool) :
    Option (E2EVadModel α δ) :=
  let model := { model with continousSilenceFrameCount := 0 }
  match model.vadStateMachine with
  | .inSpeechSegment => model.limitSegment curFrmIdx isFinalFrame
  | _ => some model

def onSpeech2Speech (model : E2EVadModel α δ) (curFrmIdx : Int) (isFinalFrame : Bool) :
    Option (E2EVadModel α δ) :=
  let model := { model with continousSilenceFrameCount := 0 }
  match model.vadStateMachine with
  | .inSpeechSegment =>
    let maxTimeOut := model.maxTimeOut ||
      curFrmIdx - model.confirmedStartFrame + 1 > model.maxSingleSegmentTime.tdiv frameInMs
    let model := { model with maxTimeOut }
    model.limitSegment curFrmIdx isFinalFrame
  | _ => some model

def lookbackFrame (maxEndSilFrameCntThresh : Int) : Int :=
  let lookback := maxEndSilFrameCntThresh.tdiv frameInMs
  if doExtend then max 0 (lookback - lookaheadTimeEndPoint / frameInMs - 1) else lookback

def onSil2Sil (model : E2EVadModel α δ) (curFrmIdx : Int) (isFinalFrame : Bool) :
    Option (E2EVadModel α δ) :=
  let model := { model with continousSilenceFrameCount := model.continousSilenceFrameCount + 1 }
  match model.vadStateMachine with
  | .startPointNotDetected =>
    -- Too much silence for a single utterance, or a recording that ends without speech.
    if (detectMode = .singleUtteranceDetectMode ∧
          model.continousSilenceFrameCount * frameInMs > maxStartSilenceTime) ∨
        (isFinalFrame ∧ model.numberEndTimeDetected = 0) then do
      let model ← model.onSilenceDetectedFrom (model.lastestConfirmedSilenceFrame + 1)
        (curFrmIdx - (model.lastestConfirmedSilenceFrame + 1)).toNat
      let model ← model.onVoiceStart 0 true
      let model ← model.onVoiceEnd 0 true
      return model.setState .endPointDetected
    else if curFrmIdx ≥ model.latencyFrmNumAtStartPoint then
      model.onSilenceDetected (curFrmIdx - model.latencyFrmNumAtStartPoint)
    else some model
  | .inSpeechSegment =>
    if model.continousSilenceFrameCount * frameInMs ≥ model.maxEndSilFrameCntThresh then
      (model.onVoiceEnd (curFrmIdx - lookbackFrame model.maxEndSilFrameCntThresh) false).map
        (·.setState .endPointDetected)
    else if curFrmIdx - model.confirmedStartFrame + 1 > model.maxSingleSegmentTime.tdiv frameInMs then
      (model.onVoiceEnd curFrmIdx false).map (·.setState .endPointDetected)
    else if doExtend ∧ !isFinalFrame then
      if model.continousSilenceFrameCount ≤ lookaheadTimeEndPoint / frameInMs then
        model.onVoiceDetected curFrmIdx
      else some model
    else model.maybeOnVoiceEndIfLastFrame isFinalFrame curFrmIdx
  | .endPointDetected => some model

def detectOneFrame (model : E2EVadModel α δ) (curFrmState : FrameState) (curFrmIdx : Int)
    (isFinalFrame : Bool) : Option (E2EVadModel α δ) := do
  let (stateChange, windowsDetector) := model.windowsDetector.detectOneFrame curFrmState
  let model := { model with windowsDetector }
  let model ← match stateChange with
    | .sil2Speech => model.onSil2Speech curFrmIdx isFinalFrame
    | .speech2Sil => model.onSpeech2Sil curFrmIdx isFinalFrame
    | .speech2Speech => model.onSpeech2Speech curFrmIdx isFinalFrame
    | .sil2Sil => model.onSil2Sil curFrmIdx isFinalFrame
    | .noBegin | .invalid => some model
  return if model.vadStateMachine = .endPointDetected ∧ detectMode = .mutipleUtteranceDetectMode then
    model.resetDetection
  else model

/-! ## One call -/

def getFrameState (model : E2EVadModel α δ) (t : Int) : Option FrameState :=
  if 0 ≤ t ∧ t < model.decibel.length ∧ 0 ≤ t - model.idxPreChunk then
    (model.scores[(t - model.idxPreChunk).toNat]?).map (·.frameState)
  else none

/-- The loop of `DetectCommonFrames` from `i` downwards, `count` rounds of it. -/
def detectFrames (model : E2EVadModel α δ) (i : Int) : Nat → Option (E2EVadModel α δ)
  | 0 => some model
  | count + 1 => do
    let frameState ← model.getFrameState (model.frmCnt - 1 - i)
    let model ← model.detectOneFrame frameState (model.frmCnt - 1 - i) false
    detectFrames model (i - 1) count

def detectCommonFrames (model : E2EVadModel α δ) : Option (E2EVadModel α δ) :=
  if model.vadStateMachine = .endPointDetected then some model
  else do
    let model ← model.detectFrames (model.nnEvalBlockSize - 1) model.nnEvalBlockSize
    return { model with idxPreChunk := model.idxPreChunk + model.scores.length }

/-- The rounds `i ≠ 0` of the loop of `DetectLastFrames`. -/
def detectFramesButLast (model : E2EVadModel α δ) : Option (E2EVadModel α δ) :=
  model.detectFrames (model.nnEvalBlockSize - 1) (model.nnEvalBlockSize - 1)

def detectLastFrames (model : E2EVadModel α δ) : Option (E2EVadModel α δ) :=
  if model.vadStateMachine = .endPointDetected then some model
  else if model.nnEvalBlockSize = 0 then some model
  else do
    let model ← model.detectFramesButLast
    let frameState ← model.getFrameState (model.frmCnt - 1)
    model.detectOneFrame frameState (model.frmCnt - 1) true

/-- An entry of an answer: start and end in ms, `-1` for a point that is not reported. -/
abbrev Segment := Int × Int

/-- The report of an online call over the buffers from `output_data_buf_offset` on: the
    entries, `next_seg`, and how far the offset advances. -/
def reportOnline (nextSeg : Bool) : List E2EVadSpeechBufWithDoa → List Segment × Bool × Nat
  | [] => ([], nextSeg, 0)
  | buf :: rest =>
    if !buf.containSegStartPoint then reportOnline nextSeg rest
    -- A segment whose start was told waits for its end.
    else if !nextSeg && !buf.containSegEndPoint then reportOnline nextSeg rest
    else
      let startMs := if nextSeg then buf.startMs else -1
      if buf.containSegEndPoint then
        let (segments, next, advance) := reportOnline true rest
        ((startMs, buf.endMs) :: segments, next, advance + 1)
      else
        let (segments, next, advance) := reportOnline false rest
        ((startMs, -1) :: segments, next, advance)

def reportOffline (isFinal : Bool) : List E2EVadSpeechBufWithDoa → List Segment × Nat
  | [] => ([], 0)
  | buf :: rest =>
    let (segments, advance) := reportOffline isFinal rest
    if !isFinal && (!buf.containSegStartPoint || !buf.containSegEndPoint) then (segments, advance)
    else ((buf.startMs, buf.endMs) :: segments, advance + 1)

def report (model : E2EVadModel α δ) (isFinal online : Bool) : List Segment × E2EVadModel α δ :=
  let pending := model.outputDataBuf.drop model.outputDataBufOffset
  if online then
    let (segments, nextSeg, advance) := reportOnline model.nextSeg pending
    (segments, { model with nextSeg, outputDataBufOffset := model.outputDataBufOffset + advance })
  else
    let (segments, advance) := reportOffline isFinal pending
    (segments, { model with outputDataBufOffset := model.outputDataBufOffset + advance })

/-- What `operator()` does before the frames are looked at. -/
def acceptCall (energy : List α → δ) (model : E2EVadModel α δ) (scores : List RowState)
    (waveform : List α) (maxEndSil maxSingleSegmentTime : Int) (sampleRate : Nat) :
    E2EVadModel α δ :=
  let model := { model with
    maxEndSilFrameCntThresh := maxEndSil - speechToSilTimeThres
    waveform
    maxSingleSegmentTime
    sampleRate }
  (model.computeDecibel energy).computeScores scores

/-- `operator()`. -/
def call (energy : List α → δ) (model : E2EVadModel α δ) (scores : List RowState)
    (waveform : List α) (isFinal online : Bool) (maxEndSil maxSingleSegmentTime : Int)
    (sampleRate : Nat) : Option (List Segment × E2EVadModel α δ) := do
  let model := model.acceptCall energy scores waveform maxEndSil maxSingleSegmentTime sampleRate
  let model ← if !isFinal then model.detectCommonFrames else model.detectLastFrames
  let (segmentBatch, model) := model.report isFinal online
  return (segmentBatch, if isFinal then model.allResetDetection else model)

end E2EVadModel

end Asr2Pass.Vad
