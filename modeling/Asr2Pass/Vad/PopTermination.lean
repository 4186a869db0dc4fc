import Asr2Pass.Vad.DurationCap

/-! # `PopDataBufTillFrame` returns

A read of `GetFrameState` beyond `decibel` is left open here: a call comes with what such a read
makes of a frame.  What then remains undefined is a loop of `PopDataBufTillFrame` that never
advances, and with enough samples there is none, in any recording that the scorer serves.
-/

namespace Asr2Pass.Vad

open VADXOptions E2EVadModel

namespace E2EVadModel

variable {α δ : Type} (outside : Int → RowState)

/-! ## A call whose reads all answer -/

def frameStateOr (model : E2EVadModel α δ) (t : Int) : FrameState :=
  (model.getFrameState t).getD (outside t).frameState

/-- `detectFrames`, where a read outside answers `outside`. -/
def detectFramesOr (model : E2EVadModel α δ) (i : Int) : Nat → Option (E2EVadModel α δ)
  | 0 => some model
  | count + 1 => do
    let frameState := model.frameStateOr outside (model.frmCnt - 1 - i)
    let model ← model.detectOneFrame frameState (model.frmCnt - 1 - i) false
    detectFramesOr model (i - 1) count

def detectCommonFramesOr (model : E2EVadModel α δ) : Option (E2EVadModel α δ) :=
  if model.vadStateMachine = .endPointDetected then some model
  else do
    let model ← model.detectFramesOr outside (model.nnEvalBlockSize - 1) model.nnEvalBlockSize
    return { model with idxPreChunk := model.idxPreChunk + model.scores.length }

def detectLastFramesOr (model : E2EVadModel α δ) : Option (E2EVadModel α δ) :=
  if model.vadStateMachine = .endPointDetected then some model
  else if model.nnEvalBlockSize = 0 then some model
  else do
    let model ← model.detectFramesOr outside (model.nnEvalBlockSize - 1) (model.nnEvalBlockSize - 1)
    let frameState := model.frameStateOr outside (model.frmCnt - 1)
    model.detectOneFrame frameState (model.frmCnt - 1) true

def callOr (energy : List α → δ) (model : E2EVadModel α δ) (scores : List RowState)
    (waveform : List α) (isFinal online : Bool) (maxEndSil maxSingleSegmentTime : Int)
    (sampleRate : Nat) : Option (List Segment × E2EVadModel α δ) := do
  let model := model.acceptCall energy scores waveform maxEndSil maxSingleSegmentTime sampleRate
  let model ←
    if !isFinal then model.detectCommonFramesOr outside else model.detectLastFramesOr outside
  let (segmentBatch, model) := model.report isFinal online
  return (segmentBatch, if isFinal then model.allResetDetection else model)

variable {outside} {model model' : E2EVadModel α δ}

theorem frameStateOr_eq {t : Int} {frameState : FrameState}
    (state : model.getFrameState t = some frameState) : model.frameStateOr outside t = frameState := by
  simp [frameStateOr, state]

theorem frameStateOr_row (outside : Int → RowState) (model : E2EVadModel α δ) (t : Int) :
    ∃ row : RowState, row.frameState = model.frameStateOr outside t := by
  cases state : model.getFrameState t with
  | none => exact ⟨outside t, by simp [frameStateOr, state]⟩
  | some frameState =>
    obtain ⟨row, same⟩ := getFrameState_row state
    exact ⟨row, by rw [frameStateOr_eq state, same]⟩

theorem detectFramesOr_eq {i : Int} {count : Nat} (returned : model.detectFrames i count = some model') :
    model.detectFramesOr outside i count = some model' := by
  induction count generalizing model i with
  | zero => exact returned
  | succ count inductionHypothesis =>
    obtain ⟨frameState, state, returned⟩ := Option.bind_eq_some_iff.mp returned
    obtain ⟨middle, once, others⟩ := Option.bind_eq_some_iff.mp returned
    rw [detectFramesOr, frameStateOr_eq state, once]
    exact inductionHypothesis others

/-- A call that reads inside `decibel` does not depend on `outside`. -/
theorem callOr_eq {energy : List α → δ} {scores : List RowState} {waveform : List α}
    {isFinal online : Bool} {maxEndSil maxSingleSegmentTime : Int} {sampleRate : Nat}
    {result : List Segment × E2EVadModel α δ}
    (returned : model.call energy scores waveform isFinal online maxEndSil maxSingleSegmentTime
      sampleRate = some result) :
    model.callOr outside energy scores waveform isFinal online maxEndSil maxSingleSegmentTime
      sampleRate = some result := by
  rw [call_eq] at returned
  obtain ⟨detected, frames, rest⟩ := Option.bind_eq_some_iff.mp returned
  simp only [callOr]
  generalize model.acceptCall energy scores waveform maxEndSil maxSingleSegmentTime sampleRate =
    accepted at frames ⊢
  -- Both branches read the same frames, each of them inside `decibel`.
  cases isFinal with
  | false =>
    simp only [Bool.not_false, if_true] at frames ⊢
    have same : accepted.detectCommonFramesOr outside = some detected := by
      rw [detectCommonFrames] at frames
      rw [detectCommonFramesOr]
      split
      next stopped => rwa [if_pos stopped] at frames
      next running =>
        rw [if_neg running] at frames
        obtain ⟨middle, common, rest⟩ := Option.bind_eq_some_iff.mp frames
        rw [detectFramesOr_eq common]
        exact rest
    rw [same]
    exact rest
  | true =>
    simp only [Bool.not_true, Bool.false_eq_true, if_false] at frames ⊢
    have same : accepted.detectLastFramesOr outside = some detected := by
      rw [detectLastFrames] at frames
      rw [detectLastFramesOr]
      split
      next stopped => rwa [if_pos stopped] at frames
      next running =>
        rw [if_neg running] at frames
        split
        next empty => rwa [if_pos empty] at frames
        next some =>
          rw [if_neg some] at frames
          obtain ⟨middle, common, rest⟩ := Option.bind_eq_some_iff.mp frames
          obtain ⟨frameState, state, last⟩ := Option.bind_eq_some_iff.mp rest
          rw [detectFramesOr_eq common]
          simp only [Option.bind_eq_bind, Option.bind_some, frameStateOr_eq state]
          exact last
    rw [same]
    exact rest

/-! ## The frames of a call -/

/-- Two scorers that agree on what the frames of a call leave alone, but for the sizes. -/
structure Twins (model other : E2EVadModel α δ) : Prop where
  sampleRate : other.sampleRate = model.sampleRate
  maxSingleSegmentTime : other.maxSingleSegmentTime = model.maxSingleSegmentTime
  nnEvalBlockSize : other.nnEvalBlockSize = model.nnEvalBlockSize
  frmCnt : other.frmCnt = model.frmCnt
  nextSeg : other.nextSeg = model.nextSeg
  outputDataBufOffset : other.outputDataBufOffset = model.outputDataBufOffset
  maxEndSilFrameCntThresh : other.maxEndSilFrameCntThresh = model.maxEndSilFrameCntThresh
  scores : other.scores = model.scores
  idxPreChunk : other.idxPreChunk = model.idxPreChunk
  decibel : other.decibel = model.decibel

variable {other other' : E2EVadModel α δ}

theorem Twins.of_same (twins : Twins model other) (same : SameStream model model')
    (same' : SameStream other other') : Twins model' other' where
  sampleRate := by rw [same.sampleRate, same'.sampleRate, twins.sampleRate]
  maxSingleSegmentTime := by
    rw [same.maxSingleSegmentTime, same'.maxSingleSegmentTime, twins.maxSingleSegmentTime]
  nnEvalBlockSize := by rw [same.nnEvalBlockSize, same'.nnEvalBlockSize, twins.nnEvalBlockSize]
  frmCnt := by rw [same.frmCnt, same'.frmCnt, twins.frmCnt]
  nextSeg := by rw [same.nextSeg, same'.nextSeg, twins.nextSeg]
  outputDataBufOffset := by
    rw [same.outputDataBufOffset, same'.outputDataBufOffset, twins.outputDataBufOffset]
  maxEndSilFrameCntThresh := by
    rw [same.maxEndSilFrameCntThresh, same'.maxEndSilFrameCntThresh, twins.maxEndSilFrameCntThresh]
  scores := by rw [same.scores, same'.scores, twins.scores]
  idxPreChunk := by rw [same.idxPreChunk, same'.idxPreChunk, twins.idxPreChunk]
  decibel := by rw [same.decibel, same'.decibel, twins.decibel]

theorem Twins.limits (twins : Twins model other) : other.limits = model.limits := by
  rw [E2EVadModel.limits, E2EVadModel.limits, twins.maxEndSilFrameCntThresh,
    twins.maxSingleSegmentTime]

theorem Twins.frameStateOr (twins : Twins model other) (outside : Int → RowState) (t : Int) :
    other.frameStateOr outside t = model.frameStateOr outside t := by
  simp only [E2EVadModel.frameStateOr, getFrameState, twins.decibel, twins.idxPreChunk,
    twins.scores]

/-- Two scorers that agree on what a call finds of this. -/
structure Kin (model other : E2EVadModel α δ) : Prop where
  frmCnt : other.frmCnt = model.frmCnt
  nextSeg : other.nextSeg = model.nextSeg
  outputDataBufOffset : other.outputDataBufOffset = model.outputDataBufOffset
  idxPreChunk : other.idxPreChunk = model.idxPreChunk
  decibel : other.decibel = model.decibel

theorem Kin.acceptCall (kin : Kin model other) (energy : List α → δ) (scores : List RowState)
    (waveform : List α) (maxEndSil maxSingleSegmentTime : Int) (sampleRate : Nat) :
    Twins (model.acceptCall energy scores waveform maxEndSil maxSingleSegmentTime sampleRate)
      (other.acceptCall energy scores waveform maxEndSil maxSingleSegmentTime sampleRate) := by
  rw [acceptCall_eq, acceptCall_eq]
  obtain ⟨count, next, offset, position, decibel⟩ := kin
  exact ⟨rfl, rfl, rfl, by rw [count], next, offset, rfl, rfl, position, by rw [decibel]⟩

/-- Both scorers return from what they do next, and then track one segmenter. -/
def Both (model other : E2EVadModel α δ) (result result' : Option (E2EVadModel α δ))
    (post : E2EVadModel α δ → Prop) : Prop :=
  model.Yields result post ∧ other.Yields result' post

theorem Both.of_same {result result' : Option (E2EVadModel α δ)} {post : E2EVadModel α δ → Prop}
    (both : Both model' other' result result' post) (same : SameStream model model')
    (same' : SameStream other other') : Both model other result result' post :=
  ⟨both.1.of_same same, both.2.of_same same'⟩

/-- One frame, which both scorers judge alike. -/
theorem Twins.detectOneFrame (twins : Twins model other) {segmenter : Segmenter} {t : Int}
    (tracks : Tracks model segmenter ∧ Tracks other segmenter) (valid : segmenter.Valid t)
    (room : model.Room t ∧ other.Room t) (outside : Int → RowState) (final : Bool) :
    ∃ segmenter', segmenter'.Valid (t + 1) ∧
      Both model other (model.detectOneFrame (model.frameStateOr outside t) t final)
        (other.detectOneFrame (other.frameStateOr outside t) t final)
        (Follows final segmenter') := by
  obtain ⟨row, state⟩ := frameStateOr_row outside model t
  refine ⟨segmenter.step model.limits row t final, Segmenter.step_valid _ valid row final, ?_, ?_⟩
  · rw [← state]
    exact detectOneFrame_follows tracks.1 valid room.1 row final
  · rw [twins.frameStateOr, ← state, ← twins.limits]
    exact detectOneFrame_follows tracks.2 valid room.2 row final

/-- With room for every frame of the call, the loop over them returns. -/
theorem Twins.detectFramesOr (outside : Int → RowState) (count : Nat) {segmenter : Segmenter}
    {i t : Int} (twins : Twins model other)
    (tracks : Tracks model segmenter ∧ Tracks other segmenter) (valid : segmenter.Valid t)
    (frame : t = model.frmCnt - 1 - i)
    (room : model.Room (t + count - 1) ∧ other.Room (t + count - 1)) :
    ∃ segmenter', segmenter'.Valid (t + count) ∧
      Both model other (model.detectFramesOr outside i count)
        (other.detectFramesOr outside i count) fun model' => model'.Tracks segmenter' := by
  induction count generalizing model other segmenter i t with
  | zero =>
    exact ⟨segmenter, by simpa using valid,
      ⟨model, rfl, tracks.1, SameStream.refl _, room.1.now⟩,
      ⟨other, rfl, tracks.2, SameStream.refl _, room.2.now⟩⟩
  | succ count inductionHypothesis =>
    obtain ⟨next, valid', ⟨middle, returned, follows, same, enough⟩,
      middle', returned', follows', same', enough'⟩ := twins.detectOneFrame tracks valid
        ⟨room.1.mono (by push_cast; omega), room.2.mono (by push_cast; omega)⟩ outside false
    obtain ⟨segmenter', valid'', both⟩ := @inductionHypothesis middle middle' _ (i - 1) _
      (twins.of_same same same') ⟨follows.tracks rfl, follows'.tracks rfl⟩ valid'
      (by rw [same.frmCnt]; omega)
      ⟨(Yields.room room.1 same enough).mono (by push_cast; omega),
        (Yields.room room.2 same' enough').mono (by push_cast; omega)⟩
    refine ⟨segmenter', by push_cast; rwa [add_comm (count : Int) 1, ← add_assoc], ?_⟩
    rw [E2EVadModel.detectFramesOr, E2EVadModel.detectFramesOr, twins.frmCnt, ← frame, returned,
      returned']
    exact both.of_same same same'

/-- The frames of a final call, in which the last one is looked up by itself. -/
theorem Twins.detectLastFramesOr (outside : Int → RowState) {segmenter : Segmenter} {t : Nat}
    (twins : Twins model other) (tracks : Tracks model segmenter ∧ Tracks other segmenter)
    (valid : segmenter.Valid t) (frmCnt : model.frmCnt = t + model.nnEvalBlockSize)
    (room : model.Room (t + model.nnEvalBlockSize - 1) ∧
      other.Room (t + model.nnEvalBlockSize - 1)) :
    ∃ segmenter' : Segmenter, segmenter'.window.WellFormed ∧
      Both model other (model.detectLastFramesOr outside) (other.detectLastFramesOr outside)
        (Follows true segmenter') := by
  rw [E2EVadModel.detectLastFramesOr, E2EVadModel.detectLastFramesOr, if_neg tracks.1.running,
    if_neg tracks.2.running, twins.nnEvalBlockSize]
  split
  next empty =>
    exact ⟨segmenter, valid.window,
      ⟨model, rfl, tracks.1.follows, SameStream.refl _, room.1.now⟩,
      ⟨other, rfl, tracks.2.follows, SameStream.refl _, room.2.now⟩⟩
  next some =>
    obtain ⟨next, valid', ⟨middle, returned, tracked, same, enough⟩,
      middle', returned', tracked', same', enough'⟩ := twins.detectFramesOr outside
        (model.nnEvalBlockSize - 1) tracks valid
        (show (t : Int) = model.frmCnt - 1 - (model.nnEvalBlockSize - 1) by omega)
        ⟨room.1.mono (by omega), room.2.mono (by omega)⟩
    have last : middle.frmCnt - 1 = t + (model.nnEvalBlockSize - 1 : Nat) := by
      rw [same.frmCnt]
      omega
    rw [← last] at valid'
    have twins' := twins.of_same same same'
    obtain ⟨segmenter', valid'', final⟩ := twins'.detectOneFrame ⟨tracked, tracked'⟩ valid'
      ⟨(Yields.room room.1 same enough).mono (by omega),
        (Yields.room room.2 same' enough').mono (by omega)⟩ outside true
    refine ⟨segmenter', valid''.window, ?_⟩
    rw [returned, returned']
    simp only [Option.bind_eq_bind, Option.bind_some, twins'.frmCnt]
    exact final.of_same same same'

theorem Twins.kin (twins : Twins model other) : Kin model other :=
  ⟨twins.frmCnt, twins.nextSeg, twins.outputDataBufOffset, twins.idxPreChunk, twins.decibel⟩

/-- The reports say the same. -/
theorem Kin.report (kin : Kin model other) (output : other.outputDataBuf = model.outputDataBuf)
    (isFinal online : Bool) :
    (other.report isFinal online).1 = (model.report isFinal online).1 ∧
      Kin (model.report isFinal online).2 (other.report isFinal online).2 := by
  obtain ⟨count, next, offset, position, decibel⟩ := kin
  cases online with
  | false =>
    simp only [E2EVadModel.report, output, offset, Bool.false_eq_true, if_false, true_and]
    exact ⟨count, next, rfl, position, decibel⟩
  | true =>
    simp only [E2EVadModel.report, output, offset, next, if_true, true_and]
    exact ⟨count, rfl, rfl, position, decibel⟩

end E2EVadModel

/-! ## Calls -/

section
variable {α δ : Type}

/-- All arguments of a call, and what its reads outside `decibel` make of a frame. -/
structure FullTurn (α : Type) extends Turn α where
  online : Bool
  maxSingleSegmentTime : Int
  outside : Int → RowState

def serveOr (energy : List α → δ) (model : E2EVadModel α δ) :
    List (FullTurn α) → Option (List Segment × E2EVadModel α δ)
  | [] => some ([], model)
  | turn :: turns => do
    let (answer, model) ← model.callOr turn.outside energy turn.rows turn.waveform turn.isFinal
      turn.online turn.maxEndSil turn.maxSingleSegmentTime turn.sampleRate
    let (answers, model) ← serveOr energy model turns
    return (answer ++ answers, model)

/-- In every call the samples of the recording reach to the end of its last frame.  `frames` and
    `samples` are those of the recording before the calls. -/
def Reaching (rate : Nat) (frames samples : Nat) : List (FullTurn α) → Prop
  | [] => True
  | turn :: turns =>
    turn.sampleRate = rate ∧
      ((frames + turn.rows.length : Nat) - 1 : Int) * frameShiftLength rate + frameSampleLength rate ≤
        (samples + turn.waveform.length : Nat) ∧
      if turn.isFinal then Reaching rate 0 0 turns
      else Reaching rate (frames + turn.rows.length) (samples + turn.waveform.length) turns

instance decidableReaching (rate frames samples : Nat) :
    (turns : List (FullTurn α)) → Decidable (Reaching rate frames samples turns)
  | [] => isTrue trivial
  | turn :: turns =>
    have := decidableReaching rate 0 0 turns
    have := decidableReaching rate (frames + turn.rows.length) (samples + turn.waveform.length) turns
    inferInstanceAs (Decidable (_ ∧ _ ∧
      if turn.isFinal then Reaching rate 0 0 turns
      else Reaching rate (frames + turn.rows.length) (samples + turn.waveform.length) turns))

/-- The samples of some calls. -/
def passed (turns : List (FullTurn α)) : Nat :=
  (turns.map (·.waveform.length)).sum

/-- The scorer after `t` frames and `samples` samples of a recording, `all` samples of all recordings
    so far, when `ahead` samples are still to come. -/
structure Supplied (int : Bool) (rate all ahead : Nat) (model : E2EVadModel α δ) (segmenter : Segmenter)
    (t samples : Nat) : Prop where
  tracks : model.Tracks segmenter
  valid : segmenter.Valid t
  frmCnt : model.frmCnt = t
  dataBufAllSize : model.dataBufAllSize = all
  samples : samples ≤ all
  popped : model.dataBufAllSize = 0 ∨ (frameShiftLength rate : Int) ≤ model.dataBufSize
  intSizes : model.intSizes = int
  fits : int = true → all + ahead < 2 ^ 31

theorem Supplied.new {rate ahead : Nat} {intSizes : Bool}
    (few : intSizes = true → ahead < 2 ^ 31) :
    Supplied intSizes rate 0 ahead { intSizes : E2EVadModel α δ } Segmenter.initial 0 0 where
  tracks := ⟨rfl, rfl, rfl, rfl, rfl, rfl, fun _ => ⟨rfl, rfl, rfl⟩, by simp [Segmenter.initial]⟩
  valid := Segmenter.initial_valid
  frmCnt := rfl
  dataBufAllSize := rfl
  samples := le_rfl
  popped := .inl rfl
  intSizes := rfl
  fits := fun int => (Nat.zero_add ahead).symm ▸ few int

variable {model : E2EVadModel α δ} {segmenter : Segmenter} {int : Bool}
  {rate all ahead t samples : Nat}

theorem two_frameShiftLength_le (rate : Nat) :
    2 * frameShiftLength rate ≤ frameSampleLength rate := by
  simp only [frameShiftLength, frameSampleLength, frameInMs, frameLengthMs]
  omega

/-- The scorer when it starts to look at the frames of a call. -/
structure Taken (int : Bool) (rate all ahead : Nat) (model : E2EVadModel α δ) (segmenter : Segmenter)
    (t rows samples : Nat) : Prop where
  tracks : model.Tracks segmenter
  frmCnt : model.frmCnt = (t + rows : Nat)
  nnEvalBlockSize : model.nnEvalBlockSize = rows
  sampleRate : model.sampleRate = rate
  dataBufAllSize : model.dataBufAllSize = all
  samples : samples ≤ all
  room : model.Room (t + rows - 1)
  intSizes : model.intSizes = int
  fits : int = true → all + ahead < 2 ^ 31

theorem Supplied.accept {turn : FullTurn α}
    (supplied : Supplied int rate all (turn.waveform.length + ahead) model segmenter t samples)
    (energy : List α → δ) (fixed : turn.sampleRate = rate)
    (reaching : ((t + turn.rows.length : Nat) - 1 : Int) * frameShiftLength rate +
      frameSampleLength rate ≤ (samples + turn.waveform.length : Nat)) :
    Taken int rate (all + turn.waveform.length) ahead (model.acceptCall energy turn.rows
      turn.waveform turn.maxEndSil turn.maxSingleSegmentTime turn.sampleRate) segmenter t turn.rows.length
        (samples + turn.waveform.length) := by
  have double := two_frameShiftLength_le rate
  have before := supplied.samples
  have fits (flag : model.intSizes = true) := supplied.fits (supplied.intSizes ▸ flag)
  have sum : model.size (model.dataBufAllSize + turn.waveform.length) =
      (all + turn.waveform.length : Nat) := by
    rw [supplied.dataBufAllSize, ← Nat.cast_add]
    exact size_fits (by omega) fun int => by have := fits int; omega
  have first (none : model.dataBufAllSize = 0) :
      model.size turn.waveform.length = turn.waveform.length :=
    size_fits (by omega) fun int => by have := fits int; omega
  rw [sub_mul, one_mul] at reaching
  rw [acceptCall_eq, sum]
  refine ⟨?_, ?_, rfl, fixed, rfl, by omega, ⟨?_, ?_, ?_⟩, ?_, ?_⟩
  · obtain ⟨window, silence, free, ends, unset, output, idle, speaking⟩ := supplied.tracks
    exact ⟨window, silence, free, ends, unset, output, idle, speaking⟩
  · simp [supplied.frmCnt]
  · simp only [fixed]
    split
    next none =>
      -- the first samples at all: their number is the new size
      have all' := supplied.dataBufAllSize
      have none' : samples = 0 := by omega
      rw [none', Nat.zero_add] at reaching
      have nonneg : (0 : Int) ≤ (t + turn.rows.length : Nat) * frameShiftLength rate :=
        mul_nonneg (by omega) (by omega)
      rw [first none]
      omega
    next later => exact supplied.popped.resolve_left later
  · simp only [fixed]
    push_cast at reaching ⊢
    rw [sub_add_cancel]
    omega
  · intro int
    have bound := fits int
    simp only
    omega
  · exact supplied.intSizes
  · intro flag
    have bound := supplied.fits flag
    omega

theorem report_snd (model : E2EVadModel α δ) (isFinal online : Bool) :
    ∃ nextSeg outputDataBufOffset,
      (model.report isFinal online).2 = { model with nextSeg, outputDataBufOffset } := by
  cases online with
  | true => exact ⟨_, _, rfl⟩
  | false => exact ⟨model.nextSeg, _, rfl⟩

/-- The scorer behind a call that is not final. -/
theorem Taken.common {rows : Nat} {detected : E2EVadModel α δ} {segmenter' : Segmenter}
    (taken : Taken int rate all ahead model segmenter t rows samples) (valid : segmenter'.Valid (t + rows))
    (tracks : detected.Tracks segmenter') (same : SameStream model detected)
    (enough : (frameShiftLength model.sampleRate : Int) ≤ detected.dataBufSize)
    (idxPreChunk : Int) (online : Bool) :
    Supplied int rate all ahead ({ detected with idxPreChunk }.report false online).2 segmenter'
      (t + rows) samples := by
  obtain ⟨nextSeg, offset, reported⟩ := report_snd { detected with idxPreChunk } false online
  rw [reported]
  obtain ⟨window, silence, free, ends, unset, output, idle, speaking⟩ := tracks
  refine ⟨⟨window, silence, free, ends, unset, output, idle, speaking⟩, by push_cast; exact valid,
    same.frmCnt.trans taken.frmCnt, same.dataBufAllSize.trans taken.dataBufAllSize, taken.samples,
    .inr (taken.sampleRate ▸ enough), same.intSizes.trans taken.intSizes, taken.fits⟩

/-- The scorer behind a final call, which resets all but the sizes. -/
theorem Taken.final {rows : Nat} {detected : E2EVadModel α δ} {segmenter' : Segmenter}
    (taken : Taken int rate all ahead model segmenter t rows samples)
    (window : segmenter'.window.WellFormed) (follows : detected.Follows true segmenter')
    (same : SameStream model detected)
    (enough : (frameShiftLength model.sampleRate : Int) ≤ detected.dataBufSize) (online : Bool) :
    Supplied int rate all ahead (detected.report true online).2.allResetDetection Segmenter.initial 0 0 := by
  obtain ⟨nextSeg, offset, reported⟩ := report_snd detected true online
  rw [reported]
  exact ⟨⟨reset_eq_new (follows.window ▸ window), rfl, rfl, rfl, rfl, rfl,
    fun _ => ⟨rfl, rfl, rfl⟩, by simp [Segmenter.initial]⟩, Segmenter.initial_valid, rfl,
    same.dataBufAllSize.trans taken.dataBufAllSize, Nat.zero_le _,
    .inr (taken.sampleRate ▸ enough), same.intSizes.trans taken.intSizes, taken.fits⟩

/-- The scorer of the source, and one with exact sizes that has had the same calls of the
    recording. -/
structure InStep (rate all all' ahead : Nat) (model other : E2EVadModel α δ)
    (segmenter : Segmenter) (t samples : Nat) : Prop where
  kin : Kin model other
  left : Supplied true rate all ahead model segmenter t samples
  right : Supplied false rate all' ahead other segmenter t samples

/-- One call. -/
theorem InStep.callOr {other : E2EVadModel α δ} {all' : Nat} {turn : FullTurn α}
    (inStep : InStep rate all all' (turn.waveform.length + ahead) model other segmenter t samples)
    (energy : List α → δ) (fixed : turn.sampleRate = rate)
    (reaching : ((t + turn.rows.length : Nat) - 1 : Int) * frameShiftLength rate +
      frameSampleLength rate ≤ (samples + turn.waveform.length : Nat)) :
    ∃ answer model' other' segmenter',
      model.callOr turn.outside energy turn.rows turn.waveform turn.isFinal turn.online
        turn.maxEndSil turn.maxSingleSegmentTime turn.sampleRate = some (answer, model') ∧
      other.callOr turn.outside energy turn.rows turn.waveform turn.isFinal turn.online
        turn.maxEndSil turn.maxSingleSegmentTime turn.sampleRate = some (answer, other') ∧
      if turn.isFinal then InStep rate (all + turn.waveform.length) (all' + turn.waveform.length)
        ahead model' other' Segmenter.initial 0 0
      else InStep rate (all + turn.waveform.length) (all' + turn.waveform.length) ahead model' other'
        segmenter' (t + turn.rows.length) (samples + turn.waveform.length) := by
  have left := inStep.left.accept energy fixed reaching
  have right := inStep.right.accept energy fixed reaching
  have twins := inStep.kin.acceptCall energy turn.rows turn.waveform turn.maxEndSil
    turn.maxSingleSegmentTime turn.sampleRate
  have valid := inStep.left.valid
  simp only [E2EVadModel.callOr]
  generalize model.acceptCall energy turn.rows turn.waveform turn.maxEndSil
    turn.maxSingleSegmentTime turn.sampleRate = accepted at *
  generalize other.acceptCall energy turn.rows turn.waveform turn.maxEndSil
    turn.maxSingleSegmentTime turn.sampleRate = accepted' at *
  have rows := left.nnEvalBlockSize
  have frmCnt := left.frmCnt
  have room := And.intro left.room right.room
  rw [← rows] at frmCnt room
  -- A last call resets the scorer behind its report; any other goes on from the frames it has seen.
  cases final : turn.isFinal with
  | false =>
    obtain ⟨segmenter', valid', ⟨detected, returned, tracks, same, enough⟩,
      detected', returned', tracks', same', enough'⟩ := twins.detectFramesOr turn.outside
        accepted.nnEvalBlockSize ⟨left.tracks, right.tracks⟩ valid
        (show (t : Int) = accepted.frmCnt - 1 - (accepted.nnEvalBlockSize - 1) by
          rw [frmCnt]; push_cast; ring) room
    have detection : accepted.detectCommonFramesOr turn.outside = some
        { detected with idxPreChunk := detected.idxPreChunk + detected.scores.length } := by
      rw [detectCommonFramesOr, if_neg left.tracks.running, returned]
      rfl
    have twins' := twins.of_same same same'
    have position : detected'.idxPreChunk + (detected'.scores.length : Int) =
        detected.idxPreChunk + detected.scores.length := by rw [twins'.idxPreChunk, twins'.scores]
    have detection' : accepted'.detectCommonFramesOr turn.outside = some
        { detected' with idxPreChunk := detected.idxPreChunk + detected.scores.length } := by
      rw [detectCommonFramesOr, if_neg right.tracks.running, twins.nnEvalBlockSize, returned',
        ← position]
      rfl
    rw [rows] at valid'
    have supplied := left.common valid' tracks same enough
      (detected.idxPreChunk + detected.scores.length) turn.online
    have supplied' := right.common valid' tracks' same' enough'
      (detected.idxPreChunk + detected.scores.length) turn.online
    obtain ⟨said, kept⟩ := @Kin.report _ _
      { detected with idxPreChunk := detected.idxPreChunk + detected.scores.length }
      { detected' with idxPreChunk := detected.idxPreChunk + detected.scores.length }
      ⟨twins'.frmCnt, twins'.nextSeg, twins'.outputDataBufOffset, rfl, twins'.decibel⟩
      (show _ = _ from tracks'.output.trans tracks.output.symm) false turn.online
    simp only [Bool.not_false, if_true, detection, detection', Bool.false_eq_true, if_false,
      Option.bind_eq_bind, Option.bind_some]
    generalize { detected with
      idxPreChunk := detected.idxPreChunk + (detected.scores.length : Int) } = moved at *
    generalize { detected' with
      idxPreChunk := detected.idxPreChunk + (detected.scores.length : Int) } = moved' at *
    exact ⟨_, (moved.report false turn.online).2, (moved'.report false turn.online).2, segmenter',
      rfl, congrArg some (Prod.ext said rfl), kept, supplied, supplied'⟩
  | true =>
    obtain ⟨segmenter', window, ⟨detected, returned, follows, same, enough⟩,
      detected', returned', follows', same', enough'⟩ := twins.detectLastFramesOr turn.outside
        ⟨left.tracks, right.tracks⟩ valid (by rw [frmCnt]; push_cast; rfl) room
    obtain ⟨said, -⟩ := (twins.of_same same same').kin.report
      (follows'.output.trans follows.output.symm) true turn.online
    simp only [Bool.not_true, Bool.false_eq_true, if_false, if_true, returned, returned',
      Option.bind_eq_bind, Option.bind_some]
    exact ⟨_, (detected.report true turn.online).2.allResetDetection,
      (detected'.report true turn.online).2.allResetDetection, Segmenter.initial, rfl,
      congrArg some (Prod.ext said rfl), ⟨rfl, rfl, rfl, rfl, rfl⟩,
      left.final window follows same enough turn.online,
      right.final window follows' same' enough' turn.online⟩

/-- A run of calls. -/
theorem InStep.serveOr {other : E2EVadModel α δ} {all' : Nat} (energy : List α → δ)
    {turns : List (FullTurn α)}
    (inStep : InStep rate all all' (passed turns) model other segmenter t samples)
    (reaching : Reaching rate t samples turns) :
    ∃ answers model' other', serveOr energy model turns = some (answers, model') ∧
      Vad.serveOr energy other turns = some (answers, other') := by
  induction turns generalizing model other segmenter t samples all all' with
  | nil => exact ⟨[], model, other, rfl, rfl⟩
  | cons turn turns inductionHypothesis =>
    obtain ⟨fixed, enough, others⟩ := reaching
    rw [passed, List.map_cons, List.sum_cons] at inStep
    obtain ⟨answer, middle, middle', segmenter', once, once', inStep'⟩ :=
      inStep.callOr energy fixed enough
    have rest : ∃ answers model' other', Vad.serveOr energy middle turns = some (answers, model') ∧
        Vad.serveOr energy middle' turns = some (answers, other') := by
      cases final : turn.isFinal with
      | false =>
        simp only [final, Bool.false_eq_true, if_false] at inStep' others
        exact inductionHypothesis inStep' others
      | true =>
        simp only [final, if_true] at inStep' others
        exact inductionHypothesis inStep' others
    obtain ⟨answers, last, last', returned, returned'⟩ := rest
    refine ⟨answer ++ answers, last, last', ?_, ?_⟩
    · simp only [Vad.serveOr, once, Option.bind_eq_bind, Option.bind_some, returned]
      rfl
    · simp only [Vad.serveOr, once', Option.bind_eq_bind, Option.bind_some, returned']
      rfl

/-- The scorer of the source and the one with exact sizes. -/
theorem InStep.new {turns : List (FullTurn α)} (few : passed turns < 2 ^ 31) :
    InStep rate 0 0 (passed turns) { intSizes := true : E2EVadModel α δ } {} Segmenter.initial 0 0 :=
  ⟨⟨rfl, rfl, rfl, rfl, rfl⟩, .new fun _ => few, .new Bool.false_ne_true.elim⟩

/-- With the samples for every frame, and fewer than `2 ^ 31` in all recordings together, the run of
    a scorer returns: the loop of `PopDataBufTillFrame` is all that could keep it from that. -/
theorem serveOr_returns (energy : List α → δ) {turns : List (FullTurn α)}
    (reaching : Reaching rate 0 0 turns) (few : passed turns < 2 ^ 31) :
    ∃ answers model', serveOr energy { intSizes := true } turns = some (answers, model') := by
  obtain ⟨answers, model', -, returned, -⟩ := (InStep.new few).serveOr energy reaching
  exact ⟨answers, model', returned⟩

/-- Two recordings on one object: the second finds the sizes that the first left. -/
def twoRecordings : List (FullTurn Unit) :=
  [⟨⟨List.replicate 20 .speech, List.replicate 3440 (), true, 800, 16000⟩, true, 60000, fun _ => .sil⟩,
    ⟨⟨List.replicate 20 .speech, List.replicate 3440 (), true, 800, 16000⟩, true, 60000, fun _ => .sil⟩]

theorem serveOr_returns_twoRecordings :
    ∃ answers model', serveOr (fun _ => ()) { intSizes := true } twoRecordings =
      some (answers, model') :=
  @serveOr_returns _ _ 16000 _ _ (by decide +kernel) (by decide +kernel)

/-- Up to there its answers are those of a scorer with exact sizes. -/
theorem serveOr_intSizes (energy : List α → δ) {turns : List (FullTurn α)}
    (reaching : Reaching rate 0 0 turns) (few : passed turns < 2 ^ 31) :
    (serveOr energy { intSizes := true } turns).map Prod.fst =
      (serveOr energy {} turns).map Prod.fst := by
  obtain ⟨answers, model', other', returned, returned'⟩ := (InStep.new few).serveOr energy reaching
  rw [returned, returned']
  rfl

/-! ## Beyond `2 ^ 31` samples -/

/-- After a final call the scorer is like a new one, but for the sizes. -/
theorem callOr_final {energy : List α → δ} {model' : E2EVadModel α δ} {turn : FullTurn α}
    {answer : List Segment} (final : turn.isFinal = true)
    (returned : model.callOr turn.outside energy turn.rows turn.waveform turn.isFinal turn.online
      turn.maxEndSil turn.maxSingleSegmentTime turn.sampleRate = some (answer, model')) :
    Kin model' {} := by
  rw [final] at returned
  obtain ⟨detected, -, same⟩ := Option.bind_eq_some_iff.mp returned
  cases same
  exact ⟨rfl, rfl, rfl, rfl, rfl⟩

/-- A frame of silence, behind those that the start of a segment would take back, pops one frame. -/
theorem detectOneFrame_silence {t : Int} (state : model.vadStateMachine = .startPointNotDetected)
    (change : (model.windowsDetector.detectOneFrame .sil).1 = .sil2Sil)
    (size : (model.windowsDetector.detectOneFrame .sil).2.winSizeFrame = 20)
    (late : Segmenter.latency ≤ t) (next : t - Segmenter.latency = model.dataBufStartFrame + 1) :
    model.detectOneFrame .sil t false =
      let popped := (model.dataBufStartFrame + 1) * frameShiftLength model.sampleRate
      if model.dataBufSize < frameShiftLength model.sampleRate then none
      else if model.Overflows popped then none
      else some { model with
        windowsDetector := (model.windowsDetector.detectOneFrame .sil).2
        continousSilenceFrameCount := model.continousSilenceFrameCount + 1
        lastestConfirmedSilenceFrame := t - Segmenter.latency
        dataBufStartFrame := model.dataBufStartFrame + 1
        dataBufSize := model.dataBufAllSize - popped } := by
  have once : (model.dataBufStartFrame + 1 - model.dataBufStartFrame).toNat = 1 := by omega
  rw [detectOneFrame_eq, change, onChange, @onSil2Sil_idle _ _ { model with
    windowsDetector := (model.windowsDetector.detectOneFrame .sil).2 } t false state size (by simp),
    if_pos late]
  simp only [onSilenceDetected, state, if_true, popDataBufTillFrame, next, once, popFrames]
  split
  · rfl
  split
  · rename_i overflows
    rw [if_pos (show model.Overflows _ from overflows)]
    rfl
  · rename_i fits
    rw [if_neg (show ¬ model.Overflows _ from fits), Option.map_some,
      settle_of_ne (by intro stopped; cases stopped)]

/-- 134 seconds of silence, a recording of their own. -/
def quiet : FullTurn Unit where
  rows := List.replicate 13420 .sil
  waveform := List.replicate 2147476 ()
  isFinal := true
  maxEndSil := 800
  sampleRate := 16000
  online := true
  maxSingleSegmentTime := 60000
  outside := fun _ => .sil

/-- The first 420 ms of one more recording. -/
def opening : FullTurn Unit :=
  { quiet with rows := List.replicate 42 .sil, waveform := List.replicate 6960 (), isFinal := false }

/-- The next 50 ms, which bring the samples of all recordings over `2 ^ 31`. -/
def crossing : FullTurn Unit :=
  { opening with rows := List.replicate 5 .sil, waveform := List.replicate 1040 () }

/-- What `crossing` finds, read off a scorer with exact sizes that has had `opening` alone. -/
theorem opening_fresh : ((({} : E2EVadModel Unit Unit).callOr opening.outside (fun _ => ())
    opening.rows opening.waveform opening.isFinal opening.online opening.maxEndSil
    opening.maxSingleSegmentTime opening.sampleRate).map fun (_, model) =>
      let first := model.windowsDetector.detectOneFrame .sil
      let second := first.2.detectOneFrame .sil
      (model.vadStateMachine, model.dataBufStartFrame, first.1, first.2.winSizeFrame, second.1,
        second.2.winSizeFrame)) =
    some (.startPointNotDetected, 1, .sil2Sil, 20, .sil2Sil, 20) := by
  decide +kernel

/-- The first frame of `crossing` leaves a negative size, and the second one never ends. -/
theorem crossing_spins {taken : E2EVadModel Unit Unit}
    (silent : ∀ t, taken.frameStateOr crossing.outside t = .sil)
    (state : taken.vadStateMachine = .startPointNotDetected) (start : taken.dataBufStartFrame = 1)
    (frmCnt : taken.frmCnt = 47) (rate : taken.sampleRate = 16000)
    (int : taken.intSizes = true) (all : taken.dataBufAllSize = -2147483296)
    (enough : 160 ≤ taken.dataBufSize)
    (first : (taken.windowsDetector.detectOneFrame .sil).1 = .sil2Sil)
    (size : (taken.windowsDetector.detectOneFrame .sil).2.winSizeFrame = 20)
    (second : ((taken.windowsDetector.detectOneFrame .sil).2.detectOneFrame .sil).1 = .sil2Sil)
    (size' : ((taken.windowsDetector.detectOneFrame .sil).2.detectOneFrame .sil).2.winSizeFrame = 20) :
    taken.detectFramesOr crossing.outside 4 5 = none := by
  have shift : (frameShiftLength 16000 : Int) = 160 := rfl
  have popped := @detectOneFrame_silence _ _ taken 42 state first size (by decide)
    (by rw [start]; rfl)
  simp only [start, rate, shift, all, E2EVadModel.Overflows, int] at popped
  rw [if_neg (by omega), if_neg (by decide)] at popped
  obtain ⟨middle, returned, window, state', start', rate', negative, frmCnt', silent'⟩ :
      ∃ middle, taken.detectOneFrame .sil 42 false = some middle ∧
        middle.windowsDetector = (taken.windowsDetector.detectOneFrame .sil).2 ∧
        middle.vadStateMachine = .startPointNotDetected ∧ middle.dataBufStartFrame = 2 ∧
        middle.sampleRate = 16000 ∧ middle.dataBufSize < 160 ∧ middle.frmCnt = 47 ∧
        ∀ t, middle.frameStateOr crossing.outside t = .sil :=
    ⟨_, popped, rfl, state, rfl, rfl, show (-2147483296 - (1 + 1) * 160 : Int) < 160 by decide, frmCnt,
      silent⟩
  have spun := @detectOneFrame_silence _ _ middle 43 state' (by rw [window, second])
    (by rw [window, size']) (by decide) (by rw [start']; rfl)
  rw [rate', shift, if_pos negative] at spun
  rw [detectFramesOr, silent, frmCnt, show (47 - 1 - 4 : Int) = 42 from rfl, returned]
  simp only [Option.bind_eq_bind, Option.bind_some]
  rw [detectFramesOr, silent', frmCnt', show (47 - 1 - (4 - 1) : Int) = 43 from rfl, spun]
  rfl

theorem frameStateOr_quiet {model : E2EVadModel Unit Unit} {outside : Int → RowState}
    (beyond : ∀ t, outside t = .sil) (scores : ∀ row ∈ model.scores, row = .sil) (t : Int) :
    model.frameStateOr outside t = .sil := by
  rw [frameStateOr, getFrameState, beyond]
  split
  · cases row : model.scores[(t - model.idxPreChunk).toNat]? with
    | none => rfl
    | some row' =>
      rw [scores row' (List.mem_of_getElem? row)]
      rfl
  · rfl

/-- The last two calls, on a scorer that is like a new one but for 2147476000 samples. -/
theorem serveOr_crossing {model : E2EVadModel Unit Unit} {ahead : Nat}
    (inStep : InStep 16000 2147476000 0 (6960 + ahead) model {} Segmenter.initial 0 0) :
    serveOr (fun _ => ()) model [opening, crossing] = none := by
  have calls : opening.waveform.length = 6960 := List.length_replicate
  rw [← calls] at inStep
  obtain ⟨answer, model', other', segmenter', returned, returned', after⟩ :=
    inStep.callOr (fun _ => ()) (show opening.sampleRate = 16000 from rfl) (by decide +kernel)
  have fresh := opening_fresh
  rw [returned', Option.map_some, Option.some.injEq] at fresh
  simp only [Prod.mk.injEq] at fresh
  obtain ⟨state, start, first, size, second, size'⟩ := fresh
  obtain ⟨kin, left, right⟩ : InStep 16000 (2147476000 + opening.waveform.length) _ ahead model'
    other' segmenter' (0 + opening.rows.length) _ := after
  -- Both scorers track one segmenter, so what `crossing` finds is what was read off the fresh one.
  have window := left.tracks.window.trans right.tracks.window.symm
  rw [← window] at first size second size'
  have none : segmenter'.current = none := by
    cases current : segmenter'.current with
    | none => rfl
    | some span =>
      have speaking := (right.tracks.speaking span.1 span.2 current).1
      rw [state] at speaking
      cases speaking
  have taken : (model'.acceptCall (fun _ => ()) crossing.rows crossing.waveform crossing.maxEndSil
      crossing.maxSingleSegmentTime crossing.sampleRate).detectFramesOr crossing.outside 4 5 =
        Option.none := by
    have popped := left.popped
    rw [left.dataBufAllSize, calls] at popped
    rw [acceptCall_eq, left.dataBufAllSize, calls]
    refine crossing_spins (frameStateOr_quiet (fun _ => rfl) fun row member =>
        List.eq_of_mem_replicate member) (left.tracks.idle none).1 ?_ ?_ rfl left.intSizes ?_ ?_ first
      size second size'
    · exact left.tracks.free.trans (right.tracks.free.symm.trans start)
    · simp only [left.frmCnt]
      rfl
    · have more : crossing.waveform.length = 1040 := List.length_replicate
      simp only [E2EVadModel.size, left.intSizes, if_true, more]
      decide
    · exact popped.resolve_left (by decide)
  have stuck : model'.callOr crossing.outside (fun _ => ()) crossing.rows crossing.waveform
      crossing.isFinal crossing.online crossing.maxEndSil crossing.maxSingleSegmentTime
      crossing.sampleRate = Option.none := by
    rw [E2EVadModel.callOr]
    generalize accepts : model'.acceptCall (fun _ => ()) crossing.rows crossing.waveform
      crossing.maxEndSil crossing.maxSingleSegmentTime crossing.sampleRate = accepted at taken ⊢
    rw [acceptCall_eq] at accepts
    have rows : accepted.nnEvalBlockSize = 5 := by
      rw [← accepts]
      rfl
    have running : ¬ accepted.vadStateMachine = .endPointDetected := by
      rw [← accepts]
      exact left.tracks.running
    simp only [show crossing.isFinal = false from rfl, Bool.not_false, if_true,
      detectCommonFramesOr, if_neg running, rows]
    rw [show ((5 : Nat) : Int) - 1 = 4 from rfl, taken]
    rfl
  simp only [serveOr, returned, stuck, Option.bind_eq_bind, Option.bind_some, Option.bind_none]

theorem quiet_reaching : ((0 + quiet.rows.length : Nat) - 1 : Int) * frameShiftLength 16000 +
    frameSampleLength 16000 ≤ (0 + quiet.waveform.length : Nat) := by
  rw [show quiet.rows.length = 13420 from List.length_replicate,
    show quiet.waveform.length = 2147476 from List.length_replicate]
  decide

/-- Recordings of silence only add to `data_buf_all_size`. -/
theorem serveOr_quiet (count : Nat) {model : E2EVadModel Unit Unit} {all ahead : Nat}
    {rest : List (FullTurn Unit)}
    (inStep : InStep 16000 all 0 (count * 2147476 + ahead) model {} Segmenter.initial 0 0)
    (stuck : ∀ model', InStep 16000 (all + count * 2147476) 0 ahead model' {} Segmenter.initial 0 0 →
      serveOr (fun _ => ()) model' rest = none) :
    serveOr (fun _ => ()) model (List.replicate count quiet ++ rest) = none := by
  induction count generalizing model all with
  | zero =>
    rw [Nat.zero_mul, Nat.zero_add] at inStep
    exact stuck model (by simpa using inStep)
  | succ count inductionHypothesis =>
    have calls : quiet.waveform.length = 2147476 := List.length_replicate
    rw [Nat.succ_mul, Nat.add_comm (count * _), Nat.add_assoc, ← calls] at inStep
    obtain ⟨answer, model', other', segmenter', returned, -, after⟩ :=
      inStep.callOr (fun _ => ()) (show quiet.sampleRate = 16000 from rfl) quiet_reaching
    have left : Supplied true 16000 (all + quiet.waveform.length) _ model' Segmenter.initial 0 0 :=
      after.left
    rw [calls] at left
    have rest' := inductionHypothesis
      ⟨callOr_final rfl returned, left, .new Bool.false_ne_true.elim⟩ fun model'' inStep' =>
        stuck model'' (by rwa [Nat.succ_mul, Nat.add_comm (count * _), ← Nat.add_assoc])
    rw [List.replicate_succ, List.cons_append]
    simp only [serveOr, returned, rest', Option.bind_eq_bind, Option.bind_some, Option.bind_none]

theorem reaching_quiet (count : Nat) {rest : List (FullTurn Unit)}
    (reaching : Reaching 16000 0 0 rest) :
    Reaching 16000 0 0 (List.replicate count quiet ++ rest) := by
  induction count with
  | zero => exact reaching
  | succ count inductionHypothesis =>
    exact ⟨rfl, quiet_reaching, (if_pos (show quiet.isFinal = true from rfl)).mpr inductionHypothesis⟩

/-- A thousand recordings of silence, and the start of one more. -/
def manyRecordings : List (FullTurn Unit) := List.replicate 1000 quiet ++ [opening, crossing]

/-- Each call brings the samples of its frames, but the run does not return. -/
theorem not_serveOr_returns_manyRecordings : Reaching 16000 0 0 manyRecordings ∧
    ¬ ∃ answers model', serveOr (fun _ => ()) { intSizes := true } manyRecordings =
      some (answers, model') := by
  refine ⟨reaching_quiet 1000 (by decide +kernel), ?_⟩
  rintro ⟨answers, model', returned⟩
  have new : InStep 16000 0 0 (1000 * 2147476 + (6960 + 0)) { intSizes := true : E2EVadModel Unit Unit }
      {} Segmenter.initial 0 0 :=
    ⟨⟨rfl, rfl, rfl, rfl, rfl⟩, .new fun _ => by decide, .new Bool.false_ne_true.elim⟩
  have stuck := serveOr_quiet 1000 new fun model' inStep => serveOr_crossing inStep
  rw [manyRecordings, stuck] at returned
  cases returned

end

end Asr2Pass.Vad
