import Asr2Pass.Vad.Transcript

/-! # Calls of the scorer

A recording is any number of calls that are not final and one that is.  `Streaming` is what the
scorer satisfies between two calls, in terms of the segmenter; `onlineCall_streaming` is one
call, `onlineCalls_streaming` a run of them.
-/

namespace Asr2Pass.Vad

open VADXOptions E2EVadModel

/-- A rate at which a frame shift is at least one sample. -/
abbrev SampleRate := { hertz : Nat // 100 ≤ hertz }

/-- The arguments of one call: at least one row. -/
structure Call (α : Type) where
  rows : List RowState
  waveform : List α
  maxEndSil : Int
  maxSingleSegmentTime : Int
  nonempty : rows ≠ []

namespace Call

variable {α : Type}

def limits (call : Call α) : Limits where
  maxEndSilFrameCntThresh := call.maxEndSil - speechToSilTimeThres
  maxSingleSegmentTime := call.maxSingleSegmentTime

/-- The row that the call ends with. -/
def lastRow (call : Call α) : RowState := call.rows.getLast call.nonempty

theorem rows_eq (call : Call α) : call.rows = call.rows.dropLast ++ [call.lastRow] :=
  (List.dropLast_append_getLast call.nonempty).symm

theorem rows_pos (call : Call α) : 0 < call.rows.length :=
  List.length_pos_of_ne_nil call.nonempty

end Call

section
variable {α δ : Type} (energy : List α → δ) (rate : SampleRate)

/-- Every row of the calls has a window of samples when it is looked at. -/
def Covered (frames windows : Nat) : List (Call α) → Prop
  | [] => True
  | call :: calls =>
    frames + call.rows.length ≤ windows + windowCount rate call.waveform.length ∧
      Covered (frames + call.rows.length) (windows + windowCount rate call.waveform.length) calls

instance decidableCovered (frames windows : Nat) :
    (calls : List (Call α)) → Decidable (Covered rate frames windows calls)
  | [] => isTrue trivial
  | call :: calls =>
    have := decidableCovered (frames + call.rows.length)
      (windows + windowCount rate call.waveform.length) calls
    inferInstanceAs (Decidable (_ ∧ _))

def onlineCall (model : E2EVadModel α δ) (call : Call α) (isFinal : Bool) :
    Option (List Segment × E2EVadModel α δ) :=
  model.call energy call.rows call.waveform isFinal true call.maxEndSil call.maxSingleSegmentTime rate

/-- Calls that are not final, with their answers one after the other. -/
def onlineCalls (model : E2EVadModel α δ) : List (Call α) →
    Option (List Segment × E2EVadModel α δ)
  | [] => some ([], model)
  | call :: calls => do
    let (answer, model) ← onlineCall energy rate model call false
    let (answers, model) ← onlineCalls model calls
    return (answer ++ answers, model)

def onlineRecording (model : E2EVadModel α δ) (calls : List (Call α)) (last : Call α) :
    Option (List Segment × E2EVadModel α δ) := do
  let (answers, model) ← onlineCalls energy rate model calls
  let (answer, model) ← onlineCall energy rate model last true
  return (answers ++ answer, model)

end

/-! ## The frames of the calls -/

namespace Segmenter

variable {α : Type}

def stepCall (segmenter : Segmenter) (t : Nat) (call : Call α) : Segmenter :=
  segmenter.steps call.limits call.rows t

def stepCalls (segmenter : Segmenter) (t : Nat) : List (Call α) → Segmenter
  | [] => segmenter
  | call :: calls => (segmenter.stepCall t call).stepCalls (t + call.rows.length) calls

/-- The frames of the final call but its last one. -/
def stepButLast (segmenter : Segmenter) (t : Nat) (call : Call α) : Segmenter :=
  segmenter.steps call.limits call.rows.dropLast t

def stepFinal (segmenter : Segmenter) (t : Nat) (call : Call α) : Segmenter :=
  (segmenter.stepButLast t call).step call.limits call.lastRow (t + call.rows.length - 1 : Nat) true

end Segmenter

/-! ## The samples behind a call -/

theorem frameShiftLength_le (rate : SampleRate) :
    frameShiftLength rate ≤ frameSampleLength rate ∧ 0 < frameShiftLength rate := by
  obtain ⟨hertz, enough⟩ := rate
  simp only [frameShiftLength, frameSampleLength, frameInMs, frameLengthMs]
  omega

/-- The windows of a waveform, one frame shift each, fit into it. -/
theorem windowCount_mul_le (rate : SampleRate) (size : Nat) :
    windowCount rate size * frameShiftLength rate ≤ size := by
  obtain ⟨shorter, -⟩ := frameShiftLength_le rate
  unfold windowCount
  split
  · have whole := Nat.div_mul_le_self (size - frameSampleLength rate) (frameShiftLength rate)
    rw [add_mul, one_mul]
    omega
  · omega

@[simp] theorem length_decibelOf {α δ : Type} (energy : List α → δ) (rate : Nat) (waveform : List α) :
    (decibelOf energy rate waveform).length = windowCount rate waveform.length := by
  simp [decibelOf]

/-! ## The frames of one call -/

namespace E2EVadModel

variable {α δ : Type}

theorem Yields.mono {model : E2EVadModel α δ} {result : Option (E2EVadModel α δ)}
    {post post' : E2EVadModel α δ → Prop} (yields : model.Yields result post)
    (weaker : ∀ model', post model' → post' model') : model.Yields result post' := by
  obtain ⟨model', returned, holds, same, enough⟩ := yields
  exact ⟨model', returned, weaker model' holds, same, enough⟩

/-- Frame `t` of the call is row `row` of its scores. -/
theorem getFrameState_eq {model : E2EVadModel α δ} {t : Int} {row : RowState}
    {before after : List RowState} (scores : model.scores = before ++ row :: after)
    (position : t = model.idxPreChunk + before.length) (nonneg : 0 ≤ model.idxPreChunk)
    (covered : t < model.decibel.length) : model.getFrameState t = some row.frameState := by
  have index : (t - model.idxPreChunk).toNat = before.length := by omega
  rw [getFrameState, if_pos ⟨by omega, covered, by omega⟩, index, scores]
  simp

/-- The rows that `detectFrames` still has to visit, from frame `t` on. -/
structure Ahead (model : E2EVadModel α δ) (t : Int) (before rest after : List RowState) : Prop where
  scores : model.scores = before ++ rest ++ after
  position : t = model.idxPreChunk + before.length
  nonneg : 0 ≤ model.idxPreChunk
  covered : t + rest.length ≤ model.decibel.length

theorem Ahead.of_same {model model' : E2EVadModel α δ} {t : Int} {row : RowState}
    {before rest after : List RowState} (ahead : model.Ahead t before (row :: rest) after)
    (same : SameStream model model') : model'.Ahead (t + 1) (before ++ [row]) rest after where
  scores := by simp [same.scores, ahead.scores]
  position := by
    rw [same.idxPreChunk, ahead.position]
    simp [add_assoc]
  nonneg := by rw [same.idxPreChunk]; exact ahead.nonneg
  covered := by
    have covered := ahead.covered
    rw [same.decibel]
    simp only [List.length_cons] at covered
    omega

/-- The loop over the frames of a call follows the segmenter. -/
theorem detectFrames_tracks (rest : List RowState) {model : E2EVadModel α δ} {segmenter : Segmenter}
    {i t : Int} {before after : List RowState} (tracks : model.Tracks segmenter)
    (valid : segmenter.Valid t) (ahead : model.Ahead t before rest after)
    (frame : t = model.frmCnt - 1 - i) (room : model.Room (t + rest.length - 1)) :
    model.Yields (model.detectFrames i rest.length) fun model' =>
      model'.Tracks (segmenter.steps model.limits rest t) := by
  -- On the rows: each finds its scores and its energy, and the others are still ahead.
  induction rest generalizing model segmenter i t before with
  | nil => exact ⟨model, rfl, tracks, SameStream.refl _, room.now⟩
  | cons row rest inductionHypothesis =>
    have covered := ahead.covered
    rw [List.length_cons] at covered
    have frameState : model.getFrameState t = some row.frameState :=
      getFrameState_eq (by rw [ahead.scores, List.append_assoc]; rfl) ahead.position ahead.nonneg
        (by omega)
    have stepped := detectOneFrame_follows tracks valid
      (room.mono (by rw [List.length_cons]; push_cast; omega)) row false
    have unfolded : model.detectFrames i (row :: rest).length =
        (model.detectOneFrame row.frameState t false).bind fun model =>
          detectFrames model (i - 1) rest.length := by
      rw [List.length_cons, detectFrames, ← frame, frameState]
      rfl
    rw [unfolded]
    refine stepped.bind ?_
    intro model' follows same enough
    have tracks' := follows.tracks rfl
    rw [Segmenter.steps, ← same.limits]
    rw [← same.limits] at tracks'
    refine inductionHypothesis tracks' (Segmenter.step_valid _ valid row false)
      (ahead.of_same same) (by rw [same.frmCnt]; omega) ?_
    refine (Yields.room room same enough).mono ?_
    rw [List.length_cons]
    push_cast
    omega

end E2EVadModel

/-! ## Between two calls -/

section
variable {α δ : Type} {energy : List α → δ} {rate : SampleRate}

theorem Segmenter.stepCall_valid {segmenter : Segmenter} {t : Nat} (valid : segmenter.Valid t)
    (call : Call α) : (segmenter.stepCall t call).Valid (t + call.rows.length : Nat) := by
  have stepped := Segmenter.steps_valid call.limits call.rows valid
  rwa [← Nat.cast_add] at stepped

/-- The scorer after `t` frames, when the calls so far had `windows` windows of samples.  Its sizes
    are exact, or stay `int`s with `ahead` samples more. -/
structure Streaming (rate : SampleRate) (model : E2EVadModel α δ) (segmenter : Segmenter)
    (t windows ahead : Nat) : Prop where
  tracks : model.Tracks segmenter
  valid : segmenter.Valid t
  frmCnt : model.frmCnt = t
  idxPreChunk : model.idxPreChunk = t
  decibel : model.decibel.length = windows
  samples : (windows * frameShiftLength rate : Nat) ≤ model.dataBufAllSize
  popped : model.dataBufAllSize = 0 ∨ (frameShiftLength rate : Int) ≤ model.dataBufSize
  nextSeg : model.nextSeg = segmenter.current.isNone
  offset : model.outputDataBufOffset = segmenter.closed.length
  fits : model.intSizes = true → model.dataBufAllSize + ahead < 2 ^ 31

theorem Streaming.mono {model : E2EVadModel α δ} {segmenter : Segmenter}
    {t windows ahead fewer : Nat} (streaming : Streaming rate model segmenter t windows ahead)
    (less : fewer ≤ ahead) : Streaming rate model segmenter t windows fewer where
  tracks := streaming.tracks
  valid := streaming.valid
  frmCnt := streaming.frmCnt
  idxPreChunk := streaming.idxPreChunk
  decibel := streaming.decibel
  samples := streaming.samples
  popped := streaming.popped
  nextSeg := streaming.nextSeg
  offset := streaming.offset
  fits := fun int => by have := streaming.fits int; omega

/-- The scorer when it starts to look at the frames of a call. -/
structure Accepted (rate : SampleRate) (model : E2EVadModel α δ) (segmenter : Segmenter)
    (t windows ahead : Nat) (call : Call α) : Prop where
  tracks : model.Tracks segmenter
  valid : segmenter.Valid t
  sampleRate : model.sampleRate = rate
  nnEvalBlockSize : model.nnEvalBlockSize = call.rows.length
  scores : model.scores = call.rows
  limits : model.limits = call.limits
  frmCnt : model.frmCnt = (t + call.rows.length : Nat)
  idxPreChunk : model.idxPreChunk = t
  decibel : model.decibel.length = windows
  covered : t + call.rows.length ≤ windows
  samples : (windows * frameShiftLength rate : Nat) ≤ model.dataBufAllSize
  popped : (frameShiftLength rate : Int) ≤ model.dataBufSize
  nextSeg : model.nextSeg = segmenter.current.isNone
  offset : model.outputDataBufOffset = segmenter.closed.length
  fits : model.intSizes = true → model.dataBufAllSize + ahead < 2 ^ 31

def accept (energy : List α → δ) (rate : SampleRate) (model : E2EVadModel α δ) (call : Call α) :
    E2EVadModel α δ :=
  model.acceptCall energy call.rows call.waveform call.maxEndSil call.maxSingleSegmentTime rate

theorem acceptCall_eq (energy : List α → δ) (model : E2EVadModel α δ) (scores : List RowState)
    (waveform : List α) (maxEndSil maxSingleSegmentTime : Int) (sampleRate : Nat) :
    model.acceptCall energy scores waveform maxEndSil maxSingleSegmentTime sampleRate = { model with
      sampleRate
      maxSingleSegmentTime
      nnEvalBlockSize := scores.length
      frmCnt := model.frmCnt + scores.length
      maxEndSilFrameCntThresh := maxEndSil - speechToSilTimeThres
      scores
      decibel := model.decibel ++ decibelOf energy sampleRate waveform
      dataBufSize := if model.dataBufAllSize = 0 then model.size waveform.length
        else model.dataBufSize
      dataBufAllSize := model.size (model.dataBufAllSize + waveform.length)
      waveform } := by
  by_cases first : model.dataBufAllSize = 0
  · simp [acceptCall, computeDecibel, computeScores, size, first]
  · simp [acceptCall, computeDecibel, computeScores, size, first]

theorem accept_eq (energy : List α → δ) (model : E2EVadModel α δ) (call : Call α) :
    accept energy rate model call = { model with
      sampleRate := rate
      maxSingleSegmentTime := call.maxSingleSegmentTime
      nnEvalBlockSize := call.rows.length
      frmCnt := model.frmCnt + call.rows.length
      maxEndSilFrameCntThresh := call.maxEndSil - speechToSilTimeThres
      scores := call.rows
      decibel := model.decibel ++ decibelOf energy rate call.waveform
      dataBufSize := if model.dataBufAllSize = 0 then model.size call.waveform.length
        else model.dataBufSize
      dataBufAllSize := model.size (model.dataBufAllSize + call.waveform.length)
      waveform := call.waveform } :=
  acceptCall_eq energy model call.rows call.waveform call.maxEndSil call.maxSingleSegmentTime rate

theorem Streaming.accept {model : E2EVadModel α δ} {segmenter : Segmenter} {t windows ahead : Nat}
    (energy : List α → δ) (call : Call α)
    (streaming : Streaming rate model segmenter t windows (call.waveform.length + ahead))
    (covered : t + call.rows.length ≤ windows + windowCount rate call.waveform.length) :
    Accepted rate (accept energy rate model call) segmenter t
      (windows + windowCount rate call.waveform.length) ahead call := by
  have fits := windowCount_mul_le rate call.waveform.length
  have samples := streaming.samples
  obtain ⟨-, shifts⟩ := frameShiftLength_le rate
  have fits' := streaming.fits
  have first : model.size call.waveform.length = call.waveform.length :=
    size_fits (Int.natCast_nonneg _) fun int => by have := fits' int; omega
  have more : model.size (model.dataBufAllSize + call.waveform.length) =
      model.dataBufAllSize + call.waveform.length :=
    size_fits (by omega) fun int => by have := fits' int; omega
  rw [accept_eq, first, more]
  refine ⟨?_, streaming.valid, rfl, rfl, rfl, rfl, ?_, streaming.idxPreChunk, ?_, covered, ?_, ?_,
    streaming.nextSeg, streaming.offset, fun int => ?_⟩
  · obtain ⟨window, silence, free, ends, unset, output, idle, speaking⟩ := streaming.tracks
    exact ⟨window, silence, free, ends, unset, output, idle, speaking⟩
  · simp [streaming.frmCnt]
  · simp [streaming.decibel]
  · rw [add_mul]
    push_cast at samples ⊢
    omega
  -- The first samples of the recording, or some behind those that have been popped.
  · simp only
    split
    · rename_i first
      rw [first] at samples
      have none : windows = 0 := by
        by_contra some
        have positive := Nat.mul_pos (Nat.pos_of_ne_zero some) shifts
        omega
      have rows := call.rows_pos
      have once := Nat.le_mul_of_pos_left (frameShiftLength rate)
        (show 0 < windowCount rate call.waveform.length by omega)
      omega
    · rename_i later
      exact streaming.popped.resolve_left later
  · have bound := fits' int
    simp only
    omega

/-- Samples for every frame before the end of the call. -/
theorem Accepted.room {model : E2EVadModel α δ} {segmenter : Segmenter} {t windows ahead : Nat}
    {call : Call α} (accepted : Accepted rate model segmenter t windows ahead call) {frame : Int}
    (inside : frame < t + call.rows.length) : model.Room frame := by
  obtain ⟨-, shifts⟩ := frameShiftLength_le rate
  refine ⟨by rw [accepted.sampleRate]; exact accepted.popped, ?_, fun int => ?_⟩
  case refine_2 =>
    have bound := accepted.fits int
    omega
  have covered := accepted.covered
  have enough : (frame + 1) * frameShiftLength rate ≤ windows * frameShiftLength rate :=
    mul_le_mul_of_nonneg_right (by omega) (by omega)
  have samples := accepted.samples
  rw [accepted.sampleRate]
  push_cast at samples
  omega

theorem Accepted.fits_of_same {model model' : E2EVadModel α δ} {segmenter : Segmenter}
    {t windows ahead : Nat} {call : Call α}
    (accepted : Accepted rate model segmenter t windows ahead call) (same : SameStream model model')
    (int : model'.intSizes = true) : model'.dataBufAllSize + ahead < 2 ^ 31 := by
  rw [same.dataBufAllSize]
  exact accepted.fits (same.intSizes.symm.trans int)

/-- The frames of a call that is not final. -/
theorem Accepted.detectCommonFrames {model : E2EVadModel α δ} {segmenter : Segmenter}
    {t windows ahead : Nat} {call : Call α}
    (accepted : Accepted rate model segmenter t windows ahead call) :
    ∃ model', model.detectCommonFrames = some { model' with idxPreChunk := t + call.rows.length } ∧
      model'.Tracks (segmenter.stepCall t call) ∧ SameStream model model' ∧
      (frameShiftLength rate : Int) ≤ model'.dataBufSize := by
  have rows := call.rows_pos
  have frmCnt := accepted.frmCnt
  have covered := accepted.covered
  obtain ⟨model', returned, tracks, same, enough⟩ := detectFrames_tracks call.rows accepted.tracks
    accepted.valid
    (show model.Ahead t [] call.rows [] from ⟨by simp [accepted.scores], by simp [accepted.idxPreChunk],
      by simp [accepted.idxPreChunk], by rw [accepted.decibel]; omega⟩)
    (show (t : Int) = model.frmCnt - 1 - (call.rows.length - 1) by omega)
    (accepted.room (by omega))
  rw [accepted.limits] at tracks
  rw [accepted.sampleRate] at enough
  refine ⟨model', ?_, tracks, same, enough⟩
  simp only [E2EVadModel.detectCommonFrames, accepted.tracks.running, if_false,
    accepted.nnEvalBlockSize, returned]
  simp [same.idxPreChunk, same.scores, accepted.idxPreChunk, accepted.scores]

theorem report_eq {model : E2EVadModel α δ} {before after : Segmenter} {added : List FrameSpan}
    (continues : before.Continues after added) (output : model.outputDataBuf = after.buffers)
    (nextSeg : model.nextSeg = before.current.isNone)
    (offset : model.outputDataBufOffset = before.closed.length) (isFinal : Bool) :
    model.report isFinal true =
      (Segmenter.entries added after.current before.current.isSome,
        { model with
          nextSeg := after.current.isNone, outputDataBufOffset := after.closed.length }) := by
  have reported := continues.reportOnline
  simp only [report, if_true, output, nextSeg, offset, reported, continues.closed, List.length_append]

/-- One call that is not final. -/
theorem onlineCall_streaming {model : E2EVadModel α δ} {segmenter : Segmenter} {t windows ahead : Nat}
    (energy : List α → δ) (call : Call α)
    (streaming : Streaming rate model segmenter t windows (call.waveform.length + ahead))
    (covered : t + call.rows.length ≤ windows + windowCount rate call.waveform.length) :
    ∃ added model', onlineCall energy rate model call false = some
        (Segmenter.entries added (segmenter.stepCall t call).current segmenter.current.isSome,
          model') ∧
      segmenter.Continues (segmenter.stepCall t call) added ∧
      Streaming rate model' (segmenter.stepCall t call) (t + call.rows.length)
        (windows + windowCount rate call.waveform.length) ahead := by
  obtain ⟨added, continues⟩ := segmenter.steps_continues call.limits call.rows t
  have accepted := streaming.accept energy call covered
  obtain ⟨model', returned, tracks, same, enough⟩ := accepted.detectCommonFrames
  have reported := @report_eq _ _ { model' with idxPreChunk := t + call.rows.length } _ _ _ continues
    tracks.output (same.nextSeg.trans accepted.nextSeg)
    (same.outputDataBufOffset.trans accepted.offset) false
  have fits := accepted.fits_of_same same
  refine ⟨added,
    { model' with
      idxPreChunk := t + call.rows.length
      nextSeg := (segmenter.stepCall t call).current.isNone
      outputDataBufOffset := (segmenter.stepCall t call).closed.length },
    ?_, continues, ?tracks, Segmenter.stepCall_valid streaming.valid call, ?frmCnt,
    rfl, ?decibel, ?samples, .inr enough, rfl, rfl, fits⟩
  · have unfolded : onlineCall energy rate model call false =
        (accept energy rate model call).detectCommonFrames.map (·.report false true) := by
      rw [Option.map_eq_bind]
      rfl
    rw [unfolded, returned, Option.map_some, reported]
    rfl
  case tracks =>
    obtain ⟨window, silence, free, ends, unset, output, idle, speaking⟩ := tracks
    exact ⟨window, silence, free, ends, unset, output, idle, speaking⟩
  case frmCnt => exact same.frmCnt.trans accepted.frmCnt
  case decibel => exact (congrArg List.length same.decibel).trans accepted.decibel
  case samples => exact accepted.samples.trans_eq same.dataBufAllSize.symm

/-! ## The final call -/

/-- The scorer before the last frame of the final call. -/
theorem Accepted.detectFramesButLast {model : E2EVadModel α δ} {segmenter : Segmenter}
    {t windows ahead : Nat} {call : Call α}
    (accepted : Accepted rate model segmenter t windows ahead call) :
    model.Yields model.detectFramesButLast fun model' =>
      model'.Tracks (segmenter.stepButLast t call) := by
  have rows := call.rows_pos
  have frmCnt := accepted.frmCnt
  have covered := accepted.covered
  have count : model.nnEvalBlockSize - 1 = call.rows.dropLast.length := by
    rw [accepted.nnEvalBlockSize, List.length_dropLast]
  rw [E2EVadModel.detectFramesButLast, count, Segmenter.stepButLast, ← accepted.limits]
  refine detectFrames_tracks call.rows.dropLast accepted.tracks accepted.valid
    (show model.Ahead t [] call.rows.dropLast [call.lastRow] from
      ⟨by rw [accepted.scores]; exact call.rows_eq, by simp [accepted.idxPreChunk],
        by simp [accepted.idxPreChunk], ?_⟩) ?_ (accepted.room ?_)
  · rw [accepted.decibel, List.length_dropLast]
    omega
  · rw [accepted.nnEvalBlockSize]
    omega
  · rw [List.length_dropLast]
    omega

theorem Segmenter.stepButLast_valid {segmenter : Segmenter} {t : Nat} (valid : segmenter.Valid t)
    (call : Call α) : (segmenter.stepButLast t call).Valid (t + call.rows.length - 1 : Nat) := by
  have rows := call.rows_pos
  have stepped := Segmenter.steps_valid call.limits call.rows.dropLast valid
  rwa [List.length_dropLast, ← Nat.cast_add, ← Nat.add_sub_assoc rows] at stepped

theorem Segmenter.stepFinal_valid {segmenter : Segmenter} {t : Nat} (valid : segmenter.Valid t)
    (call : Call α) : (segmenter.stepFinal t call).Valid (t + call.rows.length : Nat) := by
  have rows := call.rows_pos
  have stepped := Segmenter.step_valid call.limits (Segmenter.stepButLast_valid valid call) call.lastRow
    true
  rwa [show ((t + call.rows.length - 1 : Nat) : Int) + 1 = (t + call.rows.length : Nat) by omega]
    at stepped

theorem Segmenter.stepFinal_continues (segmenter : Segmenter) (t : Nat) (call : Call α) :
    ∃ added, segmenter.Continues (segmenter.stepFinal t call) added := by
  obtain ⟨first, common⟩ := segmenter.steps_continues call.limits call.rows.dropLast t
  obtain ⟨second, final⟩ := (segmenter.stepButLast t call).step_continues call.limits call.lastRow
    (t + call.rows.length - 1 : Nat) true
  exact ⟨first ++ second, common.trans final⟩

theorem Accepted.detectLastFrames {model : E2EVadModel α δ} {segmenter : Segmenter}
    {t windows ahead : Nat} {call : Call α}
    (accepted : Accepted rate model segmenter t windows ahead call) :
    model.Yields model.detectLastFrames (Follows true (segmenter.stepFinal t call)) := by
  have rows := call.rows_pos
  have covered := accepted.covered
  have visited : model.nnEvalBlockSize ≠ 0 := by
    rw [accepted.nnEvalBlockSize]
    omega
  rw [E2EVadModel.detectLastFrames, if_neg accepted.tracks.running, if_neg visited]
  refine accepted.detectFramesButLast.bind ?_
  intro before tracks same enough
  have last : before.frmCnt - 1 = (t + call.rows.length - 1 : Nat) := by
    rw [same.frmCnt, accepted.frmCnt]
    omega
  -- The last frame is looked up by itself, behind the loop.
  have frameState : before.getFrameState (before.frmCnt - 1) = some call.lastRow.frameState := by
    have scores : before.scores = call.rows.dropLast ++ call.lastRow :: [] := by
      rw [same.scores, accepted.scores]
      exact call.rows_eq
    refine getFrameState_eq scores ?_ ?_ ?_
    · rw [last, same.idxPreChunk, accepted.idxPreChunk, List.length_dropLast]
      omega
    · simp [same.idxPreChunk, accepted.idxPreChunk]
    · rw [last, same.decibel, accepted.decibel]
      omega
  have stepped := detectOneFrame_follows tracks (Segmenter.stepButLast_valid accepted.valid call)
    (Yields.room (accepted.room (by omega)) same enough) call.lastRow true
  rw [same.limits, accepted.limits] at stepped
  rw [frameState, last]
  exact stepped

theorem reset_eq_new {detector : WindowDetector} (wellFormed : detector.WellFormed) :
    detector.reset = Segmenter.initial.window := by
  simp [WindowDetector.reset, Segmenter.initial, WindowDetector.new, windowSizeMs,
    silToSpeechTimeThres, speechToSilTimeThres, frameInMs, wellFormed.size, wellFormed.silToSpeech,
    wellFormed.speechToSil]

/-- The final call, after which the scorer starts over. -/
theorem onlineCall_final {model : E2EVadModel α δ} {segmenter : Segmenter} {t windows ahead : Nat}
    (energy : List α → δ) (call : Call α)
    (streaming : Streaming rate model segmenter t windows (call.waveform.length + ahead))
    (covered : t + call.rows.length ≤ windows + windowCount rate call.waveform.length) :
    ∃ added model', onlineCall energy rate model call true = some
        (Segmenter.entries added (segmenter.stepFinal t call).current segmenter.current.isSome,
          model') ∧
      segmenter.Continues (segmenter.stepFinal t call) added ∧
      Streaming rate model' Segmenter.initial 0 0 ahead := by
  obtain ⟨added, continues⟩ := segmenter.stepFinal_continues t call
  have accepted := streaming.accept energy call covered
  obtain ⟨model', returned, follows, same, enough⟩ := accepted.detectLastFrames
  have reported := @report_eq _ _ model' _ _ _ continues follows.output
    (same.nextSeg.trans accepted.nextSeg) (same.outputDataBufOffset.trans accepted.offset) true
  have restarted := reset_eq_new (Segmenter.stepFinal_valid streaming.valid call).window
  rw [accepted.sampleRate] at enough
  have samples : (0 : Int) ≤ model'.dataBufAllSize := by
    rw [same.dataBufAllSize]
    exact le_trans (by omega) accepted.samples
  have fits := accepted.fits_of_same same
  refine ⟨added, allResetDetection { model' with
      nextSeg := (segmenter.stepFinal t call).current.isNone
      outputDataBufOffset := (segmenter.stepFinal t call).closed.length },
    ?_, continues, ⟨?window, rfl, rfl, rfl, rfl, rfl, fun _ => ⟨rfl, rfl, rfl⟩, ?speaking⟩,
    Segmenter.initial_valid, rfl, rfl, rfl, ?samples, .inr enough, rfl, rfl, fits⟩
  · have unfolded : onlineCall energy rate model call true =
        (accept energy rate model call).detectLastFrames.bind fun model =>
          some ((model.report true true).1, (model.report true true).2.allResetDetection) := rfl
    rw [unfolded, returned, Option.bind_some, reported]
  case window =>
    rw [← restarted, ← follows.window]
    rfl
  case speaking => simp [Segmenter.initial]
  case samples =>
    rw [Nat.zero_mul]
    exact samples

end

end Asr2Pass.Vad
