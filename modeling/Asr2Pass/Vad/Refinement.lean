import Asr2Pass.Vad.BufferLemmas
import Asr2Pass.Vad.Segmenter

/-! # The scorer refines the segmenter

`Tracks model segmenter` reads a segmenter off the members of the scorer.  `detectOneFrame_follows`
is the simulation of one frame: while enough samples are buffered the scorer returns, and what
it returns tracks `Segmenter.step`.
-/

namespace Asr2Pass.Vad

open VADXOptions

def closedBuf (span : FrameSpan) : E2EVadSpeechBufWithDoa where
  startMs := span.1 * frameInMs
  endMs := (span.2 + 1) * frameInMs
  containSegStartPoint := true
  containSegEndPoint := true

def openBuf (span : FrameSpan) : E2EVadSpeechBufWithDoa where
  startMs := span.1 * frameInMs
  endMs := (span.2 + 1) * frameInMs
  containSegStartPoint := true
  containSegEndPoint := false

def Segmenter.buffers (segmenter : Segmenter) : List E2EVadSpeechBufWithDoa :=
  segmenter.closed.map closedBuf ++ segmenter.current.toList.map openBuf

namespace E2EVadModel

variable {α δ : Type}

def limits (model : E2EVadModel α δ) : Limits where
  maxEndSilFrameCntThresh := model.maxEndSilFrameCntThresh
  maxSingleSegmentTime := model.maxSingleSegmentTime

structure Tracks (model : E2EVadModel α δ) (segmenter : Segmenter) : Prop where
  window : model.windowsDetector = segmenter.window
  silence : model.continousSilenceFrameCount = segmenter.silence
  free : model.dataBufStartFrame = segmenter.free
  ends : model.numberEndTimeDetected = segmenter.closed.length
  unset : model.confirmedEndFrame = -1
  output : model.outputDataBuf = segmenter.buffers
  idle : segmenter.current = none →
    model.vadStateMachine = .startPointNotDetected ∧ model.confirmedStartFrame = -1 ∧
      model.latestConfirmedSpeechFrame = 0
  speaking : ∀ start latest, segmenter.current = some (start, latest) →
    model.vadStateMachine = .inSpeechSegment ∧ model.confirmedStartFrame = start ∧
      model.latestConfirmedSpeechFrame = latest

/-- A scorer that has just closed a segment has started over already. -/
theorem Tracks.running {model : E2EVadModel α δ} {segmenter : Segmenter}
    (tracks : model.Tracks segmenter) : model.vadStateMachine ≠ .endPointDetected := by
  cases current : segmenter.current with
  | none =>
    rw [(tracks.idle current).1]
    decide
  | some span =>
    rw [(tracks.speaking span.1 span.2 current).1]
    decide

/-- The members that the frames of a call leave alone. -/
structure SameStream (model model' : E2EVadModel α δ) : Prop where
  sampleRate : model'.sampleRate = model.sampleRate
  maxSingleSegmentTime : model'.maxSingleSegmentTime = model.maxSingleSegmentTime
  nnEvalBlockSize : model'.nnEvalBlockSize = model.nnEvalBlockSize
  frmCnt : model'.frmCnt = model.frmCnt
  nextSeg : model'.nextSeg = model.nextSeg
  outputDataBufOffset : model'.outputDataBufOffset = model.outputDataBufOffset
  maxEndSilFrameCntThresh : model'.maxEndSilFrameCntThresh = model.maxEndSilFrameCntThresh
  scores : model'.scores = model.scores
  idxPreChunk : model'.idxPreChunk = model.idxPreChunk
  decibel : model'.decibel = model.decibel
  dataBufAllSize : model'.dataBufAllSize = model.dataBufAllSize
  intSizes : model'.intSizes = model.intSizes

theorem SameStream.refl (model : E2EVadModel α δ) : SameStream model model :=
  ⟨rfl, rfl, rfl, rfl, rfl, rfl, rfl, rfl, rfl, rfl, rfl, rfl⟩

theorem SameStream.trans {first second third : E2EVadModel α δ} (left : SameStream first second)
    (right : SameStream second third) : SameStream first third where
  sampleRate := right.sampleRate.trans left.sampleRate
  maxSingleSegmentTime := right.maxSingleSegmentTime.trans left.maxSingleSegmentTime
  nnEvalBlockSize := right.nnEvalBlockSize.trans left.nnEvalBlockSize
  frmCnt := right.frmCnt.trans left.frmCnt
  nextSeg := right.nextSeg.trans left.nextSeg
  outputDataBufOffset := right.outputDataBufOffset.trans left.outputDataBufOffset
  maxEndSilFrameCntThresh := right.maxEndSilFrameCntThresh.trans left.maxEndSilFrameCntThresh
  scores := right.scores.trans left.scores
  idxPreChunk := right.idxPreChunk.trans left.idxPreChunk
  decibel := right.decibel.trans left.decibel
  dataBufAllSize := right.dataBufAllSize.trans left.dataBufAllSize
  intSizes := right.intSizes.trans left.intSizes

theorem SameStream.counted (model : E2EVadModel α δ) : SameStream model
    { model with continousSilenceFrameCount := model.continousSilenceFrameCount + 1 } :=
  ⟨rfl, rfl, rfl, rfl, rfl, rfl, rfl, rfl, rfl, rfl, rfl, rfl⟩

/-- The call returns, touches no member of the stream, and ends in a model that satisfies
    `post` and can still pop frames. -/
def Yields (model : E2EVadModel α δ) (result : Option (E2EVadModel α δ))
    (post : E2EVadModel α δ → Prop) : Prop :=
  ∃ model', result = some model' ∧ post model' ∧ SameStream model model' ∧
    (frameShiftLength model.sampleRate : Int) ≤ model'.dataBufSize

theorem Yields.room {model model' : E2EVadModel α δ} {frameIdx : Int} (room : model.Room frameIdx)
    (same : SameStream model model')
    (enough : (frameShiftLength model.sampleRate : Int) ≤ model'.dataBufSize) :
    model'.Room frameIdx :=
  ⟨same.sampleRate ▸ enough, by rw [same.sampleRate, same.dataBufAllSize]; exact room.later,
    fun int => by rw [same.dataBufAllSize]; exact room.int (same.intSizes ▸ int)⟩

theorem Yields.of_same {model model' : E2EVadModel α δ} {result : Option (E2EVadModel α δ)}
    {post : E2EVadModel α δ → Prop} (yields : model'.Yields result post)
    (same : SameStream model model') : model.Yields result post := by
  obtain ⟨final, returned, holds, kept, enough⟩ := yields
  exact ⟨final, returned, holds, same.trans kept, same.sampleRate ▸ enough⟩

theorem Yields.bind {model : E2EVadModel α δ} {result : Option (E2EVadModel α δ)}
    {post post' : E2EVadModel α δ → Prop} {next : E2EVadModel α δ → Option (E2EVadModel α δ)}
    (yields : model.Yields result post)
    (continues : ∀ model', post model' → SameStream model model' →
      (frameShiftLength model.sampleRate : Int) ≤ model'.dataBufSize → model'.Yields (next model') post') :
    model.Yields (result.bind next) post' := by
  obtain ⟨middle, returned, holds, same, enough⟩ := yields
  rw [returned]
  exact (continues middle holds same enough).of_same same

theorem Yields.map {model : E2EVadModel α δ} {result : Option (E2EVadModel α δ)}
    {post post' : E2EVadModel α δ → Prop} {change : E2EVadModel α δ → E2EVadModel α δ}
    (yields : model.Yields result post)
    (continues : ∀ model', post model' → post' (change model') ∧ SameStream model' (change model') ∧
      (change model').dataBufSize = model'.dataBufSize) :
    model.Yields (result.map change) post' := by
  obtain ⟨middle, returned, holds, same, enough⟩ := yields
  obtain ⟨holds', same', size⟩ := continues middle holds
  exact ⟨change middle, by rw [returned]; rfl, holds', same.trans same', by rw [size]; exact enough⟩

/-! ## While a segment is open -/

structure Speaking (model : E2EVadModel α δ) (closed : List FrameSpan) (start latest : Int) : Prop where
  state : model.vadStateMachine = .inSpeechSegment
  confirmed : model.confirmedStartFrame = start
  unset : model.confirmedEndFrame = -1
  voiced : model.latestConfirmedSpeechFrame = latest
  free : model.dataBufStartFrame = latest + 1
  ends : model.numberEndTimeDetected = closed.length
  output : model.outputDataBuf = closed.map closedBuf ++ [openBuf (start, latest)]

theorem Speaking.tracks {model : E2EVadModel α δ} {closed : List FrameSpan} {start latest : Int}
    (speaking : model.Speaking closed start latest) :
    model.Tracks
      { window := model.windowsDetector, silence := model.continousSilenceFrameCount,
        free := latest + 1, current := some (start, latest), closed } where
  window := rfl
  silence := rfl
  free := speaking.free
  ends := speaking.ends
  unset := speaking.unset
  output := speaking.output
  idle := by simp
  speaking := by
    intro start' latest' same
    cases same
    exact ⟨speaking.state, speaking.confirmed, speaking.voiced⟩

/-- The end of `DetectOneFrame`: a detected end point resets the detection. -/
def settle (model : E2EVadModel α δ) : E2EVadModel α δ :=
  if model.vadStateMachine = .endPointDetected ∧ detectMode = .mutipleUtteranceDetectMode then
    model.resetDetection
  else model

theorem settle_of_ne {model : E2EVadModel α δ} (running : model.vadStateMachine ≠ .endPointDetected) :
    model.settle = model := by
  simp [settle, running]

@[simp] theorem grow_openBuf_voice (start latest t : Int) :
    grow (openBuf (start, latest)) (t + 1) false false = openBuf (start, t) := by
  simp [grow, openBuf]

@[simp] theorem grow_openBuf_end (start latest last : Int) :
    grow (openBuf (start, latest)) (last + 1) false true = closedBuf (start, last) := by
  simp [grow, openBuf, closedBuf]

theorem Speaking.voice {model : E2EVadModel α δ} {closed : List FrameSpan} {start latest t : Int}
    (speaking : model.Speaking closed start latest) (ahead : latest < t) (room : model.Room t) :
    model.Yields (model.onVoiceDetected t) fun model' => model'.Speaking closed start t ∧
      model'.windowsDetector = model.windowsDetector ∧
      model'.continousSilenceFrameCount = model.continousSilenceFrameCount := by
  have reached : max model.dataBufStartFrame t = t := by
    have free := speaking.free
    omega
  obtain ⟨size, enough, detected⟩ := model.onVoiceDetected_eq t (closed.map closedBuf)
    (openBuf (start, latest)) speaking.output (by rwa [reached])
  rw [reached, grow_openBuf_voice] at detected
  exact ⟨_, detected, ⟨⟨speaking.state, speaking.confirmed, speaking.unset, rfl, rfl, speaking.ends,
    rfl⟩, rfl, rfl⟩, ⟨rfl, rfl, rfl, rfl, rfl, rfl, rfl, rfl, rfl, rfl, rfl, rfl⟩, enough⟩

theorem Speaking.fill {model : E2EVadModel α δ} {closed : List FrameSpan} {start latest t : Int}
    (speaking : model.Speaking closed start latest) (ahead : latest < t) (room : model.Room t) :
    model.Yields (model.onVoiceDetectedFrom (latest + 1) (t - (latest + 1)).toNat) fun model' =>
      model'.Speaking closed start (t - 1) ∧ model'.windowsDetector = model.windowsDetector ∧
      model'.continousSilenceFrameCount = model.continousSilenceFrameCount := by
  have reached : latest + 1 + ((t - (latest + 1)).toNat : Int) = t := by omega
  obtain ⟨size, enough, detected⟩ := onVoiceDetectedFrom_eq (t - (latest + 1)).toNat model (latest + 1)
    (closed.map closedBuf) (openBuf (start, latest)) speaking.output speaking.free rfl
    (.inl (by have := speaking.voiced; omega)) (by rw [reached]; exact room.mono (by omega))
  rw [reached] at detected
  have grown : grow (openBuf (start, latest)) t false false = openBuf (start, t - 1) := by
    have voiced := grow_openBuf_voice start latest (t - 1)
    rwa [sub_add_cancel] at voiced
  rw [grown] at detected
  exact ⟨_, detected, ⟨⟨speaking.state, speaking.confirmed, speaking.unset, rfl,
    (sub_add_cancel t 1).symm, speaking.ends, rfl⟩, rfl, rfl⟩,
    ⟨rfl, rfl, rfl, rfl, rfl, rfl, rfl, rfl, rfl, rfl, rfl, rfl⟩, enough⟩

/-- The segment ends at `last`, and the detection starts over. -/
theorem Speaking.finish {model : E2EVadModel α δ} {closed : List FrameSpan} {start latest last : Int}
    (speaking : model.Speaking closed start latest) (ahead : latest < last) (room : model.Room last) :
    model.Yields (((model.onVoiceEnd last false).map (·.setState .endPointDetected)).map settle)
      fun model' => model'.Tracks
        { window := model.windowsDetector.reset, silence := 0, free := last + 1, current := none,
          closed := closed ++ [(start, last)] } := by
  obtain ⟨size, enough, ended⟩ := model.onVoiceEnd_eq last (closed.map closedBuf)
    (openBuf (start, latest)) speaking.output (by rw [speaking.free, speaking.voiced])
    (by rw [speaking.voiced]; rfl) (by rw [speaking.voiced]; exact ahead) speaking.unset room
  rw [grow_openBuf_end] at ended
  rw [ended]
  refine ⟨_, rfl, ⟨rfl, rfl, rfl, ?_, rfl, ?_, fun _ => ⟨rfl, rfl, rfl⟩, by simp⟩,
    ⟨rfl, rfl, rfl, rfl, rfl, rfl, rfl, rfl, rfl, rfl, rfl, rfl⟩, enough⟩
  · simp [settle, setState, resetDetection, detectMode, speaking.ends]
  · simp [settle, setState, resetDetection, detectMode, Segmenter.buffers]

/-- A frame that is popped into the open segment leaves it open. -/
theorem Speaking.extend {model : E2EVadModel α δ} {closed : List FrameSpan} {start latest t : Int}
    (speaking : model.Speaking closed start latest) (ahead : latest < t) (room : model.Room t) :
    model.Yields ((model.onVoiceDetected t).map settle) fun model' => model'.Tracks
      { window := model.windowsDetector, silence := model.continousSilenceFrameCount, free := t + 1,
        current := some (start, t), closed } := by
  apply (speaking.voice ahead room).map
  rintro model' ⟨voiced, window, silence⟩
  rw [settle_of_ne (by rw [voiced.state]; decide)]
  exact ⟨window ▸ silence ▸ voiced.tracks, SameStream.refl _, rfl⟩

/-- The three changes that only test the length limit and the last frame. -/
theorem Speaking.limit {model : E2EVadModel α δ} {segmenter : Segmenter} {start latest t : Int}
    {change : AudioChangeState} (speaking : model.Speaking segmenter.closed start latest)
    (ahead : latest < t) (room : model.Room t) (silence : model.continousSilenceFrameCount = 0)
    (loud : change ≠ .sil2Sil) (final : Bool) :
    model.Yields ((model.limitSegment t final).map settle) fun model' => model'.Tracks
      (segmenter.stepOpen model.limits start latest 0 change model.windowsDetector t final) := by
  by_cases long : t - start + 1 > model.maxSingleSegmentTime.tdiv frameInMs
  · simp only [limitSegment, speaking.confirmed, long, if_true, Segmenter.stepOpen,
      Segmenter.endFrame?, limits, loud, false_and, if_false]
    exact speaking.finish ahead room
  · cases final with
    | false =>
      simp only [limitSegment, speaking.confirmed, long, if_false, Bool.not_false, if_true,
        Segmenter.stepOpen, Segmenter.endFrame?, limits, loud, false_and, Bool.false_eq_true]
      have extended := speaking.extend ahead room
      rwa [silence] at extended
    | true =>
      simp only [limitSegment, speaking.confirmed, long, if_false, Bool.not_true,
        Bool.false_eq_true, maybeOnVoiceEndIfLastFrame, if_true, Segmenter.stepOpen,
        Segmenter.endFrame?, limits, loud, false_and]
      exact speaking.finish ahead room

theorem SameStream.limits {model model' : E2EVadModel α δ} (same : SameStream model model') :
    model'.limits = model.limits := by
  simp only [E2EVadModel.limits, same.maxEndSilFrameCntThresh, same.maxSingleSegmentTime]

theorem Speaking.onSil2Speech {model : E2EVadModel α δ} {segmenter : Segmenter} {start latest t : Int}
    (speaking : model.Speaking segmenter.closed start latest) (ahead : latest < t)
    (room : model.Room t) (final : Bool) :
    model.Yields ((model.onSil2Speech t final).map settle) fun model' => model'.Tracks
      (segmenter.stepOpen model.limits start latest 0 .sil2Speech model.windowsDetector t final) := by
  have begun : Speaking
      { model with continousSilenceFrameCount := 0, preEndSilenceDetected := false }
      segmenter.closed start latest :=
    ⟨speaking.state, speaking.confirmed, speaking.unset, speaking.voiced, speaking.free,
      speaking.ends, speaking.output⟩
  have branch : model.onSil2Speech t final =
      ({ model with continousSilenceFrameCount := 0, preEndSilenceDetected := false
        }.onVoiceDetectedFrom (latest + 1) (t - (latest + 1)).toNat).bind (·.limitSegment t final) := by
    simp only [E2EVadModel.onSil2Speech, speaking.state, speaking.voiced]
    rfl
  have same : SameStream model
      { model with continousSilenceFrameCount := 0, preEndSilenceDetected := false } :=
    ⟨rfl, rfl, rfl, rfl, rfl, rfl, rfl, rfl, rfl, rfl, rfl, rfl⟩
  have room := Yields.room room same room.now
  rw [branch, Option.map_bind]
  refine Yields.of_same ((begun.fill ahead room).bind ?_) same
  rintro model' ⟨spoken, window, silence⟩ same enough
  have limited := @Speaking.limit _ _ _ _ _ _ _ .sil2Speech spoken (by omega)
    (Yields.room room same enough) silence (by decide) final
  rw [window, same.limits] at limited
  exact limited

theorem Speaking.onSpeech2Sil {model : E2EVadModel α δ} {segmenter : Segmenter} {start latest t : Int}
    (speaking : model.Speaking segmenter.closed start latest) (ahead : latest < t)
    (room : model.Room t) (final : Bool) :
    model.Yields ((model.onSpeech2Sil t final).map settle) fun model' => model'.Tracks
      (segmenter.stepOpen model.limits start latest 0 .speech2Sil model.windowsDetector t final) := by
  have begun : Speaking { model with continousSilenceFrameCount := 0 } segmenter.closed start latest :=
    ⟨speaking.state, speaking.confirmed, speaking.unset, speaking.voiced, speaking.free,
      speaking.ends, speaking.output⟩
  have branch : model.onSpeech2Sil t final =
      limitSegment { model with continousSilenceFrameCount := 0 } t final := by
    simp only [E2EVadModel.onSpeech2Sil, speaking.state]
  have limited := @Speaking.limit _ _ _ segmenter _ _ _ .speech2Sil begun ahead
    ⟨room.now, room.later, room.int⟩ rfl (by decide) final
  rw [branch]
  exact limited.of_same ⟨rfl, rfl, rfl, rfl, rfl, rfl, rfl, rfl, rfl, rfl, rfl, rfl⟩

theorem Speaking.onSpeech2Speech {model : E2EVadModel α δ} {segmenter : Segmenter}
    {start latest t : Int} (speaking : model.Speaking segmenter.closed start latest)
    (ahead : latest < t) (room : model.Room t) (final : Bool) :
    model.Yields ((model.onSpeech2Speech t final).map settle) fun model' => model'.Tracks
      (segmenter.stepOpen model.limits start latest 0 .speech2Speech model.windowsDetector t final) := by
  have begun : Speaking
      { model with
        continousSilenceFrameCount := 0
        maxTimeOut := model.maxTimeOut ||
          t - model.confirmedStartFrame + 1 > model.maxSingleSegmentTime.tdiv frameInMs }
      segmenter.closed start latest :=
    ⟨speaking.state, speaking.confirmed, speaking.unset, speaking.voiced, speaking.free,
      speaking.ends, speaking.output⟩
  have branch : model.onSpeech2Speech t final = limitSegment
      { model with
        continousSilenceFrameCount := 0
        maxTimeOut := model.maxTimeOut ||
          t - model.confirmedStartFrame + 1 > model.maxSingleSegmentTime.tdiv frameInMs }
      t final := by
    simp only [E2EVadModel.onSpeech2Speech, speaking.state]
  have limited := @Speaking.limit _ _ _ segmenter _ _ _ .speech2Speech begun ahead
    ⟨room.now, room.later, room.int⟩ rfl (by decide) final
  rw [branch]
  exact limited.of_same ⟨rfl, rfl, rfl, rfl, rfl, rfl, rfl, rfl, rfl, rfl, rfl, rfl⟩

/-- Silence in an open segment: the end point that `Segmenter.endFrame?` names, or a frame that
    is popped as long as it is within the lookahead. -/
theorem onSil2Sil_speaking (model : E2EVadModel α δ) (state : model.vadStateMachine = .inSpeechSegment)
    (t : Int) (final : Bool) :
    model.onSil2Sil t final =
      match Segmenter.endFrame? model.limits model.confirmedStartFrame
        (model.continousSilenceFrameCount + 1) t .sil2Sil final with
      | some last =>
        (onVoiceEnd { model with
          continousSilenceFrameCount := model.continousSilenceFrameCount + 1 } last false).map
            (·.setState .endPointDetected)
      | none =>
        if model.continousSilenceFrameCount + 1 ≤ lookaheadTimeEndPoint / frameInMs then
          onVoiceDetected { model with
            continousSilenceFrameCount := model.continousSilenceFrameCount + 1 } t
        else some { model with
          continousSilenceFrameCount := model.continousSilenceFrameCount + 1 } := by
  simp only [E2EVadModel.onSil2Sil, state, Segmenter.endFrame?, limits, true_and]
  by_cases silent : (model.continousSilenceFrameCount + 1) * (frameInMs : Int) ≥
      model.maxEndSilFrameCntThresh
  · rw [if_pos silent, if_pos silent]
  · rw [if_neg silent, if_neg silent]
    by_cases long : t - model.confirmedStartFrame + 1 > model.maxSingleSegmentTime.tdiv frameInMs
    · simp only [long, if_true]
    · simp only [long, if_false]
      cases final with
      | true => rfl
      | false => rfl

theorem Speaking.onSil2Sil {model : E2EVadModel α δ} {segmenter : Segmenter} {start latest t : Int}
    (speaking : model.Speaking segmenter.closed start latest) (ahead : latest < t)
    (popped : segmenter.free = latest + 1)
    (recent : latest + model.continousSilenceFrameCount ≤ t + 9) (room : model.Room t) (final : Bool) :
    model.Yields ((model.onSil2Sil t final).map settle) fun model' => model'.Tracks
      (segmenter.stepOpen model.limits start latest (model.continousSilenceFrameCount + 1) .sil2Sil
        model.windowsDetector t final) := by
  obtain rfl := speaking.confirmed
  have begun : Speaking
      { model with continousSilenceFrameCount := model.continousSilenceFrameCount + 1 }
      segmenter.closed model.confirmedStartFrame latest :=
    ⟨speaking.state, speaking.confirmed, speaking.unset, speaking.voiced, speaking.free,
      speaking.ends, speaking.output⟩
  have same := SameStream.counted model
  have room := Yields.room room same room.now
  have branch := model.onSil2Sil_speaking speaking.state t final
  -- The silence ends the segment; else its first frames still belong to it, and later ones wait.
  cases ended : Segmenter.endFrame? model.limits model.confirmedStartFrame
      (model.continousSilenceFrameCount + 1) t .sil2Sil final with
  | some last =>
    obtain ⟨after, reached⟩ := Segmenter.endFrame?_bounds ahead (by omega) ended
    rw [branch, ended]
    simp only [Segmenter.stepOpen, ended]
    exact (begun.finish after (room.mono reached)).of_same same
  | none =>
    rw [branch, ended]
    simp only [Segmenter.stepOpen, ended, true_and]
    by_cases few : model.continousSilenceFrameCount + 1 ≤ lookaheadTimeEndPoint / frameInMs
    · rw [if_pos few, if_neg (by omega)]
      exact (begun.extend ahead room).of_same same
    · rw [if_neg few, if_pos (by omega), popped]
      refine ⟨_, rfl, ?_⟩
      rw [settle_of_ne (by rw [begun.state]; decide)]
      exact ⟨begun.tracks, same, room.now⟩

/-! ## While no segment is open -/

structure Waiting (model : E2EVadModel α δ) (closed : List FrameSpan) (free : Int) : Prop where
  state : model.vadStateMachine = .startPointNotDetected
  confirmed : model.confirmedStartFrame = -1
  unset : model.confirmedEndFrame = -1
  voiced : model.latestConfirmedSpeechFrame = 0
  free : model.dataBufStartFrame = free
  ends : model.numberEndTimeDetected = closed.length
  output : model.outputDataBuf = closed.map closedBuf

theorem Waiting.tracks {model : E2EVadModel α δ} {closed : List FrameSpan} {free : Int}
    (waiting : model.Waiting closed free) :
    model.Tracks
      { window := model.windowsDetector, silence := model.continousSilenceFrameCount, free,
        current := none, closed } where
  window := rfl
  silence := rfl
  free := waiting.free
  ends := waiting.ends
  unset := waiting.unset
  output := by simp [waiting.output, Segmenter.buffers]
  idle := fun _ => ⟨waiting.state, waiting.confirmed, waiting.voiced⟩
  speaking := by simp

theorem latencyFrmNumAtStartPoint_eq (model : E2EVadModel α δ)
    (size : model.windowsDetector.winSizeFrame = 20) :
    model.latencyFrmNumAtStartPoint = Segmenter.latency := by
  simp [latencyFrmNumAtStartPoint, doExtend, WindowDetector.getWinSize, size, Segmenter.latency,
    lookbackTimeStartPoint, frameInMs]

/-- A start point opens a segment that already reaches the frame it was seen at. -/
theorem Waiting.begin {model : E2EVadModel α δ} {closed : List FrameSpan} {free start t : Int}
    (waiting : model.Waiting closed free) (after : free ≤ start)
    (before : start < t) (room : model.Room t) :
    model.Yields
      ((model.onVoiceStart start false).bind fun model =>
        (model.setState .inSpeechSegment).onVoiceDetectedFrom (start + 1) (t - start).toNat)
      fun model' => model'.Speaking closed start t ∧ model'.windowsDetector = model.windowsDetector ∧
        model'.continousSilenceFrameCount = model.continousSilenceFrameCount := by
  have atStart : max model.dataBufStartFrame start = start := by
    have free := waiting.free
    omega
  -- The start is taken first, then the frames up to `t` one by one.
  have counted : start + 1 + ((t - start).toNat : Int) = t + 1 := by omega
  obtain ⟨size, enough, popped⟩ := popDataToOutputBuf_start { model with confirmedStartFrame := start }
    start 1 (by
      rw [atStart]
      exact ⟨room.now, (room.mono (by omega)).later, room.int⟩)
  rw [atStart] at popped
  obtain ⟨size', enough', filled⟩ := onVoiceDetectedFrom_eq (t - start).toNat
    { model with
      vadStateMachine := .inSpeechSegment
      confirmedStartFrame := start
      dataBufStartFrame := start + 1
      dataBufSize := size
      outputDataBuf := model.outputDataBuf ++
        [grow { startMs := start * frameInMs } (start + 1) true false] }
    (start + 1) model.outputDataBuf (grow { startMs := start * frameInMs } (start + 1) true false)
    rfl rfl rfl (.inr (by omega)) ⟨enough, by rw [counted]; simpa using room.later, room.int⟩
  rw [counted] at filled
  have opened : model.onVoiceStart start false = some
      { model with
        confirmedStartFrame := start
        dataBufStartFrame := start + 1
        dataBufSize := size
        outputDataBuf := model.outputDataBuf ++
          [grow { startMs := start * frameInMs } (start + 1) true false] } := by
    rw [← popped]
    simp [onVoiceStart, waiting.confirmed, waiting.state]
  rw [opened]
  refine ⟨_, filled, ⟨⟨rfl, rfl, waiting.unset, ?_, rfl, waiting.ends, ?_⟩, rfl, rfl⟩,
    ⟨rfl, rfl, rfl, rfl, rfl, rfl, rfl, rfl, rfl, rfl, rfl, rfl⟩, enough'⟩
  · simp
  · simp [waiting.output, grow, openBuf]

theorem Waiting.onSil2Speech {model : E2EVadModel α δ} {segmenter : Segmenter} {t : Int}
    (waiting : model.Waiting segmenter.closed segmenter.free)
    (early : segmenter.free < t) (size : model.windowsDetector.winSizeFrame = 20)
    (room : model.Room t) (final : Bool) :
    model.Yields ((model.onSil2Speech t final).map settle) fun model' => model'.Tracks
      (segmenter.stepIdle .sil2Speech model.windowsDetector t final) := by
  have begun : Waiting
      { model with continousSilenceFrameCount := 0, preEndSilenceDetected := false }
      segmenter.closed segmenter.free :=
    ⟨waiting.state, waiting.confirmed, waiting.unset, waiting.voiced, waiting.free, waiting.ends,
      waiting.output⟩
  have same : SameStream model
      { model with continousSilenceFrameCount := 0, preEndSilenceDetected := false } :=
    ⟨rfl, rfl, rfl, rfl, rfl, rfl, rfl, rfl, rfl, rfl, rfl, rfl⟩
  have latency := model.latencyFrmNumAtStartPoint_eq size
  have branch : model.onSil2Speech t final =
      (({ model with continousSilenceFrameCount := 0, preEndSilenceDetected := false
          }.onVoiceStart (max segmenter.free (t - Segmenter.latency)) false).bind fun model =>
        (model.setState .inSpeechSegment).onVoiceDetectedFrom
          (max segmenter.free (t - Segmenter.latency) + 1)
          (t - max segmenter.free (t - Segmenter.latency)).toNat) := by
    rw [← waiting.free, ← latency]
    simp only [E2EVadModel.onSil2Speech, waiting.state]
    rfl
  -- The latency is positive, so the segment opens in front of the frame it was seen at.
  have reaches : max segmenter.free (t - Segmenter.latency) < t := by
    simp only [Segmenter.latency]
    omega
  rw [branch]
  refine Yields.of_same (Yields.map (begun.begin (le_max_left _ _) reaches
    (Yields.room room same room.now)) ?_) same
  rintro model' ⟨speaking, window, silence⟩
  have tracks := speaking.tracks
  rw [window, silence] at tracks
  rw [settle_of_ne (by rw [speaking.state]; decide)]
  exact ⟨tracks, SameStream.refl _, rfl⟩

/-- `OnSilenceDetected` while no segment is open drops the samples before the frame. -/
theorem onSilenceDetected_yields {model : E2EVadModel α δ} {closed : List FrameSpan}
    {free frame : Int} (waiting : model.Waiting closed free) (room : model.Room (max free frame)) :
    model.Yields (model.onSilenceDetected frame) fun model' =>
      model'.Waiting closed (max free frame) ∧ model'.windowsDetector = model.windowsDetector ∧
        model'.continousSilenceFrameCount = model.continousSilenceFrameCount := by
  obtain rfl := waiting.free
  obtain ⟨size, enough, popped⟩ := popDataBufTillFrame_eq
    { model with lastestConfirmedSilenceFrame := frame } frame ⟨room.now, room.later, room.int⟩
  have branch : model.onSilenceDetected frame =
      { model with lastestConfirmedSilenceFrame := frame }.popDataBufTillFrame frame := by
    simp [onSilenceDetected, waiting.state]
  rw [branch]
  exact ⟨_, popped, ⟨⟨waiting.state, waiting.confirmed, waiting.unset, waiting.voiced, rfl,
    waiting.ends, waiting.output⟩, rfl, rfl⟩,
    ⟨rfl, rfl, rfl, rfl, rfl, rfl, rfl, rfl, rfl, rfl, rfl, rfl⟩, enough⟩

theorem onSilenceDetectedFrom_yields (count : Nat) {model : E2EVadModel α δ}
    {closed : List FrameSpan} {free first t : Int} (waiting : model.Waiting closed free)
    (early : free ≤ t) (last : 0 < count → first + count ≤ t) (room : model.Room t) :
    model.Yields (model.onSilenceDetectedFrom first count) fun model' =>
      (∃ free' ≤ t, model'.Waiting closed free') ∧ model'.windowsDetector = model.windowsDetector := by
  induction count generalizing model free first with
  | zero => exact ⟨model, rfl, ⟨⟨free, early, waiting⟩, rfl⟩, SameStream.refl _, room.now⟩
  | succ count inductionHypothesis =>
    have last := last (by omega)
    push_cast at last
    refine (onSilenceDetected_yields waiting (room.mono (by omega))).bind ?_
    rintro model' ⟨waiting', window, -⟩ same enough
    rw [← window]
    exact inductionHypothesis waiting' (by omega) (fun _ => by omega) (Yields.room room same enough)

theorem Waiting.counted {model : E2EVadModel α δ} {closed : List FrameSpan} {free : Int}
    (waiting : model.Waiting closed free) :
    Waiting { model with continousSilenceFrameCount := model.continousSilenceFrameCount + 1 }
      closed free :=
  ⟨waiting.state, waiting.confirmed, waiting.unset, waiting.voiced, waiting.free, waiting.ends,
    waiting.output⟩

theorem onSil2Sil_idle {model : E2EVadModel α δ} {t : Int} {final : Bool}
    (state : model.vadStateMachine = .startPointNotDetected)
    (size : model.windowsDetector.winSizeFrame = 20)
    (unfinished : ¬ (final ∧ model.numberEndTimeDetected = 0)) :
    model.onSil2Sil t final =
      if t ≥ Segmenter.latency then onSilenceDetected { model with
        continousSilenceFrameCount := model.continousSilenceFrameCount + 1 } (t - Segmenter.latency)
      else some { model with
        continousSilenceFrameCount := model.continousSilenceFrameCount + 1 } := by
  rw [← model.latencyFrmNumAtStartPoint_eq size]
  simp only [E2EVadModel.onSil2Sil, state, detectMode, reduceCtorEq, false_and, false_or,
    unfinished, if_false]
  rfl

/-- Silence that leaves the detection as it is. -/
theorem Waiting.onSil2Sil {model : E2EVadModel α δ} {segmenter : Segmenter} {t : Int}
    (waiting : model.Waiting segmenter.closed segmenter.free) (nonneg : 0 ≤ segmenter.free)
    (early : segmenter.free ≤ t) (size : model.windowsDetector.winSizeFrame = 20)
    (none : segmenter.current = none)
    (silence : model.continousSilenceFrameCount = segmenter.silence) (room : model.Room t)
    {final : Bool} (more : ¬ (final ∧ segmenter.closed = [])) :
    model.Yields ((model.onSil2Sil t final).map settle) fun model' => model'.Tracks
      (segmenter.stepIdle .sil2Sil model.windowsDetector t final) := by
  have begun := waiting.counted
  have same := SameStream.counted model
  have room := Yields.room room same room.now
  have unfinished : ¬ (final ∧ model.numberEndTimeDetected = 0) := by
    rw [waiting.ends]
    simpa [List.length_eq_zero_iff] using more
  rw [onSil2Sil_idle waiting.state size unfinished]
  simp only [Segmenter.stepIdle, more, if_false, none]
  -- With fewer frames than the latency nothing is dropped yet.
  by_cases late : t ≥ Segmenter.latency
  · rw [if_pos late]
    refine Yields.of_same (Yields.map (onSilenceDetected_yields begun (room.mono ?_)) ?_) same
    · simp only [Segmenter.latency]
      omega
    · rintro model' ⟨waiting', window', silence'⟩
      have tracks := waiting'.tracks
      rw [window', silence', silence] at tracks
      rw [settle_of_ne (by rw [waiting'.state]; decide)]
      exact ⟨tracks, SameStream.refl _, rfl⟩
  · rw [if_neg late]
    refine ⟨_, rfl, ?_⟩
    have unmoved : max segmenter.free (t - Segmenter.latency) = segmenter.free := by omega
    have tracks := begun.tracks
    rw [settle_of_ne (by rw [begun.state]; decide), unmoved, ← silence]
    exact ⟨tracks, same, room.now⟩

/-- The last frame of a recording in which no end point was detected: the detection is closed
    with a result that is not reported. -/
theorem Waiting.onSil2Sil_fake {model : E2EVadModel α δ} {free t : Int}
    (waiting : model.Waiting [] free) (early : free ≤ t) (room : model.Room t) :
    model.Yields ((model.onSil2Sil t true).map settle) fun model' =>
      model'.outputDataBuf = [] ∧ model'.windowsDetector = model.windowsDetector.reset := by
  have begun := waiting.counted
  have same := SameStream.counted model
  have branch : model.onSil2Sil t true =
      (({ model with continousSilenceFrameCount := model.continousSilenceFrameCount + 1
          }.onSilenceDetectedFrom (model.lastestConfirmedSilenceFrame + 1)
            (t - (model.lastestConfirmedSilenceFrame + 1)).toNat).bind fun model =>
        (model.onVoiceStart 0 true).bind fun model =>
          (model.onVoiceEnd 0 true).bind fun model => some (model.setState .endPointDetected)) := by
    simp only [E2EVadModel.onSil2Sil, waiting.state, waiting.ends, List.length_nil, Nat.cast_zero,
      and_self, or_true, if_true]
    rfl
  rw [branch, Option.map_bind]
  refine Yields.of_same (Yields.bind (onSilenceDetectedFrom_yields _ begun early (fun _ => by omega)
    (Yields.room room same room.now)) ?_) same
  rintro model' ⟨⟨free', -, waiting'⟩, window⟩ same enough
  rw [← same.sampleRate] at enough
  simp only [Function.comp_def, onVoiceStart, waiting'.confirmed, onVoiceEnd, waiting'.voiced,
    waiting'.unset]
  refine ⟨_, rfl, ⟨waiting'.output, congrArg WindowDetector.reset window⟩,
    ⟨rfl, rfl, rfl, rfl, rfl, rfl, rfl, rfl, rfl, rfl, rfl, rfl⟩, enough⟩

/-! ## One frame -/

def onChange (model : E2EVadModel α δ) (t : Int) (final : Bool) :
    AudioChangeState → Option (E2EVadModel α δ)
  | .sil2Speech => model.onSil2Speech t final
  | .speech2Sil => model.onSpeech2Sil t final
  | .speech2Speech => model.onSpeech2Speech t final
  | .sil2Sil => model.onSil2Sil t final
  | .noBegin | .invalid => some model

theorem detectOneFrame_eq (model : E2EVadModel α δ) (frameState : FrameState) (t : Int)
    (final : Bool) :
    model.detectOneFrame frameState t final =
      ({ model with windowsDetector := (model.windowsDetector.detectOneFrame frameState).2 }.onChange
        t final (model.windowsDetector.detectOneFrame frameState).1).map settle := by
  simp only [detectOneFrame, Option.map_eq_bind]
  cases (model.windowsDetector.detectOneFrame frameState).1 <;> rfl

theorem Tracks.speakingWith {model : E2EVadModel α δ} {segmenter : Segmenter} {start latest : Int}
    (tracks : model.Tracks segmenter) (opened : segmenter.current = some (start, latest))
    (popped : segmenter.free = latest + 1) (window : WindowDetector) :
    Speaking { model with windowsDetector := window } segmenter.closed start latest := by
  obtain ⟨state, confirmed, voiced⟩ := tracks.speaking start latest opened
  refine ⟨state, confirmed, tracks.unset, voiced, tracks.free.trans popped, tracks.ends, ?_⟩
  simp [tracks.output, Segmenter.buffers, opened]

theorem Tracks.waitingWith {model : E2EVadModel α δ} {segmenter : Segmenter}
    (tracks : model.Tracks segmenter) (none : segmenter.current = none) (window : WindowDetector) :
    Waiting { model with windowsDetector := window } segmenter.closed segmenter.free := by
  obtain ⟨state, confirmed, voiced⟩ := tracks.idle none
  refine ⟨state, confirmed, tracks.unset, voiced, tracks.free, tracks.ends, ?_⟩
  simp [tracks.output, Segmenter.buffers, none]

/-- What one frame leaves: the output and the window of the segmenter, and after a frame that is
    not the last one the whole of its state. -/
structure Follows (final : Bool) (segmenter : Segmenter) (model : E2EVadModel α δ) : Prop where
  tracks : final = false → model.Tracks segmenter
  output : model.outputDataBuf = segmenter.buffers
  window : model.windowsDetector = segmenter.window

theorem Tracks.follows {final : Bool} {segmenter : Segmenter} {model : E2EVadModel α δ}
    (tracks : model.Tracks segmenter) : model.Follows final segmenter :=
  ⟨fun _ => tracks, tracks.output, tracks.window⟩

theorem Yields.follows {model : E2EVadModel α δ} {result : Option (E2EVadModel α δ)} {final : Bool}
    {segmenter : Segmenter} (yields : model.Yields result fun model' => model'.Tracks segmenter) :
    model.Yields result (Follows final segmenter) := by
  obtain ⟨model', returned, tracks, same, enough⟩ := yields
  exact ⟨model', returned, tracks.follows, same, enough⟩

/-- The simulation of one frame. -/
theorem detectOneFrame_follows {model : E2EVadModel α δ} {segmenter : Segmenter} {t : Int}
    (tracks : model.Tracks segmenter) (valid : segmenter.Valid t) (room : model.Room t)
    (row : RowState) (final : Bool) :
    model.Yields (model.detectOneFrame row.frameState t final)
      (Follows final (segmenter.step model.limits row t final)) := by
  obtain ⟨changed, kept, sum⟩ :=
    WindowDetector.detectOneFrame_change valid.window row.frameState_ne_invalid
  rw [detectOneFrame_eq, tracks.window]
  simp only [Segmenter.step]
  generalize (segmenter.window.detectOneFrame row.frameState).1 = change at changed ⊢
  generalize (segmenter.window.detectOneFrame row.frameState).2 = window at changed kept sum ⊢
  have same : SameStream model { model with windowsDetector := window } :=
    ⟨rfl, rfl, rfl, rfl, rfl, rfl, rfl, rfl, rfl, rfl, rfl, rfl⟩
  have room := Yields.room room same room.now
  refine Yields.of_same ?_ same
  -- The window has told what can happen; each change has a lemma for each of the two states.
  cases current : segmenter.current with
  | none =>
    obtain ⟨silent, filled, -⟩ := valid.idle current
    have waiting := tracks.waitingWith current window
    have sumNonneg := WindowDetector.winSum_nonneg kept
    have reached := valid.reached
    rw [silent] at changed
    cases changed with
    | sil2Speech _ high => exact (waiting.onSil2Speech (by omega) kept.size room final).follows
    | sil2Sil =>
      by_cases fake : final ∧ segmenter.closed = []
      · obtain ⟨rfl, empty⟩ := fake
        rw [empty] at waiting
        obtain ⟨model', returned, ⟨output, reset⟩, same', enough⟩ :=
          waiting.onSil2Sil_fake reached room
        refine ⟨model', returned, ⟨by simp, ?_, ?_⟩, same', enough⟩
        · simp [output, Segmenter.stepIdle, empty, Segmenter.buffers, current]
        · simp [reset, Segmenter.stepIdle, empty]
      · exact (waiting.onSil2Sil valid.free reached kept.size current tracks.silence room
          fake).follows
  | some span =>
    obtain ⟨start, latest⟩ := span
    obtain ⟨-, -, before, recent, popped, -⟩ := valid.speaking start latest current
    have speaking := tracks.speakingWith current popped window
    generalize segmenter.window.preFrameState = pre at changed
    cases changed with
    | sil2Speech => exact (speaking.onSil2Speech before room final).follows
    | speech2Sil => exact (speaking.onSpeech2Sil before room final).follows
    | speech2Speech => exact (speaking.onSpeech2Speech before room final).follows
    | sil2Sil =>
      have counted : segmenter.silenceAfter .sil2Sil = model.continousSilenceFrameCount + 1 := by
        rw [tracks.silence, Segmenter.silenceAfter, if_pos rfl]
      rw [← tracks.silence] at recent
      simp only [counted]
      exact (speaking.onSil2Sil before popped recent room final).follows

end E2EVadModel

end Asr2Pass.Vad
