import Asr2Pass.Vad.Scorer

/-! # What the reset after a recording restores

`Persists` is what the frames of a call leave alone.  After a final call every member that the
next call reads is that of a new model, but for the two counts of samples: these are so only when
no sample has ever been passed.
-/

namespace Asr2Pass.Vad

open Library VADXOptions

/-! ## What frames leave alone -/

/-- The members that no frame writes. -/
structure Persists {α δ : Type} (model model' : E2EVadModel α δ) : Prop where
  winSizeFrame : model'.windowsDetector.winSizeFrame = model.windowsDetector.winSizeFrame
  silToSpeech : model'.windowsDetector.silToSpeechFrmcntThres =
    model.windowsDetector.silToSpeechFrmcntThres
  speechToSil : model'.windowsDetector.speechToSilFrmcntThres =
    model.windowsDetector.speechToSilFrmcntThres
  frmCnt : model'.frmCnt = model.frmCnt
  decibel : model'.decibel = model.decibel
  dataBufAllSize : model'.dataBufAllSize = model.dataBufAllSize
  dataBufSize : model.dataBufAllSize = 0 → model.dataBufSize = 0 → model'.dataBufSize = 0
  intSizes : model'.intSizes = model.intSizes

namespace Persists

variable {α δ : Type} {model : E2EVadModel α δ}

theorem refl (model : E2EVadModel α δ) : Persists model model :=
  ⟨rfl, rfl, rfl, rfl, rfl, rfl, fun _ size => size, rfl⟩

theorem trans {first second third : E2EVadModel α δ} (left : Persists first second)
    (right : Persists second third) : Persists first third where
  winSizeFrame := right.winSizeFrame.trans left.winSizeFrame
  silToSpeech := right.silToSpeech.trans left.silToSpeech
  speechToSil := right.speechToSil.trans left.speechToSil
  frmCnt := right.frmCnt.trans left.frmCnt
  decibel := right.decibel.trans left.decibel
  dataBufAllSize := right.dataBufAllSize.trans left.dataBufAllSize
  dataBufSize none size :=
    right.dataBufSize (left.dataBufAllSize.trans none) (left.dataBufSize none size)
  intSizes := right.intSizes.trans left.intSizes

end Persists

/-- Whatever `result` is, it keeps the members that no frame writes. -/
def Leaves {α δ : Type} (model : E2EVadModel α δ) (result : Option (E2EVadModel α δ)) : Prop :=
  ∀ model', result = some model' → Persists model model'

namespace Leaves

variable {α δ : Type} {model : E2EVadModel α δ}

theorem of_persists {model' : E2EVadModel α δ} (persists : Persists model model') :
    Leaves model (some model') := by
  intro model'' same
  cases same
  exact persists

theorem missing : Leaves model none := by
  intro model' same
  cases same

theorem of_eq {model' : E2EVadModel α δ} {result : Option (E2EVadModel α δ)}
    (leaves : Leaves model' result) (persists : Persists model model') : Leaves model result := by
  intro model'' same
  exact persists.trans (leaves model'' same)

theorem bind {result : Option (E2EVadModel α δ)}
    {next : E2EVadModel α δ → Option (E2EVadModel α δ)} (leaves : Leaves model result)
    (continues : ∀ model', Leaves model' (next model')) : Leaves model (result.bind next) := by
  intro model'' same
  obtain ⟨model', first, second⟩ := Option.bind_eq_some_iff.mp same
  exact (leaves model' first).trans (continues model' model'' second)

theorem map {result : Option (E2EVadModel α δ)} {change : E2EVadModel α δ → E2EVadModel α δ}
    (leaves : Leaves model result) (keeps : ∀ model', Persists model' (change model')) :
    Leaves model (result.map change) := by
  intro model'' same
  obtain ⟨model', first, rfl⟩ := Option.map_eq_some_iff.mp same
  exact (leaves model' first).trans (keeps model')

end Leaves

namespace E2EVadModel

variable {α δ : Type}

theorem setState_persists (model : E2EVadModel α δ) (state : VadStateMachine) :
    Persists model (model.setState state) :=
  ⟨rfl, rfl, rfl, rfl, rfl, rfl, fun _ size => size, rfl⟩

theorem popFrames_leaves (model : E2EVadModel α δ) (count : Nat) :
    Leaves model (model.popFrames count) := by
  induction count generalizing model with
  | zero => exact .of_persists (Persists.refl model)
  | succ count inductionHypothesis =>
    unfold popFrames
    dsimp only
    split
    · exact .missing
    rename_i enough
    split
    · exact .missing
    apply (inductionHypothesis _).of_eq
    refine ⟨rfl, rfl, rfl, rfl, rfl, rfl, fun none size => ?_, rfl⟩
    -- With an empty buffer a frame can only be popped when a frame shift has no samples.
    have shift : (frameShiftLength model.sampleRate : Int) = 0 := by omega
    simp [none, shift]

theorem popDataToOutputBuf_leaves (model : E2EVadModel α δ) (startFrm frmCnt : Int)
    (first last : Bool) : Leaves model (model.popDataToOutputBuf startFrm frmCnt first last) := by
  apply (popFrames_leaves model _).bind
  intro model'
  apply Leaves.of_persists
  exact ⟨rfl, rfl, rfl, rfl, rfl, rfl, fun _ size => size, rfl⟩

theorem onSilenceDetected_leaves (model : E2EVadModel α δ) (validFrame : Int) :
    Leaves model (model.onSilenceDetected validFrame) := by
  have silent : Persists model { model with lastestConfirmedSilenceFrame := validFrame } :=
    ⟨rfl, rfl, rfl, rfl, rfl, rfl, fun _ size => size, rfl⟩
  simp only [onSilenceDetected]
  split
  · exact (popFrames_leaves _ _).of_eq silent
  · exact .of_persists silent

theorem onSilenceDetectedFrom_leaves (model : E2EVadModel α δ) (first : Int) (count : Nat) :
    Leaves model (model.onSilenceDetectedFrom first count) := by
  induction count generalizing model first with
  | zero => exact .of_persists (Persists.refl model)
  | succ count inductionHypothesis =>
    apply (onSilenceDetected_leaves model first).bind
    intro model'
    exact inductionHypothesis model' (first + 1)

theorem onVoiceDetected_leaves (model : E2EVadModel α δ) (validFrame : Int) :
    Leaves model (model.onVoiceDetected validFrame) := by
  apply (popDataToOutputBuf_leaves _ _ _ _ _).of_eq
  exact ⟨rfl, rfl, rfl, rfl, rfl, rfl, fun _ size => size, rfl⟩

theorem onVoiceDetectedFrom_leaves (model : E2EVadModel α δ) (first : Int) (count : Nat) :
    Leaves model (model.onVoiceDetectedFrom first count) := by
  induction count generalizing model first with
  | zero => exact .of_persists (Persists.refl model)
  | succ count inductionHypothesis =>
    apply (onVoiceDetected_leaves model first).bind
    intro model'
    exact inductionHypothesis model' (first + 1)

theorem onVoiceStart_leaves (model : E2EVadModel α δ) (startFrame : Int) (fakeResult : Bool) :
    Leaves model (model.onVoiceStart startFrame fakeResult) := by
  have confirmed : Persists model { model with confirmedStartFrame := startFrame } :=
    ⟨rfl, rfl, rfl, rfl, rfl, rfl, fun _ size => size, rfl⟩
  simp only [onVoiceStart]
  split
  · split
    · exact popDataToOutputBuf_leaves _ _ _ _ _
    · exact .of_persists (Persists.refl model)
  · split
    · exact (popDataToOutputBuf_leaves _ _ _ _ _).of_eq confirmed
    · exact .of_persists confirmed

theorem onVoiceEnd_leaves (model : E2EVadModel α δ) (endFrame : Int) (fakeResult : Bool) :
    Leaves model (model.onVoiceEnd endFrame fakeResult) := by
  apply (onVoiceDetectedFrom_leaves model _ _).bind
  intro model'
  have confirmed : Persists model' (if model'.confirmedEndFrame ≠ -1 then model'
      else { model' with confirmedEndFrame := endFrame }) := by
    split
    · exact Persists.refl model'
    · exact ⟨rfl, rfl, rfl, rfl, rfl, rfl, fun _ size => size, rfl⟩
  have counted (model : E2EVadModel α δ) :
      Persists model { model with numberEndTimeDetected := model.numberEndTimeDetected + 1 } :=
    ⟨rfl, rfl, rfl, rfl, rfl, rfl, fun _ size => size, rfl⟩
  cases fakeResult with
  | true => exact .of_persists (confirmed.trans (counted _))
  | false =>
    apply Leaves.of_eq _ confirmed
    apply Leaves.bind
    · apply (popDataToOutputBuf_leaves _ _ _ _ _).of_eq
      exact ⟨rfl, rfl, rfl, rfl, rfl, rfl, fun _ size => size, rfl⟩
    · intro model''
      exact .of_persists (counted model'')

/-- A segment is closed. -/
theorem ended_leaves (model : E2EVadModel α δ) (endFrame : Int) :
    Leaves model ((model.onVoiceEnd endFrame false).map (·.setState .endPointDetected)) :=
  (onVoiceEnd_leaves model endFrame false).map fun model' => setState_persists model' _

theorem maybeOnVoiceEndIfLastFrame_leaves (model : E2EVadModel α δ) (isFinalFrame : Bool)
    (curFrmIdx : Int) : Leaves model (model.maybeOnVoiceEndIfLastFrame isFinalFrame curFrmIdx) := by
  unfold maybeOnVoiceEndIfLastFrame
  split
  · exact ended_leaves model curFrmIdx
  · exact .of_persists (Persists.refl model)

theorem limitSegment_leaves (model : E2EVadModel α δ) (curFrmIdx : Int) (isFinalFrame : Bool) :
    Leaves model (model.limitSegment curFrmIdx isFinalFrame) := by
  unfold limitSegment
  split
  · exact ended_leaves model curFrmIdx
  · split
    · exact onVoiceDetected_leaves model curFrmIdx
    · exact maybeOnVoiceEndIfLastFrame_leaves model isFinalFrame curFrmIdx

/-! ## One frame -/

theorem onSil2Speech_leaves (model : E2EVadModel α δ) (curFrmIdx : Int) (isFinalFrame : Bool) :
    Leaves model (model.onSil2Speech curFrmIdx isFinalFrame) := by
  have cleared : Persists model
      { model with continousSilenceFrameCount := 0, preEndSilenceDetected := false } :=
    ⟨rfl, rfl, rfl, rfl, rfl, rfl, fun _ size => size, rfl⟩
  simp only [onSil2Speech]
  split
  · apply Leaves.of_eq _ cleared
    apply (onVoiceStart_leaves _ _ _).bind
    intro model'
    exact (onVoiceDetectedFrom_leaves _ _ _).of_eq (setState_persists model' _)
  · apply Leaves.of_eq _ cleared
    apply (onVoiceDetectedFrom_leaves _ _ _).bind
    intro model'
    exact limitSegment_leaves model' curFrmIdx isFinalFrame
  · exact .of_persists cleared

theorem onSpeech2Sil_leaves (model : E2EVadModel α δ) (curFrmIdx : Int) (isFinalFrame : Bool) :
    Leaves model (model.onSpeech2Sil curFrmIdx isFinalFrame) := by
  have cleared : Persists model { model with continousSilenceFrameCount := 0 } :=
    ⟨rfl, rfl, rfl, rfl, rfl, rfl, fun _ size => size, rfl⟩
  simp only [onSpeech2Sil]
  split
  · exact (limitSegment_leaves _ _ _).of_eq cleared
  · exact .of_persists cleared

theorem onSpeech2Speech_leaves (model : E2EVadModel α δ) (curFrmIdx : Int) (isFinalFrame : Bool) :
    Leaves model (model.onSpeech2Speech curFrmIdx isFinalFrame) := by
  simp only [onSpeech2Speech]
  split
  · apply (limitSegment_leaves _ _ _).of_eq
    exact ⟨rfl, rfl, rfl, rfl, rfl, rfl, fun _ size => size, rfl⟩
  · apply Leaves.of_persists
    exact ⟨rfl, rfl, rfl, rfl, rfl, rfl, fun _ size => size, rfl⟩

theorem onSil2Sil_leaves (model : E2EVadModel α δ) (curFrmIdx : Int) (isFinalFrame : Bool) :
    Leaves model (model.onSil2Sil curFrmIdx isFinalFrame) := by
  have counted : Persists model
      { model with continousSilenceFrameCount := model.continousSilenceFrameCount + 1 } :=
    ⟨rfl, rfl, rfl, rfl, rfl, rfl, fun _ size => size, rfl⟩
  simp only [onSil2Sil]
  split
  · split
    · apply Leaves.of_eq _ counted
      apply (onSilenceDetectedFrom_leaves _ _ _).bind
      intro model'
      apply (onVoiceStart_leaves _ _ _).bind
      intro model''
      apply (onVoiceEnd_leaves _ _ _).bind
      intro model'''
      exact .of_persists (setState_persists model''' _)
    · split
      · exact (onSilenceDetected_leaves _ _).of_eq counted
      · exact .of_persists counted
  · split
    · exact (ended_leaves _ _).of_eq counted
    · split
      · exact (ended_leaves _ _).of_eq counted
      · split
        · split
          · exact (onVoiceDetected_leaves _ _).of_eq counted
          · exact .of_persists counted
        · exact (maybeOnVoiceEndIfLastFrame_leaves _ _ _).of_eq counted
  · exact .of_persists counted

/-- The window detector keeps its size and its thresholds. -/
theorem detectOneFrame_window (detector : WindowDetector) (curFrmState : FrameState) :
    (detector.detectOneFrame curFrmState).2.winSizeFrame = detector.winSizeFrame ∧
      (detector.detectOneFrame curFrmState).2.silToSpeechFrmcntThres =
        detector.silToSpeechFrmcntThres ∧
      (detector.detectOneFrame curFrmState).2.speechToSilFrmcntThres =
        detector.speechToSilFrmcntThres := by
  have judged (detector : WindowDetector) : detector.judge.2.winSizeFrame = detector.winSizeFrame ∧
      detector.judge.2.silToSpeechFrmcntThres = detector.silToSpeechFrmcntThres ∧
      detector.judge.2.speechToSilFrmcntThres = detector.speechToSilFrmcntThres := by
    simp only [WindowDetector.judge]
    split
    · simp
    · split
      · simp
      · split
        · simp
        · split <;> simp
  cases curFrmState with
  | invalid => exact ⟨rfl, rfl, rfl⟩
  | speech => exact judged (detector.push 1)
  | sil => exact judged (detector.push 0)

theorem resetDetection_persists (model : E2EVadModel α δ) : Persists model model.resetDetection :=
  ⟨rfl, rfl, rfl, rfl, rfl, rfl, fun _ size => size, rfl⟩

theorem detectOneFrame_leaves (model : E2EVadModel α δ) (curFrmState : FrameState)
    (curFrmIdx : Int) (isFinalFrame : Bool) :
    Leaves model (model.detectOneFrame curFrmState curFrmIdx isFinalFrame) := by
  obtain ⟨size, silToSpeech, speechToSil⟩ :=
    detectOneFrame_window model.windowsDetector curFrmState
  simp only [detectOneFrame]
  have moved : Persists model
      { model with windowsDetector := (model.windowsDetector.detectOneFrame curFrmState).2 } :=
    ⟨size, silToSpeech, speechToSil, rfl, rfl, rfl, fun _ size => size, rfl⟩
  have settled (model : E2EVadModel α δ) : Leaves model (some
      (if model.vadStateMachine = .endPointDetected ∧ detectMode = .mutipleUtteranceDetectMode
        then model.resetDetection else model)) := by
    apply Leaves.of_persists
    split
    · exact resetDetection_persists model
    · exact Persists.refl model
  apply Leaves.of_eq _ moved
  split
  · exact (onSil2Speech_leaves _ _ _).bind settled
  · exact (onSpeech2Sil_leaves _ _ _).bind settled
  · exact (onSpeech2Speech_leaves _ _ _).bind settled
  · exact (onSil2Sil_leaves _ _ _).bind settled
  · exact settled _
  · exact settled _

/-! ## One call -/

theorem detectFrames_leaves (model : E2EVadModel α δ) (i : Int) (count : Nat) :
    Leaves model (model.detectFrames i count) := by
  induction count generalizing model i with
  | zero => exact .of_persists (Persists.refl model)
  | succ count inductionHypothesis =>
    simp only [detectFrames]
    cases model.getFrameState (model.frmCnt - 1 - i) with
    | none => exact .missing
    | some frameState =>
      apply (detectOneFrame_leaves model frameState _ false).bind
      intro model'
      exact inductionHypothesis model' (i - 1)

theorem detectCommonFrames_leaves (model : E2EVadModel α δ) :
    Leaves model model.detectCommonFrames := by
  unfold detectCommonFrames
  split
  · exact .of_persists (Persists.refl model)
  · apply (detectFrames_leaves model _ _).bind
    intro model'
    apply Leaves.of_persists
    exact ⟨rfl, rfl, rfl, rfl, rfl, rfl, fun _ size => size, rfl⟩

theorem detectLastFrames_leaves (model : E2EVadModel α δ) :
    Leaves model model.detectLastFrames := by
  unfold detectLastFrames
  split
  · exact .of_persists (Persists.refl model)
  · split
    · exact .of_persists (Persists.refl model)
    · apply (detectFrames_leaves model _ _).bind
      intro model'
      cases model'.getFrameState (model'.frmCnt - 1) with
      | none => exact .missing
      | some frameState => exact detectOneFrame_leaves model' frameState _ true

theorem report_persists (model : E2EVadModel α δ) (isFinal online : Bool) :
    Persists model (model.report isFinal online).2 := by
  cases online with
  | true => exact ⟨rfl, rfl, rfl, rfl, rfl, rfl, fun _ size => size, rfl⟩
  | false => exact ⟨rfl, rfl, rfl, rfl, rfl, rfl, fun _ size => size, rfl⟩

/-- The model with the samples and the rows of a call. -/
def fed (energy : List α → δ) (model : E2EVadModel α δ) (rows : Nat) (waveform : List α)
    (sampleRate : Nat) : E2EVadModel α δ :=
  { model with
    frmCnt := model.frmCnt + rows
    decibel := model.decibel ++ decibelOf energy sampleRate waveform
    dataBufSize := if model.dataBufAllSize = 0 then model.size waveform.length
      else model.dataBufSize
    dataBufAllSize := model.size (model.dataBufAllSize + waveform.length) }

theorem acceptCall_persists (energy : List α → δ) (model : E2EVadModel α δ)
    (scores : List RowState) (waveform : List α) (maxEndSil maxSingleSegmentTime : Int)
    (sampleRate : Nat) : Persists (model.fed energy scores.length waveform sampleRate)
      (model.acceptCall energy scores waveform maxEndSil maxSingleSegmentTime sampleRate) := by
  by_cases first : model.dataBufAllSize = 0
  · simp only [acceptCall, computeDecibel, computeScores, fed, first, if_true]
    exact ⟨rfl, rfl, rfl, rfl, rfl, by simp [size], fun _ size => size, rfl⟩
  · simp only [acceptCall, computeDecibel, computeScores, fed, first, if_false]
    exact ⟨rfl, rfl, rfl, rfl, rfl, rfl, fun _ size => size, rfl⟩

theorem call_cases {energy : List α → δ} {model model' : E2EVadModel α δ}
    {scores : List RowState} {waveform : List α} {isFinal online : Bool}
    {maxEndSil maxSingleSegmentTime : Int} {sampleRate : Nat} {answer : List Segment}
    (ran : model.call energy scores waveform isFinal online maxEndSil maxSingleSegmentTime
      sampleRate = some (answer, model')) :
    ∃ reported, Persists (model.fed energy scores.length waveform sampleRate) reported ∧
      model' = if isFinal then reported.allResetDetection else reported := by
  have accepted := acceptCall_persists energy model scores waveform maxEndSil maxSingleSegmentTime
    sampleRate
  simp only [call] at ran
  generalize model.acceptCall energy scores waveform maxEndSil maxSingleSegmentTime sampleRate =
    begun at accepted ran
  cases isFinal with
  | false =>
    obtain ⟨detected, frames, rest⟩ := Option.bind_eq_some_iff.mp ran
    cases rest
    have persists := detectCommonFrames_leaves begun detected frames
    exact ⟨_, (accepted.trans persists).trans (report_persists detected false online), rfl⟩
  | true =>
    obtain ⟨detected, frames, rest⟩ := Option.bind_eq_some_iff.mp ran
    cases rest
    have persists := detectLastFrames_leaves begun detected frames
    exact ⟨_, (accepted.trans persists).trans (report_persists detected true online), rfl⟩

/-! ## Members that a call writes before it reads them -/

/-- The model with these members as the constructor leaves them. -/
def overwritten (model : E2EVadModel α δ) : E2EVadModel α δ :=
  { model with
    sampleRate := 16000
    maxSingleSegmentTime := 15000
    nnEvalBlockSize := 8
    maxEndSilFrameCntThresh := maxEndSilenceTime - speechToSilTimeThres
    scores := []
    waveform := [] }

theorem acceptCall_overwritten (energy : List α → δ) (model : E2EVadModel α δ)
    (scores : List RowState) (waveform : List α) (maxEndSil maxSingleSegmentTime : Int)
    (sampleRate : Nat) :
    model.overwritten.acceptCall energy scores waveform maxEndSil maxSingleSegmentTime sampleRate =
      model.acceptCall energy scores waveform maxEndSil maxSingleSegmentTime sampleRate := by
  by_cases first : model.dataBufAllSize = 0
  · simp only [acceptCall, computeDecibel, computeScores, overwritten, first, if_true]
    rfl
  · simp only [acceptCall, computeDecibel, computeScores, overwritten, first, if_false]
    rfl

end E2EVadModel

namespace Scorer

variable {α δ : Type} [Field δ] [LinearOrder δ] {elementary : Elementary δ} {energy : List α → δ}

/-- Every member that later calls read before they write it is that of a new scorer. -/
def AsNew (scorer : Scorer α δ) : Prop :=
  { scorer with
    model := scorer.model.overwritten
    speechNoiseThres := defaultSpeechNoiseThres } = (new : Scorer α δ)

/-- Such a scorer goes on like a new one. -/
theorem AsNew.call_eq {scorer : Scorer α δ} (asNew : scorer.AsNew) (args : ScorerCall α δ) :
    scorer.call elementary energy args = new.call elementary energy args := by
  have accept := E2EVadModel.acceptCall_overwritten energy scorer.model
  rw [← asNew]
  simp only [call, E2EVadModel.call, accept]
  rfl

/-- What a run keeps: the window detector's parameters, and how many samples it has had. -/
structure Fed (scorer : Scorer α δ) (samples : Nat) : Prop where
  detector : scorer.model.windowsDetector.reset = (new : Scorer α δ).model.windowsDetector
  dataBufAllSize : scorer.model.dataBufAllSize = samples
  dataBufSize : samples = 0 → scorer.model.dataBufSize = 0
  silPdfIds : scorer.silPdfIds = VADXOptions.silPdfIds
  isFinal : scorer.isFinal = false
  exact : scorer.model.intSizes = false

omit [LinearOrder δ] in
theorem Fed.new : Fed (new : Scorer α δ) 0 :=
  ⟨rfl, rfl, fun _ => rfl, rfl, rfl, rfl⟩

theorem length_frameStates {silPdfIds : List Nat} {speechNoiseThres noise noise' : δ}
    {decibel : List δ} {t : Nat} {scores : List (List δ)} {states : List RowState}
    (ran : frameStates elementary silPdfIds speechNoiseThres decibel noise t scores =
      some (states, noise')) : states.length = scores.length := by
  induction scores generalizing noise t states with
  | nil =>
    cases ran
    rfl
  | cons score scores inductionHypothesis =>
    simp only [frameStates, Option.bind_eq_bind, Option.bind_eq_some_iff, Prod.exists] at ran
    obtain ⟨curDecibel, -, state, after, -, states', noise'', rest, same⟩ := ran
    cases same
    rw [List.length_cons, List.length_cons, inductionHypothesis rest]

/-- The calls inside a step. -/
theorem step_cases {scorer scorer' : Scorer α δ} {args : ScorerCall α δ}
    (stepped : scorer.step elementary energy args = some scorer') :
    ∃ reported, Persists
        (scorer.model.fed energy args.score.length args.waveform args.sampleRate) reported ∧
      if args.isFinal then scorer' = { (new : Scorer α δ) with model := reported.allResetDetection }
      else scorer'.model = reported ∧ scorer'.silPdfIds = scorer.silPdfIds ∧
        scorer'.isFinal = scorer.isFinal := by
  obtain ⟨⟨answer, after⟩, called, rfl⟩ := Option.map_eq_some_iff.mp stepped
  simp only [call, Option.bind_eq_bind, Option.bind_eq_some_iff, Prod.exists] at called
  obtain ⟨rows, noise, states, answers, model, ran, rest⟩ := called
  obtain ⟨reported, persists, rfl⟩ := E2EVadModel.call_cases ran
  rw [length_frameStates states] at persists
  refine ⟨reported, persists, ?_⟩
  cases final : args.isFinal with
  | true =>
    rw [final] at rest
    cases rest
    rfl
  | false =>
    rw [final] at rest
    cases rest
    exact ⟨rfl, rfl, rfl⟩

theorem reset_congr {detector detector' : WindowDetector}
    (size : detector'.winSizeFrame = detector.winSizeFrame)
    (silToSpeech : detector'.silToSpeechFrmcntThres = detector.silToSpeechFrmcntThres)
    (speechToSil : detector'.speechToSilFrmcntThres = detector.speechToSilFrmcntThres) :
    detector'.reset = detector.reset := by
  simp [WindowDetector.reset, size, silToSpeech, speechToSil]

theorem Fed.step {scorer scorer' : Scorer α δ} {samples : Nat} (fed : scorer.Fed samples)
    {args : ScorerCall α δ} (stepped : scorer.step elementary energy args = some scorer') :
    scorer'.Fed (samples + args.waveform.length) := by
  obtain ⟨reported, persists, after⟩ := step_cases stepped
  have detector := (reset_congr persists.winSizeFrame persists.silToSpeech
    persists.speechToSil).trans fed.detector
  have allSize : reported.dataBufAllSize = (samples + args.waveform.length : Nat) := by
    rw [persists.dataBufAllSize, Nat.cast_add, ← fed.dataBufAllSize]
    exact E2EVadModel.size_exact fed.exact _
  have size (none : samples + args.waveform.length = 0) : reported.dataBufSize = 0 := by
    have zero := fed.dataBufAllSize
    apply persists.dataBufSize
    · simp only [E2EVadModel.fed, E2EVadModel.size_exact fed.exact]
      omega
    · simp only [E2EVadModel.fed, E2EVadModel.size_exact fed.exact]
      rw [if_pos (by omega)]
      omega
  have exact := persists.intSizes.trans fed.exact
  cases final : args.isFinal with
  | true =>
    rw [final] at after
    obtain rfl := after
    exact ⟨detector, allSize, size, rfl, rfl, exact⟩
  | false =>
    rw [final] at after
    obtain ⟨model, silPdfIds, isFinal⟩ := after
    exact ⟨model ▸ detector, model ▸ allSize, model ▸ size, silPdfIds.trans fed.silPdfIds,
      isFinal.trans fed.isFinal, model ▸ exact⟩

/-- The samples of some calls. -/
def samples (calls : List (ScorerCall α δ)) : Nat :=
  (calls.map (·.waveform.length)).sum

theorem Fed.run {scorer scorer' : Scorer α δ} {before : Nat} (fed : scorer.Fed before)
    {calls : List (ScorerCall α δ)}
    (ran : Library.run (Scorer.step elementary energy) scorer calls = some scorer') :
    scorer'.Fed (before + samples calls) := by
  induction calls generalizing scorer before with
  | nil =>
    cases ran
    exact fed
  | cons args calls inductionHypothesis =>
    obtain ⟨next, stepped, rest⟩ := run_cons_eq_some.mp ran
    have fed' := inductionHypothesis (fed.step stepped) rest
    simpa [samples, Nat.add_assoc] using fed'

/-- After a final call only the two counts of samples can differ from a new scorer. -/
theorem asNew_iff {scorer scorer' : Scorer α δ} {samples : Nat} {args : ScorerCall α δ}
    (fed : scorer'.Fed samples) (final : args.isFinal = true)
    (stepped : scorer.step elementary energy args = some scorer') : scorer'.AsNew ↔ samples = 0 := by
  obtain ⟨reported, -, after⟩ := step_cases stepped
  rw [final] at after
  obtain rfl := after
  have allSize := fed.dataBufAllSize
  constructor
  · intro asNew
    have zero : reported.dataBufAllSize = 0 := congrArg (·.model.dataBufAllSize) asNew
    have same : reported.dataBufAllSize = samples := allSize
    omega
  · intro none
    have zero : reported.dataBufAllSize = 0 := by
      have same : reported.dataBufAllSize = samples := allSize
      omega
    have size : reported.dataBufSize = 0 := fed.dataBufSize none
    have detector : reported.windowsDetector.reset = (new : Scorer α δ).model.windowsDetector :=
      fed.detector
    have exact : reported.intSizes = false := fed.exact
    simp only [AsNew, E2EVadModel.overwritten, E2EVadModel.allResetDetection,
      E2EVadModel.resetDetection, zero, size, detector, exact]
    rfl

/-- The scorer after a final call is a new one again exactly when no call so far had a sample:
    `data_buf_size` and `data_buf_all_size` are not reset, everything else is. -/
theorem run_asNew {calls : List (ScorerCall α δ)} {last : ScorerCall α δ}
    (final : last.isFinal = true) {scorer : Scorer α δ}
    (ran : run (step elementary energy) new (calls ++ [last]) = some scorer) :
    scorer.AsNew ↔ ∀ args ∈ calls ++ [last], args.waveform = [] := by
  have fed := (@Fed.new α δ _).run ran
  rw [Nat.zero_add] at fed
  rw [run_append, Option.bind_eq_some_iff] at ran
  obtain ⟨before, -, ran⟩ := ran
  obtain ⟨after, stepped, same⟩ := run_cons_eq_some.mp ran
  cases same
  rw [asNew_iff fed final stepped, samples, List.sum_eq_zero_iff, List.forall_mem_map]
  simp only [List.length_eq_zero_iff]

/-- One row and the samples of its window, in a final call. -/
def oneRow : ScorerCall ℚ ℚ where
  score := [[1]]
  waveform := List.replicate 400 0
  isFinal := true
  online := true
  maxEndSil := 800
  maxSingleSegmentTime := 15000
  speechNoiseThres := 4 / 5
  sampleRate := 16000

def linear : Elementary ℚ := ⟨id, id⟩

def silence : List ℚ → ℚ := fun _ => 0

/-- A row in a call that is not final, and one in the final call. -/
theorem run_asNew_twoRows :
    ∃ scorer, run (step linear silence) new ([{ oneRow with isFinal := false }] ++ [oneRow]) =
        some scorer ∧
      (scorer.AsNew ↔ ∀ args ∈ [{ oneRow with isFinal := false }] ++ [oneRow], args.waveform = []) := by
  have returns : (run (step linear silence) new
      ([{ oneRow with isFinal := false }] ++ [oneRow])).isSome = true := by
    decide +kernel
  obtain ⟨scorer, ran⟩ := Option.isSome_iff_exists.mp returns
  exact ⟨scorer, ran, run_asNew rfl ran⟩

/-- The 400 samples are still counted after the reset. -/
theorem run_asNew_oneRow :
    ∃ scorer, run (step linear silence) new [oneRow] = some scorer ∧
      scorer.model.dataBufAllSize = 400 ∧ ¬ scorer.AsNew := by
  have returns : (run (step linear silence) new [oneRow]).isSome = true := by decide +kernel
  obtain ⟨scorer, ran⟩ := Option.isSome_iff_exists.mp returns
  have size : scorer.model.dataBufAllSize = 400 := by
    have counted := ((@Fed.new ℚ ℚ _).run ran).dataBufAllSize
    simpa [samples, oneRow, -List.reduceReplicate] using counted
  refine ⟨scorer, ran, size, ?_⟩
  intro asNew
  have zero : scorer.model.dataBufAllSize = 0 := congrArg (·.model.dataBufAllSize) asNew
  omega

end Scorer

end Asr2Pass.Vad
