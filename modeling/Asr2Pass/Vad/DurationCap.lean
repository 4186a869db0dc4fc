import Asr2Pass.Vad.OfflineSegments

/-! # How long a segment can get

Every frame of an open segment is tested against the limit, or ends the segment, and a start looks
back by 40 frames at most.  Nothing is asked about the samples that are buffered: the bound holds
for every call that returns.
-/

namespace Asr2Pass.Vad

open VADXOptions E2EVadModel

namespace Segmenter

variable {limits : Limits} {start silence t : Int} {change : AudioChangeState} {final : Bool}

/-- No segment ends after the frame that ends it. -/
theorem endFrame?_le {last : Int}
    (ended : endFrame? limits start silence t change final = some last) : last ≤ t := by
  have back : 0 ≤ E2EVadModel.lookbackFrame limits.maxEndSilFrameCntThresh := by
    simp [E2EVadModel.lookbackFrame, doExtend]
  unfold endFrame? at ended
  split at ended
  · cases ended
    omega
  · split at ended
    · cases ended
      exact le_refl _
    · split at ended
      · cases ended
        exact le_refl _
      · cases ended

/-- A segment that goes on has passed the test on its length. -/
theorem endFrame?_none (ended : endFrame? limits start silence t change final = none) :
    t + 1 - start ≤ limits.maxSingleSegmentTime.tdiv frameInMs := by
  unfold endFrame? at ended
  split at ended
  · cases ended
  · split at ended
    · cases ended
    next short => omega

end Segmenter

namespace E2EVadModel

variable {α δ : Type} {model model' : E2EVadModel α δ}

/-! ## What a call has done when it returns -/

theorem popFrames_some {count : Nat} (popped : model.popFrames count = some model') :
    ∃ start size, model.dataBufStartFrame ≤ start ∧
      model' = { model with dataBufStartFrame := start, dataBufSize := size } := by
  induction count generalizing model with
  | zero =>
    cases popped
    exact ⟨_, _, le_refl _, rfl⟩
  | succ count inductionHypothesis =>
    simp only [popFrames] at popped
    split at popped
    · cases popped
    split at popped
    · cases popped
    obtain ⟨start, size, later, same⟩ := inductionHypothesis popped
    exact ⟨start, size, by simp only at later; omega, same⟩

theorem popDataToOutputBuf_some {startFrm frmCnt : Int} {last : Bool}
    {earlier : List E2EVadSpeechBufWithDoa} {current : E2EVadSpeechBufWithDoa}
    (output : model.outputDataBuf = earlier ++ [current])
    (popped : model.popDataToOutputBuf startFrm frmCnt false last = some model') :
    ∃ start size, model.dataBufStartFrame ≤ start ∧ model' = { model with
      dataBufStartFrame := start + frmCnt
      dataBufSize := size
      outputDataBuf := earlier ++ [grow current (startFrm + frmCnt) false last] } := by
  obtain ⟨middle, till, popped⟩ := Option.bind_eq_some_iff.mp popped
  obtain ⟨start, size, later, rfl⟩ := popFrames_some till
  cases popped
  refine ⟨start, size, later, ?_⟩
  simp [output, grow, List.modifyLast_concat]

theorem popDataToOutputBuf_start_some {startFrm frmCnt : Int}
    (popped : model.popDataToOutputBuf startFrm frmCnt true false = some model') :
    ∃ start size, model.dataBufStartFrame ≤ start ∧ model' = { model with
      dataBufStartFrame := start + frmCnt
      dataBufSize := size
      outputDataBuf := model.outputDataBuf ++
        [grow { startMs := startFrm * frameInMs } (startFrm + frmCnt) true false] } := by
  obtain ⟨middle, till, popped⟩ := Option.bind_eq_some_iff.mp popped
  obtain ⟨start, size, later, rfl⟩ := popFrames_some till
  cases popped
  refine ⟨start, size, later, ?_⟩
  simp [grow, List.modifyLast_concat]

/-! ## While a segment is open -/

/-- A segment is open, and `span` is what has been written of it. -/
structure Writing (closed : List FrameSpan) (span : FrameSpan) (model : E2EVadModel α δ) : Prop where
  state : model.vadStateMachine = .inSpeechSegment
  confirmed : model.confirmedStartFrame = span.1
  unset : model.confirmedEndFrame = -1
  window : model.windowsDetector.WellFormed
  free : 0 ≤ model.dataBufStartFrame
  output : model.outputDataBuf = closed.map closedBuf ++ [openBuf span]

/-- No segment is open. -/
structure Resting (closed : List FrameSpan) (model : E2EVadModel α δ) : Prop where
  state : model.vadStateMachine = .startPointNotDetected
  confirmed : model.confirmedStartFrame = -1
  unset : model.confirmedEndFrame = -1
  voiced : model.latestConfirmedSpeechFrame = 0
  window : model.windowsDetector.WellFormed
  free : 0 ≤ model.dataBufStartFrame
  output : model.outputDataBuf = closed.map closedBuf

variable {closed : List FrameSpan} {s e t : Int}

theorem Writing.settled {span : FrameSpan} (writing : model.Writing closed span) :
    model.settle = model :=
  settle_of_ne (by rw [writing.state]; decide)

theorem Resting.settled (resting : model.Resting closed) : model.settle = model :=
  settle_of_ne (by rw [resting.state]; decide)

theorem Writing.voice (writing : model.Writing closed (s, e))
    (detected : model.onVoiceDetected t = some model') :
    model'.Writing closed (s, t) ∧ SameStream model model' := by
  have output : { model with latestConfirmedSpeechFrame := t }.outputDataBuf =
    closed.map closedBuf ++ [openBuf (s, e)] := writing.output
  obtain ⟨start, size, later, rfl⟩ := popDataToOutputBuf_some output detected
  have free := writing.free
  refine ⟨⟨writing.state, writing.confirmed, writing.unset, writing.window, ?_, ?_⟩,
    ⟨rfl, rfl, rfl, rfl, rfl, rfl, rfl, rfl, rfl, rfl, rfl, rfl⟩⟩
  · simp only at later ⊢
    omega
  · simp only [grow_openBuf_voice]

theorem Writing.voices {first : Int} {count : Nat} (writing : model.Writing closed (s, e))
    (detected : model.onVoiceDetectedFrom first count = some model') :
    ∃ latest, model'.Writing closed (s, latest) ∧ (latest = e ∨ latest < first + count) ∧
      SameStream model model' := by
  induction count generalizing model first e with
  | zero =>
    cases detected
    exact ⟨e, writing, .inl rfl, SameStream.refl _⟩
  | succ count inductionHypothesis =>
    obtain ⟨middle, once, others⟩ := Option.bind_eq_some_iff.mp detected
    obtain ⟨writing', same⟩ := writing.voice once
    obtain ⟨latest, writing'', reached, same'⟩ := inductionHypothesis writing' others
    exact ⟨latest, writing'', .inr (by omega), same.trans same'⟩

/-- The segment ends, and the detection starts over. -/
theorem Writing.ends {last : Int} (writing : model.Writing closed (s, e))
    (ended : ((model.onVoiceEnd last false).map (·.setState .endPointDetected)).map settle =
      some model') :
    model'.Resting (closed ++ [(s, last)]) ∧ SameStream model model' := by
  simp only [Option.map_map, Option.map_eq_some_iff] at ended
  obtain ⟨final, ending, rfl⟩ := ended
  obtain ⟨middle, voices, ending⟩ := Option.bind_eq_some_iff.mp ending
  obtain ⟨latest, writing', -, same⟩ := writing.voices voices
  simp only [writing'.unset, ne_eq, not_true_eq_false, if_false, Bool.false_eq_true] at ending
  obtain ⟨popped, pop, ending⟩ := Option.bind_eq_some_iff.mp ending
  have output : { middle with confirmedEndFrame := last, silFrame := 0 }.outputDataBuf =
    closed.map closedBuf ++ [openBuf (s, latest)] := writing'.output
  obtain ⟨start, size, later, rfl⟩ := popDataToOutputBuf_some output pop
  cases ending
  have free := writing'.free
  refine ⟨⟨rfl, rfl, rfl, rfl, WindowDetector.reset_wellFormed writing'.window, ?_, ?_⟩,
    same.trans ⟨rfl, rfl, rfl, rfl, rfl, rfl, rfl, rfl, rfl, rfl, rfl, rfl⟩⟩
  · change 0 ≤ start + 1
    simp only at later
    omega
  · simp [settle, setState, resetDetection, detectMode]

/-! ## One frame of an open segment -/

/-- What frame `t` leaves of the segment from `s` on: it is still open and below the limit, or it
    has ended. -/
inductive Spoken (cap t : Int) (closed : List FrameSpan) (s : Int) (model : E2EVadModel α δ) : Prop
  | open (latest : Int) (writing : model.Writing closed (s, latest)) (short : latest - s ≤ cap)
      (next : t + 1 - s ≤ cap)
  | ended (last : Int) (resting : model.Resting (closed ++ [(s, last)])) (short : last - s ≤ cap)

variable {cap : Int} {final : Bool}

theorem Spoken.settle (spoken : Spoken cap t closed s model) : model.settle = model := by
  cases spoken with
  | «open» latest writing short next => exact writing.settled
  | ended last resting short => exact resting.settled

theorem Writing.limit (writing : model.Writing closed (s, e)) (reached : t - s ≤ cap)
    (limit : model.maxSingleSegmentTime.tdiv frameInMs = cap)
    (returned : (model.limitSegment t final).map E2EVadModel.settle = some model') :
    Spoken cap t closed s model' ∧ SameStream model model' := by
  rw [limitSegment, writing.confirmed, limit] at returned
  split at returned
  · obtain ⟨resting, same⟩ := writing.ends returned
    exact ⟨.ended t resting reached, same⟩
  next short =>
    have next : t + 1 - s ≤ cap := by simp only at short; omega
    split at returned
    · obtain ⟨voiced, detected, rfl⟩ := Option.map_eq_some_iff.mp returned
      obtain ⟨writing', same⟩ := writing.voice detected
      have spoken : Spoken cap t closed s voiced := .open t writing' reached next
      rw [spoken.settle]
      exact ⟨spoken, same⟩
    next last =>
      rw [maybeOnVoiceEndIfLastFrame, if_pos (by simpa using last)] at returned
      obtain ⟨resting, same⟩ := writing.ends returned
      exact ⟨.ended t resting reached, same⟩

theorem Writing.silent (writing : model.Writing closed (s, e)) (written : e - s ≤ cap)
    (reached : t - s ≤ cap) (limit : model.maxSingleSegmentTime.tdiv frameInMs = cap)
    (returned : (model.onSil2Sil t final).map E2EVadModel.settle = some model') :
    Spoken cap t closed s model' ∧ SameStream model model' := by
  have counted : Writing closed (s, e) { model with
      continousSilenceFrameCount := model.continousSilenceFrameCount + 1 } :=
    ⟨writing.state, writing.confirmed, writing.unset, writing.window, writing.free, writing.output⟩
  have same := SameStream.counted model
  rw [onSil2Sil_speaking _ writing.state] at returned
  cases ended : Segmenter.endFrame? model.limits model.confirmedStartFrame
      (model.continousSilenceFrameCount + 1) t .sil2Sil final with
  | some last =>
    have back := Segmenter.endFrame?_le ended
    simp only [ended] at returned
    obtain ⟨resting, same'⟩ := counted.ends returned
    exact ⟨.ended last resting (by omega), same.trans same'⟩
  | none =>
    have next := Segmenter.endFrame?_none ended
    simp only [limits, writing.confirmed, limit] at next
    simp only [ended] at returned
    obtain ⟨voiced, detected, rfl⟩ := Option.map_eq_some_iff.mp returned
    split at detected
    · obtain ⟨writing', same'⟩ := counted.voice detected
      have spoken : Spoken cap t closed s voiced := .open t writing' reached next
      rw [spoken.settle]
      exact ⟨spoken, same.trans same'⟩
    · cases detected
      have spoken := Spoken.open e counted written next
      rw [spoken.settle]
      exact ⟨spoken, same⟩

/-- Every frame of an open segment is tested. -/
theorem Writing.frame {change : AudioChangeState} (writing : model.Writing closed (s, e))
    (written : e - s ≤ cap) (reached : t - s ≤ cap)
    (limit : model.maxSingleSegmentTime.tdiv frameInMs = cap)
    (decided : change ≠ .noBegin ∧ change ≠ .invalid)
    (returned : (model.onChange t final change).map E2EVadModel.settle = some model') :
    Spoken cap t closed s model' ∧ SameStream model model' := by
  have silence (preEndSilenceDetected maxTimeOut : Bool) : Writing closed (s, e) { model with
      continousSilenceFrameCount := 0, preEndSilenceDetected, maxTimeOut
      vadStateMachine := .inSpeechSegment } :=
    ⟨rfl, writing.confirmed, writing.unset, writing.window, writing.free, writing.output⟩
  have same (preEndSilenceDetected maxTimeOut : Bool) : SameStream model { model with
      continousSilenceFrameCount := 0, preEndSilenceDetected, maxTimeOut
      vadStateMachine := .inSpeechSegment } :=
    ⟨rfl, rfl, rfl, rfl, rfl, rfl, rfl, rfl, rfl, rfl, rfl, rfl⟩
  -- Only silence can end the segment by its own count; the other changes test the limit.
  cases change with
  | sil2Speech =>
    simp only [onChange, onSil2Speech, writing.state] at returned
    obtain ⟨last, limited, rfl⟩ := Option.map_eq_some_iff.mp returned
    obtain ⟨middle, voices, limited⟩ := Option.bind_eq_some_iff.mp limited
    obtain ⟨latest, writing', -, same'⟩ := (silence false model.maxTimeOut).voices voices
    obtain ⟨spoken, same''⟩ := writing'.limit reached
      (by rw [same'.maxSingleSegmentTime]; exact limit) (by rw [limited]; rfl)
    exact ⟨spoken, ((same _ _).trans same').trans same''⟩
  | speech2Sil =>
    simp only [onChange, onSpeech2Sil, writing.state] at returned
    obtain ⟨spoken, same'⟩ :=
      (silence model.preEndSilenceDetected model.maxTimeOut).limit reached limit returned
    exact ⟨spoken, (same _ _).trans same'⟩
  | speech2Speech =>
    simp only [onChange, onSpeech2Speech, writing.state] at returned
    obtain ⟨spoken, same'⟩ :=
      (silence model.preEndSilenceDetected _).limit reached limit returned
    exact ⟨spoken, (same _ _).trans same'⟩
  | sil2Sil => exact writing.silent written reached limit returned
  | noBegin => exact absurd rfl decided.1
  | invalid => exact absurd rfl decided.2

/-! ## One frame between two segments -/

/-- What frame `t` leaves between two segments: nothing new, or the next start. -/
inductive Rested (cap t : Int) (closed : List FrameSpan) (model : E2EVadModel α δ) : Prop
  | still (resting : model.Resting closed)
  | start (first latest : Int) (writing : model.Writing closed (first, latest)) (nonneg : 0 ≤ first)
      (short : latest - first ≤ cap) (next : t + 1 - first ≤ cap)

theorem Rested.settle (rested : Rested cap t closed model) : model.settle = model := by
  cases rested with
  | still resting => exact resting.settled
  | start first latest writing nonneg short next => exact writing.settled

theorem Resting.of_pop (resting : model.Resting closed) {frameIdx : Int}
    (popped : model.popDataBufTillFrame frameIdx = some model') :
    model'.Resting closed ∧ SameStream model model' := by
  obtain ⟨start, size, later, rfl⟩ := popFrames_some popped
  have free := resting.free
  exact ⟨⟨resting.state, resting.confirmed, resting.unset, resting.voiced, resting.window,
    show 0 ≤ start by omega, resting.output⟩, ⟨rfl, rfl, rfl, rfl, rfl, rfl, rfl, rfl, rfl, rfl, rfl, rfl⟩⟩

theorem Resting.silence (resting : model.Resting closed) {validFrame : Int}
    (detected : model.onSilenceDetected validFrame = some model') :
    model'.Resting closed ∧ SameStream model model' := by
  have marked : Resting closed { model with lastestConfirmedSilenceFrame := validFrame } :=
    ⟨resting.state, resting.confirmed, resting.unset, resting.voiced, resting.window, resting.free,
      resting.output⟩
  have same : SameStream model { model with lastestConfirmedSilenceFrame := validFrame } :=
    ⟨rfl, rfl, rfl, rfl, rfl, rfl, rfl, rfl, rfl, rfl, rfl, rfl⟩
  rw [onSilenceDetected, if_pos resting.state] at detected
  obtain ⟨resting', same'⟩ := marked.of_pop detected
  exact ⟨resting', same.trans same'⟩

theorem Resting.silences {first : Int} {count : Nat} (resting : model.Resting closed)
    (detected : model.onSilenceDetectedFrom first count = some model') :
    model'.Resting closed ∧ SameStream model model' := by
  induction count generalizing model first with
  | zero =>
    cases detected
    exact ⟨resting, SameStream.refl _⟩
  | succ count inductionHypothesis =>
    obtain ⟨middle, once, others⟩ := Option.bind_eq_some_iff.mp detected
    obtain ⟨resting', same⟩ := resting.silence once
    obtain ⟨resting'', same'⟩ := inductionHypothesis resting' others
    exact ⟨resting'', same.trans same'⟩

theorem Resting.start {first : Int} (resting : model.Resting closed)
    (started : model.onVoiceStart first false = some model') :
    (model'.setState .inSpeechSegment).Writing closed (first, first) ∧
      SameStream model (model'.setState .inSpeechSegment) := by
  have fresh : ¬ model.confirmedStartFrame ≠ -1 := not_not.mpr resting.confirmed
  have real : (!false) = true ∧ ({ model with confirmedStartFrame := first } :
    E2EVadModel α δ).vadStateMachine = .startPointNotDetected := ⟨rfl, resting.state⟩
  rw [onVoiceStart, if_neg fresh, if_pos real] at started
  obtain ⟨start, size, later, rfl⟩ := popDataToOutputBuf_start_some started
  have free := resting.free
  refine ⟨⟨rfl, rfl, resting.unset, resting.window, ?_, ?_⟩,
    ⟨rfl, rfl, rfl, rfl, rfl, rfl, rfl, rfl, rfl, rfl, rfl, rfl⟩⟩
  · change 0 ≤ start + 1
    simp only at later
    omega
  · simp [setState, resting.output, grow, openBuf]

theorem Resting.speech (resting : model.Resting closed) (enough : 41 ≤ cap)
    (returned : (model.onSil2Speech t final).map E2EVadModel.settle = some model') :
    Rested cap t closed model' ∧ SameStream model model' := by
  have silence : Resting closed { model with
      continousSilenceFrameCount := 0, preEndSilenceDetected := false
      vadStateMachine := .startPointNotDetected } :=
    ⟨rfl, resting.confirmed, resting.unset, resting.voiced, resting.window, resting.free,
      resting.output⟩
  have same : SameStream model { model with
      continousSilenceFrameCount := 0, preEndSilenceDetected := false
      vadStateMachine := .startPointNotDetected } :=
    ⟨rfl, rfl, rfl, rfl, rfl, rfl, rfl, rfl, rfl, rfl, rfl, rfl⟩
  simp only [onSil2Speech, resting.state] at returned
  obtain ⟨written, begun, rfl⟩ := Option.map_eq_some_iff.mp returned
  obtain ⟨started, start, voices⟩ := Option.bind_eq_some_iff.mp begun
  have latency : _ = (40 : Int) := latencyFrmNumAtStartPoint_eq _ silence.window.size
  have free := silence.free
  obtain ⟨writing, same'⟩ := silence.start start
  obtain ⟨latest, writing', reached, same''⟩ := writing.voices voices
  rw [latency] at writing' reached
  simp only at free
  have rested : Rested cap t closed written :=
    .start _ latest writing' (by omega) (by omega) (by omega)
  rw [rested.settle]
  exact ⟨rested, (same.trans same').trans same''⟩

/-- The result that a recording without speech ends with writes nothing. -/
theorem Resting.fake (resting : model.Resting closed)
    (returned : (((model.onVoiceStart 0 true).bind (·.onVoiceEnd 0 true)).map
      (·.setState .endPointDetected)).map E2EVadModel.settle = some model') :
    model'.Resting closed ∧ SameStream model model' := by
  have fresh : ¬ model.confirmedStartFrame ≠ -1 := not_not.mpr resting.confirmed
  have fake (model : E2EVadModel α δ) :
      ¬ ((!true) = true ∧ model.vadStateMachine = .startPointNotDetected) := by simp
  rw [onVoiceStart, if_neg fresh, if_neg (fake _)] at returned
  simp only [Option.bind_some, onVoiceEnd, resting.voiced, resting.unset] at returned
  cases returned
  exact ⟨⟨rfl, rfl, rfl, rfl, WindowDetector.reset_wellFormed resting.window, resting.free,
    resting.output⟩, ⟨rfl, rfl, rfl, rfl, rfl, rfl, rfl, rfl, rfl, rfl, rfl, rfl⟩⟩

theorem Resting.silent (resting : model.Resting closed)
    (returned : (model.onSil2Sil t final).map E2EVadModel.settle = some model') :
    model'.Resting closed ∧ SameStream model model' := by
  have counted : Resting closed { model with
      continousSilenceFrameCount := model.continousSilenceFrameCount + 1
      vadStateMachine := .startPointNotDetected } :=
    ⟨rfl, resting.confirmed, resting.unset, resting.voiced, resting.window, resting.free,
      resting.output⟩
  have same : SameStream model { model with
      continousSilenceFrameCount := model.continousSilenceFrameCount + 1
      vadStateMachine := .startPointNotDetected } :=
    ⟨rfl, rfl, rfl, rfl, rfl, rfl, rfl, rfl, rfl, rfl, rfl, rfl⟩
  simp only [onSil2Sil, resting.state] at returned
  -- In a last call without a segment the source fakes a start and an end.
  split at returned
  · obtain ⟨last, ended, rfl⟩ := Option.map_eq_some_iff.mp returned
    obtain ⟨middle, silences, ended⟩ := Option.bind_eq_some_iff.mp ended
    obtain ⟨resting', same'⟩ := counted.silences silences
    obtain ⟨started, start, ended⟩ := Option.bind_eq_some_iff.mp ended
    obtain ⟨stopped, stop, ended⟩ := Option.bind_eq_some_iff.mp ended
    cases ended
    obtain ⟨resting'', same''⟩ := resting'.fake
      (show _ = some (stopped.setState .endPointDetected).settle by
        rw [start, Option.bind_some, stop]; rfl)
    exact ⟨resting'', (same.trans same').trans same''⟩
  · split at returned
    · obtain ⟨silent, detected, rfl⟩ := Option.map_eq_some_iff.mp returned
      obtain ⟨resting', same'⟩ := counted.silence detected
      rw [resting'.settled]
      exact ⟨resting', same.trans same'⟩
    · obtain ⟨silent, detected, rfl⟩ := Option.map_eq_some_iff.mp returned
      cases detected
      rw [counted.settled]
      exact ⟨counted, same⟩

theorem Resting.frame {change : AudioChangeState} (resting : model.Resting closed)
    (enough : 41 ≤ cap)
    (returned : (model.onChange t final change).map E2EVadModel.settle = some model') :
    Rested cap t closed model' ∧ SameStream model model' := by
  have silence : Resting closed { model with
      continousSilenceFrameCount := 0, vadStateMachine := .startPointNotDetected } :=
    ⟨rfl, resting.confirmed, resting.unset, resting.voiced, resting.window, resting.free,
      resting.output⟩
  have same : SameStream model { model with
      continousSilenceFrameCount := 0, vadStateMachine := .startPointNotDetected } :=
    ⟨rfl, rfl, rfl, rfl, rfl, rfl, rfl, rfl, rfl, rfl, rfl, rfl⟩
  -- Only a start of speech opens a segment.
  cases change with
  | sil2Speech => exact resting.speech enough returned
  | speech2Sil =>
    simp only [onChange, onSpeech2Sil, resting.state, Option.map_some] at returned
    cases returned
    rw [silence.settled]
    exact ⟨.still silence, same⟩
  | speech2Speech =>
    simp only [onChange, onSpeech2Speech, resting.state, Option.map_some] at returned
    cases returned
    rw [silence.settled]
    exact ⟨.still silence, same⟩
  | sil2Sil =>
    obtain ⟨resting', same'⟩ := resting.silent returned
    exact ⟨.still resting', same'⟩
  | noBegin =>
    cases returned
    rw [resting.settled]
    exact ⟨.still resting, SameStream.refl _⟩
  | invalid =>
    cases returned
    rw [resting.settled]
    exact ⟨.still resting, SameStream.refl _⟩

/-! ## The invariant -/

/-- Before frame `t`: the output names the segments, none of them is too long, and the one that is
    open has passed the test on frame `t - 1`. -/
structure Capped (cap t : Int) (segmenter : Segmenter) (model : E2EVadModel α δ) : Prop where
  within : ∀ span ∈ segmenter.spans, 0 ≤ span.1 ∧ span.2 - span.1 ≤ cap
  idle : segmenter.current = none → model.Resting segmenter.closed
  speaking : ∀ span, segmenter.current = some span →
    model.Writing segmenter.closed span ∧ t - span.1 ≤ cap

variable {segmenter : Segmenter}

theorem Capped.output (capped : model.Capped cap t segmenter) :
    model.outputDataBuf = segmenter.buffers := by
  cases current : segmenter.current with
  | none => simp [(capped.idle current).output, Segmenter.buffers, current]
  | some span => simp [(capped.speaking span current).1.output, Segmenter.buffers, current]

theorem Capped.window (capped : model.Capped cap t segmenter) : model.windowsDetector.WellFormed := by
  cases current : segmenter.current with
  | none => exact (capped.idle current).window
  | some span => exact (capped.speaking span current).1.window

theorem Capped.running (capped : model.Capped cap t segmenter) :
    model.vadStateMachine ≠ .endPointDetected := by
  cases current : segmenter.current with
  | none =>
    rw [(capped.idle current).state]
    decide
  | some span =>
    rw [(capped.speaking span current).1.state]
    decide

theorem Capped.still (within : ∀ span ∈ closed, 0 ≤ span.1 ∧ span.2 - span.1 ≤ cap)
    (resting : model.Resting closed) :
    model.Capped cap t { segmenter with closed, current := none } where
  within := by simpa [Segmenter.spans] using within
  idle := fun _ => resting
  speaking := by simp

theorem Capped.write {latest : Int} (within : ∀ span ∈ closed, 0 ≤ span.1 ∧ span.2 - span.1 ≤ cap)
    (writing : model.Writing closed (s, latest)) (nonneg : 0 ≤ s) (short : latest - s ≤ cap)
    (next : t - s ≤ cap) : model.Capped cap t { segmenter with closed, current := some (s, latest) } where
  within := by
    intro span member
    simp only [Segmenter.spans, Option.toList_some, List.mem_append, List.mem_singleton] at member
    rcases member with old | rfl
    · exact within span old
    · exact ⟨nonneg, short⟩
  idle := by simp
  speaking := by
    intro span same
    cases same
    exact ⟨writing, next⟩

/-- One frame. -/
theorem Capped.frame (capped : model.Capped cap t segmenter) (enough : 41 ≤ cap)
    (limit : model.maxSingleSegmentTime.tdiv frameInMs = cap) (row : RowState)
    (returned : model.detectOneFrame row.frameState t final = some model') :
    ∃ segmenter' added, model'.Capped cap (t + 1) segmenter' ∧
      segmenter.Continues segmenter' added ∧ SameStream model model' := by
  have closed : ∀ span ∈ segmenter.closed, 0 ≤ span.1 ∧ span.2 - span.1 ≤ cap :=
    fun span member => capped.within span (List.mem_append_left _ member)
  have same : SameStream model { model with
      windowsDetector := (model.windowsDetector.detectOneFrame row.frameState).2 } :=
    ⟨rfl, rfl, rfl, rfl, rfl, rfl, rfl, rfl, rfl, rfl, rfl, rfl⟩
  rw [detectOneFrame_eq] at returned
  cases current : segmenter.current with
  | none =>
    have resting := capped.idle current
    obtain ⟨-, kept, -⟩ :=
      WindowDetector.detectOneFrame_change resting.window row.frameState_ne_invalid
    have windowed : Resting segmenter.closed { model with
        windowsDetector := (model.windowsDetector.detectOneFrame row.frameState).2 } :=
      ⟨resting.state, resting.confirmed, resting.unset, resting.voiced, kept, resting.free,
        resting.output⟩
    obtain ⟨rested, same'⟩ := windowed.frame enough returned
    cases rested with
    | still resting =>
      exact ⟨_, [], @Capped.still _ _ _ _ _ _ segmenter closed resting,
        ⟨by simp, by simp [current]⟩, same.trans same'⟩
    | start first latest writing nonneg short next =>
      exact ⟨_, [], @Capped.write _ _ _ _ _ _ _ segmenter _ closed writing nonneg short next,
        ⟨by simp, by simp [current]⟩, same.trans same'⟩
  | some span =>
    obtain ⟨s, e⟩ := span
    obtain ⟨writing, reached⟩ := capped.speaking (s, e) current
    obtain ⟨nonneg, written⟩ := capped.within (s, e) (by simp [Segmenter.spans, current])
    obtain ⟨changed, kept, -⟩ :=
      WindowDetector.detectOneFrame_change writing.window row.frameState_ne_invalid
    have windowed : Writing segmenter.closed (s, e) { model with
        windowsDetector := (model.windowsDetector.detectOneFrame row.frameState).2 } :=
      ⟨writing.state, writing.confirmed, writing.unset, kept, writing.free, writing.output⟩
    obtain ⟨spoken, same'⟩ := windowed.frame written reached limit changed.decided returned
    cases spoken with
    | «open» latest writing short next =>
      refine ⟨_, [], @Capped.write _ _ _ _ _ _ _ segmenter _ closed writing nonneg short next,
        ⟨by simp, fun start latest' same => ?_⟩, same.trans same'⟩
      rw [current] at same
      cases same
      exact .inl ⟨rfl, latest, rfl⟩
    | ended last resting short =>
      refine ⟨_, [(s, last)], @Capped.still _ _ _ _ _ _ segmenter ?_ resting,
        ⟨rfl, fun start latest same => ?_⟩, same.trans same'⟩
      · intro span member
        rcases List.mem_append.mp member with old | new
        · exact closed span old
        · rw [List.mem_singleton.mp new]
          exact ⟨nonneg, short⟩
      · rw [current] at same
        cases same
        exact .inr ⟨last, [], rfl⟩

theorem getFrameState_row {frameState : FrameState} (state : model.getFrameState t = some frameState) :
    ∃ row : RowState, row.frameState = frameState := by
  rw [getFrameState] at state
  split at state
  · obtain ⟨row, -, same⟩ := Option.map_eq_some_iff.mp state
    exact ⟨row, same⟩
  · cases state

/-- The frames of a call, from the one that `i` counts down to. -/
theorem Capped.frames {i : Int} {count : Nat}
    (capped : model.Capped cap (model.frmCnt - 1 - i) segmenter) (enough : 41 ≤ cap)
    (limit : model.maxSingleSegmentTime.tdiv frameInMs = cap)
    (returned : model.detectFrames i count = some model') :
    ∃ segmenter' added, model'.Capped cap (model.frmCnt - 1 - i + count) segmenter' ∧
      segmenter.Continues segmenter' added ∧ SameStream model model' := by
  induction count generalizing model segmenter i with
  | zero =>
    cases returned
    exact ⟨segmenter, [], by simpa using capped, Segmenter.Continues.refl _, SameStream.refl _⟩
  | succ count inductionHypothesis =>
    obtain ⟨frameState, state, returned⟩ := Option.bind_eq_some_iff.mp returned
    obtain ⟨middle, once, others⟩ := Option.bind_eq_some_iff.mp returned
    obtain ⟨row, rfl⟩ := getFrameState_row state
    obtain ⟨segmenter', added, capped', continues, same⟩ := capped.frame enough limit row once
    have next : model.frmCnt - 1 - i + 1 = middle.frmCnt - 1 - (i - 1) := by
      rw [same.frmCnt]
      ring
    rw [next] at capped'
    obtain ⟨segmenter'', added', capped'', continues', same'⟩ := inductionHypothesis capped'
      (by rw [same.maxSingleSegmentTime]; exact limit) others
    refine ⟨segmenter'', added ++ added', ?_, continues.trans continues', same.trans same'⟩
    rw [← next] at capped''
    convert capped'' using 1
    push_cast
    ring

end E2EVadModel

/-! ## What the answers name -/

/-- The entries that wait for their other half. -/
def Segmenter.told (online : Bool) (segmenter : Segmenter) : List Segment :=
  if online then segmenter.current.toList.map FrameSpan.startMs else []

theorem joinAnswers_ms (spans : List FrameSpan) (rest : List Segment) :
    joinAnswers (spans.map FrameSpan.ms ++ rest) = spans.map FrameSpan.ms ++ joinAnswers rest := by
  induction spans with
  | nil => rfl
  | cons span spans inductionHypothesis =>
    rw [List.map_cons, List.cons_append, FrameSpan.ms,
      joinAnswers_whole (by simp only [frameInMs]; omega), inductionHypothesis, List.cons_append]

/-- A start joins with nothing when the entry after it has a start of its own. -/
theorem joinAnswers_startMs (span : FrameSpan) {rest : List Segment}
    (fresh : ∀ entry ∈ rest.head?, entry.1 ≠ -1) :
    joinAnswers (span.startMs :: rest) = span.startMs :: joinAnswers rest := by
  cases rest with
  | nil => rfl
  | cons entry rest =>
    have own : entry.1 ≠ -1 := fresh entry rfl
    simp [joinAnswers, FrameSpan.startMs, own]

/-- An answer completes what was told before, and tells what is open now. -/
theorem Segmenter.Continues.join {before after : Segmenter} {added : List FrameSpan}
    (continues : before.Continues after added) (rest : List Segment) :
    joinAnswers (before.told true ++
        (Segmenter.entries added after.current before.current.isSome ++ rest)) =
      added.map FrameSpan.ms ++ joinAnswers (after.told true ++ rest) := by
  cases current : before.current with
  | none => simp [Segmenter.told, Segmenter.entries, current, joinAnswers_ms]
  | some span =>
    obtain ⟨start, latest⟩ := span
    rcases continues.opened start latest current with ⟨rfl, latest', opened⟩ | ⟨last, more, rfl⟩
    · simp [Segmenter.told, Segmenter.entries, current, opened, FrameSpan.startMs]
    · simp only [Segmenter.told, Segmenter.entries, current, if_true, Option.toList_some,
        List.map_cons, List.map_nil, Option.isSome_some, List.cons_append, List.nil_append,
        List.append_assoc, FrameSpan.startMs, FrameSpan.endMs, joinAnswers_split, joinAnswers_ms]
      rfl

/-- No answer begins with an end that nothing waits for. -/
theorem Segmenter.Continues.fresh {before after : Segmenter} {added : List FrameSpan}
    (idle : before.current = none) {rest : List Segment}
    (fresh : after.current = none → ∀ entry ∈ rest.head?, entry.1 ≠ -1) :
    ∀ entry ∈ (Segmenter.entries added after.current before.current.isSome ++ rest).head?,
      entry.1 ≠ -1 := by
  intro entry first
  cases added with
  | cons span added =>
    simp only [idle, Segmenter.entries, Option.isSome_none, List.map_cons, List.cons_append,
      List.head?_cons, Option.mem_def, Option.some.injEq] at first
    rw [← first]
    simp only [FrameSpan.ms, frameInMs]
    omega
  | nil =>
    cases current : after.current with
    | none =>
      simp only [idle, current, Segmenter.entries, Option.isSome_none, List.map_nil,
        Option.toList_none, List.append_nil, List.nil_append] at first
      exact fresh current entry first
    | some span =>
      simp only [idle, current, Segmenter.entries, Option.isSome_none, List.map_nil,
        Option.toList_some, List.map_cons, List.nil_append, List.cons_append, List.head?_cons,
        Option.mem_def, Option.some.injEq] at first
      rw [← first]
      simp only [FrameSpan.startMs, frameInMs]
      omega

/-! ## Calls -/

section
variable {α δ : Type} (energy : List α → δ) (online : Bool) (maxSingleSegmentTime : Int)

/-- The arguments of a call that vary from one call to the next. -/
structure Turn (α : Type) where
  rows : List RowState
  waveform : List α
  isFinal : Bool
  maxEndSil : Int
  sampleRate : Nat

/-- Calls in a row, with their answers one after the other.  A final call ends a recording, and
    the next one begins another. -/
def serve (model : E2EVadModel α δ) : List (Turn α) → Option (List Segment × E2EVadModel α δ)
  | [] => some ([], model)
  | turn :: turns => do
    let (answer, model) ← model.call energy turn.rows turn.waveform turn.isFinal online
      turn.maxEndSil maxSingleSegmentTime turn.sampleRate
    let (answers, model) ← serve model turns
    return (answer ++ answers, model)

end

section
variable {α δ : Type} {model model' : E2EVadModel α δ} {segmenter : Segmenter} {cap : Int}
  {online : Bool}

theorem E2EVadModel.Capped.carry {t : Int} (capped : model.Capped cap t segmenter)
    (state : model'.vadStateMachine = model.vadStateMachine)
    (confirmedStart : model'.confirmedStartFrame = model.confirmedStartFrame)
    (confirmedEnd : model'.confirmedEndFrame = model.confirmedEndFrame)
    (voiced : model'.latestConfirmedSpeechFrame = model.latestConfirmedSpeechFrame)
    (window : model'.windowsDetector = model.windowsDetector)
    (free : model'.dataBufStartFrame = model.dataBufStartFrame)
    (output : model'.outputDataBuf = model.outputDataBuf) : model'.Capped cap t segmenter where
  within := capped.within
  idle := by
    intro none
    have resting := capped.idle none
    constructor
    · rw [state, resting.state]
    · rw [confirmedStart, resting.confirmed]
    · rw [confirmedEnd, resting.unset]
    · rw [voiced, resting.voiced]
    · rw [window]
      exact resting.window
    · rw [free]
      exact resting.free
    · rw [output, resting.output]
  speaking := by
    intro span opened
    obtain ⟨writing, next⟩ := capped.speaking span opened
    refine ⟨?_, next⟩
    constructor
    · rw [state, writing.state]
    · rw [confirmedStart, writing.confirmed]
    · rw [confirmedEnd, writing.unset]
    · rw [window]
      exact writing.window
    · rw [free]
      exact writing.free
    · rw [output, writing.output]

/-- The frames of a call. -/
theorem E2EVadModel.Capped.detect
    (capped : model.Capped cap (model.frmCnt - model.nnEvalBlockSize) segmenter) (enough : 41 ≤ cap)
    (limit : model.maxSingleSegmentTime.tdiv frameInMs = cap) (isFinal : Bool)
    (returned : (if !isFinal then model.detectCommonFrames else model.detectLastFrames) =
      some model') :
    ∃ segmenter' added, model'.Capped cap model'.frmCnt segmenter' ∧
      segmenter.Continues segmenter' added ∧ model'.nextSeg = model.nextSeg ∧
      model'.outputDataBufOffset = model.outputDataBufOffset := by
  have first : model.frmCnt - 1 - (model.nnEvalBlockSize - 1) =
      model.frmCnt - model.nnEvalBlockSize := by ring
  cases isFinal with
  | false =>
    simp only [Bool.not_false, if_true, detectCommonFrames, if_neg capped.running] at returned
    obtain ⟨detected, frames, rest⟩ := Option.bind_eq_some_iff.mp returned
    cases rest
    rw [← first] at capped
    obtain ⟨segmenter', added, capped', continues, same⟩ := capped.frames enough limit frames
    rw [first, ← same.frmCnt, sub_add_cancel] at capped'
    exact ⟨segmenter', added, capped'.carry rfl rfl rfl rfl rfl rfl rfl, continues, same.nextSeg,
      same.outputDataBufOffset⟩
  | true =>
    simp only [Bool.not_true, Bool.false_eq_true, if_false, detectLastFrames,
      if_neg capped.running] at returned
    split at returned
    next empty =>
      cases returned
      rw [empty, Nat.cast_zero, sub_zero] at capped
      exact ⟨segmenter, [], capped, Segmenter.Continues.refl _, rfl, rfl⟩
    next some =>
      obtain ⟨detected, frames, returned⟩ := Option.bind_eq_some_iff.mp returned
      obtain ⟨frameState, state, once⟩ := Option.bind_eq_some_iff.mp returned
      obtain ⟨row, rfl⟩ := getFrameState_row state
      rw [← first] at capped
      obtain ⟨segmenter', added, capped', continues, same⟩ := capped.frames enough limit frames
      have last : model.frmCnt - 1 - (model.nnEvalBlockSize - 1) +
          ((model.nnEvalBlockSize - 1 : Nat) : Int) = detected.frmCnt - 1 := by
        rw [same.frmCnt]
        omega
      rw [last] at capped'
      obtain ⟨segmenter'', added', capped'', continues', same'⟩ := capped'.frame enough
        (by rw [same.maxSingleSegmentTime]; exact limit) row once
      rw [sub_add_cancel, ← same'.frmCnt] at capped''
      exact ⟨segmenter'', added ++ added', capped'', continues.trans continues',
        same'.nextSeg.trans same.nextSeg,
        same'.outputDataBufOffset.trans same.outputDataBufOffset⟩

/-- The scorer between two calls. -/
structure Serving (cap : Int) (online : Bool) (segmenter : Segmenter) (model : E2EVadModel α δ) :
    Prop where
  capped : model.Capped cap model.frmCnt segmenter
  nextSeg : online = true → model.nextSeg = segmenter.current.isNone
  offset : model.outputDataBufOffset = segmenter.closed.length

theorem Serving.new {cap : Int} : Serving cap online Segmenter.initial ({} : E2EVadModel α δ) where
  capped := @E2EVadModel.Capped.still _ _ {} [] 0 cap Segmenter.initial (by simp)
    ⟨rfl, rfl, rfl, rfl, WindowDetector.new_wellFormed, le_refl _, rfl⟩
  nextSeg := fun _ => rfl
  offset := rfl

/-- What the answers from here on say about the segments. -/
structure Told (cap : Int) (pending answers : List Segment) : Prop where
  short : ∀ segment ∈ joinAnswers (pending ++ answers), segment.2 - segment.1 ≤ (cap + 1) * frameInMs
  fresh : pending = [] → ∀ entry ∈ answers.head?, entry.1 ≠ -1

theorem FrameSpan.ms_short {span : FrameSpan} (short : span.2 - span.1 ≤ cap) :
    span.ms.2 - span.ms.1 ≤ (cap + 1) * frameInMs := by
  simp only [FrameSpan.ms, frameInMs]
  omega

theorem short_append {spans : List FrameSpan} (within : ∀ span ∈ spans, span.2 - span.1 ≤ cap)
    {later : List Segment} (short : ∀ segment ∈ later, segment.2 - segment.1 ≤ (cap + 1) * frameInMs) :
    ∀ segment ∈ spans.map FrameSpan.ms ++ later, segment.2 - segment.1 ≤ (cap + 1) * frameInMs := by
  refine List.forall_mem_append.mpr ⟨?_, short⟩
  intro segment member
  obtain ⟨span, inside, rfl⟩ := List.mem_map.mp member
  exact FrameSpan.ms_short (within span inside)

theorem Told.spans {spans : List FrameSpan} (within : ∀ span ∈ spans, span.2 - span.1 ≤ cap)
    {rest : List Segment} (told : Told cap [] rest) : Told cap [] (spans.map FrameSpan.ms ++ rest) where
  short := by
    rw [List.nil_append, joinAnswers_ms]
    exact short_append within told.short
  fresh := by
    intro _ entry first
    cases spans with
    | nil => exact told.fresh rfl entry first
    | cons span spans =>
      cases first
      simp only [FrameSpan.ms, frameInMs]
      omega

theorem Told.entries {before after : Segmenter} {added : List FrameSpan}
    (continues : before.Continues after added) (within : ∀ span ∈ added, span.2 - span.1 ≤ cap)
    {rest : List Segment} (told : Told cap (after.told true) rest) :
    Told cap (before.told true)
      (Segmenter.entries added after.current before.current.isSome ++ rest) where
  short := by
    rw [continues.join]
    exact short_append within told.short
  fresh := by
    intro nothing
    have idle : before.current = none := by simpa [Segmenter.told] using nothing
    refine Segmenter.Continues.fresh idle fun none => told.fresh ?_
    simp [Segmenter.told, none]

/-- A start that the end of its recording leaves alone. -/
theorem Told.left {segmenter : Segmenter} (nonneg : ∀ span ∈ segmenter.current, 0 ≤ span.1)
    (enough : 41 ≤ cap) {rest : List Segment} (told : Told cap [] rest) :
    Told cap (segmenter.told true) rest := by
  cases current : segmenter.current with
  | none =>
    simp only [Segmenter.told, current, if_true, Option.toList_none, List.map_nil]
    exact told
  | some span =>
    simp only [Segmenter.told, current, if_true, Option.toList_some, List.map_cons, List.map_nil]
    refine ⟨?_, by simp⟩
    intro segment member
    rw [List.cons_append, List.nil_append, joinAnswers_startMs span (told.fresh rfl)] at member
    rcases List.mem_cons.mp member with rfl | later
    · have start := nonneg span current
      simp only [FrameSpan.startMs, frameInMs]
      omega
    · exact told.short segment later

theorem reportOffline_false (added : List FrameSpan) (current : Option FrameSpan) :
    reportOffline false (added.map closedBuf ++ current.toList.map openBuf) =
      (added.map FrameSpan.ms, added.length) := by
  induction added with
  | nil =>
    cases current with
    | none => rfl
    | some span => rfl
  | cons span rest inductionHypothesis =>
    simp only [List.map_cons, List.cons_append, reportOffline, inductionHypothesis]
    simp [closedBuf, FrameSpan.ms]

theorem Segmenter.Continues.pending {before after : Segmenter} {added : List FrameSpan}
    (continues : before.Continues after added) : after.buffers.drop before.closed.length =
      added.map closedBuf ++ after.current.toList.map openBuf := by
  rw [Segmenter.buffers, continues.closed, List.map_append, List.append_assoc,
    List.drop_left' (List.length_map _)]

/-- The answer to a call, and what is left to tell. -/
theorem E2EVadModel.Capped.report {before after : Segmenter} {added : List FrameSpan}
    (capped : model.Capped cap model.frmCnt after) (enough : 41 ≤ cap)
    (continues : before.Continues after added)
    (nextSeg : online = true → model.nextSeg = before.current.isNone)
    (offset : model.outputDataBufOffset = before.closed.length) {rest : List Segment} :
    (Serving cap online after (model.report false online).2 ∧
      (Told cap (after.told online) rest →
        Told cap (before.told online) ((model.report false online).1 ++ rest))) ∧
      (Told cap [] rest → Told cap (before.told online) ((model.report true online).1 ++ rest)) := by
  have added_within : ∀ span ∈ added, span.2 - span.1 ≤ cap := by
    intro span member
    refine (capped.within span (List.mem_append_left _ ?_)).2
    rw [continues.closed]
    exact List.mem_append_right _ member
  -- Online a segment is told in two entries, its start and its end; offline it is told whole.
  cases online with
  | true =>
    have reported := report_eq continues capped.output (nextSeg rfl) offset
    rw [reported false, reported true]
    refine ⟨⟨⟨capped.carry rfl rfl rfl rfl rfl rfl rfl, fun _ => rfl, rfl⟩,
      Told.entries continues added_within⟩, fun told => ?_⟩
    refine Told.entries continues added_within (Told.left (fun span opened => ?_) enough told)
    exact (capped.within span (List.mem_append_right _ (Option.mem_toList.mpr opened))).1
  | false =>
    have told_nil : ∀ segmenter : Segmenter, segmenter.told false = [] := fun _ => rfl
    rw [told_nil, told_nil]
    have pending : model.outputDataBuf.drop model.outputDataBufOffset =
        added.map closedBuf ++ after.current.toList.map openBuf := by
      rw [capped.output, offset, continues.pending]
    simp only [report, Bool.false_eq_true, if_false, pending]
    refine ⟨⟨⟨?_, by simp, ?_⟩, ?_⟩, ?_⟩
    · exact capped.carry rfl rfl rfl rfl rfl rfl rfl
    · simp [reportOffline_false, continues.closed, offset]
    · intro told
      rw [reportOffline_false]
      exact told.spans added_within
    · intro told
      have buffers : (added.map closedBuf ++ after.current.toList.map openBuf).map
          E2EVadSpeechBufWithDoa.ms = (added ++ after.current.toList).map FrameSpan.ms := by
        simp only [List.map_append, List.map_map]
        rfl
      rw [reportOffline_final, buffers]
      refine told.spans fun span member => ?_
      rcases List.mem_append.mp member with closed | opened
      · exact added_within span closed
      · exact (capped.within span (List.mem_append_right _ opened)).2

theorem E2EVadModel.call_eq (energy : List α → δ) (model : E2EVadModel α δ) (scores : List RowState)
    (waveform : List α) (isFinal online : Bool) (maxEndSil maxSingleSegmentTime : Int)
    (sampleRate : Nat) :
    model.call energy scores waveform isFinal online maxEndSil maxSingleSegmentTime sampleRate =
      let accepted :=
        model.acceptCall energy scores waveform maxEndSil maxSingleSegmentTime sampleRate
      (if !isFinal then accepted.detectCommonFrames else accepted.detectLastFrames).bind fun model =>
        some ((model.report isFinal online).1,
          if isFinal then (model.report isFinal online).2.allResetDetection
          else (model.report isFinal online).2) := by
  cases isFinal <;> rfl

theorem Serving.accept (serving : Serving cap online segmenter model) (energy : List α → δ)
    (maxSingleSegmentTime : Int) (turn : Turn α) :
    let accepted := model.acceptCall energy turn.rows turn.waveform turn.maxEndSil
      maxSingleSegmentTime turn.sampleRate
    accepted.Capped cap (accepted.frmCnt - accepted.nnEvalBlockSize) segmenter ∧
      accepted.maxSingleSegmentTime = maxSingleSegmentTime ∧ accepted.nextSeg = model.nextSeg ∧
      accepted.outputDataBufOffset = model.outputDataBufOffset := by
  have waiting := serving.capped
  rw [show model.frmCnt = model.frmCnt + turn.rows.length - turn.rows.length by ring] at waiting
  intro accepted
  rw [show accepted = _ from acceptCall_eq ..]
  refine ⟨?_, rfl, rfl, rfl⟩
  exact @E2EVadModel.Capped.carry _ _ model _ _ _ _ waiting rfl rfl rfl rfl rfl rfl rfl

/-- A call that is not final leaves what is open to the next one; a final call starts over. -/
theorem Serving.call (serving : Serving cap online segmenter model) (enough : 41 ≤ cap)
    {energy : List α → δ} {maxSingleSegmentTime : Int}
    (limit : maxSingleSegmentTime.tdiv frameInMs = cap) {turn : Turn α} {answer : List Segment}
    (returned : model.call energy turn.rows turn.waveform turn.isFinal online turn.maxEndSil
      maxSingleSegmentTime turn.sampleRate = some (answer, model')) :
    ∃ segmenter', Serving cap online segmenter' model' ∧ ∀ rest,
      Told cap (segmenter'.told online) rest → Told cap (segmenter.told online) (answer ++ rest) := by
  rw [call_eq] at returned
  obtain ⟨detected, frames, rest⟩ := Option.bind_eq_some_iff.mp returned
  obtain ⟨accepted, fixed, nextSeg, offset⟩ := serving.accept energy maxSingleSegmentTime turn
  obtain ⟨after, added, capped, continues, nextSeg', offset'⟩ :=
    accepted.detect enough (by rw [fixed]; exact limit) turn.isFinal frames
  have reported {rest : List Segment} := @E2EVadModel.Capped.report _ _ _ _ online _ _ _ capped
    enough continues (fun on => (nextSeg'.trans nextSeg).trans (serving.nextSeg on))
    ((offset'.trans offset).trans serving.offset) rest
  cases final : turn.isFinal with
  | false =>
    rw [final] at rest
    cases rest
    exact ⟨after, (@reported []).1.1, fun rest => (@reported rest).1.2⟩
  | true =>
    rw [final] at rest
    cases rest
    -- A final call leaves nothing open, and its scorer is a new one.
    refine ⟨Segmenter.initial, ⟨?_, fun _ => rfl, rfl⟩, fun rest told => (@reported rest).2 ?_⟩
    · refine @E2EVadModel.Capped.still _ _ _ [] 0 cap Segmenter.initial (by simp)
        ⟨rfl, rfl, rfl, rfl, ?_, le_refl _, rfl⟩
      have window : (detected.report true online).2.windowsDetector = detected.windowsDetector := by
        cases online <;> rfl
      exact WindowDetector.reset_wellFormed (window ▸ capped.window)
    · cases online with
      | true => exact told
      | false => exact told

/-- A run of calls. -/
theorem Serving.serve (serving : Serving cap online segmenter model) (enough : 41 ≤ cap)
    {energy : List α → δ} {maxSingleSegmentTime : Int}
    (limit : maxSingleSegmentTime.tdiv frameInMs = cap) {turns : List (Turn α)}
    {answers : List Segment}
    (returned : serve energy online maxSingleSegmentTime model turns = some (answers, model')) :
    Told cap (segmenter.told online) answers := by
  induction turns generalizing model segmenter answers with
  | nil =>
    cases returned
    have nothing : Told cap [] [] := ⟨by simp [joinAnswers], by simp⟩
    cases online with
    | false => exact nothing
    | true => exact nothing.left (fun span opened => (serving.capped.within span
        (List.mem_append_right _ (Option.mem_toList.mpr opened))).1) enough
  | cons turn turns inductionHypothesis =>
    obtain ⟨⟨answer, middle⟩, once, others⟩ := Option.bind_eq_some_iff.mp returned
    obtain ⟨⟨later, last⟩, others, result⟩ := Option.bind_eq_some_iff.mp others
    cases result
    obtain ⟨segmenter', serving', told⟩ := serving.call enough limit once
    exact told later (inductionHypothesis serving' others)

/-- No segment that the answers name is longer than the limit and one frame. -/
theorem serve_short {energy : List α → δ} {maxSingleSegmentTime : Int} {turns : List (Turn α)}
    {answers : List Segment} (long : 410 ≤ maxSingleSegmentTime)
    (returned : serve energy online maxSingleSegmentTime {} turns = some (answers, model')) :
    ∀ segment ∈ joinAnswers answers,
      segment.2 - segment.1 ≤ (maxSingleSegmentTime / 10 + 1) * 10 := by
  have limit : maxSingleSegmentTime.tdiv frameInMs = maxSingleSegmentTime / 10 :=
    Int.tdiv_eq_ediv_of_nonneg (by omega)
  have told := Serving.new.serve (by omega) limit returned
  cases online with
  | true => exact told.short
  | false => exact told.short

/-- Speech for longer than the limit, in two calls, and the end of the recording. -/
def longSpeech : List (Turn Unit) :=
  [⟨List.replicate 30 .speech, List.replicate 5040 (), false, 800, 16000⟩,
    ⟨List.replicate 30 .speech, List.replicate 5040 (), true, 800, 16000⟩]

theorem serve_short_longSpeech : ∃ answers model',
    serve (fun _ => ()) true 410 {} longSpeech = some (answers, model') ∧
      ∀ segment ∈ joinAnswers answers, segment.2 - segment.1 ≤ (410 / 10 + 1) * 10 := by
  obtain ⟨⟨answers, model'⟩, returned⟩ : ∃ result, serve (fun _ => ()) true 410 {} longSpeech =
    some result := Option.isSome_iff_exists.mp (by decide +kernel)
  exact ⟨answers, model', returned, serve_short (by decide) returned⟩

end

end Asr2Pass.Vad
