import Asr2Pass.Vad.OnlineAnswers

/-! # The segments of an offline call

`FsmnVad::Infer` makes a new scorer for every recording and gives it all frames in one final
call.
-/

namespace Asr2Pass.Vad

open VADXOptions E2EVadModel

variable {α δ : Type} (energy : List α → δ) (rate : SampleRate)

/-- The scorer's part of `FsmnVad::Infer`. -/
def infer (rows : List RowState) (waveform : List α) (maxEndSil maxSingleSegmentTime : Int) :
    Option (List Segment) :=
  (E2EVadModel.call energy {} rows waveform true false maxEndSil maxSingleSegmentTime rate).map Prod.fst

/-- The same with a scorer that counts its samples in `int`s. -/
def inferInt (rows : List RowState) (waveform : List α) (maxEndSil maxSingleSegmentTime : Int) :
    Option (List Segment) :=
  (E2EVadModel.call energy { intSizes := true } rows waveform true false maxEndSil
    maxSingleSegmentTime rate).map Prod.fst

variable {rate}

/-- The span of a buffer, in ms. -/
def E2EVadSpeechBufWithDoa.ms (buf : E2EVadSpeechBufWithDoa) : Segment := (buf.startMs, buf.endMs)

theorem reportOffline_final (bufs : List E2EVadSpeechBufWithDoa) :
    reportOffline true bufs = (bufs.map E2EVadSpeechBufWithDoa.ms, bufs.length) := by
  induction bufs with
  | nil => rfl
  | cons buf rest inductionHypothesis => simp [reportOffline, inductionHypothesis, E2EVadSpeechBufWithDoa.ms]

/-- The segments of an offline call, the one that is still open included. -/
def Segmenter.spans (segmenter : Segmenter) : List FrameSpan :=
  segmenter.closed ++ segmenter.current.toList

theorem Segmenter.buffers_ms (segmenter : Segmenter) :
    segmenter.buffers.map E2EVadSpeechBufWithDoa.ms = segmenter.spans.map FrameSpan.ms := by
  simp only [buffers, spans, List.map_append, List.map_map]
  rfl

theorem Segmenter.Valid.ordered {segmenter : Segmenter} {t : Int} (valid : segmenter.Valid t) :
    Ordered segmenter.spans t := by
  cases current : segmenter.current with
  | none =>
    have ordered := (valid.idle current).2.2.mono valid.reached
    simpa [Segmenter.spans, current] using ordered
  | some span =>
    obtain ⟨nonneg, longer, before, -, -, ordered⟩ := valid.speaking span.1 span.2 current
    rw [Segmenter.spans, current]
    exact (ordered.append nonneg (le_refl _) longer).mono (by omega)

theorem ordered_ms {spans : List FrameSpan} {limit : Int} (ordered : Segmenter.Ordered spans limit) :
    (∀ segment ∈ spans.map FrameSpan.ms,
        0 ≤ segment.1 ∧ segment.1 < segment.2 ∧ segment.2 ≤ 10 * limit) ∧
      (spans.map FrameSpan.ms).Pairwise fun earlier later => earlier.2 ≤ later.1 := by
  obtain ⟨inside, apart⟩ := Segmenter.ordered_iff.mp ordered
  constructor
  · intro segment member
    obtain ⟨span, spoken, rfl⟩ := List.mem_map.mp member
    have bounds := inside span spoken
    simp only [FrameSpan.ms, frameInMs]
    omega
  · rw [List.pairwise_map]
    refine apart.imp fun before => ?_
    simp only [FrameSpan.ms, frameInMs]
    omega

theorem infer_nil (waveform : List α) (maxEndSil maxSingleSegmentTime : Int) :
    infer energy rate [] waveform maxEndSil maxSingleSegmentTime = some [] := by
  simp [infer, E2EVadModel.call, acceptCall, computeScores, computeDecibel, detectLastFrames, report,
    reportOffline]

/-- A final call that is not online, on a scorer that is as new. -/
theorem call_final {model : E2EVadModel α δ} (call : Call α)
    (streaming : Streaming rate model Segmenter.initial 0 0 call.waveform.length)
    (covered : call.rows.length ≤ windowCount rate call.waveform.length) :
    (E2EVadModel.call energy model call.rows call.waveform true false call.maxEndSil
      call.maxSingleSegmentTime rate).map Prod.fst =
        some ((Segmenter.initial.stepFinal 0 call).spans.map FrameSpan.ms) := by
  have accepted := (show Streaming rate model Segmenter.initial 0 0 (_ + 0) from streaming).accept
    energy call (by simpa using covered)
  obtain ⟨model', returned, follows, same, -⟩ := accepted.detectLastFrames
  have offset : model'.outputDataBufOffset = 0 := same.outputDataBufOffset.trans accepted.offset
  have unfolded : (E2EVadModel.call energy model call.rows call.waveform true false call.maxEndSil
      call.maxSingleSegmentTime rate).map Prod.fst =
      (accept energy rate model call).detectLastFrames.map fun model =>
        (model.report true false).1 := by
    simp only [E2EVadModel.call, Bool.not_true, Bool.false_eq_true, if_false, if_true,
      Option.map_eq_bind, Option.bind_eq_bind, Option.bind_assoc]
    rfl
  rw [unfolded, returned, Option.map_some, report, offset, follows.output]
  simp [reportOffline_final, Segmenter.buffers_ms]

/-- An offline call returns what the segmenter has after the last frame. -/
theorem infer_eq (call : Call α) (covered : call.rows.length ≤ windowCount rate call.waveform.length) :
    infer energy rate call.rows call.waveform call.maxEndSil call.maxSingleSegmentTime =
      some ((Segmenter.initial.stepFinal 0 call).spans.map FrameSpan.ms) :=
  call_final energy call ((@Ready.new _ _ energy rate).streaming _) covered

theorem inferInt_eq (call : Call α) (short : call.waveform.length < 2 ^ 31)
    (covered : call.rows.length ≤ windowCount rate call.waveform.length) :
    inferInt energy rate call.rows call.waveform call.maxEndSil call.maxSingleSegmentTime =
      some ((Segmenter.initial.stepFinal 0 call).spans.map FrameSpan.ms) :=
  call_final energy call ((@Served.new _ _ energy rate).streaming (by omega)) covered

/-- The segments of an offline call lie in the recording, one after the other. -/
theorem infer_ordered (rows : List RowState) (waveform : List α)
    (maxEndSil maxSingleSegmentTime : Int) (covered : rows.length ≤ windowCount rate waveform.length) :
    ∃ segments, infer energy rate rows waveform maxEndSil maxSingleSegmentTime = some segments ∧
      (∀ segment ∈ segments, 0 ≤ segment.1 ∧ segment.1 < segment.2 ∧ segment.2 ≤ 10 * rows.length) ∧
      segments.Pairwise fun earlier later => earlier.2 ≤ later.1 := by
  by_cases nonempty : rows = []
  · subst nonempty
    exact ⟨[], infer_nil energy waveform maxEndSil maxSingleSegmentTime, by simp, .nil⟩
  · let call : Call α := { rows, waveform, maxEndSil, maxSingleSegmentTime, nonempty }
    have valid := Segmenter.stepFinal_valid Segmenter.initial_valid call
    rw [Nat.zero_add] at valid
    obtain ⟨inside, apart⟩ := ordered_ms valid.ordered
    exact ⟨_, infer_eq energy call covered, inside, apart⟩

theorem infer_ordered_fifteen : ∃ segments,
    infer (fun _ => ()) ⟨16000, by decide⟩ (List.replicate 15 .speech) (List.replicate 2640 ()) 800
        15000 = some segments ∧
      (∀ segment ∈ segments,
        0 ≤ segment.1 ∧ segment.1 < segment.2 ∧
          segment.2 ≤ 10 * (List.replicate 15 RowState.speech).length) ∧
      segments.Pairwise fun earlier later => earlier.2 ≤ later.1 :=
  infer_ordered _ _ _ _ _ (by decide +kernel)

end Asr2Pass.Vad
