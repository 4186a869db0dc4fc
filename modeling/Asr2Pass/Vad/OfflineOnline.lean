import Asr2Pass.Vad.Moves
import Asr2Pass.Vad.OfflineSegments

/-! # Offline and online

The offline call and the online calls, however they cut the frames, name the same segments, but for
one that the very last frame opens.
-/

namespace Asr2Pass.Vad

open VADXOptions E2EVadModel

/-- A segment that is open after the last frame was opened by it. -/
theorem Segmenter.step_final_open {limits : Limits} {segmenter : Segmenter} {t : Int}
    (valid : segmenter.Valid t) {row : RowState} {span : FrameSpan}
    (opened : (segmenter.step limits row t true).current = some span) : span.2 = t := by
  cases step_moves limits valid row true with
  | waits _ _ none _ _ _ | stops _ _ _ none _ _ | closes _ _ none _ _ _ =>
    rw [none] at opened
    cases opened
  | opens _ _ current _ _ =>
    rw [current] at opened
    cases opened
    rfl
  | keeps _ going _ _ _ _ _ =>
    obtain ⟨last, ended⟩ := endFrame?_final limits _ (segmenter.silenceAfter
      (segmenter.window.detectOneFrame row.frameState).1) t
      (segmenter.window.detectOneFrame row.frameState).1
    rw [ended] at going
    cases going

variable {α δ : Type} {energy : List α → δ} {rate : SampleRate}

/-- The offline call on the frames of a recording. -/
def Cutting.atOnce {rows : List RowState} {maxEndSil maxSingleSegmentTime : Int} (waveform : List α)
    (nonempty : rows ≠ []) (covered : rows.length ≤ windowCount rate waveform.length) :
    Cutting α rate rows maxEndSil maxSingleSegmentTime where
  calls := []
  last := { rows, waveform, maxEndSil, maxSingleSegmentTime, nonempty }
  frames_eq := by simp [frames]
  fixed := by simp
  covered := by simpa [Covered] using covered

theorem Cutting.nonempty {rows : List RowState} {maxEndSil maxSingleSegmentTime : Int}
    (cutting : Cutting α rate rows maxEndSil maxSingleSegmentTime) : rows ≠ [] := by
  rw [← cutting.frames_eq, frames, List.flatMap_append, List.flatMap_singleton]
  exact List.append_ne_nil_of_right_ne_nil _ cutting.last.nonempty

/-- An offline call and online calls on the same frames, with the same limits, on a scorer that may
    have served recordings before. -/
theorem infer_joinAnswers {count : Nat} {model : E2EVadModel α δ}
    (served : Served energy rate count model) {rows : List RowState}
    {maxEndSil maxSingleSegmentTime : Int}
    (cutting : Cutting α rate rows maxEndSil maxSingleSegmentTime)
    (few : count + sampleCount (cutting.calls ++ [cutting.last]) < 2 ^ 31) {waveform : List α}
    (short : waveform.length < 2 ^ 31)
    (covered : rows.length ≤ windowCount rate waveform.length) :
    ∃ segments answers model',
      inferInt energy rate rows waveform maxEndSil maxSingleSegmentTime = some segments ∧
      onlineRecording energy rate model cutting.calls cutting.last = some (answers, model') ∧
      (OnlineProtocol answers ∧ segments = joinAnswers answers ∨
        ¬ OnlineProtocol answers ∧ ∃ spoken start,
          segments = spoken ++ [(start, frameInMs * (rows.length : Int))] ∧
          joinAnswers answers = spoken ++ [(start, -1)]) := by
  obtain ⟨answers, model', complete, before, returned, transcript, -⟩ :=
    onlineRecording_streaming energy
      (served.streaming (show count + (sampleCount _ + 0) < _ from few)) cutting.covered
  let call : Call α :=
    { rows, waveform, maxEndSil, maxSingleSegmentTime, nonempty := cutting.nonempty }
  refine ⟨_, answers, model', inferInt_eq energy call short covered, returned, ?_⟩
  have same : Segmenter.recording cutting.calls cutting.last = Segmenter.initial.stepFinal 0 call :=
    cutting.recording_congr (Cutting.atOnce waveform cutting.nonempty covered)
  rw [same] at transcript
  have joined := transcript.join
  cases current : (Segmenter.initial.stepFinal 0 call).current with
  | none =>
    have closed := transcript.answers
    rw [current, Option.toList_none, List.map_nil, List.append_nil] at closed
    refine .inl ⟨closed ▸ transcript.protocol, ?_⟩
    rw [joined, Segmenter.spans, current]
    simp
  | some span =>
    have opened := transcript.answers
    rw [current, Option.toList_some, List.map_singleton] at opened
    have last := Segmenter.step_final_open
      (Segmenter.stepButLast_valid Segmenter.initial_valid call) current
    refine .inr ⟨?_, (Segmenter.initial.stepFinal 0 call).closed.map FrameSpan.ms, span.startMs.1, ?_,
      ?_⟩
    · rw [opened]
      exact transcript.protocol.not_open _
    · have ended : span.ms = (span.startMs.1, frameInMs * (rows.length : Int)) := by
        have rowsPos := call.rows_pos
        have length : call.rows.length = rows.length := rfl
        simp only [FrameSpan.ms, FrameSpan.startMs, last, frameInMs, Prod.mk.injEq, true_and]
        omega
      rw [Segmenter.spans, current, List.map_append, ← ended]
      rfl
    · rw [joined, current]
      rfl

/-- A scorer that has served a recording before. -/
theorem infer_joinAnswers_twoCalls : ∃ model, ∃ segments answers model',
    Served (fun _ => ()) ⟨16000, by decide⟩ 5040 model ∧
      inferInt (fun _ => ()) ⟨16000, by decide⟩ (List.replicate 30 .speech)
        (List.replicate 5040 ()) 800 15000 = some segments ∧
      onlineRecording (fun _ => ()) ⟨16000, by decide⟩ model twoCalls.calls twoCalls.last =
        some (answers, model') ∧
      (OnlineProtocol answers ∧ segments = joinAnswers answers ∨
        ¬ OnlineProtocol answers ∧ ∃ spoken start,
          segments = spoken ++ [(start, frameInMs * ((List.replicate 30 RowState.speech).length : Int))] ∧
          joinAnswers answers = spoken ++ [(start, -1)]) := by
  have returns : (onlineRecording (fun _ => ()) ⟨16000, by decide⟩
      { intSizes := true : E2EVadModel Unit Unit } oneCall.calls oneCall.last).isSome = true := by
    decide +kernel
  obtain ⟨⟨before, model⟩, returned⟩ := Option.isSome_iff_exists.mp returns
  have served := Served.again .new oneCall.covered returned
  have count : 0 + sampleCount (oneCall.calls ++ [oneCall.last]) = 5040 := by decide +kernel
  rw [count] at served
  obtain ⟨segments, answers, model', rest⟩ := infer_joinAnswers served twoCalls (by decide +kernel)
    (by rw [List.length_replicate]; decide : (List.replicate 5040 ()).length < 2 ^ 31)
    (by decide +kernel : (List.replicate 30 RowState.speech).length ≤
      windowCount 16000 (List.replicate 5040 ()).length)
  exact ⟨model, segments, answers, model', served, rest⟩

end Asr2Pass.Vad
