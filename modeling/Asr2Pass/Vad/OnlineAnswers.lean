import Asr2Pass.Vad.Recording

/-! # The online answers of whole recordings

A scorer serves one recording after the other.  Its answers over a recording are a transcript of
the segmenter over the frames, so they do not depend on where the calls fall, and they complete
every start except one: a segment that the very last frame opens.
-/

namespace Asr2Pass.Vad

open VADXOptions E2EVadModel

section
variable {α δ : Type} (energy : List α → δ) (rate : SampleRate)

/-- A new scorer, or one that has served recordings before. -/
inductive Ready : E2EVadModel α δ → Prop where
  | new : Ready {}
  | again {model model' : E2EVadModel α δ} {calls : List (Call α)} {last : Call α}
      {answers : List Segment} : Ready model → Covered rate 0 0 (calls ++ [last]) →
      onlineRecording energy rate model calls last = some (answers, model') → Ready model'

def sampleCount (calls : List (Call α)) : Nat := (calls.map fun call => call.waveform.length).sum

/-- A scorer with the sizes of the source, and the number of samples that it has had. -/
inductive Served : Nat → E2EVadModel α δ → Prop where
  | new : Served 0 { intSizes := true }
  | again {count : Nat} {model model' : E2EVadModel α δ} {calls : List (Call α)} {last : Call α}
      {answers : List Segment} : Served count model → Covered rate 0 0 (calls ++ [last]) →
      onlineRecording energy rate model calls last = some (answers, model') →
      Served (count + sampleCount (calls ++ [last])) model'

/-- The scorer when it comes to the last frame of a recording. -/
def beforeLastFrame (model : E2EVadModel α δ) (calls : List (Call α)) (last : Call α) :
    Option (E2EVadModel α δ) := do
  let (_, model) ← onlineCalls energy rate model calls
  (accept energy rate model last).detectFramesButLast

end

section
variable {α δ : Type} {energy : List α → δ} {rate : SampleRate}

def frames (calls : List (Call α)) : List RowState := calls.flatMap (·.rows)

@[simp] theorem frames_cons (call : Call α) (calls : List (Call α)) :
    frames (call :: calls) = call.rows ++ frames calls := List.flatMap_cons

def windows (rate : SampleRate) (calls : List (Call α)) : Nat :=
  (calls.map fun call => windowCount rate call.waveform.length).sum

theorem covered_append {t w : Nat} {calls : List (Call α)} {last : Call α}
    (covered : Covered rate t w (calls ++ [last])) :
    Covered rate t w calls ∧ t + (frames calls).length + last.rows.length ≤
      w + windows rate calls + windowCount rate last.waveform.length := by
  induction calls generalizing t w with
  | nil =>
    obtain ⟨enough, -⟩ := covered
    exact ⟨trivial, enough⟩
  | cons call calls inductionHypothesis =>
    obtain ⟨enough, covered⟩ := covered
    obtain ⟨before, after⟩ := inductionHypothesis covered
    refine ⟨⟨enough, before⟩, ?_⟩
    simp only [frames_cons, windows, List.length_append, List.map_cons, List.sum_cons] at after ⊢
    omega

theorem Transcript.answer {answers complete : List Segment} {before after : Segmenter}
    {added : List FrameSpan} {t : Int} (transcript : Transcript answers before complete)
    (continues : before.Continues after added) (valid : after.Valid t) :
    ∃ complete', Transcript (answers ++ Segmenter.entries added after.current before.current.isSome)
      after complete' := by
  refine transcript.entries continues fun span member => ?_
  have inside := valid.spans span (by rw [continues.closed]; exact List.mem_append_right _ member)
  exact ⟨inside.1, inside.2.1⟩

/-- A run of calls that are not final. -/
theorem onlineCalls_streaming (energy : List α → δ) (calls : List (Call α))
    {model : E2EVadModel α δ} {segmenter : Segmenter} {t w ahead : Nat}
    {answers complete : List Segment}
    (streaming : Streaming rate model segmenter t w (sampleCount calls + ahead))
    (transcript : Transcript answers segmenter complete) (covered : Covered rate t w calls) :
    ∃ answers' model' complete', onlineCalls energy rate model calls = some (answers', model') ∧
      Transcript (answers ++ answers') (segmenter.stepCalls t calls) complete' ∧
      Streaming rate model' (segmenter.stepCalls t calls) (t + (frames calls).length)
        (w + windows rate calls) ahead := by
  -- On the calls: each answer continues the transcript, and the scorer streams on.
  induction calls generalizing model segmenter t w answers complete with
  | nil =>
    refine ⟨[], model, complete, rfl, ?_, streaming.mono (by simp [sampleCount])⟩
    rw [List.append_nil]
    exact transcript
  | cons call calls inductionHypothesis =>
    obtain ⟨enough, covered⟩ := covered
    rw [sampleCount, List.map_cons, List.sum_cons, add_assoc] at streaming
    obtain ⟨added, model', returned, continues, streaming'⟩ :=
      onlineCall_streaming energy call streaming enough
    obtain ⟨complete', transcript'⟩ := transcript.answer continues streaming'.valid
    obtain ⟨answers', model'', complete'', returned', transcript'', streaming''⟩ :=
      inductionHypothesis streaming' transcript' covered
    refine ⟨Segmenter.entries added (segmenter.stepCall t call).current segmenter.current.isSome ++
      answers', model'', complete'', ?_, ?_, ?_⟩
    · simp only [onlineCalls, returned, Option.bind_eq_bind, Option.bind_some, returned']
      rfl
    · rw [← List.append_assoc]
      exact transcript''
    · simp only [frames_cons, windows, List.length_append, List.map_cons, List.sum_cons,
        ← add_assoc] at streaming'' ⊢
      exact streaming''

/-! ## A recording -/

namespace Segmenter

/-- The segmenter before the last frame of a recording, and after it. -/
def beforeLast (calls : List (Call α)) (last : Call α) : Segmenter :=
  (initial.stepCalls 0 calls).stepButLast (frames calls).length last

def recording (calls : List (Call α)) (last : Call α) : Segmenter :=
  (initial.stepCalls 0 calls).stepFinal (frames calls).length last

end Segmenter

/-- A recording: what the answers are, and that the scorer starts over. -/
theorem onlineRecording_streaming (energy : List α → δ) {model : E2EVadModel α δ} {ahead : Nat}
    {calls : List (Call α)} {last : Call α}
    (streaming : Streaming rate model Segmenter.initial 0 0 (sampleCount (calls ++ [last]) + ahead))
    (covered : Covered rate 0 0 (calls ++ [last])) :
    ∃ answers model' complete before,
      onlineRecording energy rate model calls last = some (answers, model') ∧
      Transcript answers (Segmenter.recording calls last) complete ∧
      beforeLastFrame energy rate model calls last = some before ∧
      before.Tracks (Segmenter.beforeLast calls last) ∧
      Streaming rate model' Segmenter.initial 0 0 ahead := by
  obtain ⟨common, final⟩ := covered_append covered
  rw [sampleCount, List.map_append, List.map_singleton, List.sum_append, List.sum_singleton,
    add_assoc] at streaming
  obtain ⟨answers, model', complete, returned, transcript, streaming'⟩ :=
    onlineCalls_streaming energy calls streaming Transcript.initial common
  rw [List.nil_append] at transcript
  simp only [Nat.zero_add] at streaming' final
  obtain ⟨added, model'', returned', continues, restarted⟩ :=
    onlineCall_final energy last streaming' final
  obtain ⟨complete', transcript'⟩ :=
    transcript.answer continues (Segmenter.stepFinal_valid streaming'.valid last)
  obtain ⟨before, reached, tracks, -, -⟩ :=
    (streaming'.accept energy last final).detectFramesButLast
  refine ⟨_, model'', complete', before, ?_, transcript', ?_, tracks, restarted⟩
  · simp only [onlineRecording, returned, Option.bind_eq_bind, Option.bind_some, returned']
    rfl
  · simp only [beforeLastFrame, returned, Option.bind_eq_bind, Option.bind_some, reached]

theorem Ready.streaming {model : E2EVadModel α δ} (ready : Ready energy rate model) (ahead : Nat) :
    Streaming rate model Segmenter.initial 0 0 ahead := by
  induction ready generalizing ahead with
  | new =>
    exact ⟨⟨rfl, rfl, rfl, rfl, rfl, rfl, fun _ => ⟨rfl, rfl, rfl⟩, by simp [Segmenter.initial]⟩,
      Segmenter.initial_valid, rfl, rfl, rfl, by simp, .inl rfl, rfl, rfl, by simp⟩
  | again _ covered returned inductionHypothesis =>
    obtain ⟨answers', model'', -, -, returned', -, -, -, restarted⟩ :=
      onlineRecording_streaming energy (inductionHypothesis _) covered
    rw [returned] at returned'
    cases returned'
    exact restarted

/-- Up to `2 ^ 31` samples. -/
theorem Served.streaming {count ahead : Nat} {model : E2EVadModel α δ}
    (served : Served energy rate count model) (few : count + ahead < 2 ^ 31) :
    Streaming rate model Segmenter.initial 0 0 ahead := by
  induction served generalizing ahead with
  | new =>
    exact ⟨⟨rfl, rfl, rfl, rfl, rfl, rfl, fun _ => ⟨rfl, rfl, rfl⟩, by simp [Segmenter.initial]⟩,
      Segmenter.initial_valid, rfl, rfl, rfl, by simp, .inl rfl, rfl, rfl,
      fun _ => by simp only; omega⟩
  | @again count model model' calls last answers _ covered returned inductionHypothesis =>
    have fits : count + (sampleCount (calls ++ [last]) + ahead) < 2 ^ 31 := by omega
    obtain ⟨answers', model'', -, -, returned', -, -, -, restarted⟩ :=
      onlineRecording_streaming energy (inductionHypothesis fits) covered
    rw [returned] at returned'
    cases returned'
    exact restarted

/-- The protocol of the online answers: it is kept exactly when the last frame of the recording
    does not open a segment. -/
theorem onlineRecording_protocol {model : E2EVadModel α δ} (ready : Ready energy rate model)
    (calls : List (Call α)) (last : Call α) (covered : Covered rate 0 0 (calls ++ [last])) :
    ∃ answers model' before,
      onlineRecording energy rate model calls last = some (answers, model') ∧
      beforeLastFrame energy rate model calls last = some before ∧
      (OnlineProtocol answers ↔ ¬ (before.vadStateMachine = .startPointNotDetected ∧
        (before.windowsDetector.detectOneFrame last.lastRow.frameState).1 = .sil2Speech)) := by
  obtain ⟨answers, model', complete, before, returned, transcript, reached, tracks, -⟩ :=
    onlineRecording_streaming energy (ready.streaming (_ + 0)) covered
  refine ⟨answers, model', before, returned, reached, ?_⟩
  -- Only a segment that is still open leaves a start without an end.
  have closed : OnlineProtocol answers ↔ (Segmenter.recording calls last).current = none := by
    rw [transcript.answers]
    cases (Segmenter.recording calls last).current with
    | none => simpa using transcript.protocol
    | some span => exact iff_of_false (transcript.protocol.not_open _) (by simp)
  have idle : before.vadStateMachine = .startPointNotDetected ↔
      (Segmenter.beforeLast calls last).current = none := by
    cases current : (Segmenter.beforeLast calls last).current with
    | none => simpa using (tracks.idle current).1
    | some span => simp [(tracks.speaking span.1 span.2 current).1]
  rw [closed, idle, tracks.window]
  exact Segmenter.step_final_current _ _ _ _

/-- Fifteen speech frames in one final call: the last of them opens a segment. -/
def opensLast : Call Unit where
  rows := List.replicate 15 .speech
  waveform := List.replicate 2640 ()
  maxEndSil := 800
  maxSingleSegmentTime := 15000
  nonempty := by decide

theorem onlineRecording_open : Covered ⟨16000, by decide⟩ 0 0 [opensLast] ∧
    (onlineRecording (fun _ => ()) ⟨16000, by decide⟩ {} [] opensLast).map Prod.fst =
      some [(0, -1)] ∧ ¬ OnlineProtocol [(0, -1)] := by
  refine ⟨by decide +kernel, by decide +kernel, ?_⟩
  exact OnlineProtocol.nil.not_open 0

/-- A first call that opens a segment, and a last one that goes on with it. -/
def opensFirst : List (Call Unit) := [opensLast]

theorem onlineRecording_protocol_opensFirst : ∃ answers model',
    onlineRecording (fun _ => ()) ⟨16000, by decide⟩ {} opensFirst opensLast = some (answers, model') ∧
      OnlineProtocol answers := by
  obtain ⟨answers, model', before, returned, reached, protocol⟩ :=
    @onlineRecording_protocol _ _ (fun _ => ()) ⟨16000, by decide⟩ _ .new opensFirst opensLast
      (by decide +kernel)
  have speaking : (beforeLastFrame (fun _ => ()) ⟨16000, by decide⟩ {} opensFirst opensLast).map
      (·.vadStateMachine) = some .inSpeechSegment := by
    decide +kernel
  rw [reached] at speaking
  refine ⟨answers, model', returned, protocol.mpr fun opens => ?_⟩
  rw [Option.map_some, opens.1] at speaking
  cases speaking

/-! ## Where the calls fall -/

/-- One way to cut the frames of a recording into calls, all with the same limits. -/
structure Cutting (α : Type) (rate : SampleRate) (rows : List RowState)
    (maxEndSil maxSingleSegmentTime : Int) where
  calls : List (Call α)
  last : Call α
  frames_eq : frames (calls ++ [last]) = rows
  fixed : ∀ call ∈ calls ++ [last],
    call.maxEndSil = maxEndSil ∧ call.maxSingleSegmentTime = maxSingleSegmentTime
  covered : Covered rate 0 0 (calls ++ [last])

theorem Segmenter.stepCalls_eq {limits : Limits} (calls : List (Call α)) (segmenter : Segmenter)
    (t : Nat) (fixed : ∀ call ∈ calls, call.limits = limits) :
    segmenter.stepCalls t calls = segmenter.steps limits (frames calls) t := by
  induction calls generalizing segmenter t with
  | nil => rfl
  | cons call calls inductionHypothesis =>
    have same := fixed call List.mem_cons_self
    rw [stepCalls, inductionHypothesis _ _ fun call member => fixed call (List.mem_cons_of_mem _ member),
      stepCall, same, frames_cons, steps_append]
    push_cast
    rfl

/-- With fixed limits the segmenter sees the frames only. -/
theorem Segmenter.recording_eq {limits : Limits} (calls : List (Call α)) (last : Call α)
    (fixed : ∀ call ∈ calls ++ [last], call.limits = limits) :
    Segmenter.recording calls last =
      (initial.steps limits (frames calls ++ last.rows.dropLast) 0).step limits last.lastRow
        (frames calls ++ last.rows.dropLast).length true := by
  have rows := last.rows_pos
  have same := fixed last (List.mem_append_right _ (List.mem_singleton_self _))
  have position : (frames calls).length + last.rows.length - 1 =
      (frames calls ++ last.rows.dropLast).length := by
    rw [List.length_append, List.length_dropLast]
    omega
  rw [recording, stepFinal, stepButLast, same, position, steps_append,
    stepCalls_eq calls initial 0 fun call member => fixed call (List.mem_append_left _ member)]
  simp

theorem Cutting.recording_congr {rows : List RowState} {maxEndSil maxSingleSegmentTime : Int}
    (first second : Cutting α rate rows maxEndSil maxSingleSegmentTime) :
    Segmenter.recording first.calls first.last = Segmenter.recording second.calls second.last := by
  -- Both have the same last row, and the same rows before it.
  have split : ∀ cutting : Cutting α rate rows maxEndSil maxSingleSegmentTime,
      (frames cutting.calls ++ cutting.last.rows.dropLast) ++ [cutting.last.lastRow] = rows := by
    intro cutting
    have all := cutting.frames_eq
    rw [frames, List.flatMap_append, List.flatMap_singleton, cutting.last.rows_eq,
      ← List.append_assoc] at all
    exact all
  have limits : ∀ cutting : Cutting α rate rows maxEndSil maxSingleSegmentTime,
      ∀ call ∈ cutting.calls ++ [cutting.last],
        call.limits = ⟨maxEndSil - speechToSilTimeThres, maxSingleSegmentTime⟩ := by
    intro cutting call member
    obtain ⟨silence, length⟩ := cutting.fixed call member
    rw [Call.limits, silence, length]
  obtain ⟨before, final⟩ := List.append_inj' ((split first).trans (split second).symm) rfl
  rw [Segmenter.recording_eq _ _ (limits first), Segmenter.recording_eq _ _ (limits second), before,
    List.singleton_inj.mp final]

/-- The answers name the segments of the segmenter, and at most one start without its end. -/
theorem Transcript.join {answers complete : List Segment} {segmenter : Segmenter}
    (transcript : Transcript answers segmenter complete) :
    joinAnswers answers =
      segmenter.closed.map FrameSpan.ms ++ segmenter.current.toList.map FrameSpan.startMs := by
  rw [transcript.answers, transcript.protocol.join_append, transcript.joined]
  cases segmenter.current with
  | none => rfl
  | some span => rfl

/-- Two ways of cutting the same frames give the same segments. -/
theorem onlineRecording_cutting {model model' : E2EVadModel α δ} (ready : Ready energy rate model)
    (ready' : Ready energy rate model') {rows : List RowState} {maxEndSil maxSingleSegmentTime : Int}
    (first second : Cutting α rate rows maxEndSil maxSingleSegmentTime) :
    ∃ answers answers' after after',
      onlineRecording energy rate model first.calls first.last = some (answers, after) ∧
      onlineRecording energy rate model' second.calls second.last = some (answers', after') ∧
      joinAnswers answers = joinAnswers answers' := by
  obtain ⟨answers, after, complete, -, returned, transcript, -⟩ :=
    onlineRecording_streaming energy (ready.streaming (_ + 0)) first.covered
  obtain ⟨answers', after', complete', -, returned', transcript', -⟩ :=
    onlineRecording_streaming energy (ready'.streaming (_ + 0)) second.covered
  refine ⟨answers, answers', after, after', returned, returned', ?_⟩
  rw [transcript.join, transcript'.join, first.recording_congr second]

def oneCall : Cutting Unit ⟨16000, by decide⟩ (List.replicate 30 .speech) 800 15000 where
  calls := []
  last :=
    { opensLast with
      rows := List.replicate 30 .speech, waveform := List.replicate 5040 (), nonempty := by decide }
  frames_eq := by decide
  fixed := by decide
  covered := by decide +kernel

def twoCalls : Cutting Unit ⟨16000, by decide⟩ (List.replicate 30 .speech) 800 15000 where
  calls := [opensLast]
  last := opensLast
  frames_eq := by decide
  fixed := by decide
  covered := by decide +kernel

theorem onlineRecording_cutting_new : ∃ answers answers' after after',
    onlineRecording (fun _ => ()) ⟨16000, by decide⟩ {} oneCall.calls oneCall.last =
        some (answers, after) ∧
      onlineRecording (fun _ => ()) ⟨16000, by decide⟩ {} twoCalls.calls twoCalls.last =
        some (answers', after') ∧
      joinAnswers answers = joinAnswers answers' :=
  onlineRecording_cutting .new .new oneCall twoCalls

end

end Asr2Pass.Vad
