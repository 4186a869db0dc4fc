import Asr2Pass.Vad.Refinement

/-! # What online answers say

An online answer names a segment once it is closed, or its start first and its end in a later
answer.  `Transcript` relates all answers so far to the segmenter, and `transcript_answer` is
what one more answer adds.
-/

namespace Asr2Pass.Vad

open VADXOptions E2EVadModel

def FrameSpan.ms (span : FrameSpan) : Segment := (span.1 * frameInMs, (span.2 + 1) * frameInMs)

def FrameSpan.startMs (span : FrameSpan) : Segment := (span.1 * frameInMs, -1)

def FrameSpan.endMs (span : FrameSpan) : Segment := (-1, (span.2 + 1) * frameInMs)

/-! ## The protocol -/

/-- Entries `[s, e]`, and entries `[s, -1]` each followed at once by its `[-1, e]`. -/
inductive OnlineProtocol : List Segment → Prop where
  | nil : OnlineProtocol []
  | whole {s e : Int} {rest : List Segment} : 0 ≤ s → s ≤ e → OnlineProtocol rest →
      OnlineProtocol ((s, e) :: rest)
  | split {s e : Int} {rest : List Segment} : 0 ≤ s → s ≤ e → OnlineProtocol rest →
      OnlineProtocol ((s, -1) :: (-1, e) :: rest)

/-- The segments that the answers name, a start joined with the end that follows it. -/
def joinAnswers : List Segment → List Segment
  | [] => []
  | [entry] => [entry]
  | (s, e) :: (s', e') :: rest =>
    if e = -1 ∧ s' = -1 then (s, e') :: joinAnswers rest else (s, e) :: joinAnswers ((s', e') :: rest)

theorem joinAnswers_whole {s e : Int} (ended : e ≠ -1) (rest : List Segment) :
    joinAnswers ((s, e) :: rest) = (s, e) :: joinAnswers rest := by
  cases rest with
  | nil => rfl
  | cons entry rest => simp [joinAnswers, ended]

theorem joinAnswers_split (s e : Int) (rest : List Segment) :
    joinAnswers ((s, -1) :: (-1, e) :: rest) = (s, e) :: joinAnswers rest := by
  simp [joinAnswers]

theorem OnlineProtocol.append {first second : List Segment} (left : OnlineProtocol first)
    (right : OnlineProtocol second) : OnlineProtocol (first ++ second) := by
  induction left with
  | nil => exact right
  | whole nonneg ordered _ inductionHypothesis => exact .whole nonneg ordered inductionHypothesis
  | split nonneg ordered _ inductionHypothesis => exact .split nonneg ordered inductionHypothesis

theorem OnlineProtocol.join_append {first : List Segment} (left : OnlineProtocol first)
    (second : List Segment) :
    joinAnswers (first ++ second) = joinAnswers first ++ joinAnswers second := by
  induction left with
  | nil => rfl
  | whole nonneg ordered _ inductionHypothesis =>
    rw [List.cons_append, joinAnswers_whole (by omega), joinAnswers_whole (by omega),
      inductionHypothesis, List.cons_append]
  | split _ _ _ inductionHypothesis =>
    simp only [List.cons_append, joinAnswers_split, inductionHypothesis]

theorem OnlineProtocol.whole_inv {s e : Int} {rest : List Segment}
    (complete : OnlineProtocol ((s, e) :: rest)) (ended : e ≠ -1) : OnlineProtocol rest := by
  generalize entries : (s, e) :: rest = all at complete
  cases complete with
  | nil => cases entries
  | whole _ _ complete => cases entries; exact complete
  | split => cases entries; exact absurd rfl ended

theorem OnlineProtocol.split_inv {s e : Int} {rest : List Segment}
    (complete : OnlineProtocol ((s, -1) :: (-1, e) :: rest)) : OnlineProtocol rest := by
  cases complete with
  | whole nonneg ordered _ => omega
  | split _ _ complete => exact complete

/-- A start that is left open at the end breaks the protocol. -/
theorem OnlineProtocol.not_open {first : List Segment} (left : OnlineProtocol first) (s : Int) :
    ¬ OnlineProtocol (first ++ [(s, -1)]) := by
  induction left with
  | nil =>
    intro complete
    cases complete with
    | whole nonneg ordered _ => omega
  | whole nonneg ordered _ inductionHypothesis =>
    intro complete
    exact inductionHypothesis (complete.whole_inv (by omega))
  | split _ _ _ inductionHypothesis =>
    intro complete
    exact inductionHypothesis complete.split_inv

theorem onlineProtocol_map_ms {spans : List FrameSpan}
    (ordered : ∀ span ∈ spans, 0 ≤ span.1 ∧ span.1 < span.2) :
    OnlineProtocol (spans.map FrameSpan.ms) ∧
      joinAnswers (spans.map FrameSpan.ms) = spans.map FrameSpan.ms := by
  induction spans with
  | nil => exact ⟨.nil, rfl⟩
  | cons span spans inductionHypothesis =>
    obtain ⟨nonneg, longer⟩ := ordered span List.mem_cons_self
    obtain ⟨complete, joined⟩ :=
      inductionHypothesis fun span member => ordered span (List.mem_cons_of_mem _ member)
    rw [List.map_cons]
    refine ⟨.whole ?_ ?_ complete, ?_⟩
    · simp only [frameInMs]
      omega
    · simp only [frameInMs]
      omega
    · rw [FrameSpan.ms, joinAnswers_whole (by simp only [frameInMs]; omega), joined]

/-! ## From one state of the segmenter to a later one -/

namespace Segmenter

/-- `added` are the segments that were closed between the two states.  A segment that is open
    at first is the one still open, or the first that was closed. -/
structure Continues (before after : Segmenter) (added : List FrameSpan) : Prop where
  closed : after.closed = before.closed ++ added
  opened : ∀ start latest, before.current = some (start, latest) →
    (added = [] ∧ ∃ latest', after.current = some (start, latest')) ∨
      ∃ last rest, added = (start, last) :: rest

theorem Continues.refl (segmenter : Segmenter) : Continues segmenter segmenter [] where
  closed := (List.append_nil _).symm
  opened := fun _ latest opened => .inl ⟨rfl, latest, opened⟩

theorem Continues.trans {first second third : Segmenter} {added added' : List FrameSpan}
    (left : Continues first second added) (right : Continues second third added') :
    Continues first third (added ++ added') where
  closed := by rw [right.closed, left.closed, List.append_assoc]
  opened := by
    intro start latest opened
    rcases left.opened start latest opened with ⟨rfl, latest', opened'⟩ | ⟨last, rest, rfl⟩
    · exact right.opened start latest' opened'
    · exact .inr ⟨last, rest ++ added', rfl⟩

theorem step_continues (limits : Limits) (segmenter : Segmenter) (row : RowState) (t : Int)
    (final : Bool) : ∃ added, Continues segmenter (segmenter.step limits row t final) added := by
  unfold step
  generalize segmenter.window.detectOneFrame row.frameState = judged
  obtain ⟨change, window⟩ := judged
  cases current : segmenter.current with
  | none =>
    refine ⟨[], ?_, by simp [current]⟩
    simp only [stepIdle, List.append_nil]
    split
    · rfl
    · split <;> rfl
    · rfl
  | some span =>
    obtain ⟨start, latest⟩ := span
    cases ended : endFrame? limits start (segmenter.silenceAfter change) t change final with
    | some last =>
      refine ⟨[(start, last)], by simp [stepOpen, ended], ?_⟩
      intro start' latest' opened
      rw [current] at opened
      cases opened
      exact .inr ⟨last, [], rfl⟩
    | none =>
      refine ⟨[], ?_, ?_⟩
      · simp only [stepOpen, ended, List.append_nil]
        split <;> rfl
      · intro start' latest' opened
        rw [current] at opened
        cases opened
        refine .inl ⟨rfl, ?_⟩
        simp only [stepOpen, ended]
        split
        · exact ⟨latest, rfl⟩
        · exact ⟨t, rfl⟩

theorem steps_continues (limits : Limits) (segmenter : Segmenter) (rows : List RowState) (t : Int) :
    ∃ added, Continues segmenter (segmenter.steps limits rows t) added := by
  induction rows generalizing segmenter t with
  | nil => exact ⟨[], Continues.refl segmenter⟩
  | cons row rows inductionHypothesis =>
    obtain ⟨added, first⟩ := step_continues limits segmenter row t false
    obtain ⟨added', rest⟩ := inductionHypothesis (segmenter.step limits row t false) (t + 1)
    exact ⟨added ++ added', first.trans rest⟩

theorem endFrame?_final (limits : Limits) (start silence t : Int) (change : AudioChangeState) :
    ∃ last, endFrame? limits start silence t change true = some last := by
  unfold endFrame?
  split
  · exact ⟨_, rfl⟩
  · split
    · exact ⟨_, rfl⟩
    · exact ⟨_, rfl⟩

/-- The last frame closes an open segment, but it can also open one. -/
theorem step_final_current (limits : Limits) (segmenter : Segmenter) (row : RowState) (t : Int) :
    (segmenter.step limits row t true).current = none ↔
      ¬ (segmenter.current = none ∧
        (segmenter.window.detectOneFrame row.frameState).1 = .sil2Speech) := by
  unfold step
  generalize segmenter.window.detectOneFrame row.frameState = judged
  obtain ⟨change, window⟩ := judged
  cases current : segmenter.current with
  | none =>
    cases change <;> simp only [stepIdle] <;> [skip; skip; split; skip; skip; skip] <;> simp [current]
  | some span =>
    obtain ⟨last, ended⟩ := endFrame?_final limits span.1 (segmenter.silenceAfter change) t change
    simp [stepOpen, ended]

/-! ## The answer for what happened in between -/

/-- The entries of an answer: `open?` is whether a start is still to be completed. -/
def entries (added : List FrameSpan) (current : Option FrameSpan) : (open? : Bool) → List Segment
  | false => added.map FrameSpan.ms ++ current.toList.map FrameSpan.startMs
  | true =>
    match added with
    | [] => []
    | span :: rest => span.endMs :: (rest.map FrameSpan.ms ++ current.toList.map FrameSpan.startMs)

theorem reportOnline_entries (added : List FrameSpan) (current : Option FrameSpan) :
    reportOnline true (added.map closedBuf ++ current.toList.map openBuf) =
      (entries added current false, current.isNone, added.length) := by
  induction added with
  | nil =>
    cases current with
    | none => rfl
    | some span => rfl
  | cons span rest inductionHypothesis =>
    simp only [List.map_cons, List.cons_append, reportOnline, inductionHypothesis]
    simp [closedBuf, entries, FrameSpan.ms]

/-- The report over the buffers that earlier answers have not completed. -/
theorem Continues.reportOnline {before after : Segmenter} {added : List FrameSpan}
    (continues : Continues before after added) :
    E2EVadModel.reportOnline before.current.isNone (after.buffers.drop before.closed.length) =
      (entries added after.current before.current.isSome, after.current.isNone, added.length) := by
  have pending : after.buffers.drop before.closed.length =
      added.map closedBuf ++ after.current.toList.map openBuf := by
    rw [buffers, continues.closed, List.map_append, List.append_assoc,
      List.drop_left' (List.length_map _)]
  rw [pending]
  cases current : before.current with
  | none => exact reportOnline_entries added after.current
  | some span =>
    obtain ⟨start, latest⟩ := span
    rcases continues.opened start latest current with ⟨rfl, latest', opened⟩ | ⟨last, rest, rfl⟩
    · rw [opened]
      rfl
    · simp only [List.map_cons, List.cons_append, E2EVadModel.reportOnline,
        reportOnline_entries rest after.current]
      simp [closedBuf, entries, FrameSpan.endMs]

end Segmenter

/-! ## All answers so far -/

structure Transcript (answers : List Segment) (segmenter : Segmenter) (complete : List Segment) :
    Prop where
  protocol : OnlineProtocol complete
  joined : joinAnswers complete = segmenter.closed.map FrameSpan.ms
  answers : answers = complete ++ segmenter.current.toList.map FrameSpan.startMs

theorem Transcript.initial : Transcript [] Segmenter.initial [] := ⟨.nil, rfl, rfl⟩

theorem Transcript.entries {answers complete : List Segment} {before after : Segmenter}
    {added : List FrameSpan} (transcript : Transcript answers before complete)
    (continues : before.Continues after added)
    (ordered : ∀ span ∈ added, 0 ≤ span.1 ∧ span.1 < span.2) :
    ∃ complete', Transcript (answers ++ Segmenter.entries added after.current before.current.isSome)
      after complete' := by
  obtain ⟨protocol, joined, rfl⟩ := transcript
  cases current : before.current with
  | none =>
    obtain ⟨added_protocol, added_joined⟩ := onlineProtocol_map_ms ordered
    refine ⟨complete ++ added.map FrameSpan.ms, protocol.append added_protocol, ?_, ?_⟩
    · rw [protocol.join_append, joined, added_joined, continues.closed, List.map_append]
    · simp [Segmenter.entries]
  | some span =>
    obtain ⟨start, latest⟩ := span
    rcases continues.opened start latest current with ⟨rfl, latest', opened⟩ | ⟨last, rest, rfl⟩
    · refine ⟨complete, protocol, by rw [joined, continues.closed, List.append_nil], ?_⟩
      simp [Segmenter.entries, opened, FrameSpan.startMs]
    · obtain ⟨nonneg, longer⟩ := ordered (start, last) List.mem_cons_self
      obtain ⟨rest_protocol, rest_joined⟩ :=
        onlineProtocol_map_ms fun span member => ordered span (List.mem_cons_of_mem _ member)
      have split : OnlineProtocol (FrameSpan.startMs (start, latest) :: FrameSpan.endMs (start, last) ::
          rest.map FrameSpan.ms) :=
        .split (by simp only [frameInMs]; omega) (by simp only [frameInMs]; omega) rest_protocol
      refine ⟨complete ++ FrameSpan.startMs (start, latest) :: FrameSpan.endMs (start, last) ::
        rest.map FrameSpan.ms, protocol.append split, ?_, ?_⟩
      · rw [protocol.join_append, joined, FrameSpan.startMs, FrameSpan.endMs, joinAnswers_split,
          rest_joined, continues.closed, List.map_append, List.map_cons, FrameSpan.ms]
      · simp [Segmenter.entries, FrameSpan.startMs, FrameSpan.endMs]

end Asr2Pass.Vad
