import Asr2Pass.Vad.OfflineSegments

/-! # How far a start looks back

A segment that a call opens starts at most `latency` frames before the first frame of the call.
-/

namespace Asr2Pass.Vad.Segmenter

/-- A segment of `after` was opened before, or starts at most `latency` frames before `since`. -/
def StartsSince (since : Int) (before after : Segmenter) : Prop :=
  ∀ span ∈ after.spans, (∃ earlier ∈ before.spans, earlier.1 = span.1) ∨ since ≤ span.1 + latency

theorem StartsSince.refl (since : Int) (segmenter : Segmenter) : segmenter.StartsSince since segmenter :=
  fun span member => .inl ⟨span, member, rfl⟩

theorem StartsSince.trans {since later : Int} {first second third : Segmenter} (order : since ≤ later)
    (left : first.StartsSince since second) (right : second.StartsSince later third) :
    first.StartsSince since third := by
  intro span member
  rcases right span member with ⟨middle, old, same⟩ | recent
  · rw [← same]
    exact left middle old
  · exact .inr (order.trans recent)

theorem step_startsSince (limits : Limits) (segmenter : Segmenter) (row : RowState) (t : Int)
    (final : Bool) : segmenter.StartsSince t (segmenter.step limits row t final) := by
  intro span member
  unfold step at member
  generalize segmenter.window.detectOneFrame row.frameState = judged at member
  obtain ⟨change, window⟩ := judged
  cases current : segmenter.current with
  | none =>
    have kept : ∀ after : Segmenter, after.closed = segmenter.closed → after.current = none →
        span ∈ after.spans → ∃ earlier ∈ segmenter.spans, earlier.1 = span.1 := by
      intro after closed none member
      refine ⟨span, ?_, rfl⟩
      rwa [spans, closed, none, ← current, ← spans] at member
    simp only [current] at member
    cases change with
    | sil2Speech =>
      cases List.mem_append.mp member with
      | inl old => exact .inl ⟨span, List.mem_append_left _ old, rfl⟩
      | inr new =>
        obtain rfl := List.mem_singleton.mp new
        exact .inr (by simp only [latency]; omega)
    | sil2Sil =>
      simp only [stepIdle] at member
      split at member
      · exact .inl (kept _ rfl current member)
      · exact .inl (kept _ rfl current member)
    | _ => exact .inl (kept _ rfl current member)
  | some opened =>
    obtain ⟨start, latest⟩ := opened
    have opening : (start, latest) ∈ segmenter.spans :=
      List.mem_append_right _ (by rw [current]; exact List.mem_singleton_self _)
    simp only [current] at member
    cases ended : endFrame? limits start (segmenter.silenceAfter change) t change final with
    | some last =>
      simp only [stepOpen, ended, spans, Option.toList_none, List.append_nil] at member
      cases List.mem_append.mp member with
      | inl old => exact .inl ⟨span, List.mem_append_left _ old, rfl⟩
      | inr new =>
        obtain rfl := List.mem_singleton.mp new
        exact .inl ⟨_, opening, rfl⟩
    | none =>
      simp only [stepOpen, ended] at member
      split at member
      · cases List.mem_append.mp member with
        | inl old => exact .inl ⟨span, List.mem_append_left _ old, rfl⟩
        | inr new =>
          obtain rfl := List.mem_singleton.mp new
          exact .inl ⟨_, opening, rfl⟩
      · cases List.mem_append.mp member with
        | inl old => exact .inl ⟨span, List.mem_append_left _ old, rfl⟩
        | inr new =>
          obtain rfl := List.mem_singleton.mp new
          exact .inl ⟨_, opening, rfl⟩

theorem steps_startsSince (limits : Limits) (segmenter : Segmenter) (rows : List RowState) (t : Int) :
    segmenter.StartsSince t (segmenter.steps limits rows t) := by
  induction rows generalizing segmenter t with
  | nil => exact .refl t segmenter
  | cons row rows inductionHypothesis =>
    have later := inductionHypothesis (segmenter.step limits row t false) (t + 1)
    exact (step_startsSince limits segmenter row t false).trans (by omega) later

variable {α : Type}

theorem stepCall_startsSince (segmenter : Segmenter) (t : Nat) (call : Call α) :
    segmenter.StartsSince t (segmenter.stepCall t call) :=
  steps_startsSince call.limits segmenter call.rows t

theorem stepFinal_startsSince (segmenter : Segmenter) (t : Nat) (call : Call α) :
    segmenter.StartsSince t (segmenter.stepFinal t call) := by
  have rows := call.rows_pos
  have common := steps_startsSince call.limits segmenter call.rows.dropLast t
  have last := step_startsSince call.limits (segmenter.stepButLast t call) call.lastRow
    (t + call.rows.length - 1 : Nat) true
  exact common.trans (by omega) last

end Asr2Pass.Vad.Segmenter
