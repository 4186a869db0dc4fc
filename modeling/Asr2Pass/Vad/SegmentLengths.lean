import Asr2Pass.Vad.OfflineSegments

/-! # How long a segment is

A start needs fifteen frames of speech behind the end of the last segment, so that a segment has
sixteen frames at least, whatever limits the calls set, and fifteen frames end one segment at most.
-/

namespace Asr2Pass.Vad.Segmenter

/-- The closed segments have sixteen frames at least, and the open one has fifteen so far. -/
structure Long (segmenter : Segmenter) : Prop where
  closed : ∀ span ∈ segmenter.closed, span.1 + 15 ≤ span.2
  current : ∀ start latest, segmenter.current = some (start, latest) → start + 14 ≤ latest

theorem Long.initial : Long initial :=
  ⟨nofun, nofun⟩

variable {segmenter : Segmenter} {t : Int}

theorem Long.stepIdle (long : segmenter.Long) (valid : segmenter.Valid t)
    (idle : segmenter.current = none) {change : AudioChangeState} {window : WindowDetector}
    (changed : WindowDetector.Change segmenter.window.preFrameState change window)
    (sum : window.winSum ≤ segmenter.window.winSum + 1) (final : Bool) :
    (segmenter.stepIdle change window t final).Long := by
  obtain ⟨silent, room, -⟩ := valid.idle idle
  have waiting : ∀ start latest, segmenter.current = some (start, latest) → start + 14 ≤ latest :=
    long.current
  rw [silent] at changed
  cases changed with
  | sil2Speech _ high =>
    refine ⟨long.closed, ?_⟩
    intro start latest opened
    simp only [Segmenter.stepIdle, Option.some.injEq, Prod.mk.injEq] at opened
    obtain ⟨rfl, rfl⟩ := opened
    simp only [latency]
    omega
  | sil2Sil =>
    simp only [Segmenter.stepIdle]
    split
    · exact ⟨long.closed, waiting⟩
    · exact ⟨long.closed, waiting⟩

theorem Long.stepOpen (long : segmenter.Long) (valid : segmenter.Valid t) (limits : Limits)
    {start latest : Int} (opened : segmenter.current = some (start, latest))
    (change : AudioChangeState) (window : WindowDetector) (final : Bool) :
    (segmenter.stepOpen limits start latest (segmenter.silenceAfter change) change window t
      final).Long := by
  obtain ⟨-, -, before, recent, -, -⟩ := valid.speaking start latest opened
  obtain ⟨-, small⟩ := silenceAfter_bounds valid.silence change
  have fifteen := long.current start latest opened
  cases ended : endFrame? limits start (segmenter.silenceAfter change) t change final with
  | some last =>
    obtain ⟨after, -⟩ := endFrame?_bounds before (by omega) ended
    simp only [Segmenter.stepOpen, ended]
    refine ⟨fun span member => ?_, fun _ _ opened => absurd opened.symm (Option.some_ne_none _)⟩
    cases List.mem_append.mp member with
    | inl old => exact long.closed span old
    | inr new =>
      obtain rfl := List.mem_singleton.mp new
      simp only
      omega
  | none =>
    simp only [Segmenter.stepOpen, ended]
    split
    · refine ⟨long.closed, fun start' latest' same => ?_⟩
      cases same
      exact fifteen
    · refine ⟨long.closed, fun start' latest' same => ?_⟩
      cases same
      omega

/-- One frame. -/
theorem Long.step (long : segmenter.Long) (valid : segmenter.Valid t) (limits : Limits)
    (row : RowState) (final : Bool) : (segmenter.step limits row t final).Long := by
  obtain ⟨changed, -, sum⟩ :=
    WindowDetector.detectOneFrame_change valid.window row.frameState_ne_invalid
  unfold Segmenter.step
  cases current : segmenter.current with
  | none => exact long.stepIdle valid current changed sum final
  | some span => exact long.stepOpen valid limits current _ _ final

theorem Long.steps (long : segmenter.Long) (valid : segmenter.Valid t) (limits : Limits)
    (rows : List RowState) : (segmenter.steps limits rows t).Long := by
  induction rows generalizing segmenter t with
  | nil => exact long
  | cons row rows inductionHypothesis =>
    exact inductionHypothesis (long.step valid limits row false) (step_valid limits valid row false)

variable {α : Type} {frame : Nat}

theorem Long.stepCall (long : segmenter.Long) (valid : segmenter.Valid frame) (call : Call α) :
    (segmenter.stepCall frame call).Long :=
  long.steps valid call.limits call.rows

theorem Long.stepFinal (long : segmenter.Long) (valid : segmenter.Valid frame) (call : Call α) :
    (segmenter.stepFinal frame call).Long :=
  (long.steps valid call.limits call.rows.dropLast).step (stepButLast_valid valid call) call.limits
    call.lastRow true

/-! ## How often a segment ends -/

/-- No segment has ended since `before`; or one has, and the window cannot fill within `left` frames. -/
def Once (before after : Segmenter) (left : Nat) : Prop :=
  after.closed.length ≤ before.closed.length ∨
    after.closed.length ≤ before.closed.length + 1 ∧ after.current = none ∧
      after.window.winSum + left ≤ 14

variable {before : Segmenter} {left : Nat}

theorem Once.closed_length (once : before.Once segmenter left) :
    segmenter.closed.length ≤ before.closed.length + 1 := by
  cases once with
  | inl none => omega
  | inr one => exact one.1

theorem Once.stepIdle (once : before.Once segmenter (left + 1)) (valid : segmenter.Valid t)
    (idle : segmenter.current = none) {change : AudioChangeState} {window : WindowDetector}
    (changed : WindowDetector.Change segmenter.window.preFrameState change window)
    (sum : window.winSum ≤ segmenter.window.winSum + 1) (final : Bool) :
    before.Once (segmenter.stepIdle change window t final) left := by
  obtain ⟨silent, -, -⟩ := valid.idle idle
  have nonneg := WindowDetector.winSum_nonneg valid.window
  rw [silent] at changed
  cases changed with
  | sil2Speech _ high =>
    cases once with
    | inl none => exact .inl none
    | inr one =>
      obtain ⟨-, -, few⟩ := one
      omega
  | sil2Sil =>
    simp only [Segmenter.stepIdle]
    split
    · refine once.imp id fun one => ⟨one.1, idle, ?_⟩
      have few := one.2.2
      rw [WindowDetector.reset_winSum]
      omega
    · refine once.imp id fun one => ⟨one.1, idle, ?_⟩
      have few := one.2.2
      simp only
      omega

theorem Once.stepOpen (once : before.Once segmenter (left + 1)) (few : left ≤ 14) (limits : Limits)
    {start latest : Int} (opened : segmenter.current = some (start, latest)) (silence : Int)
    (change : AudioChangeState) (window : WindowDetector) (final : Bool) :
    before.Once (segmenter.stepOpen limits start latest silence change window t final) left := by
  have none : segmenter.closed.length ≤ before.closed.length := by
    refine once.resolve_right fun one => ?_
    have idle := one.2.1
    rw [opened] at idle
    cases idle
  cases ended : endFrame? limits start silence t change final with
  | some last =>
    simp only [Segmenter.stepOpen, ended]
    refine .inr ⟨?_, rfl, ?_⟩
    · rw [List.length_append, List.length_singleton]
      omega
    · rw [WindowDetector.reset_winSum]
      omega
  | none =>
    simp only [Segmenter.stepOpen, ended]
    split
    · exact .inl none
    · exact .inl none

/-- One frame. -/
theorem Once.step (once : before.Once segmenter (left + 1)) (few : left ≤ 14)
    (valid : segmenter.Valid t) (limits : Limits) (row : RowState) (final : Bool) :
    before.Once (segmenter.step limits row t final) left := by
  obtain ⟨changed, -, sum⟩ :=
    WindowDetector.detectOneFrame_change valid.window row.frameState_ne_invalid
  unfold Segmenter.step
  cases current : segmenter.current with
  | none => exact once.stepIdle valid current changed sum final
  | some span => exact once.stepOpen few limits current _ _ _ final

theorem Once.steps (rows : List RowState) (once : before.Once segmenter (rows.length + left))
    (few : rows.length + left ≤ 15) (valid : segmenter.Valid t) (limits : Limits) :
    before.Once (segmenter.steps limits rows t) left := by
  induction rows generalizing segmenter t with
  | nil =>
    rw [List.length_nil, Nat.zero_add] at once
    exact once
  | cons row rows inductionHypothesis =>
    rw [List.length_cons, Nat.add_right_comm] at once few
    exact inductionHypothesis (once.step (by omega) valid limits row false) (by omega)
      (step_valid limits valid row false)

/-- A call of fifteen frames ends one segment at most. -/
theorem stepCall_closed_length (valid : segmenter.Valid frame) (call : Call α)
    (few : call.rows.length ≤ 15) :
    (segmenter.stepCall frame call).closed.length ≤ segmenter.closed.length + 1 :=
  (@Once.steps _ _ _ 0 call.rows (.inl le_rfl) few valid call.limits).closed_length

theorem stepFinal_closed_length (valid : segmenter.Valid frame) (call : Call α)
    (few : call.rows.length ≤ 15) :
    (segmenter.stepFinal frame call).closed.length ≤ segmenter.closed.length + 1 := by
  have count := List.length_pos_of_ne_nil call.nonempty
  have butLast : segmenter.Once (segmenter.stepButLast frame call) 1 :=
    Once.steps _ (.inl le_rfl) (by rw [List.length_dropLast]; omega) valid call.limits
  exact (butLast.step (Nat.zero_le _) (stepButLast_valid valid call) call.limits call.lastRow
    true).closed_length

end Asr2Pass.Vad.Segmenter
