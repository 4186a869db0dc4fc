import Asr2Pass.Vad.E2EVadModel
import Mathlib.Algebra.Order.Ring.Int

/-! # The segmenter

What the scorer is for, in its own terms: a machine over frames that keeps the segments closed
so far, the one that is open, and the first frame that no segment may claim any more.  It has
no sample buffer, no calls and no report.  `Valid` is the invariant that orders the segments;
`step_valid` is one frame, `steps_valid` a run.
-/

namespace Asr2Pass.Vad

open VADXOptions

/-- The two limits that a call sets. -/
structure Limits where
  maxEndSilFrameCntThresh : Int
  maxSingleSegmentTime : Int
deriving DecidableEq, Repr

/-- A segment in frames, first and last frame included. -/
abbrev FrameSpan := Int × Int

structure Segmenter where
  window : WindowDetector
  silence : Int
  free : Int
  current : Option FrameSpan
  closed : List FrameSpan
deriving DecidableEq, Repr

namespace Segmenter

def initial : Segmenter where
  window := WindowDetector.new windowSizeMs silToSpeechTimeThres speechToSilTimeThres frameInMs
  silence := 0
  free := 0
  current := none
  closed := []

/-- How far a start looks back: the window and 200 ms. -/
def latency : Int := 40

/-- The last frame of the open segment, when this frame ends it. -/
def endFrame? (limits : Limits) (start silence t : Int) (change : AudioChangeState)
    (final : Bool) : Option Int :=
  if change = .sil2Sil ∧ silence * frameInMs ≥ limits.maxEndSilFrameCntThresh then
    some (t - E2EVadModel.lookbackFrame limits.maxEndSilFrameCntThresh)
  else if t - start + 1 > limits.maxSingleSegmentTime.tdiv frameInMs then some t
  else if final then some t
  else none

def stepIdle (segmenter : Segmenter) (change : AudioChangeState) (window : WindowDetector) (t : Int)
    (final : Bool) : Segmenter :=
  match change with
  | .sil2Speech =>
    { segmenter with
      window, silence := 0, free := t + 1, current := some (max segmenter.free (t - latency), t) }
  | .sil2Sil =>
    if final ∧ segmenter.closed = [] then { segmenter with window := window.reset, silence := 0 }
    else { segmenter with
      window, silence := segmenter.silence + 1, free := max segmenter.free (t - latency) }
  | _ => { segmenter with window, silence := 0 }

/-- Silent frames in a row, this one included. -/
def silenceAfter (segmenter : Segmenter) (change : AudioChangeState) : Int :=
  if change = .sil2Sil then segmenter.silence + 1 else 0

def stepOpen (limits : Limits) (segmenter : Segmenter) (start latest silence : Int)
    (change : AudioChangeState) (window : WindowDetector) (t : Int) (final : Bool) : Segmenter :=
  match endFrame? limits start silence t change final with
  | some last =>
    { window := window.reset, silence := 0, free := last + 1, current := none,
      closed := segmenter.closed ++ [(start, last)] }
  | none =>
    if change = .sil2Sil ∧ silence > lookaheadTimeEndPoint / frameInMs then
      { segmenter with window, silence, current := some (start, latest) }
    else { segmenter with window, silence, free := t + 1, current := some (start, t) }

def step (limits : Limits) (segmenter : Segmenter) (row : RowState) (t : Int) (final : Bool) :
    Segmenter :=
  let (change, window) := segmenter.window.detectOneFrame row.frameState
  match segmenter.current with
  | none => segmenter.stepIdle change window t final
  | some (start, latest) => segmenter.stepOpen limits start latest
      (segmenter.silenceAfter change) change window t final

/-- The frames `t`, `t + 1`, .. of a call that is not the last one. -/
def steps (limits : Limits) (segmenter : Segmenter) : List RowState → Int → Segmenter
  | [], _ => segmenter
  | row :: rows, t => (segmenter.step limits row t false).steps limits rows (t + 1)

theorem steps_append (limits : Limits) (segmenter : Segmenter) (first second : List RowState)
    (t : Int) :
    segmenter.steps limits (first ++ second) t =
      (segmenter.steps limits first t).steps limits second (t + first.length) := by
  induction first generalizing segmenter t with
  | nil => simp [steps]
  | cons row rows inductionHypothesis =>
    simp only [List.cons_append, steps, inductionHypothesis, List.length_cons]
    congr 1
    push_cast
    ring

/-! ## The invariant -/

/-- The segments lie one after the other, each of at least two frames, from `0` to `limit`. -/
def Ordered : List FrameSpan → Int → Prop
  | [], _ => True
  | spans, limit => (∀ span ∈ spans, 0 ≤ span.1 ∧ span.1 < span.2 ∧ span.2 < limit) ∧
      spans.Pairwise fun earlier later => earlier.2 < later.1

theorem ordered_iff {spans : List FrameSpan} {limit : Int} :
    Ordered spans limit ↔ (∀ span ∈ spans, 0 ≤ span.1 ∧ span.1 < span.2 ∧ span.2 < limit) ∧
      spans.Pairwise fun earlier later => earlier.2 < later.1 := by
  cases spans with
  | nil => simp [Ordered]
  | cons span spans => rfl

theorem Ordered.mono {spans : List FrameSpan} {limit higher : Int} (ordered : Ordered spans limit)
    (bound : limit ≤ higher) : Ordered spans higher := by
  rw [ordered_iff] at *
  refine ⟨fun span member => ?_, ordered.2⟩
  have inside := ordered.1 span member
  omega

theorem Ordered.append {spans : List FrameSpan} {limit start last : Int}
    (ordered : Ordered spans limit) (nonneg : 0 ≤ start) (after : limit ≤ start)
    (longer : start < last) : Ordered (spans ++ [(start, last)]) (last + 1) := by
  rw [ordered_iff] at *
  obtain ⟨inside, apart⟩ := ordered
  refine ⟨fun span member => ?_, List.pairwise_append.mpr ⟨apart, List.pairwise_singleton _ _, ?_⟩⟩
  · cases List.mem_append.mp member with
    | inl old =>
      have bounds := inside span old
      omega
    | inr new =>
      rw [List.mem_singleton.mp new]
      exact ⟨nonneg, longer, by simp⟩
  · intro span old new member
    rw [List.mem_singleton.mp member]
    have bounds := inside span old
    simp only
    omega

/-- The state between the frames `t - 1` and `t`. -/
structure Valid (segmenter : Segmenter) (t : Int) : Prop where
  window : segmenter.window.WellFormed
  silence : 0 ≤ segmenter.silence
  free : 0 ≤ segmenter.free
  reached : segmenter.free ≤ t
  idle : segmenter.current = none →
    segmenter.window.preFrameState = .sil ∧ segmenter.free + segmenter.window.winSum ≤ t ∧
      Ordered segmenter.closed segmenter.free
  speaking : ∀ start latest, segmenter.current = some (start, latest) →
    0 ≤ start ∧ start < latest ∧ latest < t ∧ latest + segmenter.silence ≤ t + 9 ∧
      segmenter.free = latest + 1 ∧ Ordered segmenter.closed start

/-- Every closed segment starts at `0` or later and has two frames at least. -/
theorem Valid.spans {segmenter : Segmenter} {t : Int} (valid : segmenter.Valid t) :
    ∀ span ∈ segmenter.closed, 0 ≤ span.1 ∧ span.1 < span.2 ∧ span.2 < t := by
  intro span member
  cases current : segmenter.current with
  | none =>
    have inside := (ordered_iff.mp (valid.idle current).2.2).1 span member
    have reached := valid.reached
    omega
  | some opened =>
    obtain ⟨-, longer, before, -, -, ordered⟩ := valid.speaking opened.1 opened.2 current
    have inside := (ordered_iff.mp ordered).1 span member
    omega

theorem initial_valid : initial.Valid 0 where
  window := WindowDetector.new_wellFormed
  silence := by simp [initial]
  free := by simp [initial]
  reached := by simp [initial]
  idle := by
    intro
    exact ⟨rfl, by decide, trivial⟩
  speaking := by simp [initial]

/-- The end of a segment lies after the last frame that was popped into it, whatever limit
    ended it. -/
theorem endFrame?_bounds {limits : Limits} {start latest silence t last : Int}
    {change : AudioChangeState} {final : Bool} (before : latest < t)
    (recent : latest + silence ≤ t + 10)
    (ended : endFrame? limits start silence t change final = some last) :
    latest < last ∧ last ≤ t := by
  unfold endFrame? at ended
  split at ended
  · rename_i silent
    obtain ⟨-, long⟩ := silent
    have quotient : limits.maxEndSilFrameCntThresh.tdiv 10 ≤ max 0 silence := by
      rw [Int.tdiv_eq_ediv]
      simp only [frameInMs] at long
      split <;> [skip; rw [show Int.sign 10 = 1 from rfl]] <;> omega
    simp only [E2EVadModel.lookbackFrame, doExtend, lookaheadTimeEndPoint, frameInMs, if_true,
      Option.some.injEq] at ended
    push_cast at ended
    omega
  · split at ended
    · cases ended; omega
    · split at ended
      · cases ended; omega
      · cases ended

theorem stepIdle_valid {segmenter : Segmenter} {t : Int} (valid : segmenter.Valid t)
    (none : segmenter.current = none) {change : AudioChangeState} {window : WindowDetector}
    (changed : WindowDetector.Change segmenter.window.preFrameState change window)
    (kept : window.WellFormed) (sum : window.winSum ≤ segmenter.window.winSum + 1) (final : Bool) :
    (segmenter.stepIdle change window t final).Valid (t + 1) := by
  obtain ⟨silent, room, ordered⟩ := valid.idle none
  have nonneg := valid.free
  have reached := valid.reached
  have silence := valid.silence
  have sumNonneg := WindowDetector.winSum_nonneg kept
  have sumLe := WindowDetector.winSum_le kept
  rw [silent] at changed
  cases changed with
  | sil2Speech _ high =>
    refine ⟨kept, le_refl _, by simp only [stepIdle]; omega, le_refl _, by simp [stepIdle], ?_⟩
    intro start latest opened
    simp only [stepIdle, Option.some.injEq, Prod.mk.injEq] at opened ⊢
    obtain ⟨rfl, rfl⟩ := opened
    refine ⟨by omega, ?_, by omega, by omega, by omega, ordered.mono (le_max_left _ _)⟩
    simp only [latency]
    omega
  | sil2Sil silentNow =>
    simp only [stepIdle]
    split
    · refine ⟨WindowDetector.reset_wellFormed kept, le_refl _, nonneg, by simp only; omega, ?_,
        by simp [none]⟩
      intro
      refine ⟨rfl, ?_, ordered⟩
      simp only [WindowDetector.reset_winSum]
      omega
    · refine ⟨kept, by simp only; omega, by simp only; omega, ?_, ?_, by simp [none]⟩
      · simp only [latency]
        omega
      · intro
        refine ⟨silentNow, ?_, ordered.mono (le_max_left _ _)⟩
        simp only [latency]
        omega

theorem silenceAfter_bounds {segmenter : Segmenter} (nonneg : 0 ≤ segmenter.silence)
    (change : AudioChangeState) :
    0 ≤ segmenter.silenceAfter change ∧ segmenter.silenceAfter change ≤ segmenter.silence + 1 := by
  unfold silenceAfter
  split <;> omega

theorem silenceAfter_of_ne {segmenter : Segmenter} {change : AudioChangeState}
    (loud : change ≠ .sil2Sil) : segmenter.silenceAfter change = 0 := if_neg loud

theorem stepOpen_valid {limits : Limits} {segmenter : Segmenter} {t start latest : Int}
    (valid : segmenter.Valid t) (opened : segmenter.current = some (start, latest))
    {change : AudioChangeState} {window : WindowDetector} (kept : window.WellFormed)
    (final : Bool) :
    (segmenter.stepOpen limits start latest (segmenter.silenceAfter change) change window t
      final).Valid (t + 1) := by
  obtain ⟨nonneg, longer, before, recent, popped, ordered⟩ := valid.speaking start latest opened
  obtain ⟨counted, small⟩ := silenceAfter_bounds valid.silence change
  cases ended : endFrame? limits start (segmenter.silenceAfter change) t change final with
  | some last =>
    obtain ⟨after, reached⟩ := endFrame?_bounds before (by omega) ended
    simp only [stepOpen, ended]
    refine ⟨WindowDetector.reset_wellFormed kept, le_refl _, by simp only; omega,
      by simp only; omega, ?_, by simp⟩
    intro
    refine ⟨rfl, by simp only [WindowDetector.reset_winSum]; omega, ?_⟩
    exact ordered.append nonneg (le_refl _) (by omega)
  | none =>
    simp only [stepOpen, ended]
    split
    · refine ⟨kept, counted, by simp only; omega, by simp only; omega, by simp, ?_⟩
      intro start' latest' same
      cases same
      exact ⟨nonneg, longer, by omega, by simp only; omega, popped, ordered⟩
    · rename_i short
      refine ⟨kept, counted, by simp only; omega, le_refl _, by simp, ?_⟩
      intro start' latest' same
      cases same
      refine ⟨nonneg, by omega, by omega, ?_, rfl, ordered⟩
      simp only [lookaheadTimeEndPoint, frameInMs, not_and, not_lt] at short
      by_cases silent : change = .sil2Sil
      · have few := short silent
        simp only
        omega
      · simp only [silenceAfter_of_ne silent]
        omega

/-- One frame keeps the invariant. -/
theorem step_valid (limits : Limits) {segmenter : Segmenter} {t : Int} (valid : segmenter.Valid t)
    (row : RowState) (final : Bool) : (segmenter.step limits row t final).Valid (t + 1) := by
  obtain ⟨changed, kept, sum⟩ :=
    WindowDetector.detectOneFrame_change valid.window row.frameState_ne_invalid
  unfold step
  cases current : segmenter.current with
  | none => exact stepIdle_valid valid current changed kept sum final
  | some span => exact stepOpen_valid valid current kept final

theorem steps_valid (limits : Limits) {segmenter : Segmenter} (rows : List RowState) {t : Int}
    (valid : segmenter.Valid t) : (segmenter.steps limits rows t).Valid (t + rows.length) := by
  induction rows generalizing segmenter t with
  | nil => simpa [steps] using valid
  | cons row rows inductionHypothesis =>
    have next := inductionHypothesis (step_valid limits valid row false)
    rw [List.length_cons]
    push_cast
    rwa [add_comm (rows.length : Int) 1, ← add_assoc]

end Segmenter

end Asr2Pass.Vad
