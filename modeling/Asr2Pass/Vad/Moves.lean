import Asr2Pass.Vad.OnlineAnswers
import Asr2Pass.Vad.SlidingWindow

/-! # What one frame does to the segmenter

`Moves` lists it once.  The window is read through its latest frames: `Trailing` says how many of
them are of one kind.
-/

namespace Asr2Pass.Vad

open VADXOptions Library

/-! ## The latest frames of a window -/

namespace WindowDetector

variable {detector : WindowDetector}

/-- The last `count` frames since a reset were all `state`. -/
def Trailing (detector : WindowDetector) (state : Int) (count : Nat) : Prop :=
  ∃ written, detector.Counts (written ++ List.replicate count state) ∧
    ∀ entry ∈ written, 0 ≤ entry ∧ entry ≤ 1

theorem WellFormed.trailing (wellFormed : detector.WellFormed) (state : Int) :
    detector.Trailing state 0 := by
  have size := length_oldestFirst detector.winState detector.curWinPos
  have inside : detector.curWinPos < detector.winState.length := by
    rw [wellFormed.length]
    exact wellFormed.position
  refine ⟨oldestFirst detector.winState detector.curWinPos, ⟨⟨inside, ?_⟩, wellFormed.sum, ?_⟩, ?_⟩
  · rw [List.replicate_zero, List.append_nil, size, Nat.sub_self, List.drop_zero]
  · rw [wellFormed.length, wellFormed.size]
  · intro entry member
    refine wellFormed.binary entry ?_
    cases List.mem_append.mp member with
    | inl later => exact List.mem_of_mem_drop later
    | inr earlier => exact List.mem_of_mem_take earlier

/-- One more frame of the kind. -/
theorem Trailing.detectOneFrame {frameState : FrameState} {count : Nat}
    (trailing : detector.Trailing (code frameState) count) (decided : frameState ≠ .invalid) :
    (detector.detectOneFrame frameState).2.Trailing (code frameState) (count + 1) := by
  obtain ⟨written, counts, binary⟩ := trailing
  obtain ⟨counts', -⟩ := counts.detectOneFrame frameState
  have kept : valid [frameState] = [frameState] := by simp [valid, decided]
  refine ⟨written, ?_, binary⟩
  rw [kept, List.map_singleton, List.append_assoc, ← List.replicate_succ'] at counts'
  exact counts'

/-- The sum is that of the trailing frames and of the others in the window. -/
theorem Trailing.winSum {state : Int} {count : Nat} (wellFormed : detector.WellFormed)
    (trailing : detector.Trailing state count) (few : count ≤ 20) :
    count * state ≤ detector.winSum ∧ detector.winSum ≤ 20 - count + count * state := by
  obtain ⟨written, counts, binary⟩ := trailing
  have entries := counts.recent.entries
  have size := congrArg List.length entries
  rw [length_oldestFirst, List.length_drop, List.length_append, List.length_replicate,
    wellFormed.length] at size
  rw [wellFormed.length, List.length_append, List.length_replicate,
    List.drop_append_of_le_length (by omega)] at entries
  have sum := sum_oldestFirst detector.winState detector.curWinPos
  rw [entries, List.sum_append, List.sum_replicate, ← counts.sum] at sum
  have others : ∀ entry ∈ written.drop (written.length + count - 20), 0 ≤ entry ∧ entry ≤ 1 :=
    fun entry member => binary entry (List.mem_of_mem_drop member)
  have low := List.sum_nonneg fun entry member => (others entry member).1
  have high := List.sum_le_card_nsmul (written.drop (written.length + count - 20)) 1
    fun entry member => (others entry member).2
  simp only [List.length_drop, nsmul_eq_mul] at high sum
  omega

theorem reset_trailing (wellFormed : detector.WellFormed) (count : Nat) :
    detector.reset.Trailing 0 count := by
  have size := wellFormed.size
  obtain ⟨recent, sum, length⟩ := Counts.reset (by omega : 1 ≤ detector.winSizeFrame)
  refine ⟨List.replicate detector.winSizeFrame 0, ⟨⟨recent.inside, ?_⟩, sum, length⟩, ?_⟩
  · have same : detector.reset.winSizeFrame = detector.winSizeFrame := rfl
    rw [recent.entries, ← List.replicate_add, List.drop_replicate, List.drop_replicate, length, same,
      List.length_replicate, List.length_replicate, Nat.sub_self, Nat.sub_zero, Nat.add_sub_cancel_left,
      Nat.add_sub_cancel]
  · intro entry member
    rw [List.eq_of_mem_replicate member]
    omega

theorem Trailing.anti {count fewer : Nat} (le : fewer ≤ count)
    (trailing : detector.Trailing 0 count) : detector.Trailing 0 fewer := by
  obtain ⟨written, counts, binary⟩ := trailing
  refine ⟨written ++ List.replicate (count - fewer) 0, ?_, ?_⟩
  · rwa [List.append_assoc, ← List.replicate_add, Nat.sub_add_cancel le]
  · intro entry member
    cases List.mem_append.mp member with
    | inl earlier => exact binary entry earlier
    | inr silent =>
      rw [List.eq_of_mem_replicate silent]
      omega

/-- What silent frames leave of the sum. -/
theorem Trailing.silent {count : Nat} (wellFormed : detector.WellFormed)
    (trailing : detector.Trailing 0 count) : detector.winSum ≤ 20 - min count 20 := by
  have few := (Trailing.winSum wellFormed
    (Trailing.anti (min_le_left count 20) trailing) (min_le_right _ _)).2
  omega

/-- The change of a frame, and the side of the thresholds on which the sum is then. -/
theorem detectOneFrame_sum {frameState : FrameState} (wellFormed : detector.WellFormed)
    (decided : frameState ≠ .invalid) :
    ((detector.detectOneFrame frameState).1 = .sil2Sil →
        (detector.detectOneFrame frameState).2.winSum < 15) ∧
      ((detector.detectOneFrame frameState).1 = .sil2Speech →
        15 ≤ (detector.detectOneFrame frameState).2.winSum) ∧
      ((detector.detectOneFrame frameState).2.winSum < 15 →
        (detector.detectOneFrame frameState).2.preFrameState = .sil) := by
  have pushed : ∀ state : Int, 0 ≤ state → state ≤ 1 →
      ((detector.push state).judge.1 = .sil2Sil → (detector.push state).judge.2.winSum < 15) ∧
        ((detector.push state).judge.1 = .sil2Speech → 15 ≤ (detector.push state).judge.2.winSum) ∧
        ((detector.push state).judge.2.winSum < 15 →
          (detector.push state).judge.2.preFrameState = .sil) := by
    intro state nonneg small
    rcases judge_cases (push_wellFormed wellFormed nonneg small) with
      ⟨pre, high, judged⟩ | ⟨pre, low, judged⟩ | ⟨pre, low, judged⟩ | ⟨pre, high, judged⟩
    · rw [judged]
      exact ⟨nofun, fun _ => high, fun low => absurd low (not_lt.mpr high)⟩
    · rw [judged]
      exact ⟨fun _ => low, nofun, fun _ => pre⟩
    · rw [judged]
      exact ⟨nofun, nofun, fun _ => rfl⟩
    · rw [judged]
      exact ⟨nofun, nofun, fun low => absurd low (not_lt.mpr high.le)⟩
  cases frameState with
  | invalid => exact absurd rfl decided
  | speech => exact pushed 1 (by omega) (by omega)
  | sil => exact pushed 0 (by omega) (by omega)

end WindowDetector

/-! ## One frame -/

namespace Segmenter

variable {limits : Limits} {segmenter : Segmenter} {change : AudioChangeState}
  {window : WindowDetector} {t : Int} {final : Bool}

/-- An end before this frame is one by silence. -/
theorem endFrame?_silent {start silence last : Int}
    (ended : endFrame? limits start silence t change final = some last) (earlier : last < t) :
    change = .sil2Sil := by
  unfold endFrame? at ended
  split at ended
  · rename_i silent
    exact silent.1
  · split at ended
    · cases ended
      omega
    · split at ended
      · cases ended
        omega
      · cases ended

/-- The end of a segment lies behind the last frame that it had. -/
theorem Valid.endFrame? {start latest last : Int} (valid : segmenter.Valid t)
    (opened : segmenter.current = some (start, latest))
    (ended : Segmenter.endFrame? limits start (segmenter.silenceAfter change) t change final =
      some last) : start < latest ∧ latest < last ∧ last ≤ t := by
  obtain ⟨nonneg, longer, before, recent, -, -⟩ := valid.speaking start latest opened
  obtain ⟨-, counted⟩ := silenceAfter_bounds valid.silence change
  exact ⟨longer, endFrame?_bounds before (by omega) ended⟩

/-- From `segmenter` to `after` with a frame that the window reports as `change`. -/
inductive Moves (limits : Limits) (segmenter : Segmenter) (change : AudioChangeState)
    (window : WindowDetector) (t : Int) (final : Bool) (after : Segmenter) : Prop
  | waits : segmenter.current = none → change = .sil2Sil → after.current = none →
      after.closed = segmenter.closed → after.free = max segmenter.free (t - latency) →
      after.window = window → Moves limits segmenter change window t final after
  | stops : segmenter.current = none → change = .sil2Sil → final = true → after.current = none →
      after.closed = segmenter.closed → after.window = window.reset →
      Moves limits segmenter change window t final after
  | opens : segmenter.current = none → change = .sil2Speech →
      after.current = some (max segmenter.free (t - latency), t) →
      after.closed = segmenter.closed → after.window = window →
      Moves limits segmenter change window t final after
  | keeps {start latest latest' : Int} : segmenter.current = some (start, latest) →
      endFrame? limits start (segmenter.silenceAfter change) t change final = none →
      after.current = some (start, latest') →
      latest' = t ∨ change = .sil2Sil ∧ latest' = latest → after.closed = segmenter.closed →
      after.silence = segmenter.silenceAfter change → after.window = window →
      Moves limits segmenter change window t final after
  | closes {start latest last : Int} : segmenter.current = some (start, latest) →
      endFrame? limits start (segmenter.silenceAfter change) t change final = some last →
      after.current = none → after.closed = segmenter.closed ++ [(start, last)] →
      after.free = last + 1 → after.window = window.reset →
      Moves limits segmenter change window t final after

theorem step_moves (limits : Limits) (valid : segmenter.Valid t) (row : RowState) (final : Bool) :
    Moves limits segmenter (segmenter.window.detectOneFrame row.frameState).1
      (segmenter.window.detectOneFrame row.frameState).2 t final
      (segmenter.step limits row t final) := by
  obtain ⟨changed, -, -⟩ :=
    WindowDetector.detectOneFrame_change valid.window row.frameState_ne_invalid
  unfold step
  generalize segmenter.window.detectOneFrame row.frameState = judged at changed ⊢
  obtain ⟨change, window⟩ := judged
  simp only at changed ⊢
  cases current : segmenter.current with
  | none =>
    rw [(valid.idle current).1] at changed
    cases changed with
    | sil2Speech voiced high => exact .opens current rfl rfl rfl rfl
    | sil2Sil silent =>
      simp only [stepIdle]
      split
      next last => exact .stops current rfl last.1 current rfl rfl
      next => exact .waits current rfl current rfl rfl rfl
  | some span =>
    obtain ⟨start, latest⟩ := span
    simp only [stepOpen]
    split
    next last ended => exact .closes current ended rfl rfl rfl rfl
    next going =>
      split
      next silent =>
        exact .keeps current going rfl (.inr ⟨silent.1, rfl⟩) rfl rfl rfl
      next => exact .keeps current going rfl (.inl rfl) rfl rfl rfl

end Segmenter

end Asr2Pass.Vad
