import Asr2Pass.Vad.Moves
import Asr2Pass.Vad.OfflineSegments

/-! # What is found, and what is left out

A frame with which 29 speech frames begin is in a segment: an old segment can still end while the
first 14 of them fill the window, and 15 in a window that is reset then open a new one.  A silent
frame is in no segment when enough silence lies before it to end any segment, and enough behind it
that no later start looks back to it.
-/

namespace Asr2Pass.Vad

open VADXOptions E2EVadModel

namespace Segmenter

/-! ## Any run of frames -/

/-- Frames with the limits of their calls. -/
def stepEach (segmenter : Segmenter) : List (Limits × RowState) → Int → Segmenter
  | [], _ => segmenter
  | (limits, row) :: rest, t => (segmenter.step limits row t false).stepEach rest (t + 1)

theorem stepEach_append (segmenter : Segmenter) (first second : List (Limits × RowState)) (t : Int) :
    segmenter.stepEach (first ++ second) t =
      (segmenter.stepEach first t).stepEach second (t + first.length) := by
  induction first generalizing segmenter t with
  | nil => simp [stepEach]
  | cons frame rest inductionHypothesis =>
    simp only [List.cons_append, stepEach, inductionHypothesis, List.length_cons]
    congr 1
    push_cast
    ring

theorem stepEach_valid {segmenter : Segmenter} (frames : List (Limits × RowState)) {t : Int}
    (valid : segmenter.Valid t) : (segmenter.stepEach frames t).Valid (t + frames.length) := by
  induction frames generalizing segmenter t with
  | nil => simpa [stepEach] using valid
  | cons frame rest inductionHypothesis =>
    have next := inductionHypothesis (step_valid frame.1 valid frame.2 false)
    rw [List.length_cons]
    push_cast
    rwa [add_comm (rest.length : Int) 1, ← add_assoc]

theorem steps_each (limits : Limits) (segmenter : Segmenter) (rows : List RowState) (t : Int) :
    segmenter.steps limits rows t = segmenter.stepEach (rows.map (limits, ·)) t := by
  induction rows generalizing segmenter t with
  | nil => rfl
  | cons row rows inductionHypothesis =>
    simp only [List.map_cons, steps, stepEach, inductionHypothesis]

section
variable {α : Type}

/-- The frames of the calls. -/
def judged (calls : List (Call α)) : List (Limits × RowState) :=
  calls.flatMap fun call => call.rows.map (call.limits, ·)

theorem judged_cons (call : Call α) (calls : List (Call α)) :
    judged (call :: calls) = call.rows.map (call.limits, ·) ++ judged calls :=
  List.flatMap_cons

theorem stepCalls_each (calls : List (Call α)) (segmenter : Segmenter) (t : Nat) :
    segmenter.stepCalls t calls = segmenter.stepEach (judged calls) t := by
  induction calls generalizing segmenter t with
  | nil => rfl
  | cons call calls inductionHypothesis =>
    rw [stepCalls, inductionHypothesis, stepCall, steps_each, judged_cons, stepEach_append,
      List.length_map]
    push_cast
    rfl

/-- All frames of a recording but the last one. -/
def butLast (calls : List (Call α)) (last : Call α) : List (Limits × RowState) :=
  judged calls ++ last.rows.dropLast.map (last.limits, ·)

theorem length_judged (calls : List (Call α)) : (judged calls).length = (Vad.frames calls).length := by
  induction calls with
  | nil => rfl
  | cons call calls inductionHypothesis =>
    rw [frames_cons, List.length_append, ← inductionHypothesis, judged_cons, List.length_append,
      List.length_map]

/-- A recording is a run of frames, the last of which is final. -/
theorem recording_each (calls : List (Call α)) (last : Call α) :
    recording calls last = (initial.stepEach (butLast calls last) 0).step last.limits last.lastRow
      (butLast calls last).length true := by
  have rows := last.rows_pos
  have position : ((Vad.frames calls).length + last.rows.length - 1 : Nat) =
      (butLast calls last).length := by
    rw [butLast, List.length_append, length_judged, List.length_map, List.length_dropLast]
    omega
  rw [recording, stepFinal, stepButLast, position, stepCalls_each, steps_each, butLast,
    stepEach_append, length_judged]
  simp

theorem butLast_rows (calls : List (Call α)) (last : Call α) :
    (butLast calls last ++ [(last.limits, last.lastRow)]).map Prod.snd =
      Vad.frames (calls ++ [last]) := by
  have own : (last.rows.dropLast.map (last.limits, ·)).map Prod.snd ++ [last.lastRow] = last.rows := by
    rw [List.map_map]
    change last.rows.dropLast.map id ++ _ = _
    rw [List.map_id]
    exact last.rows_eq.symm
  have others : (judged calls).map Prod.snd = Vad.frames calls := by
    rw [judged, List.map_flatMap, Vad.frames]
    refine List.flatMap_congr fun call _ => ?_
    rw [List.map_map]
    exact List.map_id _
  rw [butLast, List.append_assoc, List.map_append, others, List.map_append, List.map_singleton, own,
    Vad.frames, Vad.frames, List.flatMap_append, List.flatMap_singleton]

/-- The limits of a frame are those of its call. -/
theorem butLast_limits {calls : List (Call α)} {last : Call α} {frame : Limits × RowState}
    (member : frame ∈ butLast calls last ++ [(last.limits, last.lastRow)]) :
    ∃ call ∈ calls ++ [last], frame.1 = call.limits := by
  rw [butLast, List.append_assoc] at member
  cases List.mem_append.mp member with
  | inl earlier =>
    obtain ⟨call, among, own⟩ := List.mem_flatMap.mp earlier
    obtain ⟨row, -, rfl⟩ := List.mem_map.mp own
    exact ⟨call, List.mem_append_left _ among, rfl⟩
  | inr final =>
    refine ⟨last, List.mem_append_right _ (List.mem_singleton_self _), ?_⟩
    cases List.mem_append.mp final with
    | inl own =>
      obtain ⟨row, -, rfl⟩ := List.mem_map.mp own
      rfl
    | inr lastOne => rw [List.mem_singleton.mp lastOne]

theorem recording_valid (calls : List (Call α)) (last : Call α) :
    (recording calls last).Valid ((butLast calls last).length + 1) := by
  have valid := stepEach_valid (butLast calls last) initial_valid
  rw [zero_add] at valid
  rw [recording_each]
  exact step_valid last.limits valid last.lastRow true

end

/-- A run up to frame `x`, the frames `x` to `x + count - 1`, and what is left. -/
theorem stepEach_parts (segmenter : Segmenter) {frames : List (Limits × RowState)} {x : Nat}
    (inside : x ≤ frames.length) (count : Nat) :
    segmenter.stepEach frames 0 =
      ((segmenter.stepEach (frames.take x) 0).stepEach ((frames.drop x).take count) x).stepEach
        (frames.drop (x + count)) (x + ((frames.drop x).take count).length) := by
  have whole : frames = frames.take x ++ ((frames.drop x).take count ++ frames.drop (x + count)) := by
    rw [← List.drop_drop, List.take_append_drop, List.take_append_drop]
  have early : (frames.take x).length = x := List.length_take_of_le inside
  conv_lhs => rw [whole, stepEach_append, stepEach_append, early, zero_add]

/-- The frames `x` to `x + count - 1` of a run are all of one kind. -/
theorem window_rows {frames : List (Limits × RowState)} {last : Limits × RowState} {x count : Nat}
    {row : RowState} (same : ∀ k < count, ((frames ++ [last]).map Prod.snd)[x + k]? = some row) :
    ∀ frame ∈ (frames.drop x).take count, frame.2 = row := by
  intro frame member
  obtain ⟨k, found⟩ := List.mem_iff_getElem?.mp member
  have index := (List.getElem?_eq_some_iff.mp found).1
  rw [List.length_take] at index
  rw [List.getElem?_take_of_lt (by omega), List.getElem?_drop] at found
  have kind := same k (by omega)
  have within := (List.getElem?_eq_some_iff.mp found).1
  rw [List.getElem?_map, List.getElem?_append_left within, found] at kind
  exact Option.some.inj kind

/-! ## A frame that is found -/

/-- The frame is in a segment. -/
def Covers (segmenter : Segmenter) (x : Int) : Prop :=
  ∃ span ∈ segmenter.spans, span.1 ≤ x ∧ x ≤ span.2

variable {segmenter : Segmenter} {x t : Int} {limits : Limits} {row : RowState} {final : Bool}

theorem covers_current {start latest : Int} (opened : segmenter.current = some (start, latest))
    (after : start ≤ x) (before : x ≤ latest) : segmenter.Covers x :=
  ⟨(start, latest), List.mem_append_right _ (by rw [opened]; exact List.mem_singleton_self _), after,
    before⟩

theorem covers_closed {span : FrameSpan} (closed : span ∈ segmenter.closed) (after : span.1 ≤ x)
    (before : x ≤ span.2) : segmenter.Covers x :=
  ⟨span, List.mem_append_left _ closed, after, before⟩

theorem closed_step {span : FrameSpan} (closed : span ∈ segmenter.closed) (limits : Limits)
    (row : RowState) (t : Int) (final : Bool) : span ∈ (segmenter.step limits row t final).closed := by
  obtain ⟨added, continues⟩ := step_continues limits segmenter row t final
  rw [continues.closed]
  exact List.mem_append_left _ closed

/-- A segment keeps its frames. -/
theorem Covers.step (covers : segmenter.Covers x) (valid : segmenter.Valid t) (limits : Limits)
    (row : RowState) (final : Bool) : (segmenter.step limits row t final).Covers x := by
  obtain ⟨⟨start, last⟩, member, after, before⟩ := covers
  have moves := step_moves limits valid row final
  cases List.mem_append.mp member with
  | inl closed =>
    exact @covers_closed _ _ (start, last) (closed_step closed limits row t final) after before
  | inr current =>
    have opened : segmenter.current = some (start, last) := Option.mem_toList.mp current
    cases moves with
    | waits idle _ _ _ _ _ | stops idle _ _ _ _ _ | opens idle _ _ _ _ =>
      rw [idle] at opened
      cases opened
    | @keeps start' latest latest' opened' going current' reached _ _ _ =>
      rw [opened] at opened'
      cases opened'
      obtain ⟨-, -, earlier, -⟩ := valid.speaking _ _ opened
      refine covers_current current' after ?_
      rcases reached with rfl | ⟨-, rfl⟩
      · omega
      · exact before
    | @closes start' latest end' opened' ended _ closed _ _ =>
      rw [opened] at opened'
      cases opened'
      obtain ⟨-, behind, -⟩ := valid.endFrame? opened ended
      refine @covers_closed _ _ (start, end') ?_ after (before.trans behind.le)
      rw [closed]
      exact List.mem_append_right _ (List.mem_singleton_self _)

theorem Covers.stepEach (covers : segmenter.Covers x) (valid : segmenter.Valid t)
    (frames : List (Limits × RowState)) : (segmenter.stepEach frames t).Covers x := by
  induction frames generalizing segmenter t with
  | nil => exact covers
  | cons frame rest inductionHypothesis =>
    exact inductionHypothesis (covers.step valid frame.1 frame.2 false)
      (step_valid frame.1 valid frame.2 false)

/-- After `count` speech frames, the first of which is `x`: it is in a segment already, or the
    window is on its way to one that begins early enough. -/
inductive Nearing (segmenter : Segmenter) (x : Int) (count : Nat) : Prop
  | covered : segmenter.Covers x → Nearing segmenter x count
  | idle {trailing : Nat} : segmenter.current = none → segmenter.free ≤ x →
      segmenter.window.Trailing 1 trailing → trailing ≤ 14 → count ≤ trailing + 14 →
      Nearing segmenter x count
  | speaking {start latest : Int} : segmenter.current = some (start, latest) → start ≤ x →
      segmenter.window.Trailing 1 count → count ≤ 14 → Nearing segmenter x count

theorem nearing_zero (valid : segmenter.Valid x) : segmenter.Nearing x 0 := by
  cases current : segmenter.current with
  | none =>
    exact .idle current valid.reached (valid.window.trailing 1) (Nat.zero_le _) (Nat.zero_le _)
  | some span =>
    obtain ⟨-, longer, before, -⟩ := valid.speaking span.1 span.2 current
    exact .speaking current (by omega) (valid.window.trailing 1) (Nat.zero_le _)

/-- One more speech frame. -/
theorem Nearing.step {count : Nat} (nearing : segmenter.Nearing x count)
    (valid : segmenter.Valid (x + count)) (few : count ≤ 28) (last : final = true → count = 28)
    (limits : Limits) : (segmenter.step limits .speech (x + count) final).Nearing x (count + 1) := by
  have moves := step_moves limits valid .speech final
  obtain ⟨-, wellFormed, -⟩ := WindowDetector.detectOneFrame_change valid.window
    RowState.speech.frameState_ne_invalid
  obtain ⟨silent, -, -⟩ := WindowDetector.detectOneFrame_sum valid.window
    RowState.speech.frameState_ne_invalid
  -- While the window calls it silence, fewer than fifteen of its frames are speech.
  have fewer : ∀ trailing : Nat, trailing ≤ 14 → segmenter.window.Trailing 1 trailing →
      (segmenter.window.detectOneFrame RowState.speech.frameState).2.Trailing 1 (trailing + 1) ∧
        ((segmenter.window.detectOneFrame RowState.speech.frameState).1 = .sil2Sil →
          trailing + 1 ≤ 14) := by
    intro trailing bound before
    have after := @WindowDetector.Trailing.detectOneFrame _ .speech _ before (by decide)
    refine ⟨after, fun same => ?_⟩
    have sum := (WindowDetector.Trailing.winSum wellFormed after (by omega)).1
    have low := silent same
    simp only [WindowDetector.code] at sum
    push_cast at sum
    omega
  cases nearing with
  | covered covers => exact .covered (covers.step valid limits .speech final)
  | @idle trailing idle free before bound reaches =>
    obtain ⟨after, rising⟩ := fewer trailing bound before
    cases moves with
    | waits _ same current _ free' window =>
      refine @Nearing.idle _ _ _ (trailing + 1) current ?_ (window ▸ after) (rising same) (by omega)
      rw [free', latency]
      omega
    | stops _ same isLast _ _ _ =>
      have all := last isLast
      have bound' := rising same
      omega
    | opens _ _ current _ _ =>
      refine .covered (covers_current current ?_ (by omega))
      rw [latency]
      omega
    | keeps opened _ _ _ _ _ _ | closes opened _ _ _ _ _ =>
      rw [idle] at opened
      cases opened
  | @speaking start latest opened early before bound =>
    obtain ⟨after, rising⟩ := fewer count bound before
    cases moves with
    | waits idle _ _ _ _ _ | stops idle _ _ _ _ _ | opens idle _ _ _ _ =>
      rw [idle] at opened
      cases opened
    | keeps opened' _ current reached _ _ window =>
      rw [opened] at opened'
      cases opened'
      rcases reached with rfl | ⟨same, rfl⟩
      · exact .covered (covers_current current early (by omega))
      · exact .speaking current early (window ▸ after) (rising same)
    | @closes start' latest' end' opened' ended current closed free window =>
      rw [opened] at opened'
      cases opened'
      by_cases reached : x ≤ end'
      · refine .covered (covers_closed (closed ▸ List.mem_append_right _ (List.mem_singleton_self _)) ?_ ?_)
        · exact early
        · exact reached
      · have same := endFrame?_silent ended (by omega)
        have bound' := rising same
        refine @Nearing.idle _ _ _ 0 current (by omega) ?_ (by omega) (by omega)
        rw [window]
        exact (WindowDetector.reset_wellFormed wellFormed).trailing 1

theorem Nearing.stepEach {count : Nat} (nearing : segmenter.Nearing x count)
    (valid : segmenter.Valid (x + count)) {frames : List (Limits × RowState)}
    (speech : ∀ frame ∈ frames, frame.2 = .speech) (few : count + frames.length ≤ 29) :
    (segmenter.stepEach frames (x + count)).Nearing x (count + frames.length) := by
  induction frames generalizing segmenter count with
  | nil => exact nearing
  | cons frame rest inductionHypothesis =>
    obtain ⟨limits, row⟩ := frame
    obtain rfl : row = .speech := speech _ List.mem_cons_self
    rw [List.length_cons] at few ⊢
    have next := @Nearing.step _ _ false count nearing valid (by omega) nofun limits
    have valid' := step_valid limits valid .speech false
    have later := @inductionHypothesis _ (count + 1) next (by push_cast; rwa [← add_assoc])
      (fun frame member => speech frame (List.mem_cons_of_mem _ member)) (by omega)
    rw [Nat.add_right_comm, Nat.add_assoc] at later
    push_cast at later
    rwa [← add_assoc] at later

theorem Nearing.covers (nearing : segmenter.Nearing x 29) : segmenter.Covers x := by
  cases nearing with
  | covered covers => exact covers
  | idle _ _ _ few many => omega
  | speaking _ _ _ few => omega

/-- The frame with which 29 speech frames begin is in a segment after them, whatever the limits of
    the calls are. -/
theorem covers_of_speech {frames : List (Limits × RowState)} {last : Limits × RowState} {x : Nat}
    (speech : ∀ k < 29, ((frames ++ [last]).map Prod.snd)[x + k]? = some .speech)
    (more : x + 29 ≤ frames.length) : (initial.stepEach frames 0).Covers x := by
  have early : (frames.take x).length = x := List.length_take_of_le (by omega)
  have size : ((frames.drop x).take 29).length = 29 := by
    rw [List.length_take, List.length_drop]
    omega
  have valid := stepEach_valid (frames.take x) initial_valid
  rw [zero_add, early] at valid
  have begun := @Nearing.stepEach _ _ 0 (nearing_zero valid) (by simpa using valid) _
    (window_rows speech) (by omega)
  simp only [Nat.cast_zero, add_zero, Nat.zero_add, size] at begun
  have valid' := stepEach_valid ((frames.drop x).take 29) valid
  rw [@stepEach_parts initial frames x (by omega) 29]
  exact begun.covers.stepEach valid' (frames.drop (x + 29))

/-- The 29th speech frame may be the last frame of the recording. -/
theorem covers_of_speech_final (frames : List (Limits × RowState)) (last : Limits × RowState)
    {x : Nat} (speech : ∀ k < 29, ((frames ++ [last]).map Prod.snd)[x + k]? = some .speech) :
    ((initial.stepEach frames 0).step last.1 last.2 frames.length true).Covers x := by
  have valid' := stepEach_valid frames initial_valid
  rw [zero_add] at valid'
  by_cases more : x + 29 ≤ frames.length
  · exact (covers_of_speech speech more).step valid' last.1 last.2 true
  · have inside : x + 28 < (frames ++ [last]).length := by
      have found := speech 28 (by omega)
      have index := (List.getElem?_eq_some_iff.mp found).1
      rwa [List.length_map] at index
    rw [List.length_append, List.length_singleton] at inside
    have early : (frames.take x).length = x := List.length_take_of_le (by omega)
    have size : ((frames.drop x).take 29).length = 28 := by
      rw [List.length_take, List.length_drop]
      omega
    have valid := stepEach_valid (frames.take x) initial_valid
    rw [zero_add, early] at valid
    have begun := @Nearing.stepEach _ _ 0 (nearing_zero valid) (by simpa using valid) _
      (window_rows speech) (by omega)
    have split := @stepEach_parts initial frames x (by omega) 29
    have none : frames.drop (x + 29) = [] := List.drop_eq_nil_of_le (by omega)
    rw [none, stepEach] at split
    simp only [Nat.cast_zero, add_zero, Nat.zero_add, size] at begun
    rw [← split] at begun
    obtain ⟨limits, row⟩ := last
    have final := speech 28 (by omega)
    rw [List.getElem?_map, List.getElem?_append_right (by omega),
      show x + 28 - frames.length = 0 by omega] at final
    obtain rfl : row = .speech := by simpa using final
    have position : (frames.length : Int) = x + (28 : Nat) := by
      push_cast
      omega
    rw [position] at valid' ⊢
    exact (@Nearing.step _ _ true 28 begun valid' le_rfl (fun _ => rfl) limits).covers

/-- 28 speech frames are not enough: with the 14th of them an old segment ends. -/
example : (initial.stepEach
    ((List.replicate 20 RowState.speech ++ List.replicate 56 RowState.sil ++
      List.replicate 28 RowState.speech ++ List.replicate 30 RowState.sil).map
        (Limits.mk 650 15000, ·)) 0).spans = [(0, 35)] := by
  decide +kernel

/-- The last frame ends a segment that is open. -/
theorem Covers.closed {x : Int} (covers : segmenter.Covers x) (valid : segmenter.Valid t)
    (limits : Limits) (row : RowState) :
    ∃ span ∈ (segmenter.step limits row t true).closed, span.1 ≤ x ∧ x ≤ span.2 := by
  obtain ⟨⟨start, last⟩, member, after, before⟩ := covers
  have moves := step_moves limits valid row true
  cases List.mem_append.mp member with
  | inl closed =>
    exact ⟨(start, last), closed_step closed limits row t true, after, before⟩
  | inr current =>
    have opened : segmenter.current = some (start, last) := Option.mem_toList.mp current
    cases moves with
    | waits idle _ _ _ _ _ | stops idle _ _ _ _ _ | opens idle _ _ _ _ =>
      rw [idle] at opened
      cases opened
    | keeps opened' going _ _ _ _ _ =>
      obtain ⟨ended, final⟩ := endFrame?_final limits _ (segmenter.silenceAfter
        (segmenter.window.detectOneFrame row.frameState).1) t
        (segmenter.window.detectOneFrame row.frameState).1
      rw [final] at going
      cases going
    | @closes start' latest end' opened' ended _ closed _ _ =>
      rw [opened] at opened'
      cases opened'
      obtain ⟨-, behind, -⟩ := valid.endFrame? opened ended
      refine ⟨(start, end'), ?_, after, before.trans behind.le⟩
      rw [closed]
      exact List.mem_append_right _ (List.mem_singleton_self _)

/-! ## A frame that is left out -/

variable {wait : Nat}

/-- After `count` silent frames, the first of which is `y`: the window falls silent with the sixth
    of them, and `wait` more end a segment. -/
structure Quiet (segmenter : Segmenter) (wait y count : Nat) : Prop where
  trailing : segmenter.window.Trailing 0 count
  low : 6 ≤ count → segmenter.window.preFrameState = .sil
  ends : 6 ≤ count → ∀ start latest, segmenter.current = some (start, latest) →
    count < wait + 6 ∧ count ≤ segmenter.silence + 6
  before : wait + 6 ≤ count → ∀ span ∈ segmenter.closed, span.2 < y + 6 + wait

theorem quiet_zero {y : Nat} (valid : segmenter.Valid y) (positive : 0 < wait) :
    segmenter.Quiet wait y 0 where
  trailing := valid.window.trailing 0
  low := nofun
  ends := nofun
  before := by omega

/-- One more silent frame. -/
theorem Quiet.step {y count : Nat} (quiet : segmenter.Quiet wait y count) (positive : 0 < wait)
    (valid : segmenter.Valid (y + count)) {limits : Limits}
    (bound : limits.maxEndSilFrameCntThresh ≤ 10 * wait) (final : Bool) :
    (segmenter.step limits .sil (y + count) final).Quiet wait y (count + 1) := by
  have moves := step_moves limits valid .sil final
  have valid' := step_valid limits valid .sil final
  obtain ⟨changed, wellFormed, -⟩ := WindowDetector.detectOneFrame_change valid.window
    RowState.sil.frameState_ne_invalid
  obtain ⟨-, rises, falls⟩ := WindowDetector.detectOneFrame_sum valid.window
    RowState.sil.frameState_ne_invalid
  have after : (segmenter.window.detectOneFrame RowState.sil.frameState).2.Trailing 0 (count + 1) :=
    @WindowDetector.Trailing.detectOneFrame _ .sil _ quiet.trailing (by decide)
  have sum := WindowDetector.Trailing.silent wellFormed after
  -- From the sixth silent frame on the sum is below the thresholds.
  have silent : 6 ≤ count →
      (segmenter.window.detectOneFrame RowState.sil.frameState).1 = .sil2Sil := by
    intro many
    rw [quiet.low many] at changed
    generalize (segmenter.window.detectOneFrame RowState.sil.frameState).1 = change at changed
    cases changed with
    | sil2Speech _ high => omega
    | sil2Sil _ => rfl
  have closedBefore : wait + 6 = count + 1 →
      ∀ span ∈ (segmenter.step limits .sil (y + count) final).closed, span.2 < y + 6 + wait := by
    intro now span member
    have inside := valid'.spans span member
    omega
  generalize segmenter.step limits .sil (y + count) final = next at *
  generalize (segmenter.window.detectOneFrame RowState.sil.frameState).2 = window at *
  cases moves with
  | waits idle _ current closed _ same =>
    refine ⟨same ▸ after, fun many => same ▸ falls (by omega), ?_, ?_⟩
    · intro _ start latest opened
      rw [current] at opened
      cases opened
    · intro many
      by_cases now : wait + 6 = count + 1
      · exact closedBefore now
      · rw [closed]
        exact quiet.before (by omega)
  | stops idle _ _ current closed same =>
    refine ⟨same ▸ WindowDetector.reset_trailing wellFormed _, fun _ => same ▸ rfl, ?_, ?_⟩
    · intro _ start latest opened
      rw [current] at opened
      cases opened
    · intro many
      by_cases now : wait + 6 = count + 1
      · exact closedBefore now
      · rw [closed]
        exact quiet.before (by omega)
  | opens idle voiced current closed same =>
    have high := rises voiced
    refine ⟨same ▸ after, fun many => same ▸ falls (by omega), ?_, ?_⟩
    · intro many
      omega
    · intro many
      omega
  | @keeps start latest latest' opened going current _ closed silence same =>
    refine ⟨same ▸ after, fun many => same ▸ falls (by omega), ?_, ?_⟩
    · intro many start' latest'' opened'
      by_cases first : count + 1 = 6
      · have counted := valid'.silence
        omega
      · have counted := (quiet.ends (by omega) _ _ opened).2
        have still := silent (by omega)
        rw [still] at going silence
        have more : segmenter.silenceAfter .sil2Sil = segmenter.silence + 1 := if_pos rfl
        rw [more] at going silence
        unfold endFrame? at going
        split at going
        · cases going
        · rename_i short
          simp only [true_and, frameInMs, not_le, ge_iff_le] at short
          omega
    · intro many
      by_cases now : wait + 6 = count + 1
      · exact closedBefore now
      · have early := (quiet.ends (by omega) _ _ opened).1
        omega
  | @closes start latest last opened ended current closed _ same =>
    refine ⟨same ▸ WindowDetector.reset_trailing wellFormed _, fun _ => same ▸ rfl, ?_, ?_⟩
    · intro _ start latest opened'
      rw [current] at opened'
      cases opened'
    · intro many
      by_cases now : wait + 6 = count + 1
      · exact closedBefore now
      · have early := (quiet.ends (by omega) _ _ opened).1
        omega

theorem Quiet.stepEach {y count : Nat} (quiet : segmenter.Quiet wait y count) (positive : 0 < wait)
    (valid : segmenter.Valid (y + count)) {frames : List (Limits × RowState)}
    (silent : ∀ frame ∈ frames, frame.2 = .sil)
    (bound : ∀ frame ∈ frames, frame.1.maxEndSilFrameCntThresh ≤ 10 * wait) :
    (segmenter.stepEach frames (y + count)).Quiet wait y (count + frames.length) := by
  induction frames generalizing segmenter count with
  | nil => exact quiet
  | cons frame rest inductionHypothesis =>
    obtain ⟨limits, row⟩ := frame
    obtain rfl : row = .sil := silent _ List.mem_cons_self
    have next := quiet.step positive valid (bound _ List.mem_cons_self) false
    have valid' := step_valid limits valid .sil false
    have later := @inductionHypothesis _ (count + 1) next (by push_cast; rwa [← add_assoc])
      (fun frame member => silent frame (List.mem_cons_of_mem _ member))
      (fun frame member => bound frame (List.mem_cons_of_mem _ member))
    rw [Nat.add_right_comm, Nat.add_assoc] at later
    push_cast at later
    rwa [← add_assoc] at later

/-- Frame `z` stays in no segment: those to come begin at `back - 26` at the earliest. -/
structure Away (segmenter : Segmenter) (z back t : Int) : Prop where
  closed : ∀ span ∈ segmenter.closed, span.2 < z ∨ z < span.1
  open' : ∀ start latest, segmenter.current = some (start, latest) → z < start
  rising : segmenter.current = none → segmenter.window.winSum + back ≤ t
  reached : back ≤ t

theorem Away.step {z back : Int} (away : segmenter.Away z back t) (behind : z < back - 26)
    (valid : segmenter.Valid t) (limits : Limits) (row : RowState) (final : Bool) :
    (segmenter.step limits row t final).Away z back (t + 1) := by
  have moves := step_moves limits valid row final
  have reached := away.reached
  obtain ⟨-, -, sum⟩ := WindowDetector.detectOneFrame_change valid.window row.frameState_ne_invalid
  obtain ⟨-, rises, -⟩ := WindowDetector.detectOneFrame_sum valid.window row.frameState_ne_invalid
  cases moves with
  | waits idle _ current closed _ window =>
    have rising := away.rising idle
    exact ⟨closed ▸ away.closed, by simp [current], fun _ => by rw [window]; omega, by omega⟩
  | stops idle _ _ current closed window =>
    exact ⟨closed ▸ away.closed, by simp [current],
      fun _ => by rw [window, WindowDetector.reset_winSum]; omega, by omega⟩
  | opens idle voiced current closed _ =>
    have rising := away.rising idle
    have high := rises voiced
    refine ⟨closed ▸ away.closed, ?_, by simp [current], by omega⟩
    intro start latest opened
    rw [current] at opened
    cases opened
    rw [latency]
    omega
  | keeps opened _ current _ closed _ _ =>
    refine ⟨closed ▸ away.closed, ?_, by simp [current], by omega⟩
    intro start' latest'' opened'
    rw [current] at opened'
    cases opened'
    exact away.open' _ _ opened
  | closes opened _ current closed _ window =>
    refine ⟨?_, by simp [current], fun _ => by rw [window, WindowDetector.reset_winSum]; omega,
      by omega⟩
    intro span member
    rw [closed] at member
    cases List.mem_append.mp member with
    | inl earlier => exact away.closed span earlier
    | inr new =>
      rw [List.mem_singleton.mp new]
      exact .inr (away.open' _ _ opened)

theorem Away.stepEach {z back : Int} (away : segmenter.Away z back t) (behind : z < back - 26)
    (valid : segmenter.Valid t) (frames : List (Limits × RowState)) :
    (segmenter.stepEach frames t).Away z back (t + frames.length) := by
  induction frames generalizing segmenter t with
  | nil => simpa [Segmenter.stepEach] using away
  | cons frame rest inductionHypothesis =>
    have later := inductionHypothesis (away.step behind valid frame.1 frame.2 false)
      (step_valid frame.1 valid frame.2 false)
    rw [List.length_cons]
    push_cast
    rwa [add_comm (rest.length : Int) 1, ← add_assoc]

theorem Quiet.away {y count z : Nat} (quiet : segmenter.Quiet wait y count)
    (valid : segmenter.Valid (y + count)) (after : y + 6 + wait ≤ z) (many : z + 26 < y + count) :
    segmenter.Away z (y + count) (y + count) := by
  have low := WindowDetector.Trailing.silent valid.window quiet.trailing
  refine ⟨?_, ?_, ?_, le_rfl⟩
  · intro span member
    have before := quiet.before (by omega) span member
    omega
  · intro start latest opened
    have early := (quiet.ends (by omega) _ _ opened).1
    omega
  · intro
    omega

/-- A frame inside enough silence is in no segment at the end. -/
theorem away_of_silence (frames : List (Limits × RowState)) (last : Limits × RowState)
    {y count z : Nat} (positive : 0 < wait)
    (bound : ∀ frame ∈ frames ++ [last], frame.1.maxEndSilFrameCntThresh ≤ 10 * wait)
    (silent : ∀ k < count, ((frames ++ [last]).map Prod.snd)[y + k]? = some .sil)
    (after : y + 6 + wait ≤ z) (many : z + 26 < y + count) :
    ((initial.stepEach frames 0).step last.1 last.2 frames.length true).Away z (y + count)
      (frames.length + 1) := by
  have inside : y + count ≤ frames.length + 1 := by
    have found := silent (count - 1) (by omega)
    have index := (List.getElem?_eq_some_iff.mp found).1
    rw [List.length_map, List.length_append, List.length_singleton] at index
    omega
  have early : (frames.take y).length = y := List.length_take_of_le (by omega)
  have quietRows := window_rows silent
  have valid := stepEach_valid (frames.take y) initial_valid
  rw [zero_add, early] at valid
  have begun := @Quiet.stepEach _ wait y 0 (quiet_zero valid positive) positive (by simpa using valid)
    _ quietRows (fun frame member =>
      bound frame (List.mem_append_left _ (List.mem_of_mem_drop (List.mem_of_mem_take member))))
  simp only [Nat.cast_zero, add_zero, Nat.zero_add] at begun
  have valid' := stepEach_valid ((frames.drop y).take count) valid
  have split := @stepEach_parts initial frames y (by omega) count
  have valid'' := stepEach_valid frames initial_valid
  rw [zero_add] at valid''
  by_cases long : y + count ≤ frames.length
  · have size : ((frames.drop y).take count).length = count := by
      rw [List.length_take, List.length_drop]
      omega
    rw [size] at begun valid' split
    have away := (begun.away valid' after many).stepEach (by omega) valid' (frames.drop (y + count))
    rw [← split, List.length_drop] at away
    have end' : (y + count + (frames.length - (y + count) : Nat) : Int) = frames.length := by omega
    rw [end'] at away
    exact away.step (by omega) valid'' last.1 last.2 true
  · have size : ((frames.drop y).take count).length = count - 1 := by
      rw [List.length_take, List.length_drop]
      omega
    have none : frames.drop (y + count) = [] := List.drop_eq_nil_of_le (by omega)
    rw [none, stepEach] at split
    rw [size, ← split] at begun
    obtain ⟨limits, row⟩ := last
    have final := silent (count - 1) (by omega)
    rw [List.getElem?_map, List.getElem?_append_right (by omega),
      show y + (count - 1) - frames.length = 0 by omega] at final
    obtain rfl : row = .sil := by simpa using final
    have position : (frames.length : Int) = y + (count - 1 : Nat) := by omega
    rw [position] at valid'' ⊢
    have quiet := begun.step positive valid''
      (bound (limits, .sil) (List.mem_append_right _ (List.mem_singleton_self _))) true
    have all : count - 1 + 1 = count := by omega
    have end' : (y + (count - 1 : Nat) + 1 : Int) = y + count := by omega
    have valid3 := step_valid limits valid'' .sil true
    rw [all] at quiet
    rw [end'] at valid3 ⊢
    exact quiet.away valid3 after many

end Segmenter

/-! ## The answers -/

variable {α δ : Type} {energy : List α → δ} {rate : SampleRate}

/-- A frame with which 29 speech frames begin is in a segment that the answers name, when at least
    one frame follows. -/
theorem onlineRecording_detects {count : Nat} {model : E2EVadModel α δ}
    (served : Served energy rate count model) (calls : List (Call α)) (last : Call α)
    (few : count + sampleCount (calls ++ [last]) < 2 ^ 31)
    (covered : Covered rate 0 0 (calls ++ [last])) {x : Nat}
    (speech : ∀ k < 29, (frames (calls ++ [last]))[x + k]? = some .speech)
    (more : x + 29 < (frames (calls ++ [last])).length) :
    ∃ answers model', onlineRecording energy rate model calls last = some (answers, model') ∧
      ∃ segment ∈ joinAnswers answers,
        segment.1 ≤ frameInMs * x ∧ frameInMs * (x + 1) ≤ segment.2 := by
  obtain ⟨answers, model', complete, before, returned, transcript, -⟩ :=
    onlineRecording_streaming energy
      (served.streaming (show count + (sampleCount _ + 0) < _ from few)) covered
  refine ⟨answers, model', returned, ?_⟩
  rw [← Segmenter.butLast_rows] at speech
  rw [← Segmenter.butLast_rows, List.length_map, List.length_append, List.length_singleton] at more
  have valid := Segmenter.stepEach_valid (Segmenter.butLast calls last) Segmenter.initial_valid
  rw [zero_add] at valid
  obtain ⟨span, closed, early, late⟩ :=
    (Segmenter.covers_of_speech speech (by omega)).closed valid last.limits last.lastRow
  rw [← Segmenter.recording_each] at closed
  refine ⟨span.ms, ?_, ?_⟩
  · rw [transcript.join]
    exact List.mem_append_left _ (List.mem_map_of_mem closed)
  · simp only [FrameSpan.ms, frameInMs]
    omega

theorem onlineRecording_detects_thirty : ∃ answers model',
    onlineRecording (fun _ => ()) ⟨16000, by decide⟩ { intSizes := true } oneCall.calls
        oneCall.last = some (answers, model') ∧
      ∃ segment ∈ joinAnswers answers, segment.1 ≤ frameInMs * (0 : Nat) ∧
        frameInMs * ((0 : Nat) + 1) ≤ segment.2 :=
  onlineRecording_detects .new oneCall.calls oneCall.last (by decide +kernel) (by decide +kernel)
    (by decide) (by decide)

/-- A frame in silence is in no segment that the answers name: the window and `wait` frames lie
    before it, and 26 frames behind it. -/
theorem onlineRecording_leaves {model : E2EVadModel α δ} (ready : Ready energy rate model)
    (calls : List (Call α)) (last : Call α) (covered : Covered rate 0 0 (calls ++ [last]))
    {wait y count z : Nat} (positive : 0 < wait)
    (bound : ∀ call ∈ calls ++ [last], call.limits.maxEndSilFrameCntThresh ≤ frameInMs * wait)
    (silent : ∀ k < count, (frames (calls ++ [last]))[y + k]? = some .sil)
    (after : y + 6 + wait ≤ z) (many : z + 26 < y + count) :
    ∃ answers model', onlineRecording energy rate model calls last = some (answers, model') ∧
      ∀ segment ∈ joinAnswers answers,
        segment.2 ≠ -1 ∧ segment.2 ≤ frameInMs * z ∨ frameInMs * (z + 1) ≤ segment.1 := by
  obtain ⟨answers, model', complete, before, returned, transcript, -⟩ :=
    onlineRecording_streaming energy (ready.streaming (_ + 0)) covered
  refine ⟨answers, model', returned, ?_⟩
  rw [← Segmenter.butLast_rows] at silent
  have limited : ∀ frame ∈ Segmenter.butLast calls last ++ [(last.limits, last.lastRow)],
      frame.1.maxEndSilFrameCntThresh ≤ 10 * wait := by
    intro frame member
    obtain ⟨call, among, same⟩ := Segmenter.butLast_limits member
    rw [same]
    exact bound call among
  have away := Segmenter.away_of_silence _ _ positive limited silent after many
  have valid := Segmenter.recording_valid calls last
  rw [← Segmenter.recording_each] at away
  intro segment member
  rw [transcript.join] at member
  cases List.mem_append.mp member with
  | inl closed =>
    obtain ⟨span, among, rfl⟩ := List.mem_map.mp closed
    have inside := valid.spans span among
    have apart := away.closed span among
    simp only [FrameSpan.ms, frameInMs]
    omega
  | inr opened =>
    obtain ⟨span, among, rfl⟩ := List.mem_map.mp opened
    have behind := away.open' span.1 span.2 (Option.mem_toList.mp among)
    simp only [FrameSpan.startMs, frameInMs]
    omega

/-- Speech, and then silence, with 10 ms of silence to end a segment. -/
def shortWait : Call Unit where
  rows := List.replicate 20 .speech ++ List.replicate 34 .sil
  waveform := List.replicate 8880 ()
  maxEndSil := 160
  maxSingleSegmentTime := 15000
  nonempty := by decide

theorem onlineRecording_leaves_shortWait : ∃ answers model',
    onlineRecording (fun _ => ()) ⟨16000, by decide⟩ {} [] shortWait = some (answers, model') ∧
      ∀ segment ∈ joinAnswers answers,
        segment.2 ≠ -1 ∧ segment.2 ≤ frameInMs * (27 : Nat) ∨
          frameInMs * ((27 : Nat) + 1) ≤ segment.1 :=
  @onlineRecording_leaves _ _ _ _ _ .new [] shortWait (by decide +kernel) 1 20 34 27 (by decide)
    (by decide) (by decide) (by decide) (by decide)

/-- An offline call: which frames are in its segments, and which are not. -/
theorem infer_detects (rows : List RowState) (waveform : List α)
    (maxEndSil maxSingleSegmentTime : Int) (covered : rows.length ≤ windowCount rate waveform.length) :
    ∃ segments, infer energy rate rows waveform maxEndSil maxSingleSegmentTime = some segments ∧
      (∀ x : Nat, (∀ k < 29, rows[x + k]? = some .speech) →
        ∃ segment ∈ segments, segment.1 ≤ frameInMs * x ∧ frameInMs * (x + 1) ≤ segment.2) ∧
      ∀ wait y count z : Nat, 0 < wait → maxEndSil - speechToSilTimeThres ≤ frameInMs * wait →
        (∀ k < count, rows[y + k]? = some .sil) → y + 6 + wait ≤ z → z + 26 < y + count →
        ∀ segment ∈ segments, segment.2 ≤ frameInMs * z ∨ frameInMs * (z + 1) ≤ segment.1 := by
  by_cases nonempty : rows = []
  · subst nonempty
    refine ⟨[], infer_nil energy waveform maxEndSil maxSingleSegmentTime, ?_, by simp⟩
    intro x speech
    have found := speech 0 (by omega)
    cases found
  let call : Call α := { rows, waveform, maxEndSil, maxSingleSegmentTime, nonempty }
  have whole : Segmenter.initial.stepFinal 0 call = Segmenter.recording [] call := rfl
  have own : frames ([] ++ [call]) = rows := by simp [frames, call]
  have rowsOf := @Segmenter.butLast_rows _ [] call
  rw [own] at rowsOf
  refine ⟨_, infer_eq energy call covered, ?_, ?_⟩
  · intro x speech
    rw [← rowsOf] at speech
    obtain ⟨span, member, early, late⟩ := Segmenter.covers_of_speech_final _ _ speech
    rw [← Segmenter.recording_each, ← whole] at member
    refine ⟨span.ms, List.mem_map_of_mem member, ?_⟩
    simp only [FrameSpan.ms, frameInMs]
    omega
  · intro wait y count z positive bound silent after many segment member
    obtain ⟨span, among, rfl⟩ := List.mem_map.mp member
    rw [← rowsOf] at silent
    have limited : ∀ frame ∈ Segmenter.butLast [] call ++ [(call.limits, call.lastRow)],
        frame.1.maxEndSilFrameCntThresh ≤ 10 * wait := by
      intro frame among
      obtain ⟨one, only, same⟩ := Segmenter.butLast_limits among
      rw [same, List.mem_singleton.mp only]
      exact bound
    have away := Segmenter.away_of_silence _ _ positive limited silent after many
    rw [← Segmenter.recording_each, ← whole] at away
    have apart : span.2 < z ∨ z < span.1 := by
      cases List.mem_append.mp among with
      | inl closed => exact away.closed span closed
      | inr opened => exact .inr (away.open' span.1 span.2 (Option.mem_toList.mp opened))
    simp only [FrameSpan.ms, frameInMs]
    omega

theorem infer_detects_shortWait : ∃ segments,
    infer (fun _ => ()) ⟨16000, by decide⟩ shortWait.rows shortWait.waveform 160 15000 =
        some segments ∧
      (∀ x : Nat, (∀ k < 29, shortWait.rows[x + k]? = some .speech) →
        ∃ segment ∈ segments, segment.1 ≤ frameInMs * x ∧ frameInMs * (x + 1) ≤ segment.2) ∧
      ∀ wait y count z : Nat, 0 < wait → (160 : Int) - speechToSilTimeThres ≤ frameInMs * wait →
        (∀ k < count, shortWait.rows[y + k]? = some .sil) → y + 6 + wait ≤ z → z + 26 < y + count →
        ∀ segment ∈ segments, segment.2 ≤ frameInMs * z ∨ frameInMs * (z + 1) ≤ segment.1 :=
  @infer_detects _ _ (fun _ => ()) ⟨16000, by decide⟩ shortWait.rows shortWait.waveform 160 15000
    (by decide +kernel)

end Asr2Pass.Vad
