import Asr2Pass.Library.RingBuffer
import Asr2Pass.Library.Runs
import Asr2Pass.Vad.WindowDetector
import Mathlib.Data.List.Induction

/-! # The window over a run of frames

For any size and any thresholds, the window sum counts the speech frames among the last frames
that are valid, and the changes take turns.  With the thresholds of the VAD a sum of 15 meets both
of them, so a window that stays there changes its mind with every frame.
-/

namespace Asr2Pass.Vad

open Library

namespace WindowDetector

variable {detector : WindowDetector}

/-! ## A run of frames -/

/-- The changes that the frames are reported with, and the window after them. -/
def detectFrames (detector : WindowDetector) :
    List FrameState → List AudioChangeState × WindowDetector
  | [] => ([], detector)
  | frameState :: frames =>
    let (change, detector) := detector.detectOneFrame frameState
    let (changes, detector) := detectFrames detector frames
    (change :: changes, detector)

theorem detectFrames_concat (detector : WindowDetector) (frames : List FrameState)
    (frameState : FrameState) :
    detector.detectFrames (frames ++ [frameState]) =
      ((detector.detectFrames frames).1 ++
          [((detector.detectFrames frames).2.detectOneFrame frameState).1],
        ((detector.detectFrames frames).2.detectOneFrame frameState).2) := by
  induction frames generalizing detector with
  | nil => rfl
  | cons first frames inductionHypothesis =>
    simp only [List.cons_append, detectFrames, inductionHypothesis]

def valid (frames : List FrameState) : List FrameState :=
  frames.filter (· ≠ .invalid)

def code : FrameState → Int
  | .speech => 1
  | _ => 0

theorem sum_code (frames : List FrameState) :
    (frames.map code).sum = (frames.count .speech : Int) := by
  induction frames with
  | nil => rfl
  | cons frameState frames inductionHypothesis =>
    cases frameState <;> simp [code, inductionHypothesis, add_comm]

theorem detectOneFrame_valid {frameState : FrameState} (decided : frameState ≠ .invalid) :
    detector.detectOneFrame frameState = (detector.push (code frameState)).judge := by
  cases frameState with
  | invalid => exact absurd rfl decided
  | speech => rfl
  | sil => rfl

/-! ## What the window holds -/

/-- The ring holds the last of `written`, and the sum is theirs. -/
structure Counts (detector : WindowDetector) (written : List Int) : Prop where
  recent : Recent detector.winState detector.curWinPos written
  sum : detector.winSum = detector.winState.sum
  length : detector.winState.length = detector.winSizeFrame

theorem Counts.reset (nonempty : 1 ≤ detector.winSizeFrame) :
    detector.reset.Counts (List.replicate detector.winSizeFrame 0) where
  recent := by
    refine ⟨?_, by simp [WindowDetector.reset, oldestFirst]⟩
    rw [WindowDetector.reset, List.length_replicate]
    exact nonempty
  sum := by simp [WindowDetector.reset]
  length := by simp [WindowDetector.reset]

theorem Counts.push {written : List Int} (counts : detector.Counts written) (state : Int) :
    (detector.push state).Counts (written ++ [state]) where
  recent := by
    have pushed := counts.recent.push state
    rw [counts.length] at pushed
    exact pushed
  sum := by
    have inside := counts.recent.inside
    simp only [WindowDetector.push, List.sum_set', counts.sum, dif_pos inside,
      List.getD_eq_getElem _ _ inside]
    ring
  length := by simp [WindowDetector.push, counts.length]

/-- The thresholds decide the state and leave the ring alone. -/
theorem judge_ring (detector : WindowDetector) :
    ∃ preFrameState, detector.judge.2 = { detector with preFrameState } := by
  unfold judge
  split
  · exact ⟨_, rfl⟩
  · split
    · exact ⟨_, rfl⟩
    · split
      · exact ⟨_, rfl⟩
      · split
        · exact ⟨_, rfl⟩
        · exact ⟨_, rfl⟩

theorem Counts.detectOneFrame {written : List Int} (counts : detector.Counts written)
    (frameState : FrameState) :
    (detector.detectOneFrame frameState).2.Counts (written ++ (valid [frameState]).map code) ∧
      (detector.detectOneFrame frameState).2.winSizeFrame = detector.winSizeFrame := by
  by_cases decided : frameState = .invalid
  · subst decided
    exact ⟨by simpa [valid, WindowDetector.detectOneFrame] using counts, rfl⟩
  · have kept : valid [frameState] = [frameState] := by simp [valid, decided]
    rw [detectOneFrame_valid decided, kept]
    obtain ⟨pre, judged⟩ := judge_ring (detector.push (code frameState))
    obtain ⟨recent, sum, length⟩ := counts.push (code frameState)
    rw [judged]
    exact ⟨⟨recent, sum, length⟩, rfl⟩

theorem Counts.detectFrames (nonempty : 1 ≤ detector.winSizeFrame) (frames : List FrameState) :
    (detector.reset.detectFrames frames).2.Counts
        (List.replicate detector.winSizeFrame 0 ++ (valid frames).map code) ∧
      (detector.reset.detectFrames frames).2.winSizeFrame = detector.winSizeFrame := by
  induction frames using List.reverseRecOn with
  | nil => exact ⟨by simpa [valid, WindowDetector.detectFrames] using Counts.reset nonempty, rfl⟩
  | append_singleton frames frameState inductionHypothesis =>
    obtain ⟨counts, size⟩ := inductionHypothesis
    obtain ⟨counts', size'⟩ := counts.detectOneFrame frameState
    rw [detectFrames_concat]
    have extended : valid (frames ++ [frameState]) = valid frames ++ valid [frameState] :=
      List.filter_append _ _
    rw [extended, List.map_append, ← List.append_assoc]
    exact ⟨counts', size'.trans size⟩

/-- The sum is the number of speech frames among the last valid ones. -/
theorem Counts.winSum {size : Nat} {frames : List FrameState} (fixed : detector.winSizeFrame = size)
    (counts : detector.Counts (List.replicate size 0 ++ (valid frames).map code)) :
    detector.winSum = (((valid frames).drop ((valid frames).length - size)).count .speech : Int) := by
  have held := counts.recent.entries
  rw [counts.length, fixed] at held
  have latest : (List.replicate size (0 : Int) ++ (valid frames).map code).length - size =
      (valid frames).length := by simp
  rw [latest, List.drop_append, List.length_replicate] at held
  rw [counts.sum, ← sum_oldestFirst _ detector.curWinPos, held, List.sum_append, ← List.map_drop,
    sum_code]
  simp

/-! ## The changes take turns -/

/-- The changes between speech and silence. -/
def turns (changes : List AudioChangeState) : List AudioChangeState :=
  changes.filter fun change => change = .sil2Speech ∨ change = .speech2Sil

/-- `count` changes in turns, from silence on. -/
def alternating (count : Nat) : List AudioChangeState :=
  (List.range count).map fun turn => if turn % 2 = 0 then .sil2Speech else .speech2Sil

/-- The last change between speech and silence. -/
def lastTurn (changes : List AudioChangeState) : Option AudioChangeState := (turns changes).getLast?

theorem alternating_succ (count : Nat) : alternating (count + 1) =
    alternating count ++ [if count % 2 = 0 then .sil2Speech else .speech2Sil] := by
  simp [alternating, List.range_succ]

/-- The turns so far, and the state that the last of them left. -/
structure Turned (detector : WindowDetector) (changes : List AudioChangeState) (count : Nat) :
    Prop where
  turns : turns changes = alternating count
  pre : detector.preFrameState = if count % 2 = 0 then .sil else .speech

theorem Turned.lastTurn_of_even {changes : List AudioChangeState} {count : Nat}
    (turned : detector.Turned changes count) (silent : detector.preFrameState = .sil) :
    lastTurn changes = none ∨ lastTurn changes = some .speech2Sil := by
  have even : count % 2 = 0 := by
    by_contra odd
    rw [turned.pre, if_neg odd] at silent
    cases silent
  rw [lastTurn, turned.turns]
  cases count with
  | zero => exact .inl rfl
  | succ before =>
    right
    rw [alternating_succ, List.getLast?_concat, if_neg (by omega)]

theorem Turned.lastTurn_of_odd {changes : List AudioChangeState} {count : Nat}
    (turned : detector.Turned changes count) (voiced : detector.preFrameState = .speech) :
    lastTurn changes = some .sil2Speech := by
  have odd : count % 2 ≠ 0 := by
    intro even
    rw [turned.pre, if_pos even] at voiced
    cases voiced
  rw [lastTurn, turned.turns]
  cases count with
  | zero => exact absurd rfl odd
  | succ before => rw [alternating_succ, List.getLast?_concat, if_pos (by omega)]

/-- What a frame is reported with, from the state before it. -/
inductive Reports : FrameState → AudioChangeState → FrameState → Prop
  | sil2Speech : Reports .sil .sil2Speech .speech
  | speech2Sil : Reports .speech .speech2Sil .sil
  | stays {pre : FrameState} {change : AudioChangeState} (still : change ≠ .sil2Speech)
      (still' : change ≠ .speech2Sil) (silent : change = .sil2Sil → pre = .sil)
      (voiced : change = .speech2Speech → pre = .speech) : Reports pre change pre

theorem judge_reports (detector : WindowDetector) :
    Reports detector.preFrameState detector.judge.1 detector.judge.2.preFrameState := by
  unfold judge
  split
  next rising =>
    rw [rising.1]
    exact .sil2Speech
  next =>
    split
    next falling =>
      rw [falling.1]
      exact .speech2Sil
    next =>
      split
      next silent => exact .stays (by simp) (by simp) (fun _ => silent) (by simp)
      next =>
        split
        next voiced => exact .stays (by simp) (by simp) (by simp) fun _ => voiced
        next => exact .stays (by simp) (by simp) (by simp) (by simp)

theorem detectOneFrame_reports (detector : WindowDetector) (frameState : FrameState) :
    Reports detector.preFrameState (detector.detectOneFrame frameState).1
      (detector.detectOneFrame frameState).2.preFrameState := by
  cases frameState with
  | invalid => exact .stays nofun nofun nofun nofun
  | speech => exact judge_reports (detector.push 1)
  | sil => exact judge_reports (detector.push 0)

theorem Turned.detectOneFrame {changes : List AudioChangeState} {count : Nat}
    (turned : detector.Turned changes count) (frameState : FrameState) :
    ∃ count', (detector.detectOneFrame frameState).2.Turned
      (changes ++ [(detector.detectOneFrame frameState).1]) count' := by
  have reports := detectOneFrame_reports detector frameState
  have before := turned.turns
  have pre := turned.pre
  generalize detector.detectOneFrame frameState = answer at reports ⊢
  obtain ⟨change, detector'⟩ := answer
  simp only at reports ⊢
  generalize detector.preFrameState = state at pre reports
  generalize after : detector'.preFrameState = state' at reports
  -- A change is one turn more, and the parity of the turns is the state.
  cases reports with
  | sil2Speech =>
    have even : count % 2 = 0 := by
      by_contra odd
      simp [odd] at pre
    refine ⟨count + 1, ?_, ?_⟩
    · rw [alternating_succ, if_pos even, ← before]
      exact List.filter_append _ _
    · rw [after, if_neg (by omega)]
  | speech2Sil =>
    have odd : count % 2 ≠ 0 := by
      intro even
      simp [even] at pre
    refine ⟨count + 1, ?_, ?_⟩
    · rw [alternating_succ, if_neg odd, ← before]
      exact List.filter_append _ _
    · rw [after, if_pos (by omega)]
  | stays still still' silent voiced =>
    refine ⟨count, ?_, by rw [after, pre]⟩
    rw [← before]
    simp [WindowDetector.turns, still, still']

theorem Turned.detectFrames (detector : WindowDetector) (frames : List FrameState) :
    ∃ count, (detector.reset.detectFrames frames).2.Turned (detector.reset.detectFrames frames).1
      count := by
  induction frames using List.reverseRecOn with
  | nil => exact ⟨0, rfl, rfl⟩
  | append_singleton frames frameState inductionHypothesis =>
    obtain ⟨count, turned⟩ := inductionHypothesis
    rw [detectFrames_concat]
    exact turned.detectOneFrame frameState

/-- A frame that changes nothing agrees with the last turn. -/
theorem detectFrames_still (detector : WindowDetector) (frames : List FrameState)
    {before later : List AudioChangeState} {change : AudioChangeState}
    (split : (detector.reset.detectFrames frames).1 = before ++ change :: later) :
    (change = .sil2Sil → lastTurn before = none ∨ lastTurn before = some .speech2Sil) ∧
      (change = .speech2Speech → lastTurn before = some .sil2Speech) := by
  -- On the frames, from the last one: it gave the change, or an earlier frame did.
  induction frames using List.reverseRecOn generalizing later with
  | nil => exact absurd split (by simp [WindowDetector.detectFrames])
  | append_singleton frames frameState inductionHypothesis =>
    rw [detectFrames_concat] at split
    rcases snoc_eq_append_cons split with ⟨rfl, rfl, -⟩ | ⟨rest, earlier⟩
    · obtain ⟨count, turned⟩ := Turned.detectFrames detector frames
      have reports := detectOneFrame_reports (detector.reset.detectFrames frames).2 frameState
      constructor
      · intro same
        rw [same] at reports
        refine turned.lastTurn_of_even ?_
        generalize (detector.reset.detectFrames frames).2.preFrameState = pre at reports ⊢
        cases reports with
        | stays _ _ silent _ => exact silent rfl
      · intro same
        rw [same] at reports
        refine turned.lastTurn_of_odd ?_
        generalize (detector.reset.detectFrames frames).2.preFrameState = pre at reports ⊢
        cases reports with
        | stays _ _ _ voiced => exact voiced rfl
    · exact inductionHypothesis earlier

/-- The window is a counter over the last valid frames, and its changes alternate. -/
theorem detectFrames_counts (nonempty : 1 ≤ detector.winSizeFrame) (frames : List FrameState) :
    let (changes, after) := detector.reset.detectFrames frames
    after.winSum = ((valid frames).drop ((valid frames).length - detector.winSizeFrame)).count
        .speech ∧
      after.curWinPos < detector.winSizeFrame ∧
      after.detectOneFrame .invalid = (.invalid, after) ∧
      (∃ count, turns changes = alternating count) ∧
      ∀ before change later, changes = before ++ change :: later →
        (change = .sil2Sil → lastTurn before = none ∨ lastTurn before = some .speech2Sil) ∧
          (change = .speech2Speech → lastTurn before = some .sil2Speech) := by
  obtain ⟨counts, size⟩ := Counts.detectFrames nonempty frames
  obtain ⟨count, turned⟩ := Turned.detectFrames detector frames
  refine ⟨counts.winSum size, ?_, rfl, ⟨count, turned.turns⟩, ?_⟩
  · rw [← size, ← counts.length]
    exact counts.recent.inside
  · intro before change later split
    exact detectFrames_still detector frames split

/-- Three frames in a window of two, and one that is not valid. -/
theorem detectFrames_counts_two :
    let detector := WindowDetector.new 20 10 0 10
    let (changes, after) := detector.reset.detectFrames [.speech, .invalid, .sil, .speech]
    after.winSum = ([FrameState.sil, .speech].count .speech : Nat) ∧
      after.curWinPos < detector.winSizeFrame ∧
      after.detectOneFrame .invalid = (.invalid, after) ∧
      (∃ count, turns changes = alternating count) ∧
      ∀ before change later, changes = before ++ change :: later →
        (change = .sil2Sil → lastTurn before = none ∨ lastTurn before = some .speech2Sil) ∧
          (change = .speech2Speech → lastTurn before = some .sil2Speech) :=
  @detectFrames_counts (WindowDetector.new 20 10 0 10) (by decide)
    [.speech, .invalid, .sil, .speech]

/-! ## On the threshold -/

inductive WindowEvent where
  | frame (frameState : FrameState)
  | reset
deriving DecidableEq, Repr

def step (detector : WindowDetector) : WindowEvent → Option WindowDetector
  | .frame frameState => some (detector.detectOneFrame frameState).2
  | .reset => some detector.reset

/-- A speech frame ends the speech, or a silent one the silence. -/
def Chatters (detector : WindowDetector) : WindowEvent → Prop
  | .frame frameState =>
    frameState = .speech ∧ (detector.detectOneFrame frameState).1 = .speech2Sil ∨
      frameState = .sil ∧ (detector.detectOneFrame frameState).1 = .sil2Speech
  | .reset => False

/-- The sum is 15, and the frame is of the window's state and of the kind of the frame that it
    replaces. -/
def Stuck (detector : WindowDetector) : WindowEvent → Prop
  | .frame frameState =>
    detector.preFrameState = frameState ∧ detector.winSum = 15 ∧
      detector.winState.getD detector.curWinPos 0 = code frameState
  | .reset => False

instance (detector : WindowDetector) : (event : WindowEvent) → Decidable (detector.Chatters event)
  | .frame _ => inferInstanceAs (Decidable (_ ∨ _))
  | .reset => inferInstanceAs (Decidable False)

/-- The window of the VAD, on its own side of the thresholds or on them. -/
structure Settled (detector : WindowDetector) : Prop where
  wellFormed : detector.WellFormed
  silent : detector.preFrameState = .sil → detector.winSum ≤ 15
  voiced : detector.preFrameState = .speech → 15 ≤ detector.winSum

theorem Settled.new : (WindowDetector.new 200 150 150 10).Settled where
  wellFormed := new_wellFormed
  silent := by decide
  voiced := by decide

theorem judge_settled (wellFormed : detector.WellFormed) :
    detector.judge.2.Settled ∧
      (detector.judge.1 = .sil2Speech ↔ detector.preFrameState = .sil ∧ 15 ≤ detector.winSum) ∧
      (detector.judge.1 = .speech2Sil ↔ detector.preFrameState = .speech ∧ detector.winSum ≤ 15) := by
  -- A change leaves the sum on the side of the threshold that it has passed.
  rcases judge_cases wellFormed with
    ⟨state, high, judged⟩ | ⟨state, low, judged⟩ | ⟨state, low, judged⟩ | ⟨state, high, judged⟩
  · rw [judged, state]
    exact ⟨⟨withPre_wellFormed wellFormed (by simp), by simp, fun _ => high⟩, by simp [high], by simp⟩
  · rw [judged, state]
    exact ⟨⟨wellFormed, fun _ => low.le, by simp [state]⟩, by simp [low], by simp⟩
  · rw [judged, state]
    exact ⟨⟨withPre_wellFormed wellFormed (by simp), fun _ => low, by simp⟩, by simp, by simp [low]⟩
  · rw [judged, state]
    exact ⟨⟨wellFormed, by simp [state], fun _ => high.le⟩, by simp, by simp [high]⟩

theorem Settled.step {detector' : WindowDetector} {event : WindowEvent} (settled : detector.Settled)
    (stepped : detector.step event = some detector') : detector'.Settled := by
  cases event with
  | reset =>
    cases stepped
    exact ⟨reset_wellFormed settled.wellFormed, by simp, by simp⟩
  | frame frameState =>
    cases stepped
    cases frameState with
    | invalid => exact settled
    | speech => exact (judge_settled (push_wellFormed settled.wellFormed (by omega) (by omega))).1
    | sil => exact (judge_settled (push_wellFormed settled.wellFormed (by omega) (by omega))).1

/-- The entry that the next frame replaces. -/
theorem Settled.leaving (settled : detector.Settled) :
    0 ≤ detector.winState.getD detector.curWinPos 0 ∧
      detector.winState.getD detector.curWinPos 0 ≤ 1 := by
  have inside : detector.curWinPos < detector.winState.length := by
    rw [settled.wellFormed.length]
    exact settled.wellFormed.position
  rw [List.getD_eq_getElem _ _ inside]
  exact settled.wellFormed.binary _ (List.getElem_mem inside)

theorem Settled.chatters_iff {event : WindowEvent} (settled : detector.Settled) :
    detector.Chatters event ↔ detector.Stuck event := by
  have leaving := settled.leaving
  have silent := settled.silent
  have voiced := settled.voiced
  -- The sum moves by one at most, so a change against the frame starts at the threshold.
  cases event with
  | reset => exact Iff.rfl
  | frame frameState =>
    cases frameState with
    | invalid => simp [Chatters, Stuck, settled.wellFormed.decided]
    | speech =>
      obtain ⟨-, -, falls⟩ :=
        judge_settled (@push_wellFormed _ settled.wellFormed 1 (by omega) (by omega))
      simp only [Chatters, Stuck, WindowDetector.detectOneFrame, falls, code, true_and,
        reduceCtorEq, false_and, or_false]
      simp only [WindowDetector.push]
      constructor
      · rintro ⟨speech, low⟩
        have high := voiced speech
        exact ⟨speech, by omega, by omega⟩
      · rintro ⟨speech, sum, same⟩
        exact ⟨speech, by omega⟩
    | sil =>
      obtain ⟨-, rises, -⟩ :=
        judge_settled (@push_wellFormed _ settled.wellFormed 0 (by omega) (by omega))
      simp only [Chatters, Stuck, WindowDetector.detectOneFrame, rises, code, true_and,
        reduceCtorEq, false_and, false_or]
      simp only [WindowDetector.push]
      constructor
      · rintro ⟨sil, high⟩
        have low := silent sil
        exact ⟨sil, by omega, by omega⟩
      · rintro ⟨sil, sum, same⟩
        exact ⟨sil, by omega⟩

/-- A run chatters exactly at the frames that find the window stuck. -/
theorem run_chatters_iff (events : List WindowEvent) :
    Meets step (fun detector event => ¬ detector.Chatters event)
        (WindowDetector.new 200 150 150 10) events ↔
      Meets step (fun detector event => ¬ detector.Stuck event)
        (WindowDetector.new 200 150 150 10) events :=
  meets_iff Settled.step (fun settled => not_congr settled.chatters_iff) Settled.new events

/-- After fifteen speech frames the sum stays at 15: the first silent frame ends the speech, the
    second one begins it again. -/
theorem run_chatters_silence :
    ¬ Meets step (fun detector event => ¬ detector.Chatters event)
      (WindowDetector.new 200 150 150 10)
      (List.replicate 15 (.frame .speech) ++ List.replicate 2 (.frame .sil)) := by
  decide +kernel

end WindowDetector

end Asr2Pass.Vad
