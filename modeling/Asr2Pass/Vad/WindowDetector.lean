import Mathlib.Algebra.BigOperators.Group.List.Basic
import Mathlib.Algebra.Order.BigOperators.Group.List
import Mathlib.Data.List.GetD
import Mathlib.Tactic.Ring

/-! # The sliding window over frame states

`WindowDetector` sums the last `winSizeFrame` frame states and turns them into
speech/silence changes with two thresholds.  Everything the segmenter needs from it
is collected in `detectOneFrame_cases` and in the two bounds on `winSum`.
-/

namespace Asr2Pass.Vad

inductive FrameState where
  | invalid
  | speech
  | sil
deriving DecidableEq, Repr

inductive AudioChangeState where
  | speech2Speech
  | speech2Sil
  | sil2Sil
  | sil2Speech
  | noBegin
  | invalid
deriving DecidableEq, Repr

structure WindowDetector where
  winSizeFrame : Nat
  winSum : Int
  winState : List Int
  curWinPos : Nat
  preFrameState : FrameState
  silToSpeechFrmcntThres : Int
  speechToSilFrmcntThres : Int
deriving DecidableEq, Repr

namespace WindowDetector

def new (windowSizeMs silToSpeechTime speechToSilTime frameSizeMs : Nat) : WindowDetector where
  winSizeFrame := windowSizeMs / frameSizeMs
  winSum := 0
  winState := List.replicate (windowSizeMs / frameSizeMs) 0
  curWinPos := 0
  preFrameState := .sil
  silToSpeechFrmcntThres := silToSpeechTime / frameSizeMs
  speechToSilFrmcntThres := speechToSilTime / frameSizeMs

def reset (detector : WindowDetector) : WindowDetector :=
  { detector with
    curWinPos := 0
    winSum := 0
    winState := List.replicate detector.winSizeFrame 0
    preFrameState := .sil }

def getWinSize (detector : WindowDetector) : Nat := detector.winSizeFrame

/-- The window after one more frame state, `1` for speech and `0` for silence. -/
def push (detector : WindowDetector) (curFrameState : Int) : WindowDetector :=
  { detector with
    winSum := detector.winSum - detector.winState.getD detector.curWinPos 0 + curFrameState
    winState := detector.winState.set detector.curWinPos curFrameState
    curWinPos := (detector.curWinPos + 1) % detector.winSizeFrame }

/-- The thresholds of `DetectOneFrame`, read on the window that already holds the frame. -/
def judge (detector : WindowDetector) : AudioChangeState × WindowDetector :=
  if detector.preFrameState = .sil ∧ detector.winSum ≥ detector.silToSpeechFrmcntThres then
    (.sil2Speech, { detector with preFrameState := .speech })
  else if detector.preFrameState = .speech ∧ detector.winSum ≤ detector.speechToSilFrmcntThres then
    (.speech2Sil, { detector with preFrameState := .sil })
  else if detector.preFrameState = .sil then (.sil2Sil, detector)
  else if detector.preFrameState = .speech then (.speech2Speech, detector)
  else (.invalid, detector)

def detectOneFrame (detector : WindowDetector) : FrameState → AudioChangeState × WindowDetector
  | .speech => (detector.push 1).judge
  | .sil => (detector.push 0).judge
  | .invalid => (.invalid, detector)

/-! ## What the window always satisfies -/

/-- The window the model is built with: 200 ms of 10 ms frames, 150 ms thresholds, and a
    running sum that is the sum of the stored states. -/
structure WellFormed (detector : WindowDetector) : Prop where
  size : detector.winSizeFrame = 20
  silToSpeech : detector.silToSpeechFrmcntThres = 15
  speechToSil : detector.speechToSilFrmcntThres = 15
  length : detector.winState.length = 20
  position : detector.curWinPos < 20
  sum : detector.winSum = detector.winState.sum
  binary : ∀ state ∈ detector.winState, 0 ≤ state ∧ state ≤ 1
  decided : detector.preFrameState ≠ .invalid

theorem new_wellFormed : (WindowDetector.new 200 150 150 10).WellFormed where
  size := rfl
  silToSpeech := rfl
  speechToSil := rfl
  length := rfl
  position := by decide
  sum := by decide
  binary := by decide
  decided := by decide

theorem reset_wellFormed {detector : WindowDetector} (wellFormed : detector.WellFormed) :
    detector.reset.WellFormed where
  size := wellFormed.size
  silToSpeech := wellFormed.silToSpeech
  speechToSil := wellFormed.speechToSil
  length := by simp [reset, wellFormed.size]
  position := by simp [reset]
  sum := by simp [reset]
  binary := by
    intro state member
    have zero : state = 0 := List.eq_of_mem_replicate member
    omega
  decided := by simp [reset]

@[simp] theorem reset_preFrameState (detector : WindowDetector) :
    detector.reset.preFrameState = .sil := rfl

@[simp] theorem reset_winSum (detector : WindowDetector) : detector.reset.winSum = 0 := rfl

theorem winSum_nonneg {detector : WindowDetector} (wellFormed : detector.WellFormed) :
    0 ≤ detector.winSum := by
  rw [wellFormed.sum]
  exact List.sum_nonneg fun state member => (wellFormed.binary state member).1

theorem winSum_le {detector : WindowDetector} (wellFormed : detector.WellFormed) :
    detector.winSum ≤ 20 := by
  have bound := List.sum_le_card_nsmul detector.winState 1
    fun state member => (wellFormed.binary state member).2
  rw [wellFormed.length] at bound
  rw [wellFormed.sum]
  simpa using bound

theorem push_wellFormed {detector : WindowDetector} (wellFormed : detector.WellFormed)
    {state : Int} (nonneg : 0 ≤ state) (le_one : state ≤ 1) : (detector.push state).WellFormed where
  size := wellFormed.size
  silToSpeech := wellFormed.silToSpeech
  speechToSil := wellFormed.speechToSil
  length := by simp [push, wellFormed.length]
  position := by
    simp only [push, wellFormed.size]
    exact Nat.mod_lt _ (by decide)
  sum := by
    have inside : detector.curWinPos < detector.winState.length := by
      rw [wellFormed.length]; exact wellFormed.position
    simp only [push, List.sum_set', wellFormed.sum, dif_pos inside,
      List.getD_eq_getElem _ _ inside]
    ring
  binary := by
    intro entry member
    rcases List.mem_or_eq_of_mem_set member with old | rfl
    · exact wellFormed.binary entry old
    · exact ⟨nonneg, le_one⟩
  decided := wellFormed.decided

/-- One frame adds at most one to the window sum. -/
theorem push_winSum_le {detector : WindowDetector} (wellFormed : detector.WellFormed)
    {state : Int} (le_one : state ≤ 1) : (detector.push state).winSum ≤ detector.winSum + 1 := by
  have inside : detector.curWinPos < detector.winState.length := by
    rw [wellFormed.length]; exact wellFormed.position
  have oldest := (wellFormed.binary _ (List.getElem_mem inside)).1
  simp only [push, List.getD_eq_getElem _ _ inside]
  omega

/-! ## One frame -/

/-- The change reported for a window whose state went from `pre` to the one in `detector`. -/
inductive Change : FrameState → AudioChangeState → WindowDetector → Prop where
  | sil2Speech {detector : WindowDetector} :
      detector.preFrameState = .speech → 15 ≤ detector.winSum → Change .sil .sil2Speech detector
  | speech2Sil {detector : WindowDetector} :
      detector.preFrameState = .sil → Change .speech .speech2Sil detector
  | sil2Sil {detector : WindowDetector} :
      detector.preFrameState = .sil → Change .sil .sil2Sil detector
  | speech2Speech {detector : WindowDetector} :
      detector.preFrameState = .speech → Change .speech .speech2Speech detector

theorem Change.decided {pre : FrameState} {change : AudioChangeState} {detector : WindowDetector}
    (changed : Change pre change detector) : change ≠ .noBegin ∧ change ≠ .invalid := by
  cases changed <;> simp

theorem withPre_wellFormed {detector : WindowDetector} (wellFormed : detector.WellFormed)
    {pre : FrameState} (decided : pre ≠ .invalid) :
    WellFormed { detector with preFrameState := pre } :=
  { wellFormed with decided }

/-- The four turns of a window. -/
theorem judge_cases {detector : WindowDetector} (wellFormed : detector.WellFormed) :
    detector.preFrameState = .sil ∧ 15 ≤ detector.winSum ∧
        detector.judge = (.sil2Speech, { detector with preFrameState := .speech }) ∨
      detector.preFrameState = .sil ∧ detector.winSum < 15 ∧ detector.judge = (.sil2Sil, detector) ∨
      detector.preFrameState = .speech ∧ detector.winSum ≤ 15 ∧
        detector.judge = (.speech2Sil, { detector with preFrameState := .sil }) ∨
      detector.preFrameState = .speech ∧ 15 < detector.winSum ∧
        detector.judge = (.speech2Speech, detector) := by
  have rising := wellFormed.silToSpeech
  have falling := wellFormed.speechToSil
  cases state : detector.preFrameState with
  | invalid => exact absurd state wellFormed.decided
  | sil =>
    by_cases high : 15 ≤ detector.winSum
    · exact .inl ⟨rfl, high, by simp [judge, state, rising, high]⟩
    · exact .inr (.inl ⟨rfl, not_le.mp high, by simp [judge, state, rising, high]⟩)
  | speech =>
    by_cases low : detector.winSum ≤ 15
    · exact .inr (.inr (.inl ⟨rfl, low, by simp [judge, state, falling, low]⟩))
    · exact .inr (.inr (.inr ⟨rfl, not_le.mp low, by simp [judge, state, falling, low]⟩))

theorem judge_change {detector : WindowDetector} (wellFormed : detector.WellFormed) :
    Change detector.preFrameState detector.judge.1 detector.judge.2 ∧
      detector.judge.2.WellFormed ∧ detector.judge.2.winSum = detector.winSum := by
  rcases judge_cases wellFormed with
    ⟨state, high, judged⟩ | ⟨state, -, judged⟩ | ⟨state, -, judged⟩ | ⟨state, -, judged⟩
  · rw [judged, state]
    exact ⟨.sil2Speech rfl high, withPre_wellFormed wellFormed (by decide), rfl⟩
  · rw [judged, state]
    exact ⟨.sil2Sil state, wellFormed, rfl⟩
  · rw [judged, state]
    exact ⟨.speech2Sil rfl, withPre_wellFormed wellFormed (by decide), rfl⟩
  · rw [judged, state]
    exact ⟨.speech2Speech state, wellFormed, rfl⟩

/-- Everything a decided frame state can do to the window. -/
theorem detectOneFrame_change {detector : WindowDetector} (wellFormed : detector.WellFormed)
    {frameState : FrameState} (decided : frameState ≠ .invalid) :
    Change detector.preFrameState (detector.detectOneFrame frameState).1
        (detector.detectOneFrame frameState).2 ∧
      (detector.detectOneFrame frameState).2.WellFormed ∧
      (detector.detectOneFrame frameState).2.winSum ≤ detector.winSum + 1 := by
  cases frameState with
  | invalid => exact absurd rfl decided
  | speech =>
    obtain ⟨change, kept, sum⟩ := judge_change (@push_wellFormed _ wellFormed 1 (by omega) (by omega))
    exact ⟨change, kept, sum ▸ push_winSum_le wellFormed (by omega)⟩
  | sil =>
    obtain ⟨change, kept, sum⟩ := judge_change (@push_wellFormed _ wellFormed 0 (by omega) (by omega))
    exact ⟨change, kept, sum ▸ push_winSum_le wellFormed (by omega)⟩

end WindowDetector

end Asr2Pass.Vad
