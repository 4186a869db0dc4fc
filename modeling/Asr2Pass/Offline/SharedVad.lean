import Asr2Pass.Offline.CutSplit
import Asr2Pass.Vad.Alignment

/-! # Requests that share one `vad_handle`

`FunOfflineInferBuffer` writes the limits of its request into the `FsmnVad` of the stream, loads the
audio, and then lets `CutSplit` make its own `FsmnVadOnline` from that `FsmnVad`.  The steps of
different requests come in any order.
-/

namespace Asr2Pass.Offline

open Library Vad
open TwoPass (VadSegment)

variable {α β δ κ ι : Type}

/-- `FsmnVad::SetConfig`. -/
def setConfig (vadHandle : VadConfig α β δ κ) (vadTailSil vadMaxLen : Int) : VadConfig α β δ κ :=
  { vadHandle with vadSilenceDuration := vadTailSil, vadMaxLen := vadMaxLen }

/-- A request, and what the loader makes of its buffer. -/
structure Request (α : Type) where
  vadTailSil : Int
  vadMaxLen : Int
  speechData : Option (List α)

/-- How far a request is.  `cut` holds what its `FsmnVadOnline` copied, and the answers. -/
inductive Stage (α β δ κ : Type) where
  | called
  | configured
  | loaded (speechData : List α)
  | cut (vad : VadConfig α β δ κ) (answers : Option (List VadSegment))
  | returned

inductive RequestStep (ι : Type) where
  | setConfig (request : ι)
  | load (request : ι)
  | cutSplit (request : ι)

structure OfflineStream (ι α β δ κ : Type) where
  destSampleRate : Nat
  enough : 1000 ≤ destSampleRate
  vadHandle : VadConfig α β δ κ
  stages : ι → Stage α β δ κ

/-! ## The last `SetConfig` -/

/-- The request whose `SetConfig` came last. -/
def lastConfigured (steps : List (RequestStep ι)) : Option ι :=
  steps.foldl (fun last next =>
    match next with
    | .setConfig request => some request
    | _ => last) none

/-- Wherever a request is segmented, the last `SetConfig` passed the limits of this request. -/
def Undisturbed (requests : ι → Request α) (steps : List (RequestStep ι)) : Prop :=
  ∀ before request after other, steps = before ++ .cutSplit request :: after →
    lastConfigured before = some other →
      (requests other).vadTailSil = (requests request).vadTailSil ∧
        (requests other).vadMaxLen = (requests request).vadMaxLen

theorem lastConfigured_setConfig (steps : List (RequestStep ι)) (request : ι) :
    lastConfigured (steps ++ [.setConfig request]) = some request := by
  simp [lastConfigured]

theorem lastConfigured_load (steps : List (RequestStep ι)) (request : ι) :
    lastConfigured (steps ++ [.load request]) = lastConfigured steps := by
  simp [lastConfigured]

theorem lastConfigured_cutSplit (steps : List (RequestStep ι)) (request : ι) :
    lastConfigured (steps ++ [.cutSplit request]) = lastConfigured steps := by
  simp [lastConfigured]

/-- The limits that a detector has are those of a request. -/
def LimitsOf (requests : ι → Request α) (request : ι) (vad : VadConfig α β δ κ) : Prop :=
  vad.vadSilenceDuration = (requests request).vadTailSil ∧
    vad.vadMaxLen = (requests request).vadMaxLen

/-! ## The steps -/

variable [DecidableEq ι]

namespace OfflineStream

/-- A stream that no request has used yet. -/
def new (destSampleRate : Nat) (enough : 1000 ≤ destSampleRate) (vadHandle : VadConfig α β δ κ) :
    OfflineStream ι α β δ κ where
  destSampleRate := destSampleRate
  enough := enough
  vadHandle := vadHandle
  stages _ := .called

def enter (stream : OfflineStream ι α β δ κ) (request : ι) (stage : Stage α β δ κ) :
    OfflineStream ι α β δ κ :=
  { stream with stages := Function.update stream.stages request stage }

variable (requests : ι → Request α)

def setConfig (stream : OfflineStream ι α β δ κ) (request : ι) : OfflineStream ι α β δ κ :=
  { stream.enter request .configured with
    vadHandle := Offline.setConfig stream.vadHandle (requests request).vadTailSil
      (requests request).vadMaxLen }

section
variable {stream : OfflineStream ι α β δ κ}

theorem enter_self (request : ι) (stage : Stage α β δ κ) :
    (stream.enter request stage).stages request = stage := by
  simp [enter]

theorem enter_other {request other : ι} (different : other ≠ request) (stage : Stage α β δ κ) :
    (stream.enter request stage).stages other = stream.stages other := by
  simp [enter, different]

end

/-- Every request that was segmented was so with the limits that it passed. -/
def OwnLimits (stream : OfflineStream ι α β δ κ) : Prop :=
  ∀ request vad answers, stream.stages request = .cut vad answers → LimitsOf requests request vad

end OfflineStream

/-! ## What a run leaves -/

/-- What the steps so far have left in the stream. -/
structure Traced (requests : ι → Request α) (past : List (RequestStep ι))
    (stream : OfflineStream ι α β δ κ) : Prop where
  handle : ∀ other, lastConfigured past = some other → LimitsOf requests other stream.vadHandle
  configured : ∀ request, stream.stages request ≠ .called → ∃ other, lastConfigured past = some other
  cut : ∀ before request after, past = before ++ .cutSplit request :: after →
    ∃ vad answers other, stream.stages request = .cut vad answers ∧
      lastConfigured before = some other ∧ LimitsOf requests other vad
  known : ∀ request vad answers, stream.stages request = .cut vad answers →
    ∃ before after, past = before ++ .cutSplit request :: after

namespace Traced

variable {requests : ι → Request α} {past : List (RequestStep ι)}
  {stream next : OfflineStream ι α β δ κ}

omit [DecidableEq ι] in
theorem new (destSampleRate : Nat) (enough : 1000 ≤ destSampleRate) (vadHandle : VadConfig α β δ κ) :
    Traced requests [] (OfflineStream.new destSampleRate enough vadHandle) where
  handle other last := by cases last
  configured request started := absurd rfl started
  cut before request after split := by simp at split
  known request vad answers cut := by cases cut

/-- A request that goes on leaves the ones alone that have been cut. -/
theorem cut_enter (traced : Traced requests past stream) {request : ι} {stage : Stage α β δ κ}
    (going : ∀ vad answers, stream.stages request ≠ .cut vad answers) {before : List (RequestStep ι)}
    {done : ι} {after : List (RequestStep ι)} (split : past = before ++ .cutSplit done :: after) :
    ∃ vad answers other, (stream.enter request stage).stages done = .cut vad answers ∧
      lastConfigured before = some other ∧ LimitsOf requests other vad := by
  obtain ⟨vad, answers, other, cut, last, own⟩ := traced.cut before done after split
  have different : done ≠ request := by
    intro same
    subst same
    exact going vad answers cut
  exact ⟨vad, answers, other, by rw [OfflineStream.enter_other different, cut], last, own⟩

theorem known_enter (traced : Traced requests past stream) {request : ι} {stage : Stage α β δ κ}
    (going : ∀ vad answers, stage ≠ .cut vad answers) {done : ι} {vad : VadConfig α β δ κ}
    {answers : Option (List VadSegment)}
    (cut : (stream.enter request stage).stages done = .cut vad answers) :
    ∃ before after, past = before ++ .cutSplit done :: after := by
  by_cases same : done = request
  · subst same
    rw [OfflineStream.enter_self] at cut
    exact absurd cut (going vad answers)
  · rw [OfflineStream.enter_other same] at cut
    exact traced.known done vad answers cut

end Traced

variable [Add β] [Mul β] [Field δ] [LinearOrder δ]

/-- `Infer` of the `FsmnVadOnline` that was made from an `FsmnVad`. -/
def onlineInfer (config : VadConfig α β δ κ) : VadInfer (FsmnVadOnline α β δ κ) α :=
  fun handle waves inputFinished => config.infer handle { waves, inputFinished }

namespace OfflineStream

/-- The constructor copies the limits, and the detector keeps its copy for the whole recording. -/
def cutSplit (stream : OfflineStream ι α β δ κ) (request : ι) (speechData : List α) :
    OfflineStream ι α β δ κ :=
  let audio := Audio.load stream.destSampleRate stream.enough speechData
  stream.enter request (.cut stream.vadHandle
    (audio.vadSegments (onlineInfer stream.vadHandle) stream.vadHandle.new))

/-- A request takes its next step; `none` when that is another one. -/
def step (requests : ι → Request α) (stream : OfflineStream ι α β δ κ) : RequestStep ι → Option (OfflineStream ι α β δ κ)
  | .setConfig request =>
    match stream.stages request with
    | .called => some (stream.setConfig requests request)
    | _ => none
  | .load request =>
    match stream.stages request with
    | .configured =>
      match (requests request).speechData with
      | none => some (stream.enter request .returned)
      -- `snippet_time` is 0.
      | some [] => some (stream.enter request .returned)
      | some (sample :: rest) => some (stream.enter request (.loaded (sample :: rest)))
    | _ => none
  | .cutSplit request =>
    match stream.stages request with
    | .loaded speechData => some (stream.cutSplit request speechData)
    | _ => none

variable {requests : ι → Request α} {stream next : OfflineStream ι α β δ κ}

/-- What a step does, and to which request. -/
inductive Entered (requests : ι → Request α) (stream next : OfflineStream ι α β δ κ) :
    RequestStep ι → Prop where
  | setConfig {request : ι} : stream.stages request = .called →
      next = stream.setConfig requests request → Entered requests stream next (.setConfig request)
  | load {request : ι} {stage : Stage α β δ κ} : stream.stages request = .configured →
      (∀ vad answers, stage ≠ .cut vad answers) → next = stream.enter request stage →
        Entered requests stream next (.load request)
  | cutSplit {request : ι} {speechData : List α} : stream.stages request = .loaded speechData →
      next = stream.cutSplit request speechData → Entered requests stream next (.cutSplit request)

theorem step_entered {event : RequestStep ι} (stepped : stream.step requests event = some next) :
    Entered requests stream next event := by
  -- Every step is for one stage of the request only.
  cases event with
  | setConfig request =>
    cases stage : stream.stages request with
    | called =>
      simp only [step, stage, Option.some.injEq] at stepped
      exact .setConfig stage stepped.symm
    | configured | loaded _ | cut _ _ | returned => simp [step, stage] at stepped
  | load request =>
    cases stage : stream.stages request with
    | configured =>
      cases audio : (requests request).speechData with
      | none =>
        simp only [step, stage, audio, Option.some.injEq] at stepped
        exact .load stage (by simp) stepped.symm
      | some speechData =>
        cases speechData with
        | nil =>
          simp only [step, stage, audio, Option.some.injEq] at stepped
          exact .load stage (by simp) stepped.symm
        | cons sample rest =>
          simp only [step, stage, audio, Option.some.injEq] at stepped
          exact .load stage (by simp) stepped.symm
    | called | loaded _ | cut _ _ | returned => simp [step, stage] at stepped
  | cutSplit request =>
    cases stage : stream.stages request with
    | loaded speechData =>
      simp only [step, stage, Option.some.injEq] at stepped
      exact .cutSplit stage stepped.symm
    | called | configured | cut _ _ | returned => simp [step, stage] at stepped

end OfflineStream

namespace Traced

variable {requests : ι → Request α} {past : List (RequestStep ι)}
  {stream next : OfflineStream ι α β δ κ}

theorem step {event : RequestStep ι} (traced : Traced requests past stream)
    (stepped : stream.step requests event = some next) : Traced requests (past ++ [event]) next := by
  cases OfflineStream.step_entered stepped with
  | @setConfig request called entered =>
    subst entered
    constructor
    · intro other last
      rw [lastConfigured_setConfig] at last
      cases last
      exact ⟨rfl, rfl⟩
    · intro other started
      exact ⟨request, lastConfigured_setConfig past request⟩
    · intro before done after split
      rcases snoc_eq_append_cons split with ⟨-, other, -⟩ | ⟨rest, earlier⟩
      · cases other
      · exact traced.cut_enter (by simp [called]) earlier
    · intro done vad answers cut
      obtain ⟨before, after, rfl⟩ := traced.known_enter (by simp) cut
      exact ⟨before, after ++ [.setConfig request], by simp⟩
  | @load request stage configured going entered =>
    subst entered
    obtain ⟨last, lastEq⟩ := traced.configured request (by simp [configured])
    constructor
    · intro other last
      rw [lastConfigured_load] at last
      exact traced.handle other last
    · intro other started
      exact ⟨last, by rw [lastConfigured_load, lastEq]⟩
    · intro before done after split
      rcases snoc_eq_append_cons split with ⟨-, other, -⟩ | ⟨rest, earlier⟩
      · cases other
      · exact traced.cut_enter (by simp [configured]) earlier
    · intro done vad answers cut
      obtain ⟨before, after, rfl⟩ := traced.known_enter going cut
      exact ⟨before, after ++ [.load request], by simp⟩
  | @cutSplit request speechData loaded entered =>
    subst entered
    obtain ⟨last, lastEq⟩ := traced.configured request (by simp [loaded])
    constructor
    · intro other last
      rw [lastConfigured_cutSplit] at last
      exact traced.handle other last
    · intro other started
      exact ⟨last, by rw [lastConfigured_cutSplit, lastEq]⟩
    · intro before done after split
      rcases snoc_eq_append_cons split with ⟨same, now, -⟩ | ⟨rest, earlier⟩
      · -- The detector that is made now takes what the handle holds.
        cases now
        subst same
        exact ⟨_, _, last, OfflineStream.enter_self _ _, lastEq, traced.handle last lastEq⟩
      · exact traced.cut_enter (by simp [loaded]) earlier
    · intro done vad answers cut
      by_cases same : done = request
      · subst same
        exact ⟨past, [], rfl⟩
      · rw [OfflineStream.cutSplit, OfflineStream.enter_other same] at cut
        obtain ⟨before, after, rfl⟩ := traced.known done vad answers cut
        exact ⟨before, after ++ [.cutSplit request], by simp⟩

end Traced

/-- After any run of the steps of any requests, every one was segmented with its own limits exactly
    if between its `SetConfig` and its `CutSplit` no other `SetConfig` left other limits. -/
theorem ownLimits_iff {requests : ι → Request α} {destSampleRate : Nat}
    (enough : 1000 ≤ destSampleRate) (vadHandle : VadConfig α β δ κ) {steps : List (RequestStep ι)}
    {stream : OfflineStream ι α β δ κ}
    (ran : run (OfflineStream.step requests) (.new destSampleRate enough vadHandle) steps =
      some stream) :
    stream.OwnLimits requests ↔ Undisturbed requests steps := by
  have traced : Traced requests steps stream :=
    @run_meets _ _ (OfflineStream.step requests) (fun _ _ => True)
      (fun past stream => Traced requests past stream)
      (fun traced _ stepped => traced.step stepped) [] steps _ _ (Traced.new _ enough vadHandle)
      (meets_true _ _) ran
  constructor
  · intro own before request after other split last
    obtain ⟨vad, answers, other', cut, last', limits⟩ := traced.cut before request after split
    rw [last] at last'
    cases last'
    obtain ⟨silence, longest⟩ := own request vad answers cut
    exact ⟨limits.1.symm.trans silence, limits.2.symm.trans longest⟩
  · intro undisturbed request vad answers cut
    obtain ⟨before, after, split⟩ := traced.known request vad answers cut
    obtain ⟨vad', answers', other, cut', last, limits⟩ := traced.cut before request after split
    rw [cut] at cut'
    cases cut'
    obtain ⟨silence, longest⟩ := undisturbed before request after other split last
    exact ⟨limits.1.trans silence, limits.2.trans longest⟩

/-! ## Two requests -/

/-- One request with the default limits, one with shorter ones. -/
def twoRequests : Bool → Request ℚ
  | true => { vadTailSil := 800, vadMaxLen := 60000, speechData := some [0, 0, 0] }
  | false => { vadTailSil := 400, vadMaxLen := 15000, speechData := some [0, 0, 0] }

/-- The second request sets its limits before the first one is cut. -/
def crossed : List (RequestStep Bool) :=
  [.setConfig true, .setConfig false, .load true, .cutSplit true]

/-- The limits of the second request are used for the first. -/
theorem not_ownLimits_crossed :
    ∃ stream, run (OfflineStream.step twoRequests) (.new 16000 (by decide) VadConfig.silent) crossed =
      some stream ∧ ¬ stream.OwnLimits twoRequests := by
  refine ⟨_, rfl, fun own => ?_⟩
  have used := (own true _ _ rfl).1
  exact absurd used (by decide)

theorem ownLimits_iff_crossed :
    ∃ stream, run (OfflineStream.step twoRequests) (.new 16000 (by decide) VadConfig.silent) crossed =
      some stream ∧ (stream.OwnLimits twoRequests ↔ Undisturbed twoRequests crossed) :=
  ⟨_, rfl, ownLimits_iff (by decide) VadConfig.silent rfl⟩

end Asr2Pass.Offline
