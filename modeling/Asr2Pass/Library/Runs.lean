/-! # Runs of a step function

A step function answers `none` for an event that its state does not allow.  A run is a list of
events.  An invariant that every step keeps holds at the end of a run; it may speak of the events
of the run so far, and the steps may be taken to meet a condition.
-/

namespace Asr2Pass.Library

variable {σ ε : Type} {step : σ → ε → Option σ}

def run (step : σ → ε → Option σ) : σ → List ε → Option σ
  | state, [] => some state
  | state, event :: rest => (step state event).bind fun state' => run step state' rest

@[simp] theorem run_nil (state : σ) : run step state [] = some state := rfl

@[simp] theorem run_cons (state : σ) (event : ε) (rest : List ε) :
    run step state (event :: rest) = (step state event).bind fun state' => run step state' rest :=
  rfl

theorem run_cons_eq_some {state final : σ} {event : ε} {rest : List ε} :
    run step state (event :: rest) = some final ↔
      ∃ next, step state event = some next ∧ run step next rest = some final := by
  rw [run_cons, Option.bind_eq_some_iff]

theorem run_append (state : σ) (events events' : List ε) :
    run step state (events ++ events') =
      (run step state events).bind fun state' => run step state' events' := by
  induction events generalizing state with
  | nil => rfl
  | cons event rest inductionHypothesis =>
    simp only [List.cons_append, run_cons, Option.bind_assoc, inductionHypothesis]

/-- The condition holds of every step of the run. -/
def Meets (step : σ → ε → Option σ) (condition : σ → ε → Prop) : σ → List ε → Prop
  | _, [] => True
  | state, event :: rest =>
    condition state event ∧ ∀ next, step state event = some next → Meets step condition next rest

/-- A run that meets a condition, cut in two. -/
theorem meets_append {condition : σ → ε → Prop} {state : σ} {events events' : List ε} :
    Meets step condition state (events ++ events') ↔
      Meets step condition state events ∧
        ∀ middle, run step state events = some middle → Meets step condition middle events' := by
  induction events generalizing state with
  | nil =>
    constructor
    · intro meets
      refine ⟨trivial, fun middle ran => ?_⟩
      cases ran
      exact meets
    · exact fun both => both.2 state rfl
  | cons event rest inductionHypothesis =>
    constructor
    · intro meets
      refine ⟨⟨meets.1, fun next stepped => (inductionHypothesis.mp (meets.2 next stepped)).1⟩,
        fun middle ran => ?_⟩
      obtain ⟨next, stepped, ran⟩ := run_cons_eq_some.mp ran
      exact (inductionHypothesis.mp (meets.2 next stepped)).2 middle ran
    · rintro ⟨⟨first, others⟩, later⟩
      refine ⟨first, fun next stepped => inductionHypothesis.mpr ⟨others next stepped, ?_⟩⟩
      exact fun middle ran => later middle (run_cons_eq_some.mpr ⟨next, stepped, ran⟩)

theorem Meets.imp {condition condition' : σ → ε → Prop} {state : σ} {events : List ε}
    (meets : Meets step condition state events)
    (weaker : ∀ state event, condition state event → condition' state event) :
    Meets step condition' state events := by
  induction events generalizing state with
  | nil => exact trivial
  | cons event rest inductionHypothesis =>
    exact ⟨weaker state event meets.1, fun next stepped => inductionHypothesis (meets.2 next stepped)⟩

/-- Whether a run meets a condition can be computed. -/
instance decidableMeets {condition : σ → ε → Prop}
    [decidable : ∀ state event, Decidable (condition state event)] :
    ∀ (state : σ) (events : List ε), Decidable (Meets step condition state events)
  | _, [] => .isTrue trivial
  | state, event :: rest =>
    have : Decidable (∀ next, step state event = some next → Meets step condition next rest) :=
      match step state event with
      | none => .isTrue fun _ stepped => nomatch stepped
      | some next =>
        match decidableMeets next rest with
        | .isTrue meets => .isTrue fun _ same => Option.some.inj same ▸ meets
        | .isFalse fails => .isFalse fun meets => fails (meets next rfl)
    inferInstanceAs (Decidable (_ ∧ _))

/-- An invariant of the state and of the events so far, kept by the steps that meet a condition. -/
theorem run_meets {condition : σ → ε → Prop} {invariant : List ε → σ → Prop}
    (kept : ∀ {past state event next}, invariant past state → condition state event →
      step state event = some next → invariant (past ++ [event]) next)
    {past events : List ε} {state final : σ} (holds : invariant past state)
    (meets : Meets step condition state events) (ran : run step state events = some final) :
    invariant (past ++ events) final := by
  induction events generalizing past state with
  | nil =>
    cases ran
    rwa [List.append_nil]
  | cons event rest inductionHypothesis =>
    obtain ⟨next, stepped, ran⟩ := run_cons_eq_some.mp ran
    have later := inductionHypothesis (kept holds meets.1 stepped) (meets.2 next stepped) ran
    rwa [List.append_assoc] at later

theorem meets_true (state : σ) (events : List ε) : Meets step (fun _ _ => True) state events := by
  induction events generalizing state with
  | nil => exact trivial
  | cons event rest inductionHypothesis => exact ⟨trivial, fun next _ => inductionHypothesis next⟩

/-- An invariant that every step keeps. -/
theorem run_invariant {invariant : σ → Prop}
    (kept : ∀ {state event next}, invariant state → step state event = some next → invariant next)
    {events : List ε} {state final : σ} (holds : invariant state)
    (ran : run step state events = some final) : invariant final :=
  @run_meets _ _ step (fun _ _ => True) (fun _ state => invariant state)
    (fun holds _ stepped => kept holds stepped) [] events state final holds
    (meets_true state events) ran

/-- Conditions that agree where an invariant holds are met by the same runs. -/
theorem meets_iff {condition condition' : σ → ε → Prop} {invariant : σ → Prop}
    (kept : ∀ {state event next}, invariant state → step state event = some next → invariant next)
    (same : ∀ {state event}, invariant state → (condition state event ↔ condition' state event))
    {state : σ} (holds : invariant state) (events : List ε) :
    Meets step condition state events ↔ Meets step condition' state events := by
  induction events generalizing state with
  | nil => exact Iff.rfl
  | cons event rest inductionHypothesis =>
    constructor
    · intro meets
      exact ⟨(same holds).mp meets.1, fun next stepped =>
        (inductionHypothesis (kept holds stepped)).mp (meets.2 next stepped)⟩
    · intro meets
      exact ⟨(same holds).mpr meets.1, fun next stepped =>
        (inductionHypothesis (kept holds stepped)).mpr (meets.2 next stepped)⟩

/-- An event of a run that is one event longer is the last one, or one of the earlier ones. -/
theorem snoc_eq_append_cons {past before after : List ε} {last event : ε}
    (split : past ++ [last] = before ++ event :: after) :
    (before = past ∧ event = last ∧ after = []) ∨ ∃ rest, past = before ++ event :: rest := by
  cases List.eq_nil_or_concat after with
  | inl none =>
    subst none
    obtain ⟨same, single⟩ := List.append_inj' split rfl
    exact .inl ⟨same.symm, (List.cons.inj single).1.symm, rfl⟩
  | inr some =>
    obtain ⟨rest, final, rfl⟩ := some
    rw [List.concat_eq_append, ← List.cons_append, ← List.append_assoc] at split
    exact .inr ⟨rest, (List.append_inj' split rfl).1⟩

/-! ## Runs of a step relation -/

section
universe u v
variable {State : Type u} {Event : Type v} {related : State → Event → State → Prop}

/-- The states that a run from `start` can reach, where a step has a choice of its next state. -/
inductive Steps (related : State → Event → State → Prop) (start : State) :
    List Event → State → Prop
  | nil : Steps related start [] start
  | snoc {events : List Event} {event : Event} {state next : State} :
      Steps related start events state → related state event next →
        Steps related start (events ++ [event]) next

/-- The steps that are taken where a condition holds. -/
def Under (condition : State → Event → Prop) (related : State → Event → State → Prop)
    (state : State) (event : Event) (next : State) : Prop :=
  condition state event ∧ related state event next

/-- A run whose events are the images of others is a run of those. -/
theorem Steps.of_map {Cause : Type v} {cause : Cause → Event} {start final : State}
    {causes : List Cause} (run : Steps related start (causes.map cause) final) :
    Steps (fun state caused next => related state (cause caused) next) start causes final := by
  generalize mapped : causes.map cause = events at run
  induction run generalizing causes with
  | nil =>
    cases List.map_eq_nil_iff.mp mapped
    exact Steps.nil
  | snoc _ stepped inductionHypothesis =>
    obtain ⟨earlier, last, rfl, before, single⟩ := List.map_eq_append_iff.mp mapped
    obtain ⟨caused, rfl, rfl⟩ := List.map_eq_singleton_iff.mp single
    exact Steps.snoc (inductionHypothesis before) stepped

end

end Asr2Pass.Library
