import Asr2Pass.Hotwords.Automaton

/-! # Hotwords that are not finished

An arc of label 0 takes back what its labels have earned, so the score of a walk past no final state
is the worth of the depth.  The phone 0 leaves the walk where it is; any other label that is not looked
up takes nothing back, and yet the walk is at the root behind it.
-/

namespace Asr2Pass.Hotwords

open Library (longest longest_of_accepts accepts_longest length_backOff_lt)

variable {R : Type*} [Field R] [LinearOrder R]

namespace SplitIds

variable {lm : SplitIds R} {graph : Graph R} {state : State} {lab : Int}

/-! ## The states on the way -/

/-- The values of `cur_state` in the loop of `BiasLmScore`. -/
def route (lm : SplitIds R) (graph : Graph R) (lab : Int) : Nat → State → List State
  | 0, _ => []
  | fuel + 1, curState =>
    curState :: match lm.find curState lab with
      | some arc => [arc.nextstate]
      | none =>
        match lm.firstArc graph curState with
        | none => []
        | some arc =>
          if arc.ilabel = 0 ∧ arc.nextstate ≠ curState then route lm graph lab fuel arc.nextstate
          else []

/-- No state that the walk meets on its way through the labels is final. -/
def unfinished (lm : SplitIds R) (graph : Graph R) : State → List Int → Bool
  | _, [] => true
  | state, lab :: rest =>
    (!lm.LooksUp lab ||
      (lm.route graph lab (state.length + 1) state).all fun part => !(graph.nodes part).isFinal) &&
    (lm.propagate graph state lab).all fun scored => unfinished lm graph scored.2 rest

def walkUnfinished (lm : SplitIds R) (labels : List Int) : Bool :=
  lm.buildGraph.any fun graph => lm.unfinished graph .root labels

/-- After each label the score is the worth of the depth, which is nothing at the root. -/
def EarnsDepth (lm : SplitIds R) (labels : List Int) : Prop :=
  ∀ taken, taken <+: labels → ∃ total state, lm.walk taken = some (total, state) ∧
    total = lm.increBias * state.length ∧ (state = State.root → total = 0)

/-- The state behind a label; the caller starts again from the root where it is not looked up, unless
    it is 0. -/
def stateAfter (lm : SplitIds R) (state : State) (lab : Int) : State :=
  if lab = 0 then state
  else if lm.LooksUp lab then longest lm.IsState (state ++ [lab])
  else .root

/-- Labels that are not looked up are 0, or met at the root. -/
def DropsNothing (lm : SplitIds R) : State → List Int → Prop
  | _, [] => True
  | state, lab :: rest =>
    (lab = 0 ∨ lm.LooksUp lab ∨ state = .root) ∧ DropsNothing lm (lm.stateAfter state lab) rest

instance decidableDropsNothing (lm : SplitIds R) : (state : State) → (labels : List Int) →
    Decidable (lm.DropsNothing state labels)
  | _, [] => .isTrue trivial
  | state, lab :: rest =>
    have := decidableDropsNothing lm (lm.stateAfter state lab) rest
    inferInstanceAs (Decidable (_ ∧ _))

/-! ## One label -/

/-- What the arcs of one call add up to. -/
theorem scoreLoop_depth (built : lm.Built graph) (zeroFree : lm.ZeroFree) {fuel : Nat} {score : R}
    (isState : lm.IsState state) (enough : state.length < fuel)
    (passed : ∀ part ∈ lm.route graph lab fuel state, (graph.nodes part).isFinal = false) :
    lm.scoreLoop graph lab fuel state (score + lm.increBias * state.length) =
      some (score + lm.increBias * (longest lm.IsState (state ++ [lab])).length,
        longest lm.IsState (state ++ [lab])) := by
  -- On the fuel, along the back-offs: each is shorter and takes back the difference in depth.
  induction fuel generalizing state with
  | zero => omega
  | succ fuel inductionHypothesis =>
    by_cases child : lm.IsState (state ++ [lab])
    · have notFinal : (graph.nodes (state ++ [lab])).isFinal = false := by
        apply passed
        simp [route, find_of_isState child]
      have noBonus : lm.final (state ++ [lab]) = none := by
        simpa [built.finals _ child] using notFinal
      rw [scoreLoop_child built child, noBonus, longest_of_accepts child]
      simp only [Option.getD_none, List.length_append, List.length_singleton, Nat.cast_add,
        Nat.cast_one, mul_add, mul_one, add_assoc, add_zero]
    · by_cases root : state = State.root
      · rw [root] at child ⊢
        have nothing : longest lm.IsState (State.root ++ [lab]) = State.root := if_neg child
        rw [scoreLoop_root built zeroFree child, nothing]
      · have shorter : (lm.fail state).length < state.length := length_backOff_lt root
        have moves : lm.fail state ≠ state := fun stays => shorter.ne (congrArg List.length stays)
        have first := firstArc_of_ne_root built isState root
        have notFinal : (lm.final state).isSome = false := by
          rw [← built.finals state isState]
          apply passed
          simp [route]
        have later : ∀ part ∈ lm.route graph lab fuel (lm.fail state),
            (graph.nodes part).isFinal = false := by
          intro part member
          apply passed
          simpa [route, find_of_not_isState child, first, failArc, moves] using .inr member
        have refund : score + lm.increBias * state.length + (lm.failArc state).weight =
            score + lm.increBias * (lm.fail state).length := by
          simp only [failArc, notFinal, Bool.false_eq_true, if_false]
          ring
        rw [scoreLoop_fail built isState root child, refund, inductionHypothesis
          (isState_fail lm state) (shorter.trans_le (Nat.lt_succ_iff.mp enough)) later,
          Library.longest_backOff_append isState_of_append root child]

/-- What one arc adds: the difference in depth, or nothing where the label is not looked up. -/
theorem propagate_depth (built : lm.Built graph) (zeroFree : lm.ZeroFree)
    (isState : lm.IsState state) (passed : lm.LooksUp lab →
      ∀ part ∈ lm.route graph lab (state.length + 1) state, (graph.nodes part).isFinal = false) :
    lm.propagate graph state lab = some
      (if lm.LooksUp lab then
        lm.increBias * (lm.stateAfter state lab).length - lm.increBias * state.length
      else 0, lm.stateAfter state lab) := by
  by_cases zero : lab = 0
  · have skipped : ¬ lm.LooksUp lab := fun looksUp => looksUp.1 (.inl zero.le)
    rw [propagate, stateAfter, if_pos zero, if_pos zero, if_neg skipped]
  · rw [propagate, stateAfter, if_neg zero, if_neg zero, biasLmScore]
    split
    case isTrue looksUp =>
      have depth := @scoreLoop_depth _ _ _ lm graph state lab built zeroFree (state.length + 1)
        (-(lm.increBias * state.length)) isState (Nat.lt_succ_self _) (passed looksUp)
      rw [neg_add_cancel] at depth
      rw [depth, neg_add_eq_sub]
    case isFalse => rfl

omit [Field R] [LinearOrder R] in
theorem isState_stateAfter (isState : lm.IsState state) (lab : Int) :
    lm.IsState (lm.stateAfter state lab) := by
  rw [stateAfter]
  split
  · exact isState
  · split
    · exact accepts_longest isState_root _
    · exact isState_root

/-! ## A path -/

theorem accumulate_cons (built : lm.Built graph) (zeroFree : lm.ZeroFree)
    (isState : lm.IsState state) {rest : List Int}
    (passed : lm.unfinished graph state (lab :: rest)) (total : R) :
    lm.unfinished graph (lm.stateAfter state lab) rest ∧
      ∀ further, lm.accumulate graph state total (lab :: further) =
        lm.accumulate graph (lm.stateAfter state lab)
          (total + if lm.LooksUp lab then
            lm.increBias * (lm.stateAfter state lab).length - lm.increBias * state.length
          else 0) further := by
  rw [unfinished, Bool.and_eq_true] at passed
  have passing (looksUp : lm.LooksUp lab) :
      ∀ part ∈ lm.route graph lab (state.length + 1) state, (graph.nodes part).isFinal = false := by
    simpa [looksUp] using passed.1
  have scored := propagate_depth built zeroFree isState passing
  refine ⟨by simpa [scored] using passed.2, fun further => ?_⟩
  rw [accumulate, scored, Option.bind_some]

omit [LinearOrder R] in
theorem depth_stateAfter
    (met : lm.increBias = 0 ∨ lab = 0 ∨ lm.LooksUp lab ∨ state = State.root) :
    lm.increBias * (state.length : R) + (if lm.LooksUp lab then
      lm.increBias * (lm.stateAfter state lab).length - lm.increBias * state.length else 0) =
        lm.increBias * (lm.stateAfter state lab).length := by
  by_cases looksUp : lm.LooksUp lab
  · rw [if_pos looksUp, add_sub_cancel]
  · rw [if_neg looksUp, add_zero]
    rcases met with worthless | zero | found | root
    · rw [worthless, zero_mul, zero_mul]
    · rw [stateAfter, if_pos zero]
    · exact absurd found looksUp
    · have stays : lm.stateAfter state lab = state := by
        rw [stateAfter, if_neg looksUp, root, ite_self]
      rw [stays]

/-- Where nothing is dropped, the score stays the worth of the depth. -/
theorem accumulate_depth (built : lm.Built graph) (zeroFree : lm.ZeroFree)
    (isState : lm.IsState state) {labels taken : List Int}
    (passed : lm.unfinished graph state labels)
    (drops : lm.increBias = 0 ∨ lm.DropsNothing state labels) (isTaken : taken <+: labels) :
    ∃ state', lm.accumulate graph state (lm.increBias * state.length) taken =
      some (lm.increBias * state'.length, state') := by
  induction taken generalizing state labels with
  | nil => exact ⟨state, rfl⟩
  | cons lab taken inductionHypothesis =>
    obtain ⟨further, rfl⟩ := isTaken
    obtain ⟨passes, step⟩ := accumulate_cons built zeroFree isState passed
      (lm.increBias * state.length)
    have met : lm.increBias = 0 ∨ lab = 0 ∨ lm.LooksUp lab ∨ state = State.root :=
      drops.imp_right And.left
    rw [step taken, depth_stateAfter met]
    exact inductionHypothesis (isState_stateAfter isState lab) passes (drops.imp_right And.right)
      (List.prefix_append taken further)

/-- A label other than 0 that is not looked up leaves the score at the root. -/
theorem dropsNothing_of_depth [CharZero R] (built : lm.Built graph) (zeroFree : lm.ZeroFree)
    (bias : lm.increBias ≠ 0) (isState : lm.IsState state) {labels : List Int}
    (passed : lm.unfinished graph state labels)
    (depth : ∀ taken, taken <+: labels → ∃ state',
      lm.accumulate graph state (lm.increBias * state.length) taken =
        some (lm.increBias * state'.length, state')) :
    lm.DropsNothing state labels := by
  induction labels generalizing state with
  | nil => trivial
  | cons lab rest inductionHypothesis =>
    obtain ⟨passes, step⟩ := accumulate_cons built zeroFree isState passed
      (lm.increBias * state.length)
    have met : lab = 0 ∨ lm.LooksUp lab ∨ state = State.root := by
      by_cases zero : lab = 0
      · exact .inl zero
      · by_cases looksUp : lm.LooksUp lab
        · exact .inr (.inl looksUp)
        · obtain ⟨state', returns⟩ := depth [lab] (by simp)
          rw [step [], if_neg looksUp, stateAfter, if_neg zero, if_neg looksUp] at returns
          obtain ⟨same, rfl⟩ := Prod.mk.inj (Option.some.inj returns)
          refine .inr (.inr ?_)
          simpa [bias] using same
    refine ⟨met, inductionHypothesis (isState_stateAfter isState lab) passes
      fun taken isTaken => ?_⟩
    have further := depth (lab :: taken) (List.cons_prefix_cons.mpr ⟨rfl, isTaken⟩)
    rwa [step taken, depth_stateAfter (.inr met)] at further

/-! ## The walk -/

/-- On a path past no final state the score is the worth of the depth exactly when labels that are
    not looked up are 0 or met at the root, or a label is worth nothing. -/
theorem earnsDepth_iff [CharZero R] (zeroFree : lm.ZeroFree) {labels : List Int}
    (passed : lm.walkUnfinished labels) :
    lm.EarnsDepth labels ↔ lm.increBias = 0 ∨ lm.DropsNothing .root labels := by
  obtain ⟨graph, returns, built⟩ := buildGraph_built lm
  have walks (taken : List Int) :
      lm.walk taken = lm.accumulate graph .root (lm.increBias * (List.length State.root : R)) taken := by
    rw [walk, returns, Option.bind_some, List.length_nil, Nat.cast_zero, mul_zero]
  rw [walkUnfinished, returns, Option.any_some] at passed
  constructor
  · intro depth
    by_cases bias : lm.increBias = 0
    · exact .inl bias
    · refine .inr (dropsNothing_of_depth built zeroFree bias isState_root passed ?_)
      intro taken isTaken
      obtain ⟨total, state, walked, worth, -⟩ := depth taken isTaken
      exact ⟨state, by rw [← walks, walked, worth]⟩
  · intro drops taken isTaken
    obtain ⟨state, walked⟩ := accumulate_depth built zeroFree isState_root passed drops isTaken
    refine ⟨_, state, (walks taken).trans walked, rfl, fun root => ?_⟩
    rw [root, List.length_nil, Nat.cast_zero, mul_zero]

/-- Two hotwords, and a blank that is not the phone 0. -/
def halfSpoken : SplitIds ℚ where
  hotwords := [⟨[1, 2, 3], 1⟩, ⟨[2, 4], 1⟩]
  increBias := 20
  size := 9
  blkPhnId := 8

theorem earnsDepth_iff_backOff :
    halfSpoken.EarnsDepth [1, 0, 2, 5, 8, 2] ↔
      halfSpoken.increBias = 0 ∨ halfSpoken.DropsNothing .root [1, 0, 2, 5, 8, 2] :=
  earnsDepth_iff (by decide) (by decide +kernel)

/-- The blank behind the first phone keeps its score. -/
theorem not_earnsDepth_blank :
    halfSpoken.walkUnfinished [1, 8] = true ∧ ¬ halfSpoken.EarnsDepth [1, 8] := by
  refine ⟨by decide +kernel, fun depth => ?_⟩
  have walked : halfSpoken.walk [1, 8] = some (20, State.root) := by decide +kernel
  obtain ⟨total, state, returns, -, nothing⟩ := depth [1, 8] List.prefix_rfl
  obtain ⟨rfl, rfl⟩ := Prod.mk.inj (Option.some.inj (walked.symm.trans returns))
  exact absurd (nothing rfl) (by decide)

end SplitIds

end Asr2Pass.Hotwords
