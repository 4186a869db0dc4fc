import Asr2Pass.Hotwords.BackOffs
import Mathlib.Data.Rat.Cast.Order

/-! # The automaton that `BiasLmScore` walks

A label leads from a state to the longest end of what has been read that some hotword starts with.
The arcs that back off are told from the others by their label 0, so this needs hotwords without it.
-/

namespace Asr2Pass.Hotwords

open Library (IsLongest longest longest_append longest_backOff_append longest_of_accepts
  accepts_longest length_backOff_lt backOff_suffix isLongest_longest isLongest_backOff)

variable {R : Type*}

namespace SplitIds

variable {lm : SplitIds R} {graph : Graph R} {state : State} {lab : Int}

/-- No hotword has the label of the arcs that back off. -/
def ZeroFree (lm : SplitIds R) : Prop := ∀ hotword ∈ lm.hotwords, (0 : Int) ∉ hotword.labels

instance (lm : SplitIds R) : Decidable lm.ZeroFree :=
  inferInstanceAs (Decidable (∀ hotword ∈ lm.hotwords, _))

variable [Field R] [LinearOrder R]

/-! ## One label -/

/-- The root has no arc that backs off, and its other arcs have labels of hotwords. -/
theorem firstArc_root (built : lm.Built graph) (zeroFree : lm.ZeroFree) :
    ∀ arc ∈ lm.firstArc graph .root, arc.ilabel ≠ 0 := by
  intro arc first zero
  rw [firstArc, built.rootArc, Option.toList_none, List.nil_append] at first
  obtain ⟨label, member, rfl⟩ := List.mem_map.mp (List.mem_of_head? first)
  obtain ⟨hotword, isHotword, part⟩ := isState_snoc.mp (mem_labels.mp member)
  exact zeroFree hotword isHotword (zero ▸ part.subset (by simp))

theorem firstArc_of_ne_root (built : lm.Built graph) (isState : lm.IsState state)
    (nonempty : state ≠ State.root) : lm.firstArc graph state = some (lm.failArc state) := by
  rw [firstArc, built.zeroArcs state isState nonempty]
  rfl

theorem scoreLoop_child (built : lm.Built graph) (child : lm.IsState (state ++ [lab])) (fuel : Nat)
    (score : R) :
    lm.scoreLoop graph lab (fuel + 1) state score =
      some (score + lm.increBias + (lm.final (state ++ [lab])).getD 0, state ++ [lab]) := by
  rw [scoreLoop, find_of_isState child]
  simp only [built.finals _ child]
  cases lm.final (state ++ [lab]) with
  | none => simp
  | some weight => simp

/-- At the root there is no way on. -/
theorem scoreLoop_root (built : lm.Built graph) (zeroFree : lm.ZeroFree)
    (child : ¬ lm.IsState (State.root ++ [lab])) (fuel : Nat) (score : R) :
    lm.scoreLoop graph lab (fuel + 1) .root score = some (score, .root) := by
  have phone := firstArc_root built zeroFree
  rw [scoreLoop, find_of_not_isState child]
  cases first : lm.firstArc graph .root with
  | none => rfl
  | some arc => simp [phone arc first]

/-- Elsewhere the first arc has label 0 and leads to the back-off. -/
theorem scoreLoop_fail (built : lm.Built graph) (isState : lm.IsState state)
    (root : state ≠ State.root) (child : ¬ lm.IsState (state ++ [lab])) (fuel : Nat) (score : R) :
    lm.scoreLoop graph lab (fuel + 1) state score =
      lm.scoreLoop graph lab fuel (lm.fail state) (score + (lm.failArc state).weight) := by
  have shorter : (lm.fail state).length < state.length := length_backOff_lt root
  have moves : (lm.failArc state).nextstate ≠ state :=
    fun stays => absurd (congrArg List.length stays) shorter.ne
  rw [scoreLoop, find_of_not_isState child]
  simp only [firstArc_of_ne_root built isState root]
  rw [if_neg moves]
  rfl

/-- The rule of the loop of `BiasLmScore`: an invariant that every arc of label 0 keeps holds in the
    state that reads the label, or at the root when no state does. -/
theorem scoreLoop_rule (built : lm.Built graph) (zeroFree : lm.ZeroFree)
    (invariant : State → R → Prop) {fuel : Nat}
    (keeps : ∀ part score, part <:+ state → lm.IsState part → part ≠ State.root →
      ¬ lm.IsState (part ++ [lab]) →
      longest lm.IsState (part ++ [lab]) = longest lm.IsState (state ++ [lab]) →
      invariant part score → invariant (lm.fail part) (score + (lm.failArc part).weight))
    {score : R} (isState : lm.IsState state) (enough : state.length < fuel)
    (start : invariant state score) :
    ∃ part score', invariant part score' ∧
      (longest lm.IsState (state ++ [lab]) = part ++ [lab] ∧
          lm.scoreLoop graph lab fuel state score =
            some (score' + lm.increBias + (lm.final (part ++ [lab])).getD 0, part ++ [lab]) ∨
        part = State.root ∧ longest lm.IsState (state ++ [lab]) = State.root ∧
          lm.scoreLoop graph lab fuel state score = some (score', .root)) := by
  -- On the fuel: a back-off is shorter than its state, so the loop ends at a child or at the root.
  induction fuel generalizing state score with
  | zero => omega
  | succ fuel inductionHypothesis =>
    by_cases child : lm.IsState (state ++ [lab])
    · exact ⟨state, score, start, .inl ⟨longest_of_accepts child, scoreLoop_child built child fuel score⟩⟩
    · by_cases root : state = State.root
      · refine ⟨state, score, start, .inr ⟨root, ?_, ?_⟩⟩
        · rw [root] at child ⊢
          exact if_neg child
        · rw [root] at child ⊢
          exact scoreLoop_root built zeroFree child fuel score
      · have shorter : (lm.fail state).length < state.length := length_backOff_lt root
        have same := longest_backOff_append isState_of_append root child
        rw [scoreLoop_fail built isState root child, ← same]
        refine inductionHypothesis (fun part score' suffix isPart nonempty noChild same' => ?_)
          (isState_fail lm state) (shorter.trans_le (Nat.lt_succ_iff.mp enough))
          (keeps state score List.suffix_rfl isState root child rfl start)
        exact keeps part score' (suffix.trans (backOff_suffix state)) isPart nonempty noChild
          (same'.trans same)

/-- `BiasLmScore` leaves the longest end in the tree. -/
theorem biasLmScore_state (built : lm.Built graph) (zeroFree : lm.ZeroFree)
    (isState : lm.IsState state) (looksUp : lm.LooksUp lab) (newState : State) :
    ∃ score, lm.biasLmScore graph state lab newState =
      some (score, longest lm.IsState (state ++ [lab])) := by
  obtain ⟨part, score, -, found | atRoot⟩ := scoreLoop_rule built zeroFree (fun _ _ => True)
    (fun _ _ _ _ _ _ _ _ => trivial) isState (Nat.lt_succ_self _) (trivial : True)
  · obtain ⟨next, returns⟩ := found
    exact ⟨_, by rw [biasLmScore, if_pos looksUp, returns, next]⟩
  · obtain ⟨-, next, returns⟩ := atRoot
    exact ⟨_, by rw [biasLmScore, if_pos looksUp, returns, next]⟩

/-! ## A path -/

theorem accumulate_append (labels labels' : List Int) (total : R) :
    lm.accumulate graph state total (labels ++ labels') =
      (lm.accumulate graph state total labels).bind fun scored =>
        lm.accumulate graph scored.2 scored.1 labels' := by
  induction labels generalizing state total with
  | nil => rfl
  | cons lab rest inductionHypothesis =>
    simp only [List.cons_append, accumulate, Option.bind_assoc, inductionHypothesis]

/-! ## The automaton -/

/-- `BiasLmScore` whose loop may take as many turns as there is fuel. -/
def scoreWithin (lm : SplitIds R) (fuel : Nat) (graph : Graph R) (hisState : State) (lab : Int)
    (newState : State) : Option (R × State) :=
  if lm.LooksUp lab then lm.scoreLoop graph lab fuel hisState 0 else some (0, newState)

theorem biasLmScore_eq (lm : SplitIds R) (graph : Graph R) (hisState : State) (lab : Int)
    (newState : State) : lm.biasLmScore graph hisState lab newState =
      lm.scoreWithin (hisState.length + 1) graph hisState lab newState := rfl

/-- The graph and its walk are the Aho-Corasick automaton of the hotwords: a state backs off to its
    longest proper end in the tree, and a valid label leads, after finitely many turns of the loop,
    to the longest end of the labels of the state and itself. -/
structure IsAutomaton (lm : SplitIds R) (graph : Graph R) : Prop where
  backOffs : ∀ state, lm.IsState state → state ≠ .root → ∃ backOff,
    (graph.nodes state).backOff = some backOff ∧
      IsLongest (fun part => part <:+ state ∧ part ≠ state ∧ lm.IsState part) backOff
  steps : ∀ state lab newState, lm.IsState state → 0 < lab → lab < lm.size → lab ≠ lm.blkPhnId →
    ∃ fuel score next, lm.scoreWithin fuel graph state lab newState = some (score, next) ∧
      IsLongest (fun part => part <:+ state ++ [lab] ∧ lm.IsState part) next

def BuildsAutomaton (lm : SplitIds R) : Prop :=
  ∃ graph, lm.buildGraph = some graph ∧ lm.IsAutomaton graph

theorem buildsAutomaton (nonempty : lm.hotwords ≠ []) (zeroFree : lm.ZeroFree) :
    lm.BuildsAutomaton := by
  obtain ⟨graph, popped, returns, searched, emptied⟩ := buildGraph_searched lm
  have built := searched.built emptied
  refine ⟨graph, returns, fun state isState inside => ?_, fun state lab newState isState => ?_⟩
  · exact ⟨lm.fail state, searched.backOff emptied isState inside,
      isLongest_backOff isState_root inside⟩
  · intro positive below phone
    have looksUp : lm.LooksUp lab := by
      simp only [LooksUp, nonempty, or_false, not_or]
      exact ⟨⟨by omega, by omega⟩, phone⟩
    obtain ⟨score, scored⟩ := biasLmScore_state built zeroFree isState looksUp newState
    rw [biasLmScore_eq] at scored
    exact ⟨_, score, _, scored, isLongest_longest isState_root _⟩

theorem buildsAutomaton_pair :
    (⟨[⟨[1, 2], 1⟩, ⟨[2, 3], 1⟩], 20, 9, 8⟩ : SplitIds ℚ).BuildsAutomaton :=
  buildsAutomaton (List.cons_ne_nil _ _) (by decide)

/-! ## The label 0 -/

/-- A hotword that starts with 0 gives the root a first arc of label 0, and the loop goes round
    between the root and that child. -/
theorem scoreLoop_zero (built : lm.Built graph) (zero : lm.IsState [0])
    (first : (lm.arcs .root).head?.map Arc.ilabel = some 0) (absent : ¬ lm.IsState [lab])
    (absent' : ¬ lm.IsState [0, lab]) (fuel : Nat) (score : R) :
    lm.scoreLoop graph lab fuel .root score = none ∧
      lm.scoreLoop graph lab fuel [0] score = none := by
  induction fuel generalizing score with
  | zero => exact ⟨rfl, rfl⟩
  | succ fuel inductionHypothesis =>
    obtain ⟨arc, isFirst, label⟩ := Option.map_eq_some_iff.mp first
    have rootArc : lm.firstArc graph .root = some arc := by
      rw [firstArc, built.rootArc]
      exact isFirst
    have child : arc.nextstate = [0] := by
      obtain ⟨other, _, rfl⟩ := List.mem_map.mp (List.mem_of_head? isFirst)
      rw [← label]
      rfl
    constructor
    · rw [scoreLoop, find_of_not_isState absent]
      simp only [rootArc, label, child, if_true, List.cons_ne_nil, if_false]
      exact (inductionHypothesis _).2
    · rw [scoreLoop, find_of_not_isState absent']
      simp only [firstArc_of_ne_root built zero (List.cons_ne_nil 0 [])]
      exact (inductionHypothesis _).1

/-- One hotword, which is spelled with the phone 0 only. -/
def zeroPhone : SplitIds ℚ where
  hotwords := [⟨[0], 1⟩]
  increBias := 20
  size := 9
  blkPhnId := 8

theorem not_buildsAutomaton_zero : ¬ zeroPhone.BuildsAutomaton := by
  rintro ⟨graph, returns, automaton⟩
  obtain ⟨graph', returns', built⟩ := buildGraph_built zeroPhone
  obtain rfl : graph' = graph := Option.some.inj (returns'.symm.trans returns)
  obtain ⟨fuel, score, next, scored, -⟩ :=
    automaton.steps .root 5 .root isState_root (by decide) (by decide) (by decide)
  have absent : ¬ zeroPhone.IsState [5] := by decide
  have absent' : ¬ zeroPhone.IsState [0, 5] := by decide
  have never := (scoreLoop_zero built (by decide) (by decide) absent absent' fuel 0).1
  have looksUp : zeroPhone.LooksUp 5 := by decide
  rw [scoreWithin, if_pos looksUp, never] at scored
  cases scored

end SplitIds

end Asr2Pass.Hotwords
