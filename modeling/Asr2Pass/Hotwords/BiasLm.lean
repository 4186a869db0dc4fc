import Asr2Pass.Library.BackOff
import Mathlib.Algebra.Field.Defs
import Mathlib.Algebra.GroupWithZero.Nat
import Mathlib.Data.List.Dedup
import Mathlib.Data.List.Sort
import Mathlib.Logic.Function.Basic

/-! # The hotword automaton of the beam search

`BuildGraph` puts the hotwords into a prefix tree, determinizes it and adds to every state an arc of
label 0 that backs off.  `BiasLmScore` walks the automaton by one label and returns what the label
adds to the score.
-/

namespace Asr2Pass.Hotwords

/-- All arcs of the prefix tree weigh the same, so a state of the determinized tree is the set of
    the tree states that one string of labels leads to.  The string names it. -/
abbrev State := List Int

/-- `start_state`, and `ROOT_NODE` of the walk. -/
abbrev State.root : State := []

structure Arc (R : Type*) where
  ilabel : Int
  weight : R
  nextstate : State

/-- `back_off_` is -1 before it is set. -/
structure Node (R : Type*) where
  score : R
  isFinal : Bool
  backOff : Option State

/-- One entry of `split_id_vec` with its entry of `custom_weight`. -/
structure Hotword (R : Type*) where
  labels : List Int
  weight : R

/-- What `BuildGraph` is called with, with the options and the phone set that it is called under.
    Nothing is said of the ids. -/
structure SplitIds (R : Type*) where
  hotwords : List (Hotword R)
  increBias : R
  size : Int
  blkPhnId : Int

/-- The hotwords are spelled in phones of the set: `String2Id` has found each of them, and the
    lexicon spells no word with the blank or the phone 0. -/
structure BiasLm (R : Type*) extends SplitIds R where
  spelled : ∀ hotword ∈ hotwords, ∀ label ∈ hotword.labels,
    0 < label ∧ label < size ∧ label ≠ blkPhnId

variable {R : Type*} [Field R] [LinearOrder R]

namespace SplitIds

variable (lm : SplitIds R)

/-! ## The determinized prefix tree -/

def IsState (state : State) : Prop :=
  state = .root ∨ ∃ hotword ∈ lm.hotwords, state <+: hotword.labels

instance : DecidablePred lm.IsState :=
  fun state => inferInstanceAs (Decidable (state = .root ∨ _))

/-- The label that a hotword has after those of the state. -/
def labelAfter (state : State) (hotword : Hotword R) : Option Int :=
  if state <+: hotword.labels then (hotword.labels.drop state.length).head? else none

/-- `Determinize` lists the arcs of a state by their labels. -/
def arcs (state : State) : List (Arc R) :=
  ((lm.hotwords.filterMap (labelAfter state)).dedup.insertionSort (· ≤ ·)).map fun label =>
    ⟨label, lm.increBias, state ++ [label]⟩

/-- `matcher.Find` after `SetState`, with `Value`. -/
def find (state : State) (label : Int) : Option (Arc R) :=
  (lm.arcs state).find? (·.ilabel = label)

/-- The final weight, none for `Zero`.  Hotwords of the same labels share a state, and `Plus` takes
    the smallest of their weights. -/
def final (state : State) : Option R :=
  ((lm.hotwords.filter fun hotword => state ≠ .root ∧ hotword.labels = state).map
    Hotword.weight).min?

/-! ## `BuildGraph` -/

/-- The loop over the labels of one hotword that sets `is_final_` and `score_`. -/
def mark (state : State) (j : Nat) : List Int → (State → Node R) → (State → Node R)
  | [], nodes => nodes
  | label :: rest, nodes =>
    match lm.find state label with
    | some arc =>
      let node := nodes arc.nextstate
      mark arc.nextstate (j + 1) rest <| Function.update nodes arc.nextstate
        { node with
          isFinal := (lm.final arc.nextstate).isSome || node.isFinal
          score := lm.increBias * (j + 1) }
    | none => mark state (j + 1) rest nodes

def marked : State → Node R :=
  lm.hotwords.foldl (fun nodes hotword => lm.mark .root 0 hotword.labels nodes)
    fun _ => ⟨0, false, none⟩

/-- `node_list_`, the arcs of label 0 that have been added to the tree, and the queue. -/
structure Graph (R : Type*) where
  nodes : State → Node R
  zeroArc : State → Option (Arc R)
  queue : List State

/-- Sets `back_off_` of the state, adds its arc of label 0 and pushes it. -/
def Graph.link (graph : Graph R) (next backOff : State) : Graph R where
  nodes := Function.update graph.nodes next { graph.nodes next with backOff := some backOff }
  zeroArc := Function.update graph.zeroArc next <| some
    { ilabel := 0
      weight :=
        if (graph.nodes next).isFinal then 0
        else (graph.nodes backOff).score - (graph.nodes next).score
      nextstate := backOff }
  queue := graph.queue ++ [next]

/-- The `while (true)` that looks for the state to back off to. -/
def climb (nodes : State → Node R) (label : Int) : Nat → State → Option State
  | 0, _ => none
  | fuel + 1, temp =>
    match lm.find temp label with
    | some arc => some arc.nextstate
    | none =>
      if temp = .root then some .root
      else (nodes temp).backOff.bind (climb nodes label fuel)

/-- The loop over the arcs of the state that has been popped. -/
def visit (state : State) : List (Arc R) → Graph R → Option (Graph R)
  | [], graph => some graph
  | arc :: rest, graph =>
    (graph.nodes state).backOff.bind fun temp =>
      if arc.nextstate = .root ∨ arc.nextstate = temp then
        visit state rest graph
      else
        (lm.climb graph.nodes arc.ilabel (temp.length + 1) temp).bind fun backOff =>
          visit state rest (graph.link arc.nextstate backOff)

/-- `while (!q.empty())`.  The arc of label 0 stands behind the others until `ArcSort`. -/
def search : Nat → Graph R → Option (Graph R)
  | 0, _ => none
  | fuel + 1, graph =>
    match graph.queue with
    | [] => some graph
    | state :: rest =>
      (lm.visit state (lm.arcs state ++ (graph.zeroArc state).toList)
        { graph with queue := rest }).bind (search fuel)

/-- The children of the root back off to the root. -/
def linkRoot : Graph R :=
  (lm.arcs .root).foldl (fun graph arc => graph.link arc.nextstate .root)
    ⟨lm.marked, fun _ => none, []⟩

/-- `BuildGraph`: every state but the root is pushed once. -/
def buildGraph : Option (Graph R) :=
  lm.search ((lm.hotwords.map (·.labels.length)).sum + 1) lm.linkRoot

/-! ## `BiasLmScore` -/

/-- The first arc of the state.  `ArcSort` has put that of label 0 before those of the phones. -/
def firstArc (graph : Graph R) (state : State) : Option (Arc R) :=
  ((graph.zeroArc state).toList ++ lm.arcs state).head?

/-- The `while (true)`.  A state that the graph does not have has no arcs, and the last check, for
    two times the root, comes after that for two times the same state. -/
def scoreLoop (graph : Graph R) (lab : Int) : Nat → State → R → Option (R × State)
  | 0, _, _ => none
  | fuel + 1, curState, score =>
    match lm.find curState lab with
    | some arc =>
      let score := score + arc.weight
      some (if (graph.nodes arc.nextstate).isFinal then
          score + (lm.final arc.nextstate).getD 0 else score, arc.nextstate)
    | none =>
      match lm.firstArc graph curState with
      | none => some (score, curState)
      | some arc =>
        -- The back-off; the one of the root leads to the root, which ends the loop.
        if arc.ilabel = 0 then
          if arc.nextstate = curState then some (score + arc.weight, curState)
          else scoreLoop graph lab fuel arc.nextstate (score + arc.weight)
        else some (score, curState)

/-- The labels that are looked up. -/
def LooksUp (lab : Int) : Prop := ¬ (lab ≤ 0 ∨ lab ≥ lm.size ∨ lm.hotwords = []) ∧ lab ≠ lm.blkPhnId

instance : DecidablePred lm.LooksUp := fun lab =>
  have : Decidable (lm.hotwords = []) := decidable_of_iff _ List.isEmpty_iff
  inferInstanceAs (Decidable (¬ (lab ≤ 0 ∨ lab ≥ lm.size ∨ lm.hotwords = []) ∧ _))

/-- `BiasLmScore` with what it leaves in `new_state`, which is only written when the label is
    looked up. -/
def biasLmScore (graph : Graph R) (hisState : State) (lab : Int) (newState : State) :
    Option (R × State) :=
  if lm.LooksUp lab then lm.scoreLoop graph lab (hisState.length + 1) hisState 0
  else some (0, newState)

/-- What `ProcessEmitting` does for an arc: for the phone 0 it keeps the state and calls nothing, for
    any other it has 0 in `new_bias_state` before the call. -/
def propagate (graph : Graph R) (biasLmState : State) (lab : Int) : Option (R × State) :=
  if lab = 0 then some (0, biasLmState) else lm.biasLmScore graph biasLmState lab .root

/-- The labels of a path, one arc each. -/
def accumulate (graph : Graph R) : State → R → List Int → Option (R × State)
  | state, total, [] => some (total, state)
  | state, total, lab :: rest =>
    (lm.propagate graph state lab).bind fun scored =>
      accumulate graph scored.2 (total + scored.1) rest

/-- The score of the labels of a path and the state after them. -/
def walk (labels : List Int) : Option (R × State) :=
  lm.buildGraph.bind fun graph => lm.accumulate graph .root 0 labels

end SplitIds

end Asr2Pass.Hotwords
