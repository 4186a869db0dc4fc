import Asr2Pass.Ctc.LogDomain

/-! # The hotword graph

`GetNextState` looks for an arc of the word.  An arc of label 0 gives back the score of a hotword
that is abandoned.
-/

namespace Asr2Pass.Ctc

/-- An arc of the graph; its output label is never read. -/
structure Arc (K : Type*) where
  ilabel : Nat
  weight : K
  nextstate : Nat
  deriving DecidableEq, Repr

/-- The graph as `GetNextState` reads it: the arcs of a state in order, and whether the weight of a
    state as a final one is `One`. -/
structure ContextGraph (K : Type*) where
  arcs : Nat → List (Arc K)
  final : Nat → Bool

/-- What `GetNextState` returns, by value and through its pointers. -/
structure ContextMove (K : Type*) where
  nextState : Nat
  score : K
  isStartBoundary : Bool
  isEndBoundary : Bool
  deriving DecidableEq, Repr

variable {K : Type*}

/-- The loop over the arcs. -/
def ContextGraph.follow (graph : ContextGraph K) (curState wordId : Nat) :
    List (Arc K) → ContextMove K → ContextMove K
  | [], move => move
  | arc :: arcs, move =>
    -- The escape arc comes first; an arc of the word overwrites its score.
    if arc.ilabel = 0 then
      graph.follow curState wordId arcs { move with score := arc.weight }
    else if arc.ilabel = wordId then
      { nextState := arc.nextstate
        score := arc.weight
        isStartBoundary := curState = 0 || move.isStartBoundary
        isEndBoundary := graph.final arc.nextstate || move.isEndBoundary }
    else
      graph.follow curState wordId arcs move

/-- `GetNextState`, with what `UpdateContext` puts behind the pointers. -/
def ContextGraph.getNextState [LinearOrder K] [LogDomain K] (graph : ContextGraph K)
    (curState wordId : Nat) : ContextMove K :=
  graph.follow curState wordId (graph.arcs curState) ⟨0, LogDomain.nought, false, false⟩

end Asr2Pass.Ctc
