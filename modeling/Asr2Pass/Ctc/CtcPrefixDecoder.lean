import Asr2Pass.Library.DefaultMap
import Asr2Pass.Library.Runs
import Asr2Pass.Ctc.ContextGraph
import Asr2Pass.Ctc.TopK

/-! # The prefix search

`CtcSearch` keeps the best label sequences with the weight of their alignments.  The order of a
hash map, and which of two equal scores a sort puts first, are left open.
-/

namespace Asr2Pass.Ctc

open Library (DefaultMap Steps)
open LogDomain (lowest nought plus logSumExp)

/-! ## Scores -/

/-- The two scores, the best single alignment of each with the times of its labels, and what the
    hotword graph has seen. -/
structure PrefixScore (K : Type*) where
  s : K
  ns : K
  vS : K
  vNs : K
  curTokenProb : K
  timesS : List Nat
  timesNs : List Nat
  hasContext : Bool
  contextState : Nat
  contextScore : K
  startBoundaries : List Nat
  endBoundaries : List Nat
  deriving DecidableEq, Repr

section
variable {K : Type*} [LinearOrder K] [LogDomain K]

/-- The default member initializers. -/
instance : Inhabited (PrefixScore K) :=
  ⟨{ s := lowest, ns := lowest, vS := lowest, vNs := lowest, curTokenProb := lowest
     timesS := [], timesNs := [], hasContext := false, contextState := 0
     contextScore := nought, startBoundaries := [], endBoundaries := [] }⟩

namespace PrefixScore

def score (prefixScore : PrefixScore K) : K :=
  logAdd prefixScore.s prefixScore.ns

omit [LogDomain K] in
def viterbiScore (prefixScore : PrefixScore K) : K :=
  if prefixScore.vNs < prefixScore.vS then prefixScore.vS else prefixScore.vNs

def times (prefixScore : PrefixScore K) : List Nat :=
  if prefixScore.vNs < prefixScore.vS then prefixScore.timesS else prefixScore.timesNs

def totalScore (prefixScore : PrefixScore K) : K :=
  plus prefixScore.score prefixScore.contextScore

def copyContext (next prefixScore : PrefixScore K) : PrefixScore K :=
  { next with
    contextState := prefixScore.contextState
    contextScore := prefixScore.contextScore
    startBoundaries := prefixScore.startBoundaries
    endBoundaries := prefixScore.endBoundaries }

def updateContext (next : PrefixScore K) (contextGraph : ContextGraph K)
    (prefixScore : PrefixScore K) (wordId prefixLen : Nat) : PrefixScore K :=
  let copied := next.copyContext prefixScore
  let move := contextGraph.getNextState prefixScore.contextState wordId
  { copied with
    contextState := move.nextState
    contextScore := plus copied.contextScore move.score
    startBoundaries :=
      if move.isStartBoundary then copied.startBoundaries ++ [prefixLen] else copied.startBoundaries
    endBoundaries :=
      if move.isEndBoundary then copied.endBoundaries ++ [prefixLen] else copied.endBoundaries }

/-- What guards both: there is a graph, and no context yet. -/
def setContext (next : PrefixScore K) (contextGraph : Option (ContextGraph K))
    (set : PrefixScore K → ContextGraph K → PrefixScore K) : PrefixScore K :=
  match contextGraph with
  | none => next
  | some contextGraph =>
    if next.hasContext then next else { set next contextGraph with hasContext := true }

/-! ## Token passing -/

/-- Case 0: a blank after the labels. -/
def passBlank (next : PrefixScore K) (contextGraph : Option (ContextGraph K))
    (prefixScore : PrefixScore K) (prob : K) : PrefixScore K :=
  let passed := { next with
    s := logAdd next.s (plus prefixScore.score prob)
    -- not compared with the one before: a key meets the blank once a frame
    vS := plus prefixScore.viterbiScore prob
    timesS := prefixScore.times }
  passed.setContext contextGraph fun next _ => next.copyContext prefixScore

/-- Case 1: the last label once more; none where `CHECK_GT` fails. -/
def passRepeat (next : PrefixScore K) (contextGraph : Option (ContextGraph K)) (absTimeStep : Nat)
    (prefixScore : PrefixScore K) (prob : K) : Option (PrefixScore K) := do
  let next := { next with ns := logAdd next.ns (plus prefixScore.ns prob) }
  let passed ←
    if next.vNs < plus prefixScore.vNs prob then
      let next := { next with vNs := plus prefixScore.vNs prob }
      -- the times move only where the label is likelier now than when it was timed
      if next.curTokenProb < prob then
        if prefixScore.timesNs.length > 0 then
          some { next with
            curTokenProb := prob
            timesNs := prefixScore.timesNs.dropLast ++ [absTimeStep] }
        else
          none
      else
        some next
    else
      some next
  return passed.setContext contextGraph fun next _ => next.copyContext prefixScore

/-- Cases 2 and 3: a new label `id`.  They differ in the scores and times that they pass on. -/
def passNew (next : PrefixScore K) (contextGraph : Option (ContextGraph K)) (absTimeStep : Nat)
    (prefixScore : PrefixScore K) (score viterbi : K) (times : List Nat) (id prefixLen : Nat)
    (prob : K) : PrefixScore K :=
  let next := { next with ns := logAdd next.ns (plus score prob) }
  -- The times go with the best alignment.
  let passed :=
    if next.vNs < plus viterbi prob then
      { next with
        vNs := plus viterbi prob
        curTokenProb := prob
        timesNs := times ++ [absTimeStep] }
    else
      next
  passed.setContext contextGraph fun next contextGraph =>
    next.updateContext contextGraph prefixScore id prefixLen

end PrefixScore

/-- A label sequence with its scores. -/
abbrev Hypothesis (K : Type*) := Sigma fun _ : List Nat => PrefixScore K

abbrev Hypotheses (K : Type*) := DefaultMap (List Nat) (PrefixScore K)

structure Options where
  blank : Nat := 0
  firstBeamSize : Nat := 10
  secondBeamSize : Nat := 10

/-- One entry of the beam meets one hypothesis. -/
def passToken (contextGraph : Option (ContextGraph K)) (blank absTimeStep : Nat)
    (item : K × Nat) (hypothesis : Hypothesis K) (nextHyps : Hypotheses K) :
    Option (Hypotheses K) :=
  let (prob, id) := item
  let labels := hypothesis.1
  let prefixScore := hypothesis.2
  if id = blank then
    -- Case 0: *a + ε => *a
    some (nextHyps.insert labels
      ((nextHyps.read labels).passBlank contextGraph prefixScore prob))
  else if labels.getLast? = some id then do
    -- Case 1: *a + a => *a
    let next ← (nextHyps.read labels).passRepeat contextGraph absTimeStep prefixScore prob
    let nextHyps : Hypotheses K := nextHyps.insert labels next
    -- Case 2: *aε + a => *aa
    let newLabels := labels ++ [id]
    return nextHyps.insert newLabels ((nextHyps.read newLabels).passNew contextGraph absTimeStep
      prefixScore prefixScore.s prefixScore.vS prefixScore.timesS id labels.length prob)
  else
    -- Case 3: *a + b => *ab, *aε + b => *ab
    let newLabels := labels ++ [id]
    some (nextHyps.insert newLabels ((nextHyps.read newLabels).passNew contextGraph absTimeStep
      prefixScore prefixScore.score prefixScore.viterbiScore prefixScore.times id labels.length
      prob))

/-- The two loops: over the beam, and over `cur_hyps_` in the order of the hash map. -/
def tokenPassing (contextGraph : Option (ContextGraph K)) (blank absTimeStep : Nat)
    (topk : List (K × Nat)) (order : List (Hypothesis K)) : Option (Hypotheses K) :=
  (topk ×ˢ order).foldlM
    (fun nextHyps pair => passToken contextGraph blank absTimeStep pair.1 pair.2 nextHyps) ∅

/-! ## Frames -/

/-- `cur_hyps_` and `abs_time_step_`.  The lists of hypotheses, likelihoods and times that
    `UpdateHypotheses` fills are read off `cur_hyps_`, whose entries stand in the same order. -/
structure Decoder (K : Type*) where
  curHyps : Hypotheses K
  absTimeStep : Nat

/-- `Reset` -/
def reset : Decoder K where
  curHyps := AList.singleton []
    { (default : PrefixScore K) with s := nought, vS := nought, vNs := nought }
  absTimeStep := 0

/-- Only the empty label sequence is known. -/
theorem read_reset (key : List Nat) :
    (reset : Decoder K).curHyps.read key =
      if key = [] then { (default : PrefixScore K) with s := nought, vS := nought, vNs := nought }
      else default := by
  by_cases empty : key = []
  · subst empty
    rw [if_pos rfl]
    exact DefaultMap.read_of_mem_entries (List.mem_singleton_self _)
  · rw [if_neg empty]
    exact DefaultMap.read_of_notMem (by simp [reset, AList.mem_keys, empty])

/-- `PrefixScoreCompare` does not put the second before the first. -/
def InOrder (a b : Hypothesis K) : Prop :=
  b.2.totalScore ≤ a.2.totalScore

/-- The second beam: the best hypotheses, in order. -/
structure SecondBeam (secondBeamSize : Nat) (nextHyps kept : Hypotheses K) : Prop where
  sorted : kept.entries.Pairwise InOrder
  size : kept.entries.length = min nextHyps.entries.length secondBeamSize
  best : ∃ rest, (kept.entries ++ rest).Perm nextHyps.entries ∧
    ∀ a ∈ kept.entries, ∀ b ∈ rest, InOrder a b

/-- One turn of the loop over the frames. -/
structure Decoder.Frame (contextGraph : Option (ContextGraph K)) (opts : Options)
    (firstBeamSize : Nat) (decoder : Decoder K) (logpT : List K) (after : Decoder K) : Prop where
  searched : ∃ topk order nextHyps, topK logpT firstBeamSize = some topk ∧
    order.Perm decoder.curHyps.entries ∧
    tokenPassing contextGraph opts.blank decoder.absTimeStep topk order = some nextHyps ∧
    SecondBeam opts.secondBeamSize nextHyps after.curHyps
  time : after.absTimeStep = decoder.absTimeStep + 1

/-- What `UpdateFinalContext` does to one hypothesis. -/
def backoff (contextGraph : ContextGraph K) (hypothesis : Hypothesis K) : Hypothesis K :=
  if hypothesis.2.contextState ≠ 0 then
    ⟨hypothesis.1, hypothesis.2.updateContext contextGraph hypothesis.2 0 hypothesis.1.length⟩
  else
    hypothesis

/-- `UpdateFinalContext` -/
def Decoder.FinalContext (contextGraph : Option (ContextGraph K)) (decoder after : Decoder K) :
    Prop :=
  match contextGraph with
  | none => after = decoder
  | some contextGraph =>
    after.curHyps.entries.Perm (decoder.curHyps.entries.map (backoff contextGraph)) ∧
      after.curHyps.entries.Pairwise InOrder ∧ after.absTimeStep = decoder.absTimeStep

/-- What changes the hypotheses during `CtcSearch`. -/
inductive Move (K : Type*) where
  | frame (firstBeamSize : Nat) (logpT : List K)
  | finalContext

def Decoder.Step (contextGraph : Option (ContextGraph K)) (opts : Options) (decoder : Decoder K)
    (move : Move K) (after : Decoder K) : Prop :=
  match move with
  | .frame firstBeamSize logpT => decoder.Frame contextGraph opts firstBeamSize logpT after
  | .finalContext => decoder.FinalContext contextGraph after

/-- The first beam of a call: the width of its first frame bounds it. -/
def Options.beam (opts : Options) (logp : List (List K)) : Nat :=
  min (logp.headD []).length opts.firstBeamSize

/-- The first frames of a call. -/
def Options.frames (opts : Options) (logp : List (List K)) (count : Nat) : List (Move K) :=
  (logp.take count).map (Move.frame (opts.beam logp))

/-- `CtcSearch`: its frames, and then the final context; nothing where there is no frame. -/
def Options.ctcSearch (opts : Options) (logp : List (List K)) : List (Move K) :=
  if logp.isEmpty then [] else opts.frames logp logp.length ++ [Move.finalContext]

/-! ## Results -/

structure WordPiece where
  word : String
  start : Nat
  stop : Nat
  deriving DecidableEq, Repr

structure DecodeResult (K : Type*) where
  score : K
  sentence : String
  wordPieces : List WordPiece
  deriving DecidableEq, Repr

/-- One turn of the loop of `UpdateResult`; none where `CHECK_EQ` fails. -/
def decodeResult (id2String : Nat → String) (hypothesis : Hypothesis K) :
    Option (DecodeResult K) :=
  let words := hypothesis.1.map id2String
  if hypothesis.1.length = hypothesis.2.times.length then
    some {
      score := hypothesis.2.totalScore
      sentence := String.join words
      wordPieces := List.zipWith (fun word time => ⟨word, 0, time⟩) words hypothesis.2.times }
  else
    none

/-- `UpdateResult` -/
def Decoder.updateResult (id2String : Nat → String) (decoder : Decoder K) :
    Option (List (DecodeResult K)) :=
  decoder.curHyps.entries.mapM (decodeResult id2String)

end

end Asr2Pass.Ctc
