import Mathlib.Data.List.Induction
import Asr2Pass.Ctc.CtcPrefixDecoder

/-! # A search that can be run

The search with the orders chosen: a hash map in the order in which its keys came last, a sort that
leaves equal scores in place.  It is one of the searches that the relation allows, so there is one
as long as no check fails.
-/

namespace Asr2Pass.Ctc

open Library (Steps)

variable {K : Type*} [LinearOrder K] [LogDomain K]

instance (a b : Hypothesis K) : Decidable (InOrder a b) :=
  inferInstanceAs (Decidable (_ ≤ _))

instance : IsTrans (Hypothesis K) InOrder := ⟨fun _ _ _ first second => le_trans second first⟩

instance : Std.Total (InOrder : Hypothesis K → Hypothesis K → Prop) :=
  ⟨fun _ _ => le_total _ _⟩

def ranked (hypotheses : Hypotheses K) : Hypotheses K where
  entries := hypotheses.entries.insertionSort InOrder
  nodupKeys := (List.perm_nodupKeys (List.perm_insertionSort InOrder _)).mpr hypotheses.nodupKeys

def best (count : Nat) (hypotheses : Hypotheses K) : Hypotheses K where
  entries := (ranked hypotheses).entries.take count
  nodupKeys := (ranked hypotheses).nodupKeys.sublist (List.take_sublist _ _)

theorem best_secondBeam (count : Nat) (hypotheses : Hypotheses K) :
    SecondBeam count hypotheses (best count hypotheses) := by
  have permuted := List.perm_insertionSort InOrder hypotheses.entries
  have sorted := List.pairwise_insertionSort InOrder hypotheses.entries
  constructor
  · exact sorted.sublist (List.take_sublist _ _)
  · rw [min_comm, ← permuted.length_eq]
    exact List.length_take
  · refine ⟨(ranked hypotheses).entries.drop count, ?_, ?_⟩
    · rw [best, List.take_append_drop]
      exact permuted
    · have cut := sorted
      rw [← List.take_append_drop count (hypotheses.entries.insertionSort InOrder),
        List.pairwise_append] at cut
      exact cut.2.2

/-- A frame, with the orders chosen. -/
def Decoder.searchFrame (contextGraph : Option (ContextGraph K)) (opts : Options)
    (decoder : Decoder K) (firstBeamSize : Nat) (logpT : List K) : Option (Decoder K) := do
  let topk ← topK logpT firstBeamSize
  let nextHyps ← tokenPassing contextGraph opts.blank decoder.absTimeStep topk
    decoder.curHyps.entries
  return ⟨best opts.secondBeamSize nextHyps, decoder.absTimeStep + 1⟩

theorem Decoder.searchFrame_frame {contextGraph : Option (ContextGraph K)} {opts : Options}
    {decoder after : Decoder K} {firstBeamSize : Nat} {logpT : List K}
    (searched : decoder.searchFrame contextGraph opts firstBeamSize logpT = some after) :
    decoder.Frame contextGraph opts firstBeamSize logpT after := by
  simp only [searchFrame, Option.bind_eq_bind, Option.bind_eq_some_iff] at searched
  obtain ⟨topk, selected, nextHyps, passed, same⟩ := searched
  cases same
  exact ⟨⟨topk, decoder.curHyps.entries, nextHyps, selected, List.Perm.refl _, passed,
    best_secondBeam _ _⟩, rfl⟩

/-- The frames of a call, one after the other. -/
def Decoder.search (contextGraph : Option (ContextGraph K)) (opts : Options) (firstBeamSize : Nat)
    (decoder : Decoder K) (frames : List (List K)) : Option (Decoder K) :=
  frames.foldlM (fun decoder logpT => decoder.searchFrame contextGraph opts firstBeamSize logpT)
    decoder

theorem Decoder.search_steps {contextGraph : Option (ContextGraph K)} {opts : Options}
    {firstBeamSize : Nat} {decoder after : Decoder K} {frames : List (List K)}
    (searched : decoder.search contextGraph opts firstBeamSize frames = some after) :
    Steps (Decoder.Step contextGraph opts) decoder (frames.map (Move.frame firstBeamSize))
      after := by
  induction frames using List.reverseRecOn generalizing after with
  | nil =>
    cases searched
    exact Steps.nil
  | append_singleton earlier logpT inductionHypothesis =>
    rw [search, List.foldlM_append] at searched
    obtain ⟨middle, first, last⟩ := Option.bind_eq_some_iff.mp searched
    rw [List.map_append]
    rw [List.foldlM_cons] at last
    obtain ⟨final, stepped, same⟩ := Option.bind_eq_some_iff.mp last
    cases same
    exact Steps.snoc (inductionHypothesis first) (searchFrame_frame stepped)

end Asr2Pass.Ctc
