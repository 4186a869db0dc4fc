import Asr2Pass.Ctc.Search
import Asr2Pass.Ctc.TokenPassing

/-! # The hotword context is a function of the labels

A key can be reached by a blank, by a repeat and by a new label in one frame, and only the first of
them sets its context.  All of them set the same one: the graph, run over the labels of the key.
-/

namespace Asr2Pass.Ctc

open Library (DefaultMap Steps)
open LogDomain (lowest nought plus)

variable {K : Type*} [LinearOrder K] [LogDomain K]

/-- `GetNextState` from state 0 over the labels, with their positions. -/
def contextOf (contextGraph : ContextGraph K) (labels : List Nat) : Context K :=
  labels.zipIdx.foldl (fun context label => context.advance contextGraph label.1 label.2)
    ⟨0, nought, [], []⟩

theorem contextOf_snoc (contextGraph : ContextGraph K) (labels : List Nat) (id : Nat) :
    contextOf contextGraph (labels ++ [id]) =
      (contextOf contextGraph labels).advance contextGraph id labels.length := by
  simp [contextOf, List.zipIdx_append]

/-- The key has a context, and it is that of its labels. -/
def InContext (contextGraph : ContextGraph K) (key : List Nat) (prefixScore : PrefixScore K) :
    Prop :=
  prefixScore.hasContext = true ∧ prefixScore.context = contextOf contextGraph key

/-- The first visit sets the context, the later ones leave it. -/
theorem PrefixScore.meet_inContext {contextGraph : ContextGraph K} {key : List Nat}
    {next : PrefixScore K} {context : ContextGraph K → Context K}
    (before : next.hasContext = false ∨ InContext contextGraph key next)
    (same : context contextGraph = contextOf contextGraph key) :
    InContext contextGraph key (next.meet (some contextGraph) context) := by
  cases visited : next.hasContext with
  | false => exact ⟨by simp [meet, visited], by simp [meet, visited, PrefixScore.context, same]⟩
  | true =>
    have known : InContext contextGraph key next := before.resolve_left (by simp [visited])
    simpa [meet, visited] using known

/-- Every visit passes on the context of the key it visits. -/
theorem Meeting.Visit.inContext {meeting : Meeting K} {contextGraph : ContextGraph K}
    {key : List Nat} {next after : PrefixScore K}
    (graph : meeting.contextGraph = some contextGraph)
    (known : meeting.hypothesis.2.context = contextOf contextGraph meeting.hypothesis.1)
    (before : next.hasContext = false ∨ InContext contextGraph key next)
    (visit : meeting.Visit key next after) : InContext contextGraph key after := by
  have longer : meeting.hypothesis.2.context.advance contextGraph meeting.item.2
      meeting.hypothesis.1.length =
        contextOf contextGraph (meeting.hypothesis.1 ++ [meeting.item.2]) := by
    rw [known, contextOf_snoc]
  -- A blank and a repeat leave the labels as they are, the other two make them longer.
  cases visit with
  | blank next isBlank =>
    rw [PrefixScore.passBlank_eq, graph]
    exact PrefixScore.meet_inContext before known
  | again isLabel isLast checked =>
    rw [graph] at checked
    obtain ⟨-, rfl⟩ | ⟨-, -, rfl⟩ | ⟨-, -, -, rfl⟩ := PrefixScore.passRepeat_cases checked
    · exact PrefixScore.meet_inContext before known
    · exact PrefixScore.meet_inContext before known
    · exact PrefixScore.meet_inContext before known
  | afterBlank next isLabel isLast =>
    rw [PrefixScore.passNew_eq, graph]
    split
    · exact PrefixScore.meet_inContext before longer
    · exact PrefixScore.meet_inContext before longer
  | new next isLabel differs =>
    rw [PrefixScore.passNew_eq, graph]
    split
    · exact PrefixScore.meet_inContext before longer
    · exact PrefixScore.meet_inContext before longer

/-- Every hypothesis has the context of its labels. -/
def Decoder.InContext (contextGraph : ContextGraph K) (decoder : Decoder K) : Prop :=
  ∀ hypothesis ∈ decoder.curHyps.entries,
    hypothesis.2.context = contextOf contextGraph hypothesis.1

theorem reset_inContext (contextGraph : ContextGraph K) :
    (reset : Decoder K).InContext contextGraph := by
  intro hypothesis member
  simp only [reset, AList.singleton_entries, List.mem_singleton] at member
  subst member
  rfl

theorem Decoder.Frame.inContext {contextGraph : ContextGraph K} {opts : Options}
    {firstBeamSize : Nat} {decoder after : Decoder K} {logpT : List K}
    (frame : Decoder.Frame (some contextGraph) opts firstBeamSize decoder logpT after)
    (before : decoder.InContext contextGraph) : after.InContext contextGraph := by
  obtain ⟨topk, order, nextHyps, selected, same, passed, beam⟩ := frame.searched
  have contexts : ∀ hypothesis ∈ nextHyps.entries,
      Ctc.InContext contextGraph hypothesis.1 hypothesis.2 := by
    refine tokenPassing_entries selected same passed (Ctc.InContext contextGraph) ?_
    intro item _ hypothesis member key next passed new visit
    apply visit.inContext rfl (before hypothesis member)
    cases new with
    | inl isNew => exact Or.inl (isNew ▸ rfl)
    | inr known => exact Or.inr known
  exact fun hypothesis member => (contexts hypothesis (beam.subset member)).2

theorem frames_inContext {contextGraph : ContextGraph K} {opts : Options} {firstBeamSize : Nat}
    {frames : List (List K)} {decoder : Decoder K}
    (run : Steps (Decoder.Frame (some contextGraph) opts firstBeamSize) reset frames decoder) :
    decoder.InContext contextGraph := by
  induction run with
  | nil => exact reset_inContext contextGraph
  | snoc _ frame inductionHypothesis => exact frame.inContext inductionHypothesis

/-- During a search after `Reset`, every hypothesis carries what the graph says of its labels. -/
theorem hotword_context (contextGraph : ContextGraph K) (opts : Options) (logp : List (List K))
    (count : Nat) {decoder : Decoder K}
    (run : Steps (Decoder.Step (some contextGraph) opts) reset (opts.frames logp count) decoder) :
    ∀ hypothesis ∈ decoder.curHyps.entries,
      hypothesis.2.context = contextOf contextGraph hypothesis.1 :=
  frames_inContext run.of_map

/-- The hotword of the labels 1 and 2. -/
def hotwordGraph : ContextGraph ℚ≥0 where
  arcs state :=
    if state = 0 then [⟨1, 3, 1⟩]
    else if state = 1 then [⟨0, 1 / 3, 0⟩, ⟨2, 3, 2⟩]
    else []
  final state := state = 2

theorem hotword_context_twoFrames :
    ∃ decoder : Decoder ℚ≥0, decoder.curHyps.keys = [[1, 2], [1], [2], [2, 1], [], [1, 1], [2, 2]] ∧
      ∀ hypothesis ∈ decoder.curHyps.entries,
        hypothesis.2.context = contextOf hotwordGraph hypothesis.1 := by
  have kept : (reset.search (some hotwordGraph) {} 3
      [[1 / 4, 1 / 2, 1 / 4], [1 / 4, 1 / 4, 1 / 2]]).map (·.curHyps.keys) =
        some [[1, 2], [1], [2], [2, 1], [], [1, 1], [2, 2]] := by decide +kernel
  obtain ⟨decoder, searched, keys⟩ := Option.map_eq_some_iff.mp kept
  exact ⟨decoder, keys, hotword_context hotwordGraph {}
    [[1 / 4, 1 / 2, 1 / 4], [1 / 4, 1 / 4, 1 / 2]] 2 (Decoder.search_steps searched)⟩

end Asr2Pass.Ctc
