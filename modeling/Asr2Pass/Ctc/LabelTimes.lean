import Asr2Pass.Ctc.Search
import Asr2Pass.Ctc.TokenPassing

/-! # A time for every label

The times of a hypothesis belong to its best alignment.  They are right wherever its score is not
zero.  A repeat of the last label makes a hypothesis without times when the shorter one has no
alignment that ends in a blank, and the second beam keeps it where there are few others.
-/

namespace Asr2Pass.Ctc

open Library (DefaultMap Steps Under)
open LogDomain (lowest nought plus)

/-! ## Times -/

/-- One time for each label, increasing, all of them in the past. -/
structure Timed (time : Nat) (labels times : List Nat) : Prop where
  length : times.length = labels.length
  increasing : times.Pairwise (· < ·)
  past : ∀ entry ∈ times, entry < time

theorem Timed.later {time : Nat} {labels times : List Nat} (timed : Timed time labels times) :
    Timed (time + 1) labels times :=
  { timed with past := fun entry member => Nat.lt_succ_of_lt (timed.past entry member) }

theorem Timed.newLabel {time : Nat} {labels times : List Nat} (timed : Timed time labels times)
    (id : Nat) : Timed (time + 1) (labels ++ [id]) (times ++ [time]) where
  length := by simp [timed.length]
  increasing := by
    simp only [List.pairwise_append, List.mem_singleton, forall_eq]
    exact ⟨timed.increasing, List.pairwise_singleton _ _, timed.past⟩
  past entry member := by
    cases List.mem_append.mp member with
    | inl earlier => exact timed.later.past entry earlier
    | inr now => exact List.mem_singleton.mp now ▸ Nat.lt_succ_self time

/-- The last label is heard again. -/
theorem Timed.lastAgain {time : Nat} {labels times : List Nat} (timed : Timed time labels times)
    (some_label : labels ≠ []) : Timed (time + 1) labels (times.dropLast ++ [time]) := by
  have shorter : Timed time labels.dropLast times.dropLast :=
    ⟨by simp [timed.length], timed.increasing.sublist (List.dropLast_sublist times),
      fun entry member => timed.past entry (List.dropLast_subset times member)⟩
  have again := shorter.newLabel (labels.getLast some_label)
  rwa [List.dropLast_append_getLast] at again

theorem timed_nil (time : Nat) : Timed time [] [] :=
  ⟨rfl, List.Pairwise.nil, by simp⟩

section
variable {K : Type*} [LinearOrder K] [LogDomain K]

/-! ## What holds of a hypothesis -/

/-- The times of a best alignment are right, and its score is not zero where the sum is not. -/
structure Sound (time : Nat) (key : List Nat) (prefixScore : PrefixScore K) : Prop where
  timesS : Live prefixScore.vS → Timed time key prefixScore.timesS
  timesNs : Live prefixScore.vNs → Timed time key prefixScore.timesNs
  liveS : Live prefixScore.s ↔ Live prefixScore.vS
  floor : lowest ≤ prefixScore.vNs
  untimed : ¬ Live prefixScore.vNs → prefixScore.timesNs = []
  liveContext : Live prefixScore.contextScore

/-- A hypothesis between two frames. -/
structure Settled (time : Nat) (key : List Nat) (prefixScore : PrefixScore K) : Prop
    extends Sound time key prefixScore where
  -- `Reset` gives the empty sequence a best alignment that ends in a label
  liveNs : key ≠ [] → (Live prefixScore.ns ↔ Live prefixScore.vNs)
  liveScore : Live prefixScore.score ↔ Live prefixScore.viterbiScore

omit [LogDomain K] in
theorem PrefixScore.viterbiScore_eq_max (prefixScore : PrefixScore K) :
    prefixScore.viterbiScore = max prefixScore.vNs prefixScore.vS := by
  rw [viterbiScore]
  split
  · exact (max_eq_right (le_of_lt ‹_›)).symm
  · exact (max_eq_left (not_lt.mp ‹_›)).symm

theorem live_max {x y : K} : Live (max x y) ↔ Live x ∨ Live y :=
  lt_max_iff

/-- `times` is that of the better alignment. -/
theorem Sound.times {time : Nat} {key : List Nat} {prefixScore : PrefixScore K}
    (sound : Sound time key prefixScore) (live : Live prefixScore.viterbiScore) :
    Timed time key prefixScore.times := by
  rw [PrefixScore.times]
  rw [PrefixScore.viterbiScore] at live
  split
  · rw [if_pos ‹_›] at live
    exact sound.timesS live
  · rw [if_neg ‹_›] at live
    exact sound.timesNs live

/-- Where both alignments are of probability zero there are no times at all. -/
theorem Sound.times_of_not_live {time : Nat} {key : List Nat} {prefixScore : PrefixScore K}
    (sound : Sound time key prefixScore) (dead : ¬ Live prefixScore.viterbiScore) :
    prefixScore.times = [] := by
  rw [PrefixScore.viterbiScore_eq_max, live_max, not_or] at dead
  have notLess : ¬ prefixScore.vNs < prefixScore.vS :=
    not_lt.mpr (le_trans (not_lt.mp dead.2) sound.floor)
  rw [PrefixScore.times, if_neg notLess]
  exact sound.untimed dead.1

end

/-! ## What a frame keeps -/

section
variable {K : Type*} [LinearOrder K] [LogDomain K] [LawfulLogDomain K]

/-- The weights of the graph are finite numbers. -/
def FiniteWeights (contextGraph : Option (ContextGraph K)) : Prop :=
  ∀ graph ∈ contextGraph, ∀ state, ∀ arc ∈ graph.arcs state, Live arc.weight

omit [LawfulLogDomain K] in
theorem ContextGraph.live_follow {graph : ContextGraph K} (curState wordId : Nat)
    {arcs : List (Arc K)} {move : ContextMove K} (finite : ∀ arc ∈ arcs, Live arc.weight)
    (live : Live move.score) : Live (graph.follow curState wordId arcs move).score := by
  induction arcs generalizing move with
  | nil => exact live
  | cons arc rest inductionHypothesis =>
    have weight := finite arc List.mem_cons_self
    have later := fun other member => finite other (List.mem_cons_of_mem arc member)
    rw [follow]
    split
    · exact inductionHypothesis later weight
    · split
      · exact weight
      · exact inductionHypothesis later live

theorem Context.live_advance {contextGraph : Option (ContextGraph K)}
    (finite : FiniteWeights contextGraph) {graph : ContextGraph K} (given : graph ∈ contextGraph)
    {context : Context K} (id position : Nat) (live : Live context.score) :
    Live (context.advance graph id position).score := by
  have move : Live (graph.getNextState context.state id).score :=
    ContextGraph.live_follow _ _ (finite graph given context.state) live_nought
  simp [advance, live, move]

/-- A key of the next frame, during token passing. -/
structure Visited (decoder : Decoder K) (blank : Nat) (logpT : List K) (key : List Nat)
    (prefixScore : PrefixScore K) : Prop extends
    Sound (decoder.absTimeStep + 1) key prefixScore where
  token : Live prefixScore.curTokenProb →
    Timed (decoder.absTimeStep + 1) key prefixScore.timesNs
  liveNs : Live prefixScore.ns ↔ Live prefixScore.vNs
  -- `v_s` is overwritten by each blank: there is one blank, and one hypothesis with these labels
  fromBlank : Live prefixScore.s → ∃ prob, logpT[blank]? = some prob ∧ Live prob ∧
    ∃ hypothesis ∈ decoder.curHyps.entries, hypothesis.1 = key ∧ Live hypothesis.2.score

theorem visited_default (decoder : Decoder K) (blank : Nat) (logpT : List K) (key : List Nat) :
    Visited decoder blank logpT key default := by
  have dead : ¬ Live (lowest : K) := not_live_lowest
  constructor
  · constructor
    · exact fun live => absurd live dead
    · exact fun live => absurd live dead
    · exact Iff.rfl
    · exact le_rfl
    · exact fun _ => rfl
    · exact live_nought
  · exact fun live => absurd live dead
  · exact Iff.rfl
  · exact fun live => absurd live dead

omit [LawfulLogDomain K] in
/-- The context does not touch the scores and times. -/
theorem Visited.meet {decoder : Decoder K} {blank : Nat} {logpT : List K} {key : List Nat}
    {prefixScore : PrefixScore K} (visited : Visited decoder blank logpT key prefixScore)
    {contextGraph : Option (ContextGraph K)} {context : ContextGraph K → Context K}
    (live : ∀ graph ∈ contextGraph, Live (context graph).score) :
    Visited decoder blank logpT key (prefixScore.meet contextGraph context) := by
  have liveContext : Live (prefixScore.meet contextGraph context).contextScore := by
    cases contextGraph with
    | none => exact visited.liveContext
    | some graph =>
      rw [PrefixScore.meet]
      split
      · exact visited.liveContext
      · exact live graph rfl
  constructor
  · constructor
    · simpa using visited.timesS
    · simpa using visited.timesNs
    · simpa using visited.liveS
    · simpa using visited.floor
    · simpa using visited.untimed
    · exact liveContext
  · simpa using visited.token
  · simpa using visited.liveNs
  · simpa using visited.fromBlank

/-- Every hypothesis between two frames. -/
def Decoder.Settled (decoder : Decoder K) : Prop :=
  ∀ hypothesis ∈ decoder.curHyps.entries,
    Ctc.Settled decoder.absTimeStep hypothesis.1 hypothesis.2

section
variable {decoder : Decoder K} {blank : Nat} {logpT : List K} {key : List Nat}
  {next : PrefixScore K}

omit [LawfulLogDomain K] in
theorem Visited.live_of_better (visited : Visited decoder blank logpT key next) {viterbi : K}
    (better : next.vNs < viterbi) : Live viterbi :=
  lt_of_le_of_lt visited.floor better

/-- A score that is added, and an alignment that is not better than the one known. -/
theorem Visited.liveNs_of_not_better (visited : Visited decoder blank logpT key next)
    {score viterbi prob : K} (live : Live score ↔ Live viterbi)
    (notBetter : ¬ next.vNs < plus viterbi prob) :
    Live (logAdd next.ns (plus score prob)) ↔ Live next.vNs := by
  rw [live_logAdd, live_plus, visited.liveNs, live, ← live_plus]
  exact or_iff_left_of_imp fun added => added.mono (not_lt.mp notBetter)

/-- A score that is added, and an alignment that is better than the one known. -/
theorem Visited.liveNs_of_better (visited : Visited decoder blank logpT key next)
    {score viterbi prob : K} (live : Live score ↔ Live viterbi)
    (better : next.vNs < plus viterbi prob) :
    Live (logAdd next.ns (plus score prob)) ↔ Live (plus viterbi prob) := by
  have added := visited.live_of_better better
  rw [live_logAdd, live_plus, live, ← live_plus]
  simp [added]

/-- Case 0 -/
theorem Visited.passBlank {hypothesis : Hypothesis K} {prob : K}
    (visited : Visited decoder blank logpT hypothesis.1 next) (settled : decoder.Settled)
    (member : hypothesis ∈ decoder.curHyps.entries) (found : logpT[blank]? = some prob) :
    Visited decoder blank logpT hypothesis.1
      { next with
        s := logAdd next.s (plus hypothesis.2.score prob)
        vS := plus hypothesis.2.viterbiScore prob
        timesS := hypothesis.2.times } := by
  have known := settled hypothesis member
  have liveScore : Live (logAdd next.s (plus hypothesis.2.score prob)) ↔
      Live hypothesis.2.score ∧ Live prob := by
    rw [live_logAdd, live_plus]
    -- A score that was there before came of the same hypothesis and the same blank.
    refine or_iff_right_of_imp fun before => ?_
    obtain ⟨other, same, liveProb, earlier, earlierMember, labels, liveEarlier⟩ :=
      visited.fromBlank before
    have scores : earlier.2 = hypothesis.2 := by
      rw [← DefaultMap.read_of_mem_entries earlierMember,
        ← DefaultMap.read_of_mem_entries member, labels]
    rw [found, Option.some.injEq] at same
    exact ⟨scores ▸ liveEarlier, same ▸ liveProb⟩
  constructor
  · constructor
    · intro live
      exact (known.toSound.times (live_plus.mp live).1).later
    · exact visited.timesNs
    · rw [liveScore, live_plus, known.liveScore]
    · exact visited.floor
    · exact visited.untimed
    · exact visited.liveContext
  · exact visited.token
  · exact visited.liveNs
  · intro live
    have factors := liveScore.mp live
    exact ⟨prob, found, factors.2, hypothesis, member, rfl, factors.1⟩

/-- A score that is added without a better alignment. -/
theorem Visited.addNs (visited : Visited decoder blank logpT key next) {score viterbi prob : K}
    (live : Live score ↔ Live viterbi) (notBetter : ¬ next.vNs < plus viterbi prob) :
    Visited decoder blank logpT key { next with ns := logAdd next.ns (plus score prob) } :=
  { visited with liveNs := visited.liveNs_of_not_better live notBetter }

/-- A better alignment, with the times that stay or that come with it. -/
theorem Visited.improveNs (visited : Visited decoder blank logpT key next)
    {score viterbi prob token : K} {times : List Nat} (live : Live score ↔ Live viterbi)
    (better : next.vNs < plus viterbi prob)
    (timed : Timed (decoder.absTimeStep + 1) key times) :
    Visited decoder blank logpT key
      { next with
        ns := logAdd next.ns (plus score prob)
        vNs := plus viterbi prob
        curTokenProb := token
        timesNs := times } := by
  have added := visited.live_of_better better
  exact { visited with
    timesNs := fun _ => timed
    floor := le_of_lt added
    untimed := fun dead => absurd added dead
    token := fun _ => timed
    liveNs := visited.liveNs_of_better live better }

/-- Cases 2 and 3 -/
theorem Visited.passNew {labels times : List Nat} {id : Nat}
    (visited : Visited decoder blank logpT (labels ++ [id]) next) {score viterbi prob : K}
    (live : Live score ↔ Live viterbi)
    (timed : Live viterbi → Timed decoder.absTimeStep labels times) :
    Visited decoder blank logpT (labels ++ [id])
      (if next.vNs < plus viterbi prob then
        { next with
          ns := logAdd next.ns (plus score prob)
          vNs := plus viterbi prob
          curTokenProb := prob
          timesNs := times ++ [decoder.absTimeStep] }
      else
        { next with ns := logAdd next.ns (plus score prob) }) := by
  split
  · have better : next.vNs < plus viterbi prob := ‹_›
    have liveViterbi := (live_plus.mp (visited.live_of_better better)).1
    exact visited.improveNs live better ((timed liveViterbi).newLabel id)
  · exact visited.addNs live ‹_›

/-- Every visit of a frame keeps the scores and times of its key. -/
theorem Meeting.Visit.visited {meeting : Meeting K} {after : PrefixScore K}
    (visit : meeting.Visit key next after) (finite : FiniteWeights meeting.contextGraph)
    (time : meeting.absTimeStep = decoder.absTimeStep) (sameBlank : meeting.blank = blank)
    (genuine : logpT[meeting.item.2]? = some meeting.item.1) (settled : decoder.Settled)
    (member : meeting.hypothesis ∈ decoder.curHyps.entries)
    (before : Visited decoder blank logpT key next) :
    Visited decoder blank logpT key after := by
  have known := settled meeting.hypothesis member
  have copied : ∀ graph ∈ meeting.contextGraph, Live (meeting.hypothesis.2.context).score :=
    fun _ _ => known.liveContext
  have advanced : ∀ graph ∈ meeting.contextGraph, Live (meeting.hypothesis.2.context.advance
      graph meeting.item.2 meeting.hypothesis.1.length).score :=
    fun graph given => Context.live_advance finite given _ _ known.liveContext
  cases visit with
  | blank next isBlank =>
    rw [PrefixScore.passBlank_eq]
    rw [isBlank, sameBlank] at genuine
    exact (before.passBlank settled member genuine).meet copied
  | again isLabel isLast checked =>
    have someLabel : meeting.hypothesis.1 ≠ [] := by
      intro empty
      simp [empty] at isLast
    have liveNs := known.liveNs someLabel
    obtain ⟨notBetter, rfl⟩ | ⟨better, notLikelier, rfl⟩ | ⟨better, likelier, -, rfl⟩ :=
      PrefixScore.passRepeat_cases checked
    · exact (before.addNs liveNs notBetter).meet copied
    · -- the times are those of a likelier last label, set earlier in this frame
      have liveProb := (live_plus.mp (before.live_of_better better)).2
      have timed := before.token (liveProb.mono (not_lt.mp notLikelier))
      exact (before.improveNs liveNs better timed).meet copied
    · have liveViterbi := (live_plus.mp (before.live_of_better better)).1
      have timed := (known.timesNs liveViterbi).lastAgain someLabel
      rw [time]
      exact (before.improveNs liveNs better timed).meet copied
  | afterBlank next isLabel isLast =>
    rw [PrefixScore.passNew_eq, time]
    exact (before.passNew known.liveS known.timesS).meet advanced
  | new next isLabel differs =>
    rw [PrefixScore.passNew_eq, time]
    exact (before.passNew known.liveScore known.toSound.times).meet advanced

end

/-- Between the frames the scores settle. -/
theorem Visited.settled {decoder : Decoder K} {blank : Nat} {logpT : List K} {key : List Nat}
    {prefixScore : PrefixScore K} (visited : Visited decoder blank logpT key prefixScore) :
    Ctc.Settled (decoder.absTimeStep + 1) key prefixScore where
  toSound := visited.toSound
  liveNs _ := visited.liveNs
  liveScore := by
    rw [PrefixScore.score, live_logAdd, PrefixScore.viterbiScore_eq_max, live_max, visited.liveS,
      visited.liveNs, or_comm]

theorem reset_settled : (reset : Decoder K).Settled := by
  intro hypothesis member
  simp only [reset, AList.singleton_entries, List.mem_singleton] at member
  subst member
  constructor
  · constructor
    · exact fun _ => timed_nil 0
    · exact fun _ => timed_nil 0
    · exact Iff.rfl
    · exact le_of_lt live_nought
    · exact fun _ => rfl
    · exact live_nought
  · exact fun someLabel => absurd rfl someLabel
  · simp [PrefixScore.score, PrefixScore.viterbiScore_eq_max]

theorem tokenPassing_visited {contextGraph : Option (ContextGraph K)} {blank firstBeamSize : Nat}
    {decoder : Decoder K} {logpT : List K} {topk : List (K × Nat)} {order : List (Hypothesis K)}
    {nextHyps : Hypotheses K} (finite : FiniteWeights contextGraph) (settled : decoder.Settled)
    (selected : topK logpT firstBeamSize = some topk)
    (same : order.Perm decoder.curHyps.entries)
    (passed : tokenPassing contextGraph blank decoder.absTimeStep topk order = some nextHyps) :
    ∀ hypothesis ∈ nextHyps.entries,
      Visited decoder blank logpT hypothesis.1 hypothesis.2 := by
  refine tokenPassing_entries selected same passed (Visited decoder blank logpT) ?_
  intro item genuine hypothesis member key next after new visit
  apply visit.visited finite rfl rfl genuine settled member
  cases new with
  | inl isNew => exact isNew ▸ visited_default decoder blank logpT key
  | inr known => exact known

theorem Decoder.Frame.settled {contextGraph : Option (ContextGraph K)} {opts : Options}
    {firstBeamSize : Nat} {decoder after : Decoder K} {logpT : List K}
    (frame : Decoder.Frame contextGraph opts firstBeamSize decoder logpT after)
    (finite : FiniteWeights contextGraph) (settled : decoder.Settled) : after.Settled := by
  obtain ⟨topk, order, nextHyps, selected, same, passed, beam⟩ := frame.searched
  have visited := tokenPassing_visited finite settled selected same passed
  intro hypothesis member
  rw [frame.time]
  exact (visited hypothesis (beam.subset member)).settled

end

end Asr2Pass.Ctc
