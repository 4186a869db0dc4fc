import Asr2Pass.Library.FallibleMaps
import Asr2Pass.Ctc.LabelTimes

/-! # When the search keeps a time for every label

`CHECK_GT` never fails.  `CHECK_EQ` fails where the second beam keeps a hypothesis of probability
zero: the shorter one had no alignment that ends in a blank.  It keeps none where there are enough
others.
-/

namespace Asr2Pass.Ctc

open Library (DefaultMap Steps Under isSome_mapM_iff length_of_mapM)
open LogDomain (lowest nought plus)

variable {K : Type*} [LinearOrder K] [LogDomain K] [LawfulLogDomain K]

/-! ## `CHECK_GT` -/

theorem foldlM_pass_some {decoder : Decoder K} {blank : Nat} {logpT : List K}
    (settled : decoder.Settled) {visits : List (Meeting K)}
    (genuine : ∀ meeting ∈ visits, FiniteWeights meeting.contextGraph ∧
      meeting.absTimeStep = decoder.absTimeStep ∧ meeting.blank = blank ∧
      logpT[meeting.item.2]? = some meeting.item.1 ∧
      meeting.hypothesis ∈ decoder.curHyps.entries)
    {start : Hypotheses K}
    (visited : ∀ key, Visited decoder blank logpT key (start.read key)) :
    ∃ nextHyps, visits.foldlM (fun hyps meeting => meeting.pass hyps) start = some nextHyps := by
  induction visits generalizing start with
  | nil => exact ⟨start, rfl⟩
  | cons meeting rest inductionHypothesis =>
    obtain ⟨finite, time, sameBlank, found, member⟩ := genuine meeting List.mem_cons_self
    have known := settled meeting.hypothesis member
    have checked : ∃ after, meeting.pass start = some after := by
      refine Meeting.pass_some fun isLast => PrefixScore.passRepeat_some _ _ fun better _ => ?_
      -- a better alignment has a probability, and so one time for each label
      have live := (visited meeting.hypothesis.1).live_of_better better
      rw [(known.timesNs (live_plus.mp live).1).length, List.length_pos_iff]
      intro empty
      simp [empty] at isLast
    obtain ⟨middle, passed⟩ := checked
    have later : ∀ key, Visited decoder blank logpT key (middle.read key) := by
      intro key
      cases Meeting.pass_lookup passed key with
      | inl untouched =>
        rw [DefaultMap.read, untouched.2]
        exact visited key
      | inr touched =>
        exact touched.2.2.visited finite time sameBlank found settled member (visited key)
    obtain ⟨nextHyps, ran⟩ := inductionHypothesis
      (fun meeting inRest => genuine meeting (List.mem_cons_of_mem _ inRest)) later
    refine ⟨nextHyps, ?_⟩
    rw [List.foldlM_cons, passed]
    exact ran

/-- `CHECK_GT` holds, in whatever order the hypotheses come. -/
theorem tokenPassing_some {contextGraph : Option (ContextGraph K)}
    (finite : FiniteWeights contextGraph) {decoder : Decoder K} (settled : decoder.Settled)
    (blank : Nat) {logpT : List K} {firstBeamSize : Nat} {topk : List (K × Nat)}
    (selected : topK logpT firstBeamSize = some topk) {order : List (Hypothesis K)}
    (same : order.Perm decoder.curHyps.entries) :
    ∃ nextHyps, tokenPassing contextGraph blank decoder.absTimeStep topk order =
      some nextHyps := by
  rw [tokenPassing_eq]
  refine @foldlM_pass_some _ _ _ _ decoder blank logpT settled _ ?_ ∅ ?_
  · intro meeting member
    obtain ⟨item, inBeam, hypothesis, inOrder, rfl⟩ := mem_meetings.mp member
    exact ⟨finite, rfl, rfl, topK_getElem? selected inBeam, same.subset inOrder⟩
  · intro key
    rw [DefaultMap.read_empty]
    exact visited_default decoder blank logpT key

/-! ## The end of a call -/

theorem Settled.backoff {contextGraph : ContextGraph K} {time : Nat} {hypothesis : Hypothesis K}
    (finite : FiniteWeights (some contextGraph))
    (settled : Settled time hypothesis.1 hypothesis.2) :
    Settled time (backoff contextGraph hypothesis).1 (backoff contextGraph hypothesis).2 := by
  rw [Ctc.backoff]
  split
  · have context : Live hypothesis.2.context.score := settled.liveContext
    have advanced := Context.live_advance finite rfl 0 hypothesis.1.length context
    exact { settled with liveContext := advanced, liveScore := settled.liveScore }
  · exact settled

theorem Decoder.FinalContext.settled {contextGraph : Option (ContextGraph K)}
    {decoder after : Decoder K} (final : Decoder.FinalContext contextGraph decoder after)
    (finite : FiniteWeights contextGraph) (settled : decoder.Settled) : after.Settled := by
  cases contextGraph with
  | none =>
    rw [show after = decoder from final]
    exact settled
  | some contextGraph =>
    intro hypothesis member
    obtain ⟨earlier, inEarlier, rfl⟩ := List.mem_map.mp (final.1.subset member)
    rw [final.2.2]
    exact (settled earlier inEarlier).backoff finite

/-! ## `CHECK_EQ` -/

omit [LawfulLogDomain K] in
theorem decodeResult_isSome {id2String : Nat → String} {hypothesis : Hypothesis K} :
    (decodeResult id2String hypothesis).isSome ↔
      hypothesis.2.times.length = hypothesis.1.length := by
  by_cases same : hypothesis.1.length = hypothesis.2.times.length
  · simp [decodeResult, same]
  · simp [decodeResult, same, eq_comm]

omit [LawfulLogDomain K] in
/-- The times of a hypothesis are right where there is something to time. -/
theorem Settled.timed {time : Nat} {key : List Nat} {prefixScore : PrefixScore K}
    (settled : Settled time key prefixScore) (live : key ≠ [] → Live prefixScore.score) :
    Timed time key prefixScore.times := by
  by_cases alive : Live prefixScore.viterbiScore
  · exact settled.times alive
  · have empty : key = [] := by
      by_contra labels
      exact alive (settled.liveScore.mp (live labels))
    rw [settled.times_of_not_live alive, empty]
    exact timed_nil time

omit [LawfulLogDomain K] in
/-- A hypothesis of probability zero that has labels has no times. -/
theorem Settled.length_iff {time : Nat} {key : List Nat} {prefixScore : PrefixScore K}
    (settled : Settled time key prefixScore) :
    prefixScore.times.length = key.length ↔ (key ≠ [] → Live prefixScore.score) := by
  constructor
  · intro same labels
    by_contra dead
    rw [settled.liveScore] at dead
    rw [settled.times_of_not_live dead, List.length_nil, eq_comm, List.length_eq_zero_iff] at same
    exact labels same
  · exact fun live => (settled.timed live).length

omit [LawfulLogDomain K] in
/-- `CHECK_EQ` holds where every kept hypothesis that has labels has an alignment. -/
theorem Decoder.Settled.updateResult_some_iff {decoder : Decoder K} (settled : decoder.Settled)
    (id2String : Nat → String) :
    (∃ results, decoder.updateResult id2String = some results) ↔
      ∀ hypothesis ∈ decoder.curHyps.entries,
        hypothesis.1 ≠ [] → Live hypothesis.2.score := by
  rw [← Option.isSome_iff_exists, Decoder.updateResult, isSome_mapM_iff]
  refine forall₂_congr fun hypothesis member => ?_
  rw [decodeResult_isSome, (settled hypothesis member).length_iff]

/-! ## What the second beam keeps -/

omit [LawfulLogDomain K] in
/-- A beam with enough to choose from keeps nothing of probability zero. -/
theorem SecondBeam.live {count : Nat} {nextHyps kept : Hypotheses K}
    (beam : SecondBeam count nextHyps kept) {keys : List (List Nat)} (distinct : keys.Nodup)
    (enough : count ≤ keys.length)
    (live : ∀ key ∈ keys, key ∈ nextHyps ∧ Live (nextHyps.read key).totalScore) :
    ∀ hypothesis ∈ kept.entries, Live hypothesis.2.totalScore := by
  intro hypothesis member
  by_contra dead
  have notLive : hypothesis.1 ∉ keys := by
    intro inKeys
    have read := DefaultMap.read_of_mem_entries (beam.subset member)
    exact dead (read ▸ (live hypothesis.1 inKeys).2)
  -- the keys and this one are too many for the beam, so one of them was left out
  have leftOut : ∃ key ∈ keys, key ∉ kept.keys := by
    by_contra all
    push Not at all
    have fits : (hypothesis.1 :: keys).Subperm kept.keys :=
      List.subperm_of_subset (List.nodup_cons.mpr ⟨notLive, distinct⟩)
        (List.cons_subset.mpr ⟨List.mem_keys_of_mem member, all⟩)
    have size := fits.length_le
    rw [AList.keys, List.keys, List.length_map, beam.size, List.length_cons] at size
    omega
  obtain ⟨key, inKeys, notKept⟩ := leftOut
  obtain ⟨present, alive⟩ := live key inKeys
  obtain ⟨rest, same, better⟩ := beam.best
  have entry : ⟨key, nextHyps.read key⟩ ∈ kept.entries ++ rest :=
    same.symm.subset (DefaultMap.mem_entries_read present)
  have inRest := (List.mem_append.mp entry).resolve_left fun inKept =>
    notKept (List.mem_keys_of_mem inKept)
  exact dead (alive.mono (better hypothesis member _ inRest))

/-- The label sequences that the beam makes of alignments of a probability other than zero.  The last
    label once more continues those that end in it, and a new label of the same name those that end
    in a blank. -/
def Decoder.LiveCandidate (opts : Options) (topk : List (K × Nat)) (decoder : Decoder K)
    (key : List Nat) : Prop :=
  ∃ item ∈ topk, Live item.1 ∧ ∃ hypothesis ∈ decoder.curHyps.entries,
    (item.2 = opts.blank ∧ key = hypothesis.1 ∧ Live hypothesis.2.score) ∨
    (item.2 ≠ opts.blank ∧ hypothesis.1.getLast? = some item.2 ∧
      ((key = hypothesis.1 ∧ Live hypothesis.2.ns) ∨
        (key = hypothesis.1 ++ [item.2] ∧ Live hypothesis.2.s))) ∨
    (item.2 ≠ opts.blank ∧ hypothesis.1.getLast? ≠ some item.2 ∧
      key = hypothesis.1 ++ [item.2] ∧ Live hypothesis.2.score)

/-- No label sequence of probability zero is made, or enough others are. -/
def EnoughLive (opts : Options) (decoder : Decoder K) (move : Move K) : Prop :=
  match move with
  | .frame firstBeamSize logpT =>
    ∀ topk, topK logpT firstBeamSize = some topk →
      (∀ key, key ≠ [] → decoder.Candidate opts topk key → decoder.LiveCandidate opts topk key) ∨
        ∃ keys : List (List Nat), keys.Nodup ∧ opts.secondBeamSize ≤ keys.length ∧
          ∀ key ∈ keys, decoder.LiveCandidate opts topk key
  | .finalContext => True

theorem live_foldl_addShare (shares : List (Option K)) (score : K) :
    Live (shares.foldl addShare score) ↔
      Live score ∨ ∃ share ∈ shares, ∃ added ∈ share, Live added := by
  induction shares generalizing score with
  | nil => simp
  | cons share rest inductionHypothesis =>
    rw [List.foldl_cons, inductionHypothesis, List.exists_mem_cons_iff, ← or_assoc]
    cases share with
    | none => simp [addShare]
    | some added => simp [addShare]

/-- A live candidate is a share that is not zero. -/
theorem Decoder.LiveCandidate.exists_share {opts : Options} {topk : List (K × Nat)}
    {decoder : Decoder K} {key : List Nat} (candidate : decoder.LiveCandidate opts topk key)
    (contextGraph : Option (ContextGraph K)) (time : Nat) :
    ∃ item ∈ topk, ∃ hypothesis ∈ decoder.curHyps.entries, ∃ added, Live added ∧
      ((Meeting.mk contextGraph opts.blank time item hypothesis).blankShare key = some added ∨
        (Meeting.mk contextGraph opts.blank time item hypothesis).labelShare key = some added) := by
  obtain ⟨item, inBeam, liveProb, hypothesis, member, cases⟩ := candidate
  refine ⟨item, inBeam, hypothesis, member, ?_⟩
  obtain ⟨isBlank, rfl, live⟩ | ⟨isLabel, isLast, same⟩ | ⟨isLabel, differs, rfl, live⟩ := cases
  · exact ⟨_, live_plus.mpr ⟨live, liveProb⟩, Or.inl (by simp [Meeting.blankShare, isBlank])⟩
  · cases same with
    | inl again =>
      refine ⟨_, live_plus.mpr ⟨again.2, liveProb⟩, Or.inr ?_⟩
      simp [Meeting.labelShare, isLabel, isLast, again.1]
    | inr new =>
      refine ⟨_, live_plus.mpr ⟨new.2, liveProb⟩, Or.inr ?_⟩
      simp [Meeting.labelShare, isLabel, isLast, new.1]
  · exact ⟨_, live_plus.mpr ⟨live, liveProb⟩,
      Or.inr (by simp [Meeting.labelShare, isLabel, differs])⟩

/-- A live candidate is a key of the next frame, with a score. -/
theorem Decoder.LiveCandidate.live {contextGraph : Option (ContextGraph K)} {opts : Options}
    {topk : List (K × Nat)} {order : List (Hypothesis K)} {decoder : Decoder K} {key : List Nat}
    {nextHyps : Hypotheses K} (candidate : decoder.LiveCandidate opts topk key)
    (same : order.Perm decoder.curHyps.entries)
    (passed : tokenPassing contextGraph opts.blank decoder.absTimeStep topk order =
      some nextHyps) :
    key ∈ nextHyps ∧ Live (nextHyps.read key).score := by
  obtain ⟨item, inBeam, hypothesis, member, added, live, share⟩ :=
    candidate.exists_share contextGraph decoder.absTimeStep
  constructor
  · refine (tokenPassing_mem same passed key).mpr ⟨item, inBeam, hypothesis, member, ?_⟩
    apply (Meeting.touches_iff ⟨contextGraph, opts.blank, decoder.absTimeStep, item, hypothesis⟩
      key).mpr
    exact share.imp (fun blank => by simp [blank]) (fun label => by simp [label])
  · rw [tokenPassing_eq] at passed
    have met : Meeting.mk contextGraph opts.blank decoder.absTimeStep item hypothesis ∈
        meetings contextGraph opts.blank decoder.absTimeStep topk order :=
      mem_meetings.mpr ⟨item, inBeam, hypothesis, same.symm.subset member, rfl⟩
    obtain ⟨s, ns⟩ := foldlM_pass_scores passed key
    rw [PrefixScore.score, live_logAdd, s, ns, live_foldl_addShare, live_foldl_addShare]
    cases share with
    | inl blank => exact Or.inl (Or.inr ⟨_, List.mem_map.mpr ⟨_, met, blank⟩, added, rfl, live⟩)
    | inr label => exact Or.inr (Or.inr ⟨_, List.mem_map.mpr ⟨_, met, label⟩, added, rfl, live⟩)

/-- What a frame keeps has an alignment, where enough is live. -/
theorem Decoder.Frame.live {contextGraph : Option (ContextGraph K)} {opts : Options}
    {firstBeamSize : Nat} {decoder after : Decoder K} {logpT : List K}
    (frame : Decoder.Frame contextGraph opts firstBeamSize decoder logpT after)
    (finite : FiniteWeights contextGraph) (settled : decoder.Settled)
    (enough : EnoughLive opts decoder (Move.frame firstBeamSize logpT)) :
    ∀ hypothesis ∈ after.curHyps.entries, hypothesis.1 ≠ [] → Live hypothesis.2.score := by
  obtain ⟨topk, order, nextHyps, selected, same, passed, beam⟩ := frame.searched
  have visited := tokenPassing_visited finite settled selected same passed
  intro hypothesis member labels
  have entry := beam.subset member
  -- Every candidate is live, or there are enough live ones to fill the second beam.
  cases enough topk selected with
  | inl all =>
    have present : hypothesis.1 ∈ nextHyps := List.mem_keys_of_mem entry
    have candidate := (tokenPassing_mem same passed hypothesis.1).mp present
    have live := ((all hypothesis.1 labels candidate).live same passed).2
    rwa [DefaultMap.read_of_mem_entries entry] at live
  | inr others =>
    obtain ⟨keys, distinct, many, live⟩ := others
    have total : Live hypothesis.2.totalScore := by
      refine beam.live distinct many (fun key inKeys => ?_) hypothesis member
      obtain ⟨present, score⟩ := (live key inKeys).live same passed
      have context := (visited _ (DefaultMap.mem_entries_read present)).liveContext
      exact ⟨present, live_plus.mpr ⟨score, context⟩⟩
    exact (live_plus.mp total).1

/-! ## Runs -/

/-- The hypotheses have their times, and there is one. -/
structure Decoder.Good (decoder : Decoder K) : Prop where
  settled : decoder.Settled
  live : ∀ hypothesis ∈ decoder.curHyps.entries, hypothesis.1 ≠ [] → Live hypothesis.2.score
  nonempty : decoder.curHyps.entries ≠ []

theorem reset_good : (reset : Decoder K).Good where
  settled := reset_settled
  live hypothesis member labels := by
    simp only [reset, AList.singleton_entries, List.mem_singleton] at member
    subst member
    exact absurd rfl labels
  nonempty := by simp [reset]

omit [LawfulLogDomain K] in
/-- A frame with something in it makes a hypothesis. -/
theorem Decoder.Frame.nonempty {contextGraph : Option (ContextGraph K)} {opts : Options}
    {firstBeamSize : Nat} {decoder after : Decoder K} {logpT : List K}
    (frame : Decoder.Frame contextGraph opts firstBeamSize decoder logpT after)
    (second : 0 < opts.secondBeamSize) (first : 0 < firstBeamSize) (filled : logpT ≠ [])
    (nonempty : decoder.curHyps.entries ≠ []) : after.curHyps.entries ≠ [] := by
  obtain ⟨topk, order, nextHyps, selected, same, passed, beam⟩ := frame.searched
  obtain ⟨other, selected', size, -⟩ := topK_some logpT first
  cases selected.symm.trans selected'
  have inBeam : topk ≠ [] := by
    rw [← List.length_pos_iff, size]
    exact lt_min first (List.length_pos_iff.mpr filled)
  obtain ⟨item, itemMember⟩ := List.exists_mem_of_ne_nil topk inBeam
  obtain ⟨hypothesis, member⟩ := List.exists_mem_of_ne_nil _ nonempty
  -- A blank makes the same key again, and a label a longer one.
  have made : ∃ key, key ∈ nextHyps := by
    by_cases isBlank : item.2 = opts.blank
    · exact ⟨hypothesis.1, (tokenPassing_mem same passed _).mpr
        ⟨item, itemMember, hypothesis, member, Or.inl ⟨rfl, Or.inl isBlank⟩⟩⟩
    · exact ⟨hypothesis.1 ++ [item.2], (tokenPassing_mem same passed _).mpr
        ⟨item, itemMember, hypothesis, member, Or.inr ⟨rfl, isBlank⟩⟩⟩
  obtain ⟨key, present⟩ := made
  have some_next : 0 < nextHyps.entries.length :=
    List.length_pos_of_mem (DefaultMap.mem_entries_read present)
  rw [← List.length_pos_iff, beam.size]
  exact lt_min some_next second

omit [LawfulLogDomain K] in
/-- The final context changes neither the labels nor the scores. -/
theorem backoff_score (contextGraph : ContextGraph K) (hypothesis : Hypothesis K) :
    (backoff contextGraph hypothesis).1 = hypothesis.1 ∧
      (backoff contextGraph hypothesis).2.score = hypothesis.2.score := by
  rw [backoff]
  split <;> exact ⟨rfl, rfl⟩

theorem Decoder.FinalContext.good {contextGraph : Option (ContextGraph K)}
    {decoder after : Decoder K} (final : Decoder.FinalContext contextGraph decoder after)
    (finite : FiniteWeights contextGraph) (good : decoder.Good) : after.Good := by
  cases contextGraph with
  | none =>
    rw [show after = decoder from final]
    exact good
  | some contextGraph =>
    constructor
    · exact final.settled finite good.settled
    · intro hypothesis member labels
      obtain ⟨earlier, inEarlier, rfl⟩ := List.mem_map.mp (final.1.subset member)
      obtain ⟨sameLabels, sameScore⟩ := backoff_score contextGraph earlier
      rw [sameLabels] at labels
      rw [sameScore]
      exact good.live earlier inEarlier labels
    · intro empty
      have size := final.1.length_eq
      rw [empty, List.length_nil, List.length_map, eq_comm, List.length_eq_zero_iff] at size
      exact good.nonempty size

/-- A move that has something to choose from. -/
def Move.Filled : Move K → Prop
  | .frame firstBeamSize logpT => 0 < firstBeamSize ∧ logpT ≠ []
  | .finalContext => True

theorem Decoder.Step.good {contextGraph : Option (ContextGraph K)} {opts : Options}
    {decoder after : Decoder K} {move : Move K}
    (step : Decoder.Step contextGraph opts decoder move after)
    (finite : FiniteWeights contextGraph) (second : 0 < opts.secondBeamSize)
    (filled : move.Filled) (enough : EnoughLive opts decoder move) (good : decoder.Good) :
    after.Good := by
  cases move with
  | finalContext => exact Decoder.FinalContext.good step finite good
  | frame firstBeamSize logpT =>
    have frame : Decoder.Frame contextGraph opts firstBeamSize decoder logpT after := step
    exact ⟨frame.settled finite good.settled, frame.live finite good.settled enough,
      frame.nonempty second filled.1 filled.2 good.nonempty⟩

omit [LinearOrder K] [LogDomain K] [LawfulLogDomain K] in
theorem Options.ctcSearch_filled {opts : Options} {logp : List (List K)}
    (first : 0 < opts.firstBeamSize) (filled : ∀ logpT ∈ logp, logpT ≠ []) :
    ∀ move ∈ opts.ctcSearch logp, move.Filled := by
  intro move member
  cases logp with
  | nil => simp [ctcSearch] at member
  | cons head rest =>
    simp only [ctcSearch, List.isEmpty_cons, frames, List.take_length, Bool.false_eq_true,
      if_false, List.mem_append, List.mem_map, List.mem_singleton] at member
    cases member with
    | inl isFrame =>
      obtain ⟨logpT, inCall, rfl⟩ := isFrame
      have wide : 0 < head.length := List.length_pos_iff.mpr (filled head List.mem_cons_self)
      exact ⟨lt_min wide first, filled logpT inCall⟩
    | inr isFinal =>
      subst isFinal
      trivial

theorem run_good {contextGraph : Option (ContextGraph K)} {opts : Options} {moves : List (Move K)}
    {decoder : Decoder K} (finite : FiniteWeights contextGraph)
    (second : 0 < opts.secondBeamSize) (filled : ∀ move ∈ moves, move.Filled)
    (run : Steps (Under (EnoughLive opts) (Decoder.Step contextGraph opts)) reset moves decoder) :
    decoder.Good := by
  induction run with
  | nil => exact reset_good
  | snoc _ stepped inductionHypothesis =>
    have before := inductionHypothesis fun move member => filled move (List.mem_append_left _ member)
    exact Decoder.Step.good stepped.2 finite second
      (filled _ (List.mem_append_right _ (List.mem_singleton_self _))) stepped.1 before

/-- Every hypothesis kept has a time for each of its labels. -/
def Decoder.TimesKept (decoder : Decoder K) : Prop :=
  ∀ hypothesis ∈ decoder.curHyps.entries,
    Timed decoder.absTimeStep hypothesis.1 hypothesis.2.times

/-- No check can fail, and there is a result. -/
def Decoder.ChecksHold (contextGraph : Option (ContextGraph K)) (opts : Options)
    (id2String : Nat → String) (decoder : Decoder K) : Prop :=
  (∀ logpT firstBeamSize topk order, topK logpT firstBeamSize = some topk →
    order.Perm decoder.curHyps.entries → ∃ nextHyps,
      tokenPassing contextGraph opts.blank decoder.absTimeStep topk order = some nextHyps) ∧
  ∃ results, decoder.updateResult id2String = some results ∧ results ≠ []

omit [LawfulLogDomain K] in
theorem Decoder.Good.timesKept {decoder : Decoder K} (good : decoder.Good) : decoder.TimesKept :=
  fun hypothesis member =>
    (good.settled hypothesis member).timed (good.live hypothesis member)

theorem Decoder.Good.checksHold {contextGraph : Option (ContextGraph K)} {decoder : Decoder K}
    (good : decoder.Good) (finite : FiniteWeights contextGraph) (opts : Options)
    (id2String : Nat → String) : decoder.ChecksHold contextGraph opts id2String := by
  constructor
  · intro logpT firstBeamSize topk order selected same
    exact tokenPassing_some finite good.settled opts.blank selected same
  · obtain ⟨results, made⟩ :=
      (good.settled.updateResult_some_iff id2String).mpr good.live
    refine ⟨results, made, ?_⟩
    rw [← List.length_pos_iff, length_of_mapM made]
    exact List.length_pos_iff.mpr good.nonempty

/-- Over any number of calls, with any beams: as long as the second beam has enough to choose from,
    every hypothesis has its times and no check fails. -/
theorem label_times {contextGraph : Option (ContextGraph K)} (finite : FiniteWeights contextGraph)
    (opts : Options) (first : 0 < opts.firstBeamSize) (second : 0 < opts.secondBeamSize)
    (id2String : Nat → String) {calls : List (List (List K))}
    (filled : ∀ logp ∈ calls, ∀ logpT ∈ logp, logpT ≠ []) {moves : List (Move K)}
    (sofar : moves <+: calls.flatMap opts.ctcSearch) {decoder : Decoder K}
    (run : Steps (Under (EnoughLive opts) (Decoder.Step contextGraph opts)) reset moves decoder) :
    decoder.TimesKept ∧ decoder.ChecksHold contextGraph opts id2String := by
  have allFilled : ∀ move ∈ moves, move.Filled := by
    intro move member
    obtain ⟨logp, call, inCall⟩ := List.mem_flatMap.mp (sofar.subset member)
    exact opts.ctcSearch_filled first (filled logp call) move inCall
  have good := run_good finite second allFilled run
  exact ⟨good.timesKept, good.checksHold finite opts id2String⟩

instance (opts : Options) (topk : List (ℚ≥0 × Nat)) (decoder : Decoder ℚ≥0) (key : List Nat) :
    Decidable (decoder.LiveCandidate opts topk key) :=
  inferInstanceAs (Decidable (∃ item ∈ topk, _))

/-- The search of one frame with a beam of two. -/
def oneFrame (logpT : List ℚ≥0) : Decoder ℚ≥0 :=
  (reset.searchFrame none { secondBeamSize := 2 } 2 logpT).getD reset

theorem oneFrame_searched :
    reset.searchFrame none { secondBeamSize := 2 } 2 [1 / 2, 1 / 2] =
      some (oneFrame [1 / 2, 1 / 2]) := by
  have searched : (reset.searchFrame none { secondBeamSize := 2 } 2
      [(1 / 2 : ℚ≥0), 1 / 2]).isSome = true := by
    decide +kernel
  obtain ⟨decoder, searched⟩ := Option.isSome_iff_exists.mp searched
  rw [oneFrame, searched, Option.getD_some]

theorem label_times_twoFrames :
    ∃ decoder : Decoder ℚ≥0,
      decoder.TimesKept ∧ decoder.ChecksHold none { secondBeamSize := 2 } toString := by
  have again : ((oneFrame [1 / 2, 1 / 2]).searchFrame none { secondBeamSize := 2 } 2
      [1 / 2, 1 / 2]).isSome = true := by
    decide +kernel
  obtain ⟨decoder, searched⟩ := Option.isSome_iff_exists.mp again
  have selected : topK ([1 / 2, 1 / 2] : List ℚ≥0) 2 = some [(1 / 2, 0), (1 / 2, 1)] := by
    decide +kernel
  have enough : ∀ earlier : Decoder ℚ≥0,
      (∀ key ∈ [[], [1]],
        earlier.LiveCandidate { secondBeamSize := 2 } [(1 / 2, 0), (1 / 2, 1)] key) →
        EnoughLive { secondBeamSize := 2 } earlier (Move.frame 2 [1 / 2, 1 / 2]) := by
    intro earlier live topk same
    cases selected.symm.trans same
    exact Or.inr ⟨[[], [1]], by decide, by decide, live⟩
  have first : Steps (Under (EnoughLive { secondBeamSize := 2 })
      (Decoder.Step none { secondBeamSize := 2 })) reset [Move.frame 2 [1 / 2, 1 / 2]]
        (oneFrame [1 / 2, 1 / 2]) :=
    Steps.snoc Steps.nil ⟨enough reset (by decide +kernel),
      Decoder.searchFrame_frame oneFrame_searched⟩
  have second := Steps.snoc first ⟨enough (oneFrame [1 / 2, 1 / 2]) (by decide +kernel),
    Decoder.searchFrame_frame searched⟩
  exact ⟨decoder, @label_times ℚ≥0 _ _ _ none (by simp [FiniteWeights]) { secondBeamSize := 2 }
    (by decide) (by decide) toString [[[1 / 2, 1 / 2], [1 / 2, 1 / 2]]] (by simp) _
    ⟨[Move.finalContext], rfl⟩ decoder second⟩

/-- With beams of ten, two frames of a blank and a label `1` make a hypothesis `1 1` that has no
    alignment, and no times. -/
theorem not_labelTimes_twoFrames :
    ∃ decoder : Decoder ℚ≥0,
      Steps (Decoder.Step none {}) reset
        (Options.frames {} [[1 / 2, 1 / 2], [1 / 2, 1 / 2]] 2) decoder ∧
      ¬ decoder.TimesKept ∧ decoder.updateResult toString = none := by
  have times : (reset.search none {} 2 [[1 / 2, 1 / 2], [(1 / 2 : ℚ≥0), 1 / 2]]).map
      (fun decoder => decoder.curHyps.entries.map fun hypothesis =>
        (hypothesis.1, hypothesis.2.times)) =
      some [([1], [1]), ([], []), ([1, 1], [])] := by decide +kernel
  obtain ⟨decoder, searched, kept⟩ := Option.map_eq_some_iff.mp times
  have member : (([1, 1], []) : List Nat × List Nat) ∈ decoder.curHyps.entries.map
      fun hypothesis => (hypothesis.1, hypothesis.2.times) := by simp [kept]
  obtain ⟨hypothesis, inHyps, same⟩ := List.mem_map.mp member
  rw [Prod.mk.injEq] at same
  have untimed : hypothesis.2.times.length ≠ hypothesis.1.length := by simp [same.1, same.2]
  refine ⟨decoder, Decoder.search_steps searched,
    fun timed => untimed (timed hypothesis inHyps).length, ?_⟩
  cases made : decoder.updateResult toString with
  | none => rfl
  | some results =>
    have all := isSome_mapM_iff.mp (Option.isSome_iff_exists.mpr ⟨results, made⟩)
    exact absurd (decodeResult_isSome.mp (all hypothesis inHyps)) untimed

end Asr2Pass.Ctc
