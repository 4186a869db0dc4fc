import Mathlib.Data.List.ProdSigma
import Asr2Pass.Ctc.CtcPrefixDecoder

/-! # What token passing adds up

Each meeting of a beam entry with a hypothesis visits one or two keys.  What it does there is said
once for each case; the scores of a key are then what its visits add to them.
-/

namespace Asr2Pass.Ctc

open Library (DefaultMap)
open LogDomain (lowest nought plus logSumExp)

variable {K : Type*}

/-! ## Contexts -/

/-- The part of a score that belongs to the hotword graph. -/
structure Context (K : Type*) where
  state : Nat
  score : K
  startBoundaries : List Nat
  endBoundaries : List Nat
  deriving DecidableEq, Repr

def PrefixScore.context (prefixScore : PrefixScore K) : Context K :=
  ⟨prefixScore.contextState, prefixScore.contextScore, prefixScore.startBoundaries,
    prefixScore.endBoundaries⟩

/-- The first visit of a key sets its context, where there is a graph. -/
def PrefixScore.meet (next : PrefixScore K) (contextGraph : Option (ContextGraph K))
    (context : ContextGraph K → Context K) : PrefixScore K :=
  match contextGraph with
  | none => next
  | some contextGraph =>
    -- Only the first meeting of a frame sets the context.
    if next.hasContext then
      next
    else
      { next with
        hasContext := true
        contextState := (context contextGraph).state
        contextScore := (context contextGraph).score
        startBoundaries := (context contextGraph).startBoundaries
        endBoundaries := (context contextGraph).endBoundaries }

@[simp] theorem PrefixScore.meet_scores (next : PrefixScore K)
    (contextGraph : Option (ContextGraph K)) (context : ContextGraph K → Context K) :
    (next.meet contextGraph context).s = next.s ∧ (next.meet contextGraph context).ns = next.ns ∧
      (next.meet contextGraph context).vS = next.vS ∧
      (next.meet contextGraph context).vNs = next.vNs ∧
      (next.meet contextGraph context).curTokenProb = next.curTokenProb ∧
      (next.meet contextGraph context).timesS = next.timesS ∧
      (next.meet contextGraph context).timesNs = next.timesNs := by
  cases contextGraph with
  | none => simp [meet]
  | some contextGraph => by_cases visited : next.hasContext <;> simp [meet, visited]

section
variable [LinearOrder K] [LogDomain K]

/-- The context after one more label, at its position in the sequence. -/
def Context.advance (context : Context K) (contextGraph : ContextGraph K) (id position : Nat) :
    Context K :=
  let move := contextGraph.getNextState context.state id
  { state := move.nextState
    score := plus context.score move.score
    startBoundaries :=
      if move.isStartBoundary then context.startBoundaries ++ [position]
      else context.startBoundaries
    endBoundaries :=
      if move.isEndBoundary then context.endBoundaries ++ [position]
      else context.endBoundaries }

omit [LinearOrder K] [LogDomain K] in
theorem PrefixScore.setContext_copy (next prefixScore : PrefixScore K)
    (contextGraph : Option (ContextGraph K)) :
    next.setContext contextGraph (fun next _ => next.copyContext prefixScore) =
      next.meet contextGraph fun _ => prefixScore.context := by
  cases contextGraph <;> rfl

theorem PrefixScore.setContext_update (next prefixScore : PrefixScore K)
    (contextGraph : Option (ContextGraph K)) (id position : Nat) :
    next.setContext contextGraph (fun next contextGraph =>
        next.updateContext contextGraph prefixScore id position) =
      next.meet contextGraph fun contextGraph =>
        prefixScore.context.advance contextGraph id position := by
  cases contextGraph <;> rfl

/-! ## The three cases -/

theorem PrefixScore.passBlank_eq (next : PrefixScore K) (contextGraph : Option (ContextGraph K))
    (prefixScore : PrefixScore K) (prob : K) :
    next.passBlank contextGraph prefixScore prob =
      { next with
        s := logAdd next.s (plus prefixScore.score prob)
        vS := plus prefixScore.viterbiScore prob
        timesS := prefixScore.times : PrefixScore K }.meet contextGraph
          fun _ => prefixScore.context :=
  setContext_copy _ _ _

theorem PrefixScore.passNew_eq (next : PrefixScore K) (contextGraph : Option (ContextGraph K))
    (absTimeStep : Nat) (prefixScore : PrefixScore K) (score viterbi : K) (times : List Nat)
    (id prefixLen : Nat) (prob : K) :
    next.passNew contextGraph absTimeStep prefixScore score viterbi times id prefixLen prob =
      (if next.vNs < plus viterbi prob then
        { next with
          ns := logAdd next.ns (plus score prob)
          vNs := plus viterbi prob
          curTokenProb := prob
          timesNs := times ++ [absTimeStep] : PrefixScore K }
      else
        { next with ns := logAdd next.ns (plus score prob) }).meet contextGraph
          fun contextGraph => prefixScore.context.advance contextGraph id prefixLen :=
  setContext_update _ _ _ _ _

theorem PrefixScore.passRepeat_cases {next passed prefixScore : PrefixScore K}
    {contextGraph : Option (ContextGraph K)} {absTimeStep : Nat} {prob : K}
    (checked : next.passRepeat contextGraph absTimeStep prefixScore prob = some passed) :
    (¬ next.vNs < plus prefixScore.vNs prob ∧
      passed = { next with ns := logAdd next.ns (plus prefixScore.ns prob) : PrefixScore K }.meet
        contextGraph fun _ => prefixScore.context) ∨
    (next.vNs < plus prefixScore.vNs prob ∧ ¬ next.curTokenProb < prob ∧
      passed = { next with
        ns := logAdd next.ns (plus prefixScore.ns prob)
        vNs := plus prefixScore.vNs prob : PrefixScore K }.meet
          contextGraph fun _ => prefixScore.context) ∨
    (next.vNs < plus prefixScore.vNs prob ∧ next.curTokenProb < prob ∧
      0 < prefixScore.timesNs.length ∧
      passed = { next with
        ns := logAdd next.ns (plus prefixScore.ns prob)
        vNs := plus prefixScore.vNs prob
        curTokenProb := prob
        timesNs := prefixScore.timesNs.dropLast ++ [absTimeStep] : PrefixScore K }.meet
          contextGraph fun _ => prefixScore.context) := by
  by_cases better : next.vNs < plus prefixScore.vNs prob
  · by_cases likelier : next.curTokenProb < prob
    · by_cases timed : 0 < prefixScore.timesNs.length
      · simp [passRepeat, setContext_copy, better, likelier, timed] at checked
        exact Or.inr (Or.inr ⟨better, likelier, timed, checked.symm⟩)
      · simp [passRepeat, better, likelier, timed] at checked
    · simp [passRepeat, setContext_copy, better, likelier] at checked
      exact Or.inr (Or.inl ⟨better, likelier, checked.symm⟩)
  · simp [passRepeat, setContext_copy, better] at checked
    exact Or.inl ⟨better, checked.symm⟩

/-- `CHECK_GT` holds where the hypothesis has a time for its last label. -/
theorem PrefixScore.passRepeat_some {next prefixScore : PrefixScore K}
    (contextGraph : Option (ContextGraph K)) (absTimeStep : Nat) {prob : K}
    (timed : next.vNs < plus prefixScore.vNs prob → next.curTokenProb < prob →
      0 < prefixScore.timesNs.length) :
    ∃ passed, next.passRepeat contextGraph absTimeStep prefixScore prob = some passed := by
  by_cases better : next.vNs < plus prefixScore.vNs prob
  · by_cases likelier : next.curTokenProb < prob
    · simp [passRepeat, better, likelier, timed better likelier]
    · simp [passRepeat, better, likelier]
  · simp [passRepeat, better]

/-! ## Visits -/

/-- A meeting of a beam entry with a hypothesis, at the given time. -/
structure Meeting (K : Type*) where
  contextGraph : Option (ContextGraph K)
  blank : Nat
  absTimeStep : Nat
  item : K × Nat
  hypothesis : Hypothesis K

def Meeting.pass (meeting : Meeting K) (nextHyps : Hypotheses K) : Option (Hypotheses K) :=
  passToken meeting.contextGraph meeting.blank meeting.absTimeStep meeting.item meeting.hypothesis
    nextHyps

/-- What a meeting does to the score of a key it visits. -/
inductive Meeting.Visit (meeting : Meeting K) :
    List Nat → PrefixScore K → PrefixScore K → Prop
  | blank (next : PrefixScore K) (isBlank : meeting.item.2 = meeting.blank) :
      Visit meeting meeting.hypothesis.1 next
        (next.passBlank meeting.contextGraph meeting.hypothesis.2 meeting.item.1)
  | again {next passed : PrefixScore K} (isLabel : meeting.item.2 ≠ meeting.blank)
      (isLast : meeting.hypothesis.1.getLast? = some meeting.item.2)
      (checked : next.passRepeat meeting.contextGraph meeting.absTimeStep meeting.hypothesis.2
        meeting.item.1 = some passed) :
      Visit meeting meeting.hypothesis.1 next passed
  | afterBlank (next : PrefixScore K) (isLabel : meeting.item.2 ≠ meeting.blank)
      (isLast : meeting.hypothesis.1.getLast? = some meeting.item.2) :
      Visit meeting (meeting.hypothesis.1 ++ [meeting.item.2]) next
        (next.passNew meeting.contextGraph meeting.absTimeStep meeting.hypothesis.2
          meeting.hypothesis.2.s meeting.hypothesis.2.vS meeting.hypothesis.2.timesS
          meeting.item.2 meeting.hypothesis.1.length meeting.item.1)
  | new (next : PrefixScore K) (isLabel : meeting.item.2 ≠ meeting.blank)
      (differs : meeting.hypothesis.1.getLast? ≠ some meeting.item.2) :
      Visit meeting (meeting.hypothesis.1 ++ [meeting.item.2]) next
        (next.passNew meeting.contextGraph meeting.absTimeStep meeting.hypothesis.2
          meeting.hypothesis.2.score meeting.hypothesis.2.viterbiScore meeting.hypothesis.2.times
          meeting.item.2 meeting.hypothesis.1.length meeting.item.1)

/-- The keys that a meeting visits. -/
def Meeting.Touches (meeting : Meeting K) (key : List Nat) : Prop :=
  (key = meeting.hypothesis.1 ∧
      (meeting.item.2 = meeting.blank ∨
        meeting.hypothesis.1.getLast? = some meeting.item.2)) ∨
    (key = meeting.hypothesis.1 ++ [meeting.item.2] ∧ meeting.item.2 ≠ meeting.blank)

/-- A meeting changes the keys it visits, each by one visit, and no other key. -/
theorem Meeting.pass_lookup {meeting : Meeting K} {nextHyps after : Hypotheses K}
    (passed : meeting.pass nextHyps = some after) (key : List Nat) :
    (¬ meeting.Touches key ∧ after.lookup key = nextHyps.lookup key) ∨
      (meeting.Touches key ∧ key ∈ after ∧
        meeting.Visit key (nextHyps.read key) (after.read key)) := by
  obtain ⟨contextGraph, blank, absTimeStep, ⟨prob, id⟩, ⟨labels, prefixScore⟩⟩ := meeting
  simp only [pass, passToken] at passed
  by_cases isBlank : id = blank
  · -- Case 0 visits the labels themselves
    rw [if_pos isBlank] at passed
    cases passed
    by_cases same : key = labels
    · subst same
      refine Or.inr ⟨Or.inl ⟨rfl, Or.inl isBlank⟩, AList.mem_insert _ |>.mpr (Or.inl rfl), ?_⟩
      rw [DefaultMap.read_insert_self]
      exact Visit.blank _ isBlank
    · exact Or.inl ⟨by simp [Touches, same, isBlank], AList.lookup_insert_ne same⟩
  · rw [if_neg isBlank] at passed
    by_cases isLast : labels.getLast? = some id
    · -- Cases 1 and 2 visit the labels and the longer ones
      rw [if_pos isLast] at passed
      simp only [Option.bind_eq_bind, Option.bind_eq_some_iff] at passed
      obtain ⟨again, checked, passed⟩ := passed
      cases passed
      have longer : labels ++ [id] ≠ labels := by simp
      by_cases same : key = labels
      · subst same
        refine Or.inr ⟨Or.inl ⟨rfl, Or.inr isLast⟩, by simp, ?_⟩
        rw [DefaultMap.read_insert_ne _ _ longer.symm, DefaultMap.read_insert_self]
        exact Visit.again isBlank isLast checked
      · by_cases new : key = labels ++ [id]
        · subst new
          refine Or.inr ⟨Or.inr ⟨rfl, isBlank⟩, by simp, ?_⟩
          rw [DefaultMap.read_insert_self, DefaultMap.read_insert_ne _ _ longer]
          exact Visit.afterBlank _ isBlank isLast
        · refine Or.inl ⟨by simp [Touches, same, new], ?_⟩
          rw [AList.lookup_insert_ne new, AList.lookup_insert_ne same]
    · -- Case 3 visits the longer labels
      rw [if_neg isLast] at passed
      cases passed
      by_cases new : key = labels ++ [id]
      · subst new
        refine Or.inr ⟨Or.inr ⟨rfl, isBlank⟩, AList.mem_insert _ |>.mpr (Or.inl rfl), ?_⟩
        rw [DefaultMap.read_insert_self]
        exact Visit.new _ isBlank isLast
      · exact Or.inl ⟨by simp [Touches, isBlank, isLast, new], AList.lookup_insert_ne new⟩

/-- A meeting fails only where `CHECK_GT` does. -/
theorem Meeting.pass_some {meeting : Meeting K} {nextHyps : Hypotheses K}
    (checked : meeting.hypothesis.1.getLast? = some meeting.item.2 →
      ∃ passed, (nextHyps.read meeting.hypothesis.1).passRepeat meeting.contextGraph
        meeting.absTimeStep meeting.hypothesis.2 meeting.item.1 = some passed) :
    ∃ after, meeting.pass nextHyps = some after := by
  by_cases isBlank : meeting.item.2 = meeting.blank
  · simp [pass, passToken, isBlank]
  · by_cases isLast : meeting.hypothesis.1.getLast? = some meeting.item.2
    · obtain ⟨passed, checked⟩ := checked isLast
      simp [pass, passToken, isBlank, isLast, checked]
    · simp [pass, passToken, isBlank, isLast]

/-! ## The loop -/

/-- The meetings of a frame. -/
def meetings (contextGraph : Option (ContextGraph K)) (blank absTimeStep : Nat)
    (topk : List (K × Nat)) (order : List (Hypothesis K)) : List (Meeting K) :=
  (topk ×ˢ order).map fun pair => ⟨contextGraph, blank, absTimeStep, pair.1, pair.2⟩

omit [LinearOrder K] [LogDomain K] in
theorem mem_meetings {contextGraph : Option (ContextGraph K)} {blank absTimeStep : Nat}
    {topk : List (K × Nat)} {order : List (Hypothesis K)} {meeting : Meeting K} :
    meeting ∈ meetings contextGraph blank absTimeStep topk order ↔
      ∃ item ∈ topk, ∃ hypothesis ∈ order,
        meeting = ⟨contextGraph, blank, absTimeStep, item, hypothesis⟩ := by
  simp [meetings, List.mem_product, eq_comm, and_assoc]

theorem tokenPassing_eq (contextGraph : Option (ContextGraph K)) (blank absTimeStep : Nat)
    (topk : List (K × Nat)) (order : List (Hypothesis K)) :
    tokenPassing contextGraph blank absTimeStep topk order =
      (meetings contextGraph blank absTimeStep topk order).foldlM
        (fun nextHyps meeting => meeting.pass nextHyps) ∅ := by
  rw [meetings, List.foldlM_map]
  rfl

theorem foldlM_pass_cons {meeting : Meeting K} {rest : List (Meeting K)}
    {start nextHyps : Hypotheses K}
    (passed : (meeting :: rest).foldlM (fun hyps meeting => meeting.pass hyps) start =
      some nextHyps) :
    ∃ middle, meeting.pass start = some middle ∧
      rest.foldlM (fun hyps meeting => meeting.pass hyps) middle = some nextHyps := by
  rw [List.foldlM_cons] at passed
  exact Option.bind_eq_some_iff.mp passed

/-- What a visit makes true, of a key that is new or of one it was true of, holds of every key after
    the loop. -/
theorem foldlM_pass_read {holds : List Nat → PrefixScore K → Prop} {visits : List (Meeting K)}
    {start nextHyps : Hypotheses K} (initially : ∀ key ∈ start, holds key (start.read key))
    (visit : ∀ meeting ∈ visits, ∀ {key next after}, next = default ∨ holds key next →
      meeting.Visit key next after → holds key after)
    (passed : visits.foldlM (fun hyps meeting => meeting.pass hyps) start = some nextHyps) :
    ∀ key ∈ nextHyps, holds key (nextHyps.read key) := by
  induction visits generalizing start with
  | nil =>
    cases passed
    exact initially
  | cons meeting rest inductionHypothesis =>
    obtain ⟨middle, first, later⟩ := foldlM_pass_cons passed
    refine inductionHypothesis (fun key member => ?_)
      (fun meeting member => visit meeting (List.mem_cons_of_mem _ member)) later
    cases Meeting.pass_lookup first key with
    | inl untouched =>
      have same : middle.read key = start.read key := by
        rw [DefaultMap.read, DefaultMap.read, untouched.2]
      rw [← AList.lookup_isSome, untouched.2, AList.lookup_isSome] at member
      exact same ▸ initially key member
    | inr touched =>
      refine visit meeting List.mem_cons_self ?_ touched.2.2
      by_cases known : key ∈ start
      · exact Or.inr (initially key known)
      · exact Or.inl (DefaultMap.read_of_notMem known)

/-- The keys after the loop are those that a meeting visits. -/
theorem foldlM_pass_mem {visits : List (Meeting K)} {start nextHyps : Hypotheses K}
    (passed : visits.foldlM (fun hyps meeting => meeting.pass hyps) start = some nextHyps)
    (key : List Nat) :
    key ∈ nextHyps ↔ key ∈ start ∨ ∃ meeting ∈ visits, meeting.Touches key := by
  induction visits generalizing start with
  | nil =>
    cases passed
    simp
  | cons meeting rest inductionHypothesis =>
    obtain ⟨middle, first, later⟩ := foldlM_pass_cons passed
    rw [inductionHypothesis later, List.exists_mem_cons_iff, ← or_assoc]
    apply or_congr_left
    cases Meeting.pass_lookup first key with
    | inl untouched =>
      rw [← AList.lookup_isSome, untouched.2, AList.lookup_isSome]
      simp [untouched.1]
    | inr touched => simp [touched.1, touched.2.1]

/-! ## Scores -/

/-- What a meeting adds to the score of the alignments of a key that end in a blank. -/
def Meeting.blankShare (meeting : Meeting K) (key : List Nat) : Option K :=
  if meeting.item.2 = meeting.blank ∧ meeting.hypothesis.1 = key then
    some (plus meeting.hypothesis.2.score meeting.item.1)
  else
    none

/-- What a meeting adds to the score of the alignments of a key that end in a label. -/
def Meeting.labelShare (meeting : Meeting K) (key : List Nat) : Option K :=
  if meeting.item.2 = meeting.blank then
    none
  -- A repeat is merged into the last label, or begins it again behind a blank.
  else if meeting.hypothesis.1.getLast? = some meeting.item.2 then
    if meeting.hypothesis.1 = key then
      some (plus meeting.hypothesis.2.ns meeting.item.1)
    else if meeting.hypothesis.1 ++ [meeting.item.2] = key then
      some (plus meeting.hypothesis.2.s meeting.item.1)
    else
      none
  else if meeting.hypothesis.1 ++ [meeting.item.2] = key then
    some (plus meeting.hypothesis.2.score meeting.item.1)
  else
    none

/-- A score after one more share. -/
def addShare (score : K) (share : Option K) : K :=
  share.elim score (logAdd score)

theorem Meeting.Visit.scores {meeting : Meeting K} {key : List Nat} {next after : PrefixScore K}
    (visit : meeting.Visit key next after) :
    after.s = addShare next.s (meeting.blankShare key) ∧
      after.ns = addShare next.ns (meeting.labelShare key) := by
  cases visit with
  | blank next isBlank =>
    simp [PrefixScore.passBlank_eq, blankShare, labelShare, addShare, isBlank]
  | again isLabel isLast checked =>
    obtain ⟨-, rfl⟩ | ⟨-, -, rfl⟩ | ⟨-, -, -, rfl⟩ := PrefixScore.passRepeat_cases checked <;>
      simp [blankShare, labelShare, addShare, isLabel, isLast]
  | afterBlank next isLabel isLast =>
    simp [PrefixScore.passNew_eq, blankShare, labelShare, addShare, isLabel, isLast]
    split <;> simp
  | new next isLabel differs =>
    simp [PrefixScore.passNew_eq, blankShare, labelShare, addShare, isLabel, differs]
    split <;> simp

/-- A meeting adds to the keys it visits, and to no other key. -/
theorem Meeting.touches_iff (meeting : Meeting K) (key : List Nat) :
    meeting.Touches key ↔ meeting.blankShare key ≠ none ∨ meeting.labelShare key ≠ none := by
  by_cases isBlank : meeting.item.2 = meeting.blank
  · simp [Touches, blankShare, labelShare, isBlank, eq_comm]
  · by_cases isLast : meeting.hypothesis.1.getLast? = some meeting.item.2
    · by_cases same : meeting.hypothesis.1 = key
      · simp [Touches, blankShare, labelShare, isBlank, same, eq_comm]
      · simp [Touches, blankShare, labelShare, isBlank, isLast, same, Ne.symm same, eq_comm]
    · simp [Touches, blankShare, labelShare, isBlank, isLast, eq_comm]

theorem Meeting.pass_scores {meeting : Meeting K} {nextHyps after : Hypotheses K}
    (passed : meeting.pass nextHyps = some after) (key : List Nat) :
    (after.read key).s = addShare (nextHyps.read key).s (meeting.blankShare key) ∧
      (after.read key).ns = addShare (nextHyps.read key).ns (meeting.labelShare key) := by
  cases Meeting.pass_lookup passed key with
  | inl untouched =>
    have nothing := (not_congr (meeting.touches_iff key)).mp untouched.1
    rw [not_or, not_not, not_not] at nothing
    rw [nothing.1, nothing.2, DefaultMap.read, DefaultMap.read, untouched.2]
    exact ⟨rfl, rfl⟩
  | inr touched => exact touched.2.2.scores

/-- The scores after the loop are the shares of all meetings, added up. -/
theorem foldlM_pass_scores {visits : List (Meeting K)} {start nextHyps : Hypotheses K}
    (passed : visits.foldlM (fun hyps meeting => meeting.pass hyps) start = some nextHyps)
    (key : List Nat) :
    (nextHyps.read key).s = (visits.map (·.blankShare key)).foldl addShare (start.read key).s ∧
      (nextHyps.read key).ns =
        (visits.map (·.labelShare key)).foldl addShare (start.read key).ns := by
  induction visits generalizing start with
  | nil =>
    cases passed
    exact ⟨rfl, rfl⟩
  | cons meeting rest inductionHypothesis =>
    obtain ⟨middle, first, later⟩ := foldlM_pass_cons passed
    obtain ⟨s, ns⟩ := Meeting.pass_scores first key
    rw [List.map_cons, List.foldl_cons, List.map_cons, List.foldl_cons, ← s, ← ns]
    exact inductionHypothesis later

/-! ## A frame -/

/-- The label sequences that the beam makes of the hypotheses. -/
def Decoder.Candidate (opts : Options) (topk : List (K × Nat)) (decoder : Decoder K)
    (key : List Nat) : Prop :=
  ∃ item ∈ topk, ∃ hypothesis ∈ decoder.curHyps.entries,
    (key = hypothesis.1 ∧ (item.2 = opts.blank ∨ hypothesis.1.getLast? = some item.2)) ∨
      (key = hypothesis.1 ++ [item.2] ∧ item.2 ≠ opts.blank)

/-- The keys after token passing are the candidates. -/
theorem tokenPassing_mem {contextGraph : Option (ContextGraph K)} {opts : Options}
    {decoder : Decoder K} {topk : List (K × Nat)} {order : List (Hypothesis K)}
    {nextHyps : Hypotheses K} (same : order.Perm decoder.curHyps.entries)
    (passed : tokenPassing contextGraph opts.blank decoder.absTimeStep topk order = some nextHyps)
    (key : List Nat) : key ∈ nextHyps ↔ decoder.Candidate opts topk key := by
  rw [tokenPassing_eq] at passed
  rw [foldlM_pass_mem passed key, or_iff_right (AList.notMem_empty key)]
  constructor
  · intro ⟨meeting, met, touches⟩
    obtain ⟨item, inBeam, hypothesis, inOrder, rfl⟩ := mem_meetings.mp met
    exact ⟨item, inBeam, hypothesis, same.subset inOrder, touches⟩
  · intro ⟨item, inBeam, hypothesis, member, touches⟩
    exact ⟨_, mem_meetings.mpr ⟨item, inBeam, hypothesis, same.symm.subset member, rfl⟩, touches⟩

/-- What every visit of the frame makes true holds of every hypothesis it makes. -/
theorem tokenPassing_entries {contextGraph : Option (ContextGraph K)} {blank firstBeamSize : Nat}
    {decoder : Decoder K} {logpT : List K} {topk : List (K × Nat)} {order : List (Hypothesis K)}
    {nextHyps : Hypotheses K} (selected : topK logpT firstBeamSize = some topk)
    (same : order.Perm decoder.curHyps.entries)
    (passed : tokenPassing contextGraph blank decoder.absTimeStep topk order = some nextHyps)
    (holds : List Nat → PrefixScore K → Prop)
    (visit : ∀ item, logpT[item.2]? = some item.1 → ∀ hypothesis ∈ decoder.curHyps.entries,
      ∀ {key next after}, next = default ∨ holds key next →
        (Meeting.mk contextGraph blank decoder.absTimeStep item hypothesis).Visit key next after →
          holds key after) :
    ∀ hypothesis ∈ nextHyps.entries, holds hypothesis.1 hypothesis.2 := by
  rw [tokenPassing_eq] at passed
  have everywhere : ∀ key ∈ nextHyps, holds key (nextHyps.read key) := by
    refine foldlM_pass_read (fun key member => absurd member (AList.notMem_empty key)) ?_ passed
    intro meeting member key next after before visited
    obtain ⟨item, inBeam, hypothesis, inOrder, rfl⟩ := mem_meetings.mp member
    exact visit item (topK_getElem? selected inBeam) hypothesis (same.subset inOrder) before visited
  intro hypothesis entry
  have read := DefaultMap.read_of_mem_entries entry
  exact read ▸ everywhere hypothesis.1 (List.mem_keys_of_mem entry)

/-- The beam keeps some of what token passing made, unchanged. -/
theorem SecondBeam.subset {secondBeamSize : Nat} {nextHyps kept : Hypotheses K}
    (beam : SecondBeam secondBeamSize nextHyps kept) : kept.entries ⊆ nextHyps.entries := by
  obtain ⟨rest, same, -⟩ := beam.best
  intro hypothesis member
  exact same.subset (List.mem_append_left rest member)

end

end Asr2Pass.Ctc
