import Asr2Pass.Library.Alignments
import Asr2Pass.Ctc.Search
import Asr2Pass.Ctc.TokenPassing

/-! # The search adds up the right alignments

Over probabilities, without a hotword graph, token passing is the recurrence of the weights of the
alignments.  What a beam leaves out can only make a score smaller.
-/

namespace Asr2Pass.Ctc

open Library

/-! ## Token passing is the recurrence -/

theorem foldl_addShare_linear (shares : List (Option ℚ≥0)) (score : ℚ≥0) :
    shares.foldl addShare score = score + (shares.map (·.getD 0)).sum := by
  induction shares generalizing score with
  | nil => simp
  | cons share rest inductionHypothesis =>
    rw [List.foldl_cons, inductionHypothesis]
    cases share <;> simp [addShare, add_assoc]

@[simp] theorem PrefixScore.score_linear (prefixScore : PrefixScore ℚ≥0) :
    prefixScore.score = prefixScore.s + prefixScore.ns :=
  logAdd_linear _ _

/-- The scores of the hypotheses, zero where there is none. -/
def Hypotheses.mass (hypotheses : Hypotheses ℚ≥0) : Mass Nat ℚ≥0 where
  blank key := (hypotheses.read key).s
  label key := (hypotheses.read key).ns

/-- The shares of all meetings: for each entry of the beam, over the hypotheses. -/
theorem sum_meetings (contextGraph : Option (ContextGraph ℚ≥0)) (blank time : Nat)
    (topk : List (ℚ≥0 × Nat)) (order : List (Hypothesis ℚ≥0)) (share : Meeting ℚ≥0 → Option ℚ≥0) :
    (((meetings contextGraph blank time topk order).map share).map (·.getD 0)).sum =
      (topk.map fun item => (order.map fun hypothesis =>
        (share ⟨contextGraph, blank, time, item, hypothesis⟩).getD 0).sum).sum := by
  simp only [meetings, List.map_map]
  induction topk with
  | nil => rfl
  | cons item rest inductionHypothesis =>
    rw [List.product_cons, List.map_append, List.sum_append, List.map_cons, List.sum_cons,
      inductionHypothesis, List.map_map]
    rfl

/-- What one meeting adds for a last label: one more of it, or a new one. -/
theorem Meeting.labelShare_snoc (meeting : Meeting ℚ≥0) (shorter : List Nat) {last : Nat}
    (isLabel : last ≠ meeting.blank) :
    (meeting.labelShare (shorter ++ [last])).getD 0 =
      (if meeting.hypothesis.1 = shorter ++ [last] then
        meeting.hypothesis.2.ns * (if meeting.item.2 = last then meeting.item.1 else 0) else 0) +
      (if meeting.hypothesis.1 = shorter then
        (if shorter.getLast? = some last then meeting.hypothesis.2.s
          else meeting.hypothesis.2.score) *
          (if meeting.item.2 = last then meeting.item.1 else 0) else 0) := by
  by_cases here : meeting.item.2 = last
  · by_cases again : meeting.hypothesis.1 = shorter ++ [last]
    · simp [labelShare, isLabel, here, again]
    · by_cases new : meeting.hypothesis.1 = shorter
      · by_cases repeated : shorter.getLast? = some last <;>
          simp [labelShare, isLabel, here, new, repeated]
      · simp [labelShare, isLabel, here, again, new]
  · -- another symbol makes another last label
    by_cases again : meeting.hypothesis.1 = shorter ++ [last]
    · simp [labelShare, here, again, Ne.symm here]
    · simp [labelShare, here, again]

section
variable {hyps : Hypotheses ℚ≥0} {order : List (Hypothesis ℚ≥0)}
  (same : order.Perm hyps.entries) (contextGraph : Option (ContextGraph ℚ≥0)) (blank time : Nat)
  (item : ℚ≥0 × Nat)

include same

/-- One entry of the beam, over all hypotheses: a blank. -/
theorem sum_blankShare (key : List Nat) :
    (order.map fun hypothesis =>
      ((Meeting.mk contextGraph blank time item hypothesis).blankShare key).getD 0).sum =
      hyps.mass.all key * if item.2 = blank then item.1 else 0 := by
  by_cases isBlank : item.2 = blank
  · have entries := DefaultMap.sum_entries same key
      (fun prefixScore => (prefixScore.s + prefixScore.ns) * item.1) (by simp [default])
    rw [if_pos isBlank]
    refine Eq.trans (congrArg List.sum (List.map_congr_left fun hypothesis _ => ?_)) entries
    by_cases here : hypothesis.1 = key <;> simp [Meeting.blankShare, isBlank, here]
  · simp [Meeting.blankShare, isBlank]

/-- One entry of the beam, over all hypotheses: the last label of a key. -/
theorem sum_labelShare (shorter : List Nat) {last : Nat} (isLabel : last ≠ blank) :
    (order.map fun hypothesis => ((Meeting.mk contextGraph blank time item hypothesis).labelShare
      (shorter ++ [last])).getD 0).sum =
      (hyps.mass.label (shorter ++ [last]) +
        if shorter.getLast? = some last then hyps.mass.blank shorter else hyps.mass.all shorter) *
          if item.2 = last then item.1 else 0 := by
  have shares := fun hypothesis =>
    Meeting.labelShare_snoc ⟨contextGraph, blank, time, item, hypothesis⟩ shorter isLabel
  simp only [shares, List.sum_map_add]
  rw [DefaultMap.sum_entries same (shorter ++ [last])
      (fun prefixScore => prefixScore.ns * if item.2 = last then item.1 else 0)
      (by simp [default]),
    DefaultMap.sum_entries same shorter
      (fun prefixScore => (if shorter.getLast? = some last then prefixScore.s
        else prefixScore.score) * if item.2 = last then item.1 else 0)
      (by simp [default]), ← add_mul]
  by_cases repeated : shorter.getLast? = some last <;>
    simp [repeated, Hypotheses.mass, Mass.all]

end

/-- Nothing adds to the alignments of the empty sequence that end in a label. -/
theorem Meeting.labelShare_nil (meeting : Meeting ℚ≥0) : meeting.labelShare [] = none := by
  by_cases isBlank : meeting.item.2 = meeting.blank
  · simp [labelShare, isBlank]
  · by_cases empty : meeting.hypothesis.1 = [] <;> simp [labelShare, isBlank, empty]

/-- Nor to those of labels with a blank among them. -/
theorem Meeting.labelShare_blank (meeting : Meeting ℚ≥0) (shorter : List Nat) :
    meeting.labelShare (shorter ++ [meeting.blank]) = none := by
  by_cases isBlank : meeting.item.2 = meeting.blank
  · simp [labelShare, isBlank]
  · by_cases again : meeting.hypothesis.1 = shorter ++ [meeting.blank]
    · simp [labelShare, isBlank, again, Ne.symm isBlank]
    · simp [labelShare, isBlank, again]

/-- A frame takes the weights one step further. -/
theorem tokenPassing_mass {contextGraph : Option (ContextGraph ℚ≥0)} {blank time : Nat}
    {topk : List (ℚ≥0 × Nat)} {order : List (Hypothesis ℚ≥0)} {hyps nextHyps : Hypotheses ℚ≥0}
    (same : order.Perm hyps.entries)
    (passed : tokenPassing contextGraph blank time topk order = some nextHyps) :
    nextHyps.mass = hyps.mass.step blank (weightOf topk) := by
  rw [tokenPassing_eq] at passed
  have scores := foldlM_pass_scores passed
  simp only [foldl_addShare_linear, DefaultMap.read_empty, sum_meetings] at scores
  ext key
  · have sums := fun item => sum_blankShare same contextGraph blank time item key
    simp only [Hypotheses.mass, Mass.step, scores, sums, weightOf]
    rw [← List.sum_map_mul_left]
    simp [default]
  · induction key using List.reverseRecOn with
    | nil =>
      simp [Hypotheses.mass, Mass.step, scores, Meeting.labelShare_nil, default]
    | append_singleton shorter last _ =>
      simp only [Mass.step, List.getLast?_concat, List.dropLast_concat]
      by_cases isBlank : last = blank
      · subst isBlank
        have nothing := fun item hypothesis =>
          Meeting.labelShare_blank ⟨contextGraph, last, time, item, hypothesis⟩ shorter
        simp [Hypotheses.mass, scores, nothing, default]
      · have sums := fun item => sum_labelShare same contextGraph blank time item shorter isBlank
        rw [if_neg isBlank, weightOf, ← List.sum_map_mul_left]
        simp [Hypotheses.mass, scores, sums, default]

/-! ## Beams -/

theorem weightOf_le {part whole : List (ℚ≥0 × Nat)} (fewer : part.Subperm whole) (symbol : Nat) :
    weightOf part symbol ≤ weightOf whole symbol := by
  obtain ⟨permuted, same, sub⟩ := fewer
  rw [weightOf, ← (same.map _).sum_eq]
  exact (sub.map _).sum_le_sum fun _ _ => zero_le

/-- What the second beam leaves out reads as zero. -/
theorem SecondBeam.mass_le {count : Nat} {nextHyps kept : Hypotheses ℚ≥0}
    (beam : SecondBeam count nextHyps kept) : kept.mass ≤ nextHyps.mass := by
  have part : ∀ key, kept.read key = nextHyps.read key ∨ kept.read key = default := by
    intro key
    by_cases present : key ∈ kept
    · have entry := beam.subset (DefaultMap.mem_entries_read present)
      exact Or.inl (DefaultMap.read_of_mem_entries entry).symm
    · exact Or.inr (DefaultMap.read_of_notMem present)
  constructor
  · intro key
    cases part key with
    | inl same => simp [Hypotheses.mass, same]
    | inr nothing => simp [Hypotheses.mass, nothing, default]
  · intro key
    cases part key with
    | inl same => simp [Hypotheses.mass, same]
    | inr nothing => simp [Hypotheses.mass, nothing, default]

/-- A beam with room for all leaves nothing out. -/
theorem SecondBeam.mass_eq {count : Nat} {nextHyps kept : Hypotheses ℚ≥0}
    (beam : SecondBeam count nextHyps kept) (room : nextHyps.entries.length ≤ count) :
    kept.mass = nextHyps.mass := by
  obtain ⟨rest, same, -⟩ := beam.best
  have size := same.length_eq
  rw [List.length_append, beam.size, min_eq_left room, Nat.add_eq_left,
    List.length_eq_zero_iff] at size
  rw [size, List.append_nil] at same
  have read : ∀ key, kept.read key = nextHyps.read key := by
    intro key
    rw [DefaultMap.read, DefaultMap.read, AList.perm_lookup same]
  simp only [Hypotheses.mass, read]

/-! ## Runs -/

/-- The weights of all alignments of the frames. -/
def exactMass (opts : Options) (frames : List (List ℚ≥0)) : Mass Nat ℚ≥0 :=
  massOf opts.blank (frames.map List.zipIdx)

theorem exactMass_snoc (opts : Options) (frames : List (List ℚ≥0)) (logpT : List ℚ≥0) :
    exactMass opts (frames ++ [logpT]) =
      (exactMass opts frames).step opts.blank (weightOf logpT.zipIdx) := by
  rw [exactMass, List.map_append]
  exact massOf_snoc _ _ _

/-- Before the first frame the empty alignment has all the weight. -/
theorem reset_mass (opts : Options) :
    (reset : Decoder ℚ≥0).curHyps.mass = exactMass opts [] := by
  have start := @massOf_nil Nat ℚ≥0 _ _ opts.blank
  ext key
  · rw [exactMass, List.map_nil, (start key).1]
    by_cases empty : key = [] <;> simp [Hypotheses.mass, read_reset, empty, default]
  · rw [exactMass, List.map_nil, (start key).2]
    by_cases empty : key = [] <;> simp [Hypotheses.mass, read_reset, empty, default]

/-- Neither beam leaves anything out. -/
def Unpruned (opts : Options) (decoder : Decoder ℚ≥0) (move : Move ℚ≥0) : Prop :=
  match move with
  | .frame firstBeamSize logpT =>
    logpT.length ≤ firstBeamSize ∧ ∀ topk, topK logpT firstBeamSize = some topk →
      ∀ keys : List (List Nat), keys.Nodup → (∀ key ∈ keys, decoder.Candidate opts topk key) →
        keys.length ≤ opts.secondBeamSize
  | .finalContext => True

theorem Decoder.Frame.mass_le {contextGraph : Option (ContextGraph ℚ≥0)} {opts : Options}
    {firstBeamSize : Nat} {decoder after : Decoder ℚ≥0} {logpT : List ℚ≥0}
    (frame : Decoder.Frame contextGraph opts firstBeamSize decoder logpT after) :
    after.curHyps.mass ≤ decoder.curHyps.mass.step opts.blank (weightOf logpT.zipIdx) := by
  obtain ⟨topk, order, nextHyps, selected, same, passed, beam⟩ := frame.searched
  calc after.curHyps.mass
    _ ≤ nextHyps.mass := beam.mass_le
    _ = decoder.curHyps.mass.step opts.blank (weightOf topk) := tokenPassing_mass same passed
    _ ≤ decoder.curHyps.mass.step opts.blank (weightOf logpT.zipIdx) :=
      Mass.step_le opts.blank le_rfl (weightOf_le (topK_subperm selected))

theorem Decoder.Frame.mass_eq {contextGraph : Option (ContextGraph ℚ≥0)} {opts : Options}
    {firstBeamSize : Nat} {decoder after : Decoder ℚ≥0} {logpT : List ℚ≥0}
    (frame : Decoder.Frame contextGraph opts firstBeamSize decoder logpT after)
    (unpruned : Unpruned opts decoder (Move.frame firstBeamSize logpT)) :
    after.curHyps.mass = decoder.curHyps.mass.step opts.blank (weightOf logpT.zipIdx) := by
  obtain ⟨topk, order, nextHyps, selected, same, passed, beam⟩ := frame.searched
  have room : nextHyps.entries.length ≤ opts.secondBeamSize := by
    have keys := unpruned.2 topk selected nextHyps.keys nextHyps.keys_nodup
      fun key member => (tokenPassing_mem same passed key).mp member
    rwa [AList.keys, List.keys, List.length_map] at keys
  have weights : (weightOf topk : Nat → ℚ≥0) = weightOf logpT.zipIdx := by
    funext symbol
    exact ((topK_perm selected unpruned.1).map _).sum_eq
  rw [beam.mass_eq room, tokenPassing_mass same passed, weights]

theorem frames_mass_le {contextGraph : Option (ContextGraph ℚ≥0)} {opts : Options}
    {firstBeamSize : Nat} {frames : List (List ℚ≥0)} {decoder : Decoder ℚ≥0}
    (run : Steps (Decoder.Frame contextGraph opts firstBeamSize) reset frames decoder) :
    decoder.curHyps.mass ≤ exactMass opts frames := by
  induction run with
  | nil => exact le_of_eq (reset_mass opts)
  | snoc _ frame inductionHypothesis =>
    rw [exactMass_snoc]
    exact frame.mass_le.trans (Mass.step_le opts.blank inductionHypothesis fun _ => le_rfl)

theorem frames_mass_eq {contextGraph : Option (ContextGraph ℚ≥0)} {opts : Options}
    {firstBeamSize : Nat} {frames : List (List ℚ≥0)} {decoder : Decoder ℚ≥0}
    (run : Steps (fun decoder logpT after => Under (Unpruned opts)
      (Decoder.Step contextGraph opts) decoder (Move.frame firstBeamSize logpT) after)
      reset frames decoder) :
    decoder.curHyps.mass = exactMass opts frames := by
  induction run with
  | nil => exact reset_mass opts
  | snoc _ stepped inductionHypothesis =>
    rw [exactMass_snoc, ← inductionHypothesis]
    exact Decoder.Frame.mass_eq stepped.2 stepped.1

/-- The scores of an entry are those that its key reads. -/
theorem Hypotheses.mass_entry {hypotheses : Hypotheses ℚ≥0} {hypothesis : Hypothesis ℚ≥0}
    (member : hypothesis ∈ hypotheses.entries) :
    hypotheses.mass.blank hypothesis.1 = hypothesis.2.s ∧
      hypotheses.mass.label hypothesis.1 = hypothesis.2.ns := by
  have read := DefaultMap.read_of_mem_entries member
  exact ⟨congrArg PrefixScore.s read, congrArg PrefixScore.ns read⟩

/-- The keys with a score are those with some weight. -/
theorem Hypotheses.exists_score_iff (hypotheses : Hypotheses ℚ≥0) (key : List Nat) :
    (∃ hypothesis ∈ hypotheses.entries, hypothesis.1 = key ∧ hypothesis.2.score ≠ 0) ↔
      hypotheses.mass.all key ≠ 0 := by
  constructor
  · intro ⟨hypothesis, member, same, score⟩
    rwa [← same, Mass.all, (mass_entry member).1, (mass_entry member).2,
      ← PrefixScore.score_linear]
  · intro weight
    by_cases present : key ∈ hypotheses
    · refine ⟨_, DefaultMap.mem_entries_read present, rfl, ?_⟩
      rwa [PrefixScore.score_linear]
    · refine absurd ?_ weight
      simp [Mass.all, mass, DefaultMap.read_of_notMem present, default]

/-! ## Beams that leave nothing out -/

/-- A hypothesis gives one candidate with its own labels, and one for each entry of the beam. -/
theorem Decoder.candidates_length {opts : Options} {topk : List (ℚ≥0 × Nat)}
    {decoder : Decoder ℚ≥0} {keys : List (List Nat)} (distinct : keys.Nodup)
    (candidates : ∀ key ∈ keys, decoder.Candidate opts topk key) :
    keys.length ≤ decoder.curHyps.entries.length * (topk.length + 1) := by
  let all : List (List Nat) := decoder.curHyps.entries.flatMap fun hypothesis =>
    hypothesis.1 :: topk.map fun item => hypothesis.1 ++ [item.2]
  have among : keys ⊆ all := by
    intro key member
    obtain ⟨item, inBeam, hypothesis, inHyps, touches⟩ := candidates key member
    refine List.mem_flatMap.mpr ⟨hypothesis, inHyps, ?_⟩
    cases touches with
    | inl same => exact same.1 ▸ List.mem_cons_self
    | inr longer =>
      exact List.mem_cons_of_mem _ (List.mem_map.mpr ⟨item, inBeam, longer.1.symm⟩)
  have size : all.length = decoder.curHyps.entries.length * (topk.length + 1) := by
    simp [all, List.length_flatMap]
  exact size ▸ (List.subperm_of_subset distinct among).length_le

/-- One more frame multiplies the number of hypotheses by what the first beam lets through. -/
theorem Decoder.Frame.size {contextGraph : Option (ContextGraph ℚ≥0)} {opts : Options}
    {firstBeamSize width : Nat} {decoder after : Decoder ℚ≥0} {logpT : List ℚ≥0}
    (frame : Decoder.Frame contextGraph opts firstBeamSize decoder logpT after)
    (narrow : logpT.length ≤ width) :
    after.curHyps.entries.length ≤ decoder.curHyps.entries.length * (width + 1) := by
  obtain ⟨topk, order, nextHyps, selected, same, passed, beam⟩ := frame.searched
  have candidates := Decoder.candidates_length nextHyps.keys_nodup
    fun key member => (tokenPassing_mem same passed key).mp member
  rw [AList.keys, List.keys, List.length_map] at candidates
  calc after.curHyps.entries.length
    _ ≤ nextHyps.entries.length := beam.size ▸ min_le_left _ _
    _ ≤ decoder.curHyps.entries.length * (topk.length + 1) := candidates
    _ ≤ decoder.curHyps.entries.length * (width + 1) :=
      Nat.mul_le_mul_left _ (Nat.succ_le_succ ((topK_length_le selected).trans narrow))

/-- Beams as wide as the frames, and as what all frames can make, leave nothing out. -/
theorem wide_unpruned {contextGraph : Option (ContextGraph ℚ≥0)} {opts : Options}
    {firstBeamSize : Nat} {frames : List (List ℚ≥0)} {decoder : Decoder ℚ≥0}
    (first : ∀ logpT ∈ frames, logpT.length ≤ firstBeamSize)
    (second : (firstBeamSize + 1) ^ frames.length ≤ opts.secondBeamSize)
    (run : Steps (Decoder.Frame contextGraph opts firstBeamSize) reset frames decoder) :
    Steps (Under (Unpruned opts) (Decoder.Step contextGraph opts)) reset
        (frames.map (Move.frame firstBeamSize)) decoder ∧
      decoder.curHyps.entries.length ≤ (firstBeamSize + 1) ^ frames.length := by
  -- On the frames: each one multiplies the number of keys by the width of the beam at most.
  induction run with
  | nil => exact ⟨Steps.nil, le_of_eq rfl⟩
  | @snoc earlier logpT middle after _ frame inductionHypothesis =>
    have narrow : logpT.length ≤ firstBeamSize := first logpT (by simp)
    rw [List.length_append, List.length_singleton, pow_succ] at second
    have fewer : (firstBeamSize + 1) ^ earlier.length ≤ opts.secondBeamSize :=
      (Nat.le_mul_of_pos_right _ (Nat.succ_pos _)).trans second
    obtain ⟨steps, size⟩ := inductionHypothesis
      (fun other member => first other (List.mem_append_left _ member)) fewer
    have unpruned : Unpruned opts middle (Move.frame firstBeamSize logpT) := by
      refine ⟨narrow, fun topk selected keys distinct candidates => ?_⟩
      have inBeam := topK_length_le selected
      calc keys.length
        _ ≤ middle.curHyps.entries.length * (topk.length + 1) :=
          Decoder.candidates_length distinct candidates
        _ ≤ (firstBeamSize + 1) ^ earlier.length * (firstBeamSize + 1) :=
          Nat.mul_le_mul size (Nat.succ_le_succ (inBeam.trans narrow))
        _ ≤ opts.secondBeamSize := second
    constructor
    · rw [List.map_append]
      exact Steps.snoc steps ⟨unpruned, frame⟩
    · rw [List.length_append, List.length_singleton, pow_succ]
      exact (frame.size narrow).trans (Nat.mul_le_mul_right _ size)

/-! ## The search -/

/-- Whatever the beams, no score is above the weight of all alignments of its labels; where they
    leave nothing out, the scores are these weights, and the keys with a score are the label
    sequences of the alignments with a weight. -/
theorem exact_search (contextGraph : Option (ContextGraph ℚ≥0)) (opts : Options)
    (logp : List (List ℚ≥0)) (count : Nat) (decoder : Decoder ℚ≥0) :
    (Steps (Decoder.Step contextGraph opts) reset (opts.frames logp count) decoder →
      ∀ hypothesis ∈ decoder.curHyps.entries,
        hypothesis.2.s ≤ (exactMass opts (logp.take count)).blank hypothesis.1 ∧
        hypothesis.2.ns ≤ (exactMass opts (logp.take count)).label hypothesis.1 ∧
        hypothesis.2.score ≤ (exactMass opts (logp.take count)).all hypothesis.1) ∧
    (Steps (Under (Unpruned opts) (Decoder.Step contextGraph opts)) reset
        (opts.frames logp count) decoder →
      (∀ key,
        (∃ hypothesis ∈ decoder.curHyps.entries, hypothesis.1 = key ∧ hypothesis.2.score ≠ 0) ↔
        ∃ alignment ∈ alignments ((logp.take count).map List.zipIdx),
          collapse opts.blank alignment.1 = key ∧ alignment.2 ≠ 0) ∧
      ∀ hypothesis ∈ decoder.curHyps.entries,
        hypothesis.2.s = (exactMass opts (logp.take count)).blank hypothesis.1 ∧
        hypothesis.2.ns = (exactMass opts (logp.take count)).label hypothesis.1) := by
  constructor
  · intro run hypothesis member
    have smaller := frames_mass_le run.of_map
    obtain ⟨s, ns⟩ := Hypotheses.mass_entry member
    have blank := smaller.1 hypothesis.1
    have label := smaller.2 hypothesis.1
    rw [s] at blank
    rw [ns] at label
    refine ⟨blank, label, ?_⟩
    rw [PrefixScore.score_linear]
    exact add_le_add blank label
  -- Nothing is left out, so the masses are equal frame by frame.
  · intro run
    have exact_mass := frames_mass_eq run.of_map
    constructor
    · intro key
      rw [Hypotheses.exists_score_iff, exact_mass, exactMass, massOf_all, weigh_ne_zero]
    · intro hypothesis member
      obtain ⟨s, ns⟩ := Hypotheses.mass_entry member
      exact ⟨by rw [← s, exact_mass], by rw [← ns, exact_mass]⟩

/-- A blank and two labels. -/
def threeFrames : List (List ℚ≥0) :=
  [[1 / 2, 1 / 4, 1 / 4], [1 / 4, 1 / 2, 1 / 4], [1 / 4, 1 / 2, 1 / 4]]

/-- The labels `1 1` have one alignment in three frames, with a blank in the middle. -/
theorem exact_search_threeFrames :
    ∃ decoder : Decoder ℚ≥0,
      (∃ hypothesis ∈ decoder.curHyps.entries,
        hypothesis.1 = [1, 1] ∧ hypothesis.2.ns = 1 / 32) ∧
      (∀ hypothesis ∈ decoder.curHyps.entries, hypothesis.2.score ≤
        (exactMass { secondBeamSize := 64 } threeFrames).all hypothesis.1) ∧
      ∀ hypothesis ∈ decoder.curHyps.entries,
        hypothesis.2.s = (exactMass { secondBeamSize := 64 } threeFrames).blank hypothesis.1 ∧
        hypothesis.2.ns = (exactMass { secondBeamSize := 64 } threeFrames).label hypothesis.1 := by
  have kept : (reset.search none { secondBeamSize := 64 } 3 threeFrames).map (fun decoder =>
      decide (∃ hypothesis ∈ decoder.curHyps.entries,
        hypothesis.1 = [1, 1] ∧ hypothesis.2.ns = 1 / 32)) = some true := by
    decide +kernel
  obtain ⟨decoder, searched, twice⟩ := Option.map_eq_some_iff.mp kept
  have run := Decoder.search_steps searched
  have unpruned := (wide_unpruned (by decide) (by decide) run.of_map).1
  have exact_scores := exact_search none { secondBeamSize := 64 } threeFrames 3 decoder
  exact ⟨decoder, of_decide_eq_true twice,
    fun hypothesis member => (exact_scores.1 run hypothesis member).2.2,
    (exact_scores.2 unpruned).2⟩

end Asr2Pass.Ctc
