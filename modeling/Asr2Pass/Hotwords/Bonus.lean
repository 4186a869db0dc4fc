import Asr2Pass.Hotwords.Automaton
import Mathlib.Algebra.Order.Ring.Defs
import Mathlib.Data.Rat.Cast.Order
import Mathlib.Tactic.Linarith

/-! # A spoken hotword and its bonus

Credit for a run of labels is lost when a state that is not final is left for one that holds fewer
labels of the run: its arc of label 0 takes the whole depth back.  A final state gives nothing back
itself, but the state behind it does.
-/

namespace Asr2Pass.Hotwords

open Library (longest longest_append longest_backOff_append longest_of_accepts longest_suffix
  longest_eq_nil longest_of_not_accepts accepts_longest length_backOff_lt backOff_suffix)

open SplitIds

variable {R : Type*}

namespace BiasLm

variable {lm : BiasLm R} {graph : Graph R} {state : State} {lab : Int}

/-! ## The phones of the hotwords -/

theorem zeroFree (lm : BiasLm R) : lm.ZeroFree := by
  intro hotword member zero
  exact absurd (lm.spelled hotword member 0 zero).1 (lt_irrefl 0)

/-- The labels of a state are phones that are looked up. -/
theorem looksUp_of_isState (isState : lm.IsState (state ++ [lab])) : lm.LooksUp lab := by
  obtain ⟨hotword, member, part⟩ := isState_snoc.mp isState
  have inside : lab ∈ hotword.labels := part.subset (by simp)
  obtain ⟨positive, below, phone⟩ := lm.spelled hotword member lab inside
  have nonempty : lm.hotwords ≠ [] := List.ne_nil_of_mem member
  simp only [LooksUp, nonempty, or_false, not_or]
  exact ⟨⟨by omega, by omega⟩, phone⟩

/-- After a label that is not looked up no state is left but the root. -/
theorem longest_of_not_looksUp (skipped : ¬ lm.LooksUp lab) :
    longest lm.IsState (state ++ [lab]) = State.root := by
  apply longest_eq_nil
  intro part suffix nonempty isState
  obtain ⟨init, last, rfl⟩ := List.eq_nil_or_concat part |>.resolve_left nonempty
  rw [List.concat_eq_append] at suffix isState
  have same : last = lab := by
    have := suffix.getLast (by simp)
    simpa using this
  exact skipped (same ▸ looksUp_of_isState isState)

/-- The labels that move the walk. -/
def spoken (labels : List Int) : List Int := labels.filter (· ≠ 0)

theorem spoken_append (labels more : List Int) : spoken (labels ++ more) = spoken labels ++ spoken more :=
  List.filter_append ..

theorem zero_notMem_spoken (labels : List Int) : 0 ∉ spoken labels := by
  simp [spoken]

/-- A hotword is spoken as it is. -/
theorem spoken_labels {hotword : Hotword R} (member : hotword ∈ lm.hotwords) :
    spoken hotword.labels = hotword.labels := by
  refine List.filter_eq_self.mpr fun label inside => ?_
  have positive := (lm.spelled hotword member label inside).1
  simpa using positive.ne'

/-! ## The credit that is kept -/

/-- Of a run of labels that ended some labels ago, how many are among the last ones. -/
def covered (length since size : Nat) : Nat := min length (size - since)

/-- The labels that the score counts when the run is counted, and of the state what is not in the
    run. -/
def worth (length since size : Nat) : Nat := length + (size - covered length since size)

/-- The states that the label makes the walk leave by an arc of label 0. -/
def left (lm : BiasLm R) (state : State) (lab : Int) : List State :=
  state.tails.filter fun part =>
    part ≠ State.root ∧ lm.IsState part ∧ (longest lm.IsState (state ++ [lab])).length ≤ part.length

theorem mem_left {part : State} (suffix : part <:+ state) (isState : lm.IsState part)
    (nonempty : part ≠ State.root) (noChild : ¬ lm.IsState (part ++ [lab]))
    (same : longest lm.IsState (part ++ [lab]) = longest lm.IsState (state ++ [lab])) :
    part ∈ lm.left state lab := by
  have short : (longest lm.IsState (state ++ [lab])).length ≤ part.length := by
    rw [← same, longest_of_not_accepts noChild]
    have := (longest_suffix (part ++ [lab]).tail : longest lm.IsState _ <:+ _).length_le
    simpa using this
  simpa [left] using ⟨suffix, nonempty, isState, short⟩

/-- The refunds of the step leave the run alone: a state whose depth is taken back has no more
    labels of the run than the state that it backs off to. -/
def Spares [LinearOrder R] (lm : BiasLm R) (length since : Nat) (state : State) (lab : Int) : Prop :=
  lm.LooksUp lab → ∀ part ∈ lm.left state lab, lm.final part = none →
    covered length since part.length ≤ covered length since (lm.fail part).length

instance [LinearOrder R] (length since : Nat) (state : State) (lab : Int) :
    Decidable (lm.Spares length since state lab) :=
  inferInstanceAs (Decidable (lm.LooksUp lab → _))

/-- All steps from the state on spare the run. -/
def SparesRun [LinearOrder R] (lm : BiasLm R) (length : Nat) : Nat → State → List Int → Prop
  | _, _, [] => True
  | since, state, lab :: rest =>
    lm.Spares length since state lab ∧
      SparesRun lm length (since + 1) (longest lm.IsState (state ++ [lab])) rest

instance decidableSparesRun [LinearOrder R] : (length since : Nat) → (state : State) →
    (labels : List Int) → Decidable (lm.SparesRun length since state labels)
  | _, _, _, [] => .isTrue trivial
  | length, since, state, lab :: rest =>
    have := decidableSparesRun length (since + 1) (longest lm.IsState (state ++ [lab])) rest
    inferInstanceAs (Decidable (_ ∧ _))

/-- No labels are spared by every run. -/
theorem sparesRun_zero [LinearOrder R] (since : Nat) (state : State) (labels : List Int) :
    lm.SparesRun 0 since state labels := by
  induction labels generalizing since state with
  | nil => trivial
  | cons lab rest inductionHypothesis =>
    exact ⟨fun _ _ _ _ => by simp [covered], inductionHypothesis _ _⟩

/-! ## One label -/

variable [Field R] [LinearOrder R]

theorem getD_final_nonneg (weights : ∀ hotword ∈ lm.hotwords, 0 ≤ hotword.weight) (state : State) :
    0 ≤ (lm.final state).getD 0 := by
  cases isFinal : lm.final state with
  | none => exact le_rfl
  | some weight => exact final_nonneg weights isFinal

/-! ## One step and a run -/

variable [IsStrictOrderedRing R]

/-- A larger number of labels is worth more. -/
theorem mul_le_of_le {few many : Nat} (bias : 0 ≤ lm.increBias) (le : few ≤ many) :
    lm.increBias * few ≤ lm.increBias * many :=
  mul_le_mul_of_nonneg_left (Nat.cast_le.mpr le) bias

/-- An arc of label 0 keeps the worth of the state when it spares the run. -/
theorem worth_failArc (bias : 0 ≤ lm.increBias) {length since : Nat} (nonempty : state ≠ State.root)
    (spares : lm.final state = none →
      covered length since state.length ≤ covered length since (lm.fail state).length) :
    lm.increBias * worth length since (lm.fail state).length ≤
      lm.increBias * worth length since state.length + (lm.failArc state).weight := by
  have shorter : (lm.fail state).length < state.length := length_backOff_lt nonempty
  cases isFinal : lm.final state with
  | some weight =>
    have le := mul_le_of_le bias (show worth length since (lm.fail state).length ≤
      worth length since state.length by simp only [worth, covered]; omega)
    simpa [failArc, isFinal] using le
  | none =>
    have kept := spares isFinal
    have le := mul_le_of_le bias (show worth length since (lm.fail state).length + state.length ≤
      worth length since state.length + (lm.fail state).length by
        simp only [worth, covered] at kept ⊢; omega)
    simp only [Nat.cast_add, mul_add] at le
    simp only [failArc, isFinal, Option.isSome_none, Bool.false_eq_true, if_false]
    linarith

/-- One call of `BiasLmScore`: the next state is the longest end in the tree, and the score keeps
    the worth of the state and counts the weight of a hotword that ends there. -/
theorem biasLmScore_keeps (built : lm.Built graph) (bias : 0 ≤ lm.increBias)
    {length since : Nat} (isState : lm.IsState state) (spares : lm.Spares length since state lab) :
    ∃ score, lm.biasLmScore graph state lab .root =
        some (score, longest lm.IsState (state ++ [lab])) ∧
      lm.increBias * worth length (since + 1) (longest lm.IsState (state ++ [lab])).length +
          (lm.final (longest lm.IsState (state ++ [lab]))).getD 0 ≤
        lm.increBias * worth length since state.length + score := by
  rw [biasLmScore]
  split
  -- A label that is not looked up leads to the root and scores nothing.
  case isFalse skipped =>
    refine ⟨0, by rw [longest_of_not_looksUp skipped], ?_⟩
    have le := mul_le_of_le bias (show worth length (since + 1) 0 ≤
      worth length since state.length by simp only [worth, covered]; omega)
    simpa [longest_of_not_looksUp skipped] using le
  case isTrue looksUp =>
    -- What a back-off takes away is what the shorter state is worth less.
    obtain ⟨part, score, kept, found | atRoot⟩ := scoreLoop_rule built (zeroFree lm)
      (fun part score => lm.increBias * worth length since part.length ≤
        lm.increBias * worth length since state.length + score)
      (fun part score suffix isPart nonempty noChild same kept => by
        have arc := worth_failArc bias nonempty
          (spares looksUp part (mem_left suffix isPart nonempty noChild same))
        linarith)
      isState (Nat.lt_succ_self _) (add_zero _).ge
    · obtain ⟨next, returns⟩ := found
      refine ⟨_, by rw [returns, next], ?_⟩
      have grows : worth length (since + 1) (part ++ [lab]).length =
          worth length since part.length + 1 := by
        simp only [worth, covered, List.length_append, List.length_singleton]
        omega
      rw [next, grows, Nat.cast_add, Nat.cast_one, mul_add, mul_one]
      linarith
    · obtain ⟨root, next, returns⟩ := atRoot
      refine ⟨score, by rw [returns, next], ?_⟩
      have same : worth length (since + 1) 0 = worth length since 0 := by
        simp only [worth, covered]
        omega
      rw [root] at kept
      simpa [next, same] using kept

omit [IsStrictOrderedRing R] in
/-- The phone 0 is passed over. -/
theorem accumulate_spoken (lm : BiasLm R) (graph : Graph R) (state : State) (total : R)
    (labels : List Int) :
    lm.accumulate graph state total labels = lm.accumulate graph state total (spoken labels) := by
  induction labels generalizing state total with
  | nil => rfl
  | cons lab rest inductionHypothesis =>
    by_cases zero : lab = 0
    · have passed : spoken (lab :: rest) = spoken rest := by simp [spoken, zero]
      rw [passed, accumulate, propagate, if_pos zero, Option.bind_some, add_zero,
        inductionHypothesis]
    · have moved : spoken (lab :: rest) = lab :: spoken rest := by simp [spoken, zero]
      rw [moved, accumulate, accumulate]
      simp only [inductionHypothesis]

/-- A run that spares the labels keeps the worth, whatever the score was before. -/
theorem accumulate_keeps (built : lm.Built graph) (bias : 0 ≤ lm.increBias)
    (weights : ∀ hotword ∈ lm.hotwords, 0 ≤ hotword.weight) (base : R) {total : R}
    {length since : Nat} {labels : List Int} (phones : 0 ∉ labels) (isState : lm.IsState state)
    (spares : lm.SparesRun length since state labels)
    (before : base + lm.increBias * worth length since state.length ≤ total) :
    ∃ total', lm.accumulate graph state total labels =
        some (total', longest lm.IsState (state ++ labels)) ∧
      base + lm.increBias *
        worth length (since + labels.length) (longest lm.IsState (state ++ labels)).length ≤ total' := by
  induction labels generalizing state since total with
  | nil =>
    rw [List.append_nil, longest_of_accepts isState]
    exact ⟨total, rfl, before⟩
  | cons lab rest inductionHypothesis =>
    obtain ⟨phone, phones⟩ := not_or.mp (List.mem_cons.not.mp phones)
    obtain ⟨score, scored, kept⟩ := biasLmScore_keeps built bias isState spares.1
    have weight := getD_final_nonneg weights (longest lm.IsState (state ++ [lab]))
    have earned : base + lm.increBias *
        worth length (since + 1) (longest lm.IsState (state ++ [lab])).length ≤ total + score := by
      linarith
    obtain ⟨total', returns, keeps⟩ :=
      inductionHypothesis phones (accepts_longest isState_root _) spares.2 earned
    rw [longest_append isState_of_append, ← List.append_cons] at returns keeps
    refine ⟨total', by rw [accumulate, propagate, if_neg (Ne.symm phone), scored]; exact returns, ?_⟩
    rw [List.length_cons, Nat.add_comm rest.length, ← Nat.add_assoc]
    exact keeps

/-! ## The bonus -/

/-- Once the walk is at the root again, the score holds the bonus of the hotword. -/
def KeepsBonus (lm : BiasLm R) (hotword : Hotword R) (before after : List Int) : Prop :=
  ∃ total state, lm.walk (before ++ hotword.labels ++ after) = some (total, state) ∧
    (state = State.root → hotword.labels.length * lm.increBias + hotword.weight ≤ total)

/-- The walk stands in the hotword itself when it has been spoken. -/
theorem accumulate_hotword (built : lm.Built graph) (bias : 0 ≤ lm.increBias)
    (weights : ∀ hotword ∈ lm.hotwords, 0 ≤ hotword.weight) {hotword : Hotword R}
    (nonempty : hotword.labels ≠ []) (isFinal : lm.final hotword.labels = some hotword.weight)
    {before : List Int} (phones : 0 ∉ before ++ hotword.labels)
    (stands : longest lm.IsState (before ++ hotword.labels) = hotword.labels) :
    ∃ total, lm.accumulate graph .root 0 (before ++ hotword.labels) =
        some (total, hotword.labels) ∧
      hotword.weight + lm.increBias * hotword.labels.length ≤ total := by
  obtain ⟨init, lab, labels⟩ := (List.eq_nil_or_concat hotword.labels).resolve_left nonempty
  rw [List.concat_eq_append] at labels
  rw [labels, ← List.append_assoc] at phones stands ⊢
  obtain ⟨phones, phone⟩ := not_or.mp (List.mem_append.not.mp phones)
  rw [List.mem_singleton] at phone
  obtain ⟨total, returns, kept⟩ := accumulate_keeps built bias weights 0 phones isState_root
    (sparesRun_zero 0 State.root (before ++ init)) (show _ ≤ 0 by simp [worth])
  have isState : lm.IsState (longest lm.IsState (State.root ++ (before ++ init))) :=
    accepts_longest isState_root _
  obtain ⟨score, scored, keeps⟩ := biasLmScore_keeps built bias isState
    (sparesRun_zero (0 + (before ++ init).length) _ [lab]).1
  rw [List.nil_append] at kept scored keeps
  rw [longest_append isState_of_append, stands] at scored keeps
  refine ⟨total + score, ?_, ?_⟩
  · rw [accumulate_append, returns]
    simp [accumulate, propagate, Ne.symm phone, scored]
  · rw [← labels, isFinal, Option.getD_some] at keeps
    simp only [worth, covered, Nat.zero_min, Nat.zero_add, Nat.sub_zero] at keeps kept
    rw [labels] at keeps
    linarith

/-- The bonus is kept by every run that speaks the hotword where no longer start of a hotword
    ends, and that spares its labels afterwards; the phone 0 may stand before and after it. -/
theorem keepsBonus (bias : 0 ≤ lm.increBias)
    (weights : ∀ hotword ∈ lm.hotwords, 0 ≤ hotword.weight) {hotword : Hotword R}
    (member : hotword ∈ lm.hotwords) (nonempty : hotword.labels ≠ [])
    (least : ∀ other ∈ lm.hotwords, other.labels = hotword.labels → hotword.weight ≤ other.weight)
    {before after : List Int}
    (stands : longest lm.IsState (spoken before ++ hotword.labels) = hotword.labels)
    (spares : lm.SparesRun hotword.labels.length 0 hotword.labels (spoken after)) :
    lm.KeepsBonus hotword before after := by
  obtain ⟨graph, returns, built⟩ := buildGraph_built lm.toSplitIds
  have isFinal := final_eq_weight member nonempty least
  have isState : lm.IsState hotword.labels := .inr ⟨hotword, member, List.prefix_rfl⟩
  have phones : 0 ∉ spoken before ++ hotword.labels := by
    rw [← spoken_labels member, ← spoken_append]
    exact zero_notMem_spoken _
  obtain ⟨total, heard, earned⟩ :=
    accumulate_hotword built bias weights nonempty isFinal phones stands
  obtain ⟨total', walked, kept⟩ := accumulate_keeps built bias weights hotword.weight
    (zero_notMem_spoken after) isState spares (by simpa [worth, covered] using earned)
  refine ⟨total', longest lm.IsState (hotword.labels ++ spoken after), ?_, fun root => ?_⟩
  · rw [walk, returns, Option.bind_some, accumulate_spoken, spoken_append, spoken_append,
      spoken_labels member, accumulate_append, heard, Option.bind_some, walked]
  · rw [root] at kept
    have worthRun : worth hotword.labels.length (0 + (spoken after).length) (List.length State.root) =
        hotword.labels.length := by
      simp [worth]
    rw [worthRun] at kept
    linarith

/-! ## Two hotwords -/

def lexicon (labels : List Int) (spelled : ∀ label ∈ labels, 0 < label ∧ label < 9 ∧ label ≠ 0) :
    BiasLm ℚ where
  hotwords := [⟨labels, 1⟩]
  increBias := 20
  size := 9
  blkPhnId := 0
  spelled := by simpa using spelled

theorem keepsBonus_pair :
    (lexicon [1, 2] (by decide)).KeepsBonus ⟨[1, 2], 1⟩ [1, 0] [0, 3, 2] :=
  keepsBonus (by decide +kernel) (by simp [lexicon]) (by simp [lexicon]) (by decide)
    (by simp [lexicon]) (by decide +kernel) (by decide +kernel)

/-- Twice the same phone: after the second one the walk backs off to the first one for nothing, and
    from there to the root at the price of one label. -/
theorem not_keepsBonus_double :
    ¬ (lexicon [1, 1] (by decide)).KeepsBonus ⟨[1, 1], 1⟩ [] [2] := by
  have walked : (lexicon [1, 1] (by decide)).walk [1, 1, 2] = some (21, State.root) := by
    decide +kernel
  rintro ⟨total, state, returns, keeps⟩
  obtain ⟨rfl, rfl⟩ := Prod.mk.inj (Option.some.inj (walked.symm.trans returns))
  have bonus := keeps rfl
  norm_num [lexicon] at bonus

end BiasLm

end Asr2Pass.Hotwords
