import Asr2Pass.Ctc.HotwordContext
import Asr2Pass.Ctc.HotwordPaths

/-! # The credit of a token sequence

`advanceMatch` matches tokens against the hotwords themselves, one hotword at a time and with no
second try for the token that breaks a match.  `GetNextState` follows it on the graph: what it
credits is the score of the words that are matched, and what it takes back is the same.
-/

namespace Asr2Pass.Ctc

open LogDomain (lowest nought plus)

open Text

/-! ## Matching -/

variable {K : Type*}

/-- A hotword, and how many of its words are matched. -/
structure PartialMatch (K : Type*) where
  hotword : Compiled K
  matched : Nat
  deriving DecidableEq, Repr

/-- The token is the `i`-th word of the hotword.  The label 0 is no word. -/
def Expects (hotword : Compiled K) (i token : Nat) : Prop :=
  token ≠ 0 ∧ (hotword.words[i]?).map Word.id = some token

instance (hotword : Compiled K) (i token : Nat) : Decidable (Expects hotword i token) :=
  inferInstanceAs (Decidable (_ ∧ _))

/-- What a match is after its `i`-th word: the match that goes on, or the hotword it completes. -/
def reach (hotword : Compiled K) (i : Nat) : Option (PartialMatch K) × Option (Compiled K) :=
  if hotword.words.length ≤ i then (none, some hotword) else (some ⟨hotword, i⟩, none)

def advanceMatch (hotwords : List (Compiled K)) (match? : Option (PartialMatch K)) (token : Nat) :
    Option (PartialMatch K) × Option (Compiled K) :=
  match match? with
  | none =>
    match hotwords.find? (Expects · 0 token) with
    | some hotword => reach hotword 1
    | none => (none, none)
  | some ⟨hotword, i⟩ => if Expects hotword i token then reach hotword (i + 1) else (none, none)

theorem advanceMatch_epsilon (hotwords : List (Compiled K)) (match? : Option (PartialMatch K)) :
    advanceMatch hotwords match? 0 = (none, none) := by
  cases match? with
  | none =>
    have absent : hotwords.find? (Expects · 0 0) = none :=
      List.find?_eq_none.mpr (by simp [Expects])
    simp only [advanceMatch, absent]
  | some progress => simp [advanceMatch, Expects]

/-- The match after the tokens, and the hotwords completed along them. -/
def matchTokens (hotwords : List (Compiled K)) (tokens : List Nat) :
    Option (PartialMatch K) × List (Compiled K) :=
  tokens.foldl (fun run token =>
    let (match?, completed) := advanceMatch hotwords run.1 token
    (match?, run.2 ++ completed.toList)) (none, [])

theorem matchTokens_snoc (hotwords : List (Compiled K)) (tokens : List Nat) (token : Nat) :
    matchTokens hotwords (tokens ++ [token]) =
      ((advanceMatch hotwords (matchTokens hotwords tokens).1 token).1,
        (matchTokens hotwords tokens).2 ++
          (advanceMatch hotwords (matchTokens hotwords tokens).1 token).2.toList) := by
  simp [matchTokens]

/-- No two hotwords begin with the same symbol. -/
def DistinctStarts (hotwords : List (Compiled K)) : Prop :=
  hotwords.Pairwise fun first second =>
    ∀ word ∈ first.words.head?, ∀ word' ∈ second.words.head?, word.id ≠ word'.id

/-! ## Scores -/

section
variable [CommRing K]

/-- The scores of the words from the `i`-th on. -/
def wordScores (config : ContextConfig K) (score : K) : Nat → List Word → K
  | _, [] => 0
  | i, word :: words => wordScore config score i word + wordScores config score (i + 1) words

def fullScore (config : ContextConfig K) (hotword : Compiled K) : K :=
  wordScores config hotword.score 0 hotword.words

/-- What the matched words were credited with. -/
def heldScore (config : ContextConfig K) : Option (PartialMatch K) → K
  | none => 0
  | some ⟨hotword, i⟩ => wordScores config hotword.score 0 (hotword.words.take i)

def completedScore (config : ContextConfig K) (completed : List (Compiled K)) : K :=
  (completed.map (fullScore config)).sum

theorem wordScores_snoc (config : ContextConfig K) (score : K) (i : Nat) (words : List Word)
    (word : Word) : wordScores config score i (words ++ [word]) =
      wordScores config score i words + wordScore config score (i + words.length) word := by
  induction words generalizing i with
  | nil => simp [wordScores]
  | cons first words inductionHypothesis =>
    have index : i + 1 + words.length = i + (words.length + 1) := by omega
    rw [List.cons_append, wordScores, inductionHypothesis, wordScores, List.length_cons, index,
      add_assoc]

theorem completedScore_append (config : ContextConfig K) (completed completed' : List (Compiled K)) :
    completedScore config (completed ++ completed') =
      completedScore config completed + completedScore config completed' := by
  simp [completedScore]

variable {config : ContextConfig K} {hotwords : List (Compiled K)} {graph : ContextGraph K}

/-- One word more. -/
theorem wordScores_take {hotword : Compiled K} {i : Nat} {word : Word}
    (at_i : hotword.words[i]? = some word) :
    wordScores config hotword.score 0 (hotword.words.take (i + 1)) =
      wordScores config hotword.score 0 (hotword.words.take i) +
        wordScore config hotword.score i word := by
  have inside : i < hotword.words.length := (List.getElem?_eq_some_iff.mp at_i).1
  rw [List.take_add_one, at_i, Option.toList_some, wordScores_snoc, Nat.zero_add, List.length_take,
    Nat.min_eq_left inside.le]

/-! ## The graph follows the match -/

/-- The state of the graph that a match stands for. -/
inductive StandsFor (config : ContextConfig K) (hotwords : List (Compiled K))
    (graph : ContextGraph K) : Nat → Option (PartialMatch K) → Prop
  | start : StandsFor config hotwords graph 0 none
  | inner {state i : Nat} {hotword : Compiled K} (member : hotword ∈ hotwords) (begun : 0 < i)
      (word : Word) (words : List Word) (rest : hotword.words.drop i = word :: words)
      (leads : Leads config graph hotword.score state i
        (wordScores config hotword.score 0 (hotword.words.take i)) (word :: words)) :
      StandsFor config hotwords graph state (some ⟨hotword, i⟩)

theorem StandsFor.state_eq_zero {state : Nat} {match? : Option (PartialMatch K)}
    (stands : StandsFor config hotwords graph state match?) : state = 0 ↔ match? = none := by
  cases stands with
  | start => simp
  | inner member begun word words rest leads => simp [leads.1]

/-- What is held and what is completed after the `i`-th word are the words so far. -/
theorem reach_held (config : ContextConfig K) (hotword : Compiled K) (i : Nat) :
    heldScore config (reach hotword i).1 + completedScore config (reach hotword i).2.toList =
      wordScores config hotword.score 0 (hotword.words.take i) := by
  unfold reach
  split
  next short => simp [heldScore, completedScore, fullScore, List.take_of_length_le short]
  next => simp [heldScore, completedScore]

omit [CommRing K] in
theorem reach_isSome (hotword : Compiled K) (i : Nat) :
    (reach hotword i).2.isSome = true ↔ hotword.words.length ≤ i := by
  unfold reach
  split <;> simp_all

/-- A match after its `i`-th word, on the graph. -/
theorem reach_standsFor {hotword : Compiled K} {i state : Nat} (member : hotword ∈ hotwords)
    (begun : 0 < i) (leads : Leads config graph hotword.score state i
      (wordScores config hotword.score 0 (hotword.words.take i)) (hotword.words.drop i)) :
    StandsFor config hotwords graph state (reach hotword i).1 ∧
      (state = 0 ↔ (reach hotword i).2.isSome = true) := by
  rw [reach_isSome]
  unfold reach
  cases rest : hotword.words.drop i with
  | nil =>
    have short : hotword.words.length ≤ i := List.drop_eq_nil_iff.mp rest
    rw [rest] at leads
    cases leads
    rw [if_pos short]
    exact ⟨.start, by simp [short]⟩
  | cons word words =>
    have long : ¬ hotword.words.length ≤ i := by
      intro short
      rw [List.drop_of_length_le short] at rest
      cases rest
    rw [rest] at leads
    rw [if_neg long]
    exact ⟨.inner member begun word words rest leads, by simp [leads.1, long]⟩

/-! ## One token -/

/-- The arcs of a state inside a hotword. -/
theorem follow_inner (graph : ContextGraph K) (curState token : Nat) (word : Word)
    (score escapeScore nought : K) (nextState : Nat) :
    graph.follow curState token [⟨word.id, score, nextState⟩, ⟨0, -escapeScore, 0⟩]
        ⟨0, nought, false, false⟩ =
      if token ≠ 0 ∧ word.id = token then
        ⟨nextState, score, curState = 0 || false, graph.final nextState || false⟩
      else ⟨0, -escapeScore, false, false⟩ := by
  -- A word of label 0 is taken for an escape arc, and the real one overwrites its score.
  by_cases epsilon : word.id = 0
  · have differs : ¬ (token ≠ 0 ∧ word.id = token) := by
      rintro ⟨some, same⟩
      exact some (same.symm.trans epsilon)
    rw [if_neg differs]
    simp [ContextGraph.follow, epsilon]
  · by_cases same : word.id = token
    · subst same
      simp [ContextGraph.follow, epsilon]
    · simp [ContextGraph.follow, epsilon, same]

/-- The arcs of state 0: the first hotword that expects the token is the one whose arc is taken. -/
theorem follow_start {token : Nat} {starting : List (Compiled K)} {arcs : List (Arc K)}
    (begins : List.Forall₂ (Begins config graph) starting arcs) (move : ContextMove K)
    (fresh : move.isEndBoundary = false) :
    let moved := graph.follow 0 token arcs move
    match starting.find? (Expects · 0 token) with
    | some hotword => ∃ arc, Begins config graph hotword arc ∧ moved.nextState = arc.nextstate ∧
        moved.score = arc.weight ∧ moved.isEndBoundary = graph.final arc.nextstate
    | none => moved.nextState = move.nextState ∧ moved.isEndBoundary = false ∧
        (moved.score = move.score ∨ ∃ hotword ∈ starting, ∃ word ∈ hotword.words.head?,
          word.id = 0 ∧ moved.score = wordScore config hotword.score 0 word) := by
  induction begins generalizing move with
  | nil => simp [ContextGraph.follow, fresh]
  | @cons hotword arc starting arcs first others inductionHypothesis =>
    obtain ⟨word, words, same, label, weight, leads⟩ := first
    have expects : Expects hotword 0 token ↔ token ≠ 0 ∧ word.id = token := by
      simp [Expects, same]
    by_cases epsilon : word.id = 0
    · -- the arc is taken for an escape arc, and its weight stays until another arc is met
      have differs : ¬ Expects hotword 0 token := by
        rw [expects]
        rintro ⟨some, same⟩
        exact some (same.symm.trans epsilon)
      have rest := inductionHypothesis { move with score := arc.weight } fresh
      rw [List.find?_cons_of_neg (by simpa using differs)]
      simp only [ContextGraph.follow, label, epsilon, if_true] at rest ⊢
      split at rest
      next found => exact rest
      next =>
        obtain ⟨state, ends, kept | ⟨later, member, word', first', zero, score⟩⟩ := rest
        · exact ⟨state, ends, .inr ⟨hotword, List.mem_cons_self, word, by simp [same], epsilon,
            kept.trans weight⟩⟩
        · exact ⟨state, ends, .inr ⟨later, List.mem_cons_of_mem _ member, word', first', zero, score⟩⟩
    · by_cases taken : word.id = token
      · have matches' : Expects hotword 0 token := expects.mpr ⟨taken ▸ epsilon, taken⟩
        rw [List.find?_cons_of_pos (by simpa using matches')]
        refine ⟨arc, ⟨word, words, same, label, weight, leads⟩, ?_⟩
        simp [ContextGraph.follow, label, taken, taken ▸ epsilon, fresh]
      · have differs : ¬ Expects hotword 0 token := by
          rw [expects]
          exact fun both => taken both.2
        have rest := inductionHypothesis move fresh
        rw [List.find?_cons_of_neg (by simpa using differs)]
        simp only [ContextGraph.follow, label, epsilon, taken, if_false] at rest ⊢
        split at rest
        next found => exact rest
        next =>
          obtain ⟨state, ends, kept | ⟨later, member, word', first', zero, score⟩⟩ := rest
          · exact ⟨state, ends, .inl kept⟩
          · exact ⟨state, ends, .inr ⟨later, List.mem_cons_of_mem _ member, word', first', zero,
              score⟩⟩

/-- No hotword that begins with the label 0 is credited for it. -/
def SilentEpsilon (config : ContextConfig K) (hotwords : List (Compiled K)) : Prop :=
  ∀ hotword ∈ hotwords, ∀ word ∈ hotword.words.head?, word.id = 0 →
    wordScore config hotword.score 0 word = 0

/-- One token: what the graph answers, and what the match does. -/
structure Follows (config : ContextConfig K) (hotwords : List (Compiled K)) (graph : ContextGraph K)
    (match? : Option (PartialMatch K)) (token : Nat) (move : ContextMove K) : Prop where
  stands : StandsFor config hotwords graph move.nextState (advanceMatch hotwords match? token).1
  ends : move.isEndBoundary = (advanceMatch hotwords match? token).2.isSome
  credit : (match? = none → (advanceMatch hotwords match? token).1 = none →
      (advanceMatch hotwords match? token).2 = none → SilentEpsilon config hotwords) →
    heldScore config match? + move.score = heldScore config (advanceMatch hotwords match? token).1 +
      completedScore config (advanceMatch hotwords match? token).2.toList

theorem Paths.follow_inner (paths : Paths config hotwords graph) {state i : Nat}
    {hotword : Compiled K} (member : hotword ∈ hotwords) {word : Word} {words : List Word}
    (rest : hotword.words.drop i = word :: words)
    (leads : Leads config graph hotword.score state i
      (wordScores config hotword.score 0 (hotword.words.take i)) (word :: words))
    (token : Nat) (zero : K) :
    Follows config hotwords graph (some ⟨hotword, i⟩) token
      (graph.follow state token (graph.arcs state) ⟨0, zero, false, false⟩) := by
  obtain ⟨some, nextState, arcs, leads⟩ := leads
  have at_i : hotword.words[i]? = Option.some word := by
    rw [← List.head?_drop, rest]
    rfl
  have later : hotword.words.drop (i + 1) = words := by
    rw [← List.tail_drop, rest, List.tail_cons]
  have taken := @wordScores_take _ _ config _ _ _ at_i
  rw [arcs, Ctc.follow_inner]
  -- The word goes on with the match; any other token takes the escape arc.
  by_cases expected : Expects hotword i token
  · have same : token ≠ 0 ∧ word.id = token := by simpa [Expects, at_i] using expected
    rw [← later, ← taken] at leads
    obtain ⟨stands, completes⟩ := reach_standsFor member (Nat.succ_pos i) leads
    have final : graph.final nextState = (reach hotword (i + 1)).2.isSome := by
      rw [Bool.eq_iff_iff, paths.final, completes]
    rw [if_pos same]
    refine ⟨?_, ?_, fun _ => ?_⟩
    · simpa [advanceMatch, expected] using stands
    · simpa [advanceMatch, expected] using final
    · simp only [advanceMatch, expected, if_true]
      rw [reach_held, heldScore, taken]
  · have differs : ¬ (token ≠ 0 ∧ word.id = token) := by simpa [Expects, at_i] using expected
    rw [if_neg differs]
    refine ⟨?_, ?_, fun _ => ?_⟩
    · simpa [advanceMatch, expected] using StandsFor.start
    · simp [advanceMatch, expected]
    · simp [advanceMatch, expected, heldScore, completedScore]

theorem Paths.follow_start (paths : Paths config hotwords graph) (token : Nat) :
    Follows config hotwords graph none token
      (graph.follow 0 token (graph.arcs 0) ⟨0, 0, false, false⟩) := by
  have starts := @Ctc.follow_start _ _ config graph token _ _ paths.begins ⟨0, 0, false, false⟩ rfl
  -- A hotword without words expects no token, so leaving them out finds the same one.
  have found : (hotwords.filter (·.words ≠ [])).find? (Expects · 0 token) =
      hotwords.find? (Expects · 0 token) := by
    rw [List.find?_filter]
    congr 1
    funext hotword
    cases words : hotword.words <;> simp [Expects, words]
  simp only [found] at starts
  cases first : hotwords.find? (Expects · 0 token) with
  | some hotword =>
    simp only [first] at starts
    obtain ⟨arc, ⟨word, words, same, -, weight, leads⟩, state, score, ends⟩ := starts
    have taken : arc.weight = wordScores config hotword.score 0 (hotword.words.take 1) := by
      simp [same, weight, wordScores]
    have rest : words = hotword.words.drop 1 := by rw [same, List.drop_one, List.tail_cons]
    rw [taken, rest] at leads
    obtain ⟨stands, completes⟩ :=
      reach_standsFor (List.mem_of_find?_eq_some first) Nat.one_pos leads
    have final : graph.final arc.nextstate = (reach hotword 1).2.isSome := by
      rw [Bool.eq_iff_iff, paths.final, completes]
    refine ⟨?_, ?_, fun _ => ?_⟩
    · simpa [advanceMatch, first, state] using stands
    · simpa [advanceMatch, first, ends] using final
    · simp only [advanceMatch, first]
      rw [reach_held, score, taken, heldScore, zero_add]
  | none =>
    simp only [first] at starts
    obtain ⟨state, ends, score⟩ := starts
    refine ⟨?_, ?_, fun silent => ?_⟩
    · simpa [advanceMatch, first, state] using StandsFor.start
    · simpa [advanceMatch, first] using ends
    · have nothing : advanceMatch hotwords none token = (none, none) := by simp [advanceMatch, first]
      have unpaid := silent rfl (by rw [nothing]) (by rw [nothing])
      have zero : (graph.follow 0 token (graph.arcs 0) ⟨0, 0, false, false⟩).score = 0 := by
        obtain kept | ⟨hotword, member, word, start, epsilon, paid⟩ := score
        · exact kept
        · rw [paid]
          exact unpaid hotword (List.mem_filter.mp member).1 word start epsilon
      rw [nothing, zero]
      simp [heldScore, completedScore]

end

/-! ## A sequence of tokens -/

/-- Scores that are numbers: the literal `0.0` is zero, and sums are sums. -/
class AdditiveDomain (K : Type*) [LinearOrder K] [LogDomain K] [CommRing K] : Prop where
  nought_eq : (nought : K) = 0
  plus_eq : ∀ x y : K, plus x y = x + y

/-- What `UpdateFinalContext` leaves of the context of the tokens. -/
def finalContext [LinearOrder K] [LogDomain K] (graph : ContextGraph K) (tokens : List Nat) :
    Context K :=
  let context := contextOf graph tokens
  if context.state ≠ 0 then context.advance graph 0 tokens.length else context

section
variable [LinearOrder K] [LogDomain K] [CommRing K] [AdditiveDomain K] {config : ContextConfig K}
  {hotwords : List (Compiled K)} {graph : ContextGraph K}

theorem Paths.getNextState (paths : Paths config hotwords graph) {state : Nat}
    {match? : Option (PartialMatch K)} (stands : StandsFor config hotwords graph state match?)
    (token : Nat) :
    Follows config hotwords graph match? token (graph.getNextState state token) := by
  cases stands with
  | start =>
    rw [ContextGraph.getNextState, AdditiveDomain.nought_eq]
    exact paths.follow_start token
  | inner member begun word words rest leads => exact paths.follow_inner member rest leads token nought

theorem Paths.contextOf (paths : Paths config hotwords graph) (tokens : List Nat) :
    StandsFor config hotwords graph (contextOf graph tokens).state (matchTokens hotwords tokens).1 := by
  induction tokens using List.reverseRecOn with
  | nil => exact .start
  | append_singleton tokens token inductionHypothesis =>
    rw [contextOf_snoc, matchTokens_snoc]
    exact (paths.getNextState inductionHypothesis token).stands

theorem contextOf_score_snoc (graph : ContextGraph K) (tokens : List Nat) (token : Nat) :
    (contextOf graph (tokens ++ [token])).score = (contextOf graph tokens).score +
      (graph.getNextState (contextOf graph tokens).state token).score := by
  rw [contextOf_snoc]
  exact AdditiveDomain.plus_eq _ _

/-- The credit so far: the hotwords that are completed, and the words of the one that is not. -/
theorem Paths.score (paths : Paths config hotwords graph) (silent : SilentEpsilon config hotwords)
    (tokens : List Nat) :
    (Ctc.contextOf graph tokens).score =
      completedScore config (matchTokens hotwords tokens).2 +
        heldScore config (matchTokens hotwords tokens).1 := by
  -- On the tokens, from the last one: it credits what the match gains by it.
  induction tokens using List.reverseRecOn with
  | nil =>
    have zero : (Ctc.contextOf graph ([] : List Nat)).score = (nought : K) := rfl
    rw [zero, AdditiveDomain.nought_eq]
    simp [matchTokens, completedScore, heldScore]
  | append_singleton tokens token inductionHypothesis =>
    have follows := paths.getNextState (paths.contextOf tokens) token
    have credit := follows.credit fun _ _ _ => silent
    rw [contextOf_score_snoc, matchTokens_snoc, inductionHypothesis, completedScore_append, add_assoc,
      credit]
    ring

/-- The back-off takes back what is held. -/
theorem Paths.finalContext_score (paths : Paths config hotwords graph) (tokens : List Nat) :
    (finalContext graph tokens).score =
      (Ctc.contextOf graph tokens).score - heldScore config (matchTokens hotwords tokens).1 := by
  have stands := paths.contextOf tokens
  rw [finalContext]
  split
  -- From an unfinished match the label 0 leads back to the start.
  next unfinished =>
    have some : (matchTokens hotwords tokens).1 ≠ none :=
      fun none => unfinished (stands.state_eq_zero.mpr none)
    have follows := paths.getNextState stands 0
    have abandoned : advanceMatch hotwords (matchTokens hotwords tokens).1 0 = (none, none) := by
      cases partly : (matchTokens hotwords tokens).1 with
      | none => exact absurd partly some
      | some progress => simp [advanceMatch, Expects]
    have credit := follows.credit fun none => absurd none some
    rw [abandoned] at credit
    have taken : ((Ctc.contextOf graph tokens).advance graph 0 tokens.length).score =
        (Ctc.contextOf graph tokens).score +
          (graph.getNextState (Ctc.contextOf graph tokens).state 0).score :=
      AdditiveDomain.plus_eq _ _
    have nothing : heldScore config (none : Option (PartialMatch K)) +
        completedScore config (none : Option (Compiled K)).toList = 0 := by
      simp [heldScore, completedScore]
    rw [nothing] at credit
    rw [taken, eq_sub_iff_add_eq, add_assoc, add_comm _ (heldScore _ _), credit, add_zero]
  next done =>
    rw [stands.state_eq_zero.mp (not_not.mp done)]
    simp [heldScore]

/-- The credit is that of the hotwords completed, at the end and wherever no match is under way. -/
def NoResidue (config : ContextConfig K) (hotwords : List (Compiled K)) (graph : ContextGraph K) :
    Prop :=
  ∀ tokens, (finalContext graph tokens).score =
      completedScore config (matchTokens hotwords tokens).2 ∧
    ((matchTokens hotwords tokens).1 = none → (Ctc.contextOf graph tokens).score =
      completedScore config (matchTokens hotwords tokens).2)

omit [LinearOrder K] [LogDomain K] [AdditiveDomain K] in
theorem follow_silent {starting : List (Compiled K)} {arcs : List (Arc K)}
    (begins : List.Forall₂ (Begins config graph) starting arcs) (move : ContextMove K)
    (loud : ∀ hotword ∈ starting, ∀ word ∈ hotword.words.head?, word.id ≠ 0) :
    (graph.follow 0 0 arcs move).score = move.score := by
  induction begins generalizing move with
  | nil => rfl
  | @cons hotword arc starting arcs begun _ inductionHypothesis =>
    obtain ⟨word, words, same, label, -⟩ := begun
    have labelled : arc.ilabel ≠ 0 := by
      rw [label]
      exact loud hotword List.mem_cons_self word (by simp [same])
    simp only [ContextGraph.follow, labelled, if_false]
    exact inductionHypothesis move fun later member => loud later (List.mem_cons_of_mem _ member)

omit [LinearOrder K] [LogDomain K] [AdditiveDomain K] in
/-- The label 0 in state 0 is credited with the arc of the hotword that begins with it. -/
theorem follow_epsilon {starting : List (Compiled K)} {arcs : List (Arc K)}
    (begins : List.Forall₂ (Begins config graph) starting arcs) (distinct : DistinctStarts starting)
    {hotword : Compiled K} (member : hotword ∈ starting) {word : Word}
    (first : word ∈ hotword.words.head?) (epsilon : word.id = 0) (move : ContextMove K) :
    (graph.follow 0 0 arcs move).score = wordScore config hotword.score 0 word := by
  induction begins generalizing move with
  | nil => cases member
  | @cons start arc starting arcs begun begins inductionHypothesis =>
    obtain ⟨word', words, same, label, weight, -⟩ := begun
    have apart := (List.pairwise_cons.mp distinct).1
    rcases List.mem_cons.mp member with rfl | later
    · -- its own arc is the last of the label 0
      have one : word' = word := by simpa [same] using first
      subst one
      simp only [ContextGraph.follow, label, epsilon, if_true]
      rw [follow_silent begins, weight]
      intro later member' word'' first' zero
      exact apart later member' word' first word'' first' (epsilon.trans zero.symm)
    · have labelled : arc.ilabel ≠ 0 := by
        rw [label]
        intro zero
        exact apart hotword later word' (by simp [same]) word first (zero.trans epsilon.symm)
      simp only [ContextGraph.follow, labelled, if_false]
      exact inductionHypothesis (List.pairwise_cons.mp distinct).2 later move

theorem Paths.exact_iff (paths : Paths config hotwords graph) (distinct : DistinctStarts hotwords) :
    NoResidue config hotwords graph ↔ SilentEpsilon config hotwords := by
  constructor
  · intro exact' hotword member word first epsilon
    -- The label 0 alone is credited with the weight of a hotword that begins with it.
    have zero : (Ctc.contextOf graph ([] : List Nat)).score = 0 := AdditiveDomain.nought_eq
    have nothing : matchTokens hotwords [0] = (none, []) := by
      simp [matchTokens, advanceMatch_epsilon]
    have credit := (exact' [0]).2 (by rw [nothing])
    have snoc := contextOf_score_snoc graph [] 0
    rw [List.nil_append, credit, nothing, zero, zero_add] at snoc
    have kept : hotword ∈ hotwords.filter (·.words ≠ []) := by
      refine List.mem_filter.mpr ⟨member, ?_⟩
      cases words : hotword.words with
      | nil => simp [words] at first
      | cons => simp
    have paid := follow_epsilon paths.begins (distinct.filter _) kept first epsilon ⟨0, nought, false, false⟩
    rw [← paid]
    exact snoc.symm
  · intro silent tokens
    have score := paths.score silent tokens
    refine ⟨by rw [paths.finalContext_score, score, add_sub_cancel_right], fun none => ?_⟩
    rw [score, none, heldScore, add_zero]

/-- A token sequence keeps no credit of a hotword that it does not complete, exactly when no hotword
    that begins with the label 0, that of the escape arcs, is credited for it. -/
theorem noResidue_iff {symbolTable : CString → Option Nat} {queryContexts : List CString}
    {contextScores : List K} {fst : Fst K} (determinize : Fst K → Fst K)
    (lengths : queryContexts.length = contextScores.length)
    (built : buildContextGraph config symbolTable queryContexts contextScores = some fst)
    (distinct : DistinctStarts (compiled config symbolTable queryContexts contextScores))
    (unchanged : determinize fst = fst) :
    NoResidue config (compiled config symbolTable queryContexts contextScores)
        (determinize fst).toContextGraph ↔
      SilentEpsilon config (compiled config symbolTable queryContexts contextScores) := by
  rw [buildContextGraph_eq lengths] at built
  cases built
  rw [unchanged]
  exact (paths_of_build _).exact_iff distinct

end

/-! ## Log probabilities as numbers -/

/-- The larger of two log probabilities stands for their sum. -/
instance : LogDomain ℚ where
  lowest := -(2 ^ 128 - 2 ^ 104)
  nought := 0
  plus := (· + ·)
  logSumExp := max

instance : AdditiveDomain ℚ where
  nought_eq := rfl
  plus_eq _ _ := rfl

/-- The symbol `<blank>`. -/
def blankSymbol : CString := [0x3C, 0x62, 0x6C, 0x61, 0x6E, 0x6B, 0x3E]

/-- A table of the blank and two letters. -/
def threeSymbols (word : CString) : Option Nat :=
  if word = blankSymbol then some 0
  else if word = kSpaceSymbol ++ [0x61] then some 1
  else if word = kSpaceSymbol ++ [0x62] then some 2
  else none

/-- The hotword of the label 0 is credited for a token that is no hotword. -/
theorem noResidue_epsilon :
    compiled ⟨5000, 100, 0⟩ threeSymbols [blankSymbol] [(3 : ℚ)] = [⟨0, [⟨0, 7⟩], 3⟩] ∧
      ∃ fst, buildContextGraph ⟨5000, 100, 0⟩ threeSymbols [blankSymbol] [(3 : ℚ)] = some fst ∧
        ¬ NoResidue (⟨5000, 100, 0⟩ : ContextConfig ℚ) [⟨0, [⟨0, 7⟩], 3⟩] fst.toContextGraph := by
  refine ⟨by decide +kernel, ⟨[[⟨0, 21, 0⟩]]⟩, by decide +kernel, fun exact' => ?_⟩
  have credit := (exact' [5]).1
  revert credit
  decide +kernel

theorem noResidue_iff_letters :
    ∃ fst : Fst ℚ, NoResidue (⟨5000, 100, 0⟩ : ContextConfig ℚ)
        (compiled ⟨5000, 100, 0⟩ threeSymbols [[0x61, 0x20, 0x62]] [(3 : ℚ)]) (id fst).toContextGraph ↔
      SilentEpsilon ⟨5000, 100, 0⟩
        (compiled ⟨5000, 100, 0⟩ threeSymbols [[0x61, 0x20, 0x62]] [(3 : ℚ)]) := by
  have single : compiled ⟨5000, 100, 0⟩ threeSymbols [[0x61, 0x20, 0x62]] [(3 : ℚ)] =
      [⟨0, [⟨1, 2⟩, ⟨2, 2⟩], 3⟩] := by decide +kernel
  have distinct : DistinctStarts
      (compiled ⟨5000, 100, 0⟩ threeSymbols [[0x61, 0x20, 0x62]] [(3 : ℚ)]) := by
    rw [single]
    exact List.pairwise_singleton _ _
  exact ⟨_, noResidue_iff id rfl (buildContextGraph_eq rfl) distinct rfl⟩

end Asr2Pass.Ctc
