import Asr2Pass.Ctc.HotwordCredit

/-! # Hotwords after other tokens

A hotword is found after some tokens when no match is under way there.  The token that breaks a match
is consumed by the escape arc, so a hotword that begins with this token is not found.
`BiasLmScore` tries the token again from the state that the arc leads to; `GetNextState` does not.
-/

namespace Asr2Pass.Ctc

open Text

variable {K : Type*}

/-! ## Hotwords of different symbols -/

def symbolsOf (hotword : Compiled K) : List Nat :=
  hotword.words.map Word.id

theorem last_symbol {hotword : Compiled K} {ids : List Nat} {last : Nat}
    (symbols : symbolsOf hotword = ids ++ [last]) :
    (symbolsOf hotword)[ids.length]? = some last ∧ (symbolsOf hotword).take ids.length = ids ∧
      ids.length + 1 = hotword.words.length := by
  have length := congrArg List.length symbols
  rw [symbolsOf, List.length_map, List.length_append, List.length_singleton] at length
  rw [symbols]
  exact ⟨by simp, by simp, length.symm⟩

/-- No two hotwords share a symbol, and none has one twice. -/
structure DistinctSymbols (hotwords : List (Compiled K)) : Prop where
  apart : hotwords.Pairwise fun first second => List.Disjoint (symbolsOf first) (symbolsOf second)
  nodup : ∀ hotword ∈ hotwords, (symbolsOf hotword).Nodup

/-- A symbol has one place in one hotword. -/
theorem DistinctSymbols.place {hotwords : List (Compiled K)} (distinct : DistinctSymbols hotwords)
    {hotword hotword' : Compiled K} (member : hotword ∈ hotwords) (member' : hotword' ∈ hotwords)
    {i j token : Nat} (at_i : (symbolsOf hotword)[i]? = some token)
    (at_j : (symbolsOf hotword')[j]? = some token) : hotword = hotword' ∧ i = j := by
  have same : hotword = hotword' := by
    by_contra differs
    have symmetric : Std.Symm fun first second : Compiled K =>
        List.Disjoint (symbolsOf first) (symbolsOf second) := ⟨fun _ _ => List.disjoint_symm⟩
    have disjoint := distinct.apart.forall member member' differs
    exact disjoint (List.mem_of_getElem? at_i) (List.mem_of_getElem? at_j)
  subst same
  have inside := (List.getElem?_eq_some_iff.mp at_i).1
  exact ⟨rfl, (List.getElem?_inj inside (distinct.nodup _ member)).mp (at_i.trans at_j.symm)⟩

theorem expects_iff {hotword : Compiled K} {i token : Nat} :
    Expects hotword i token ↔ token ≠ 0 ∧ (symbolsOf hotword)[i]? = some token := by
  rw [Expects, symbolsOf, List.getElem?_map]

/-- The match that is under way after the first `i` words of a hotword. -/
def partly (hotword : Compiled K) (i : Nat) : Option (PartialMatch K) :=
  if i = 0 then none else some ⟨hotword, i⟩

theorem reach_ne (hotword : Compiled K) (i : Nat) : reach hotword i ≠ (none, none) := by
  unfold reach
  split <;> simp

/-- The next word of the hotword goes on with the match. -/
theorem DistinctSymbols.advance {hotwords : List (Compiled K)} (distinct : DistinctSymbols hotwords)
    {hotword : Compiled K} (member : hotword ∈ hotwords) {i token : Nat}
    (at_i : (symbolsOf hotword)[i]? = some token) (label : token ≠ 0) :
    advanceMatch hotwords (partly hotword i) token = reach hotword (i + 1) := by
  have expected : Expects hotword i token := expects_iff.mpr ⟨label, at_i⟩
  unfold partly
  split
  next start =>
    subst start
    -- The hotword that is found first expects the same symbol, so it is the same one.
    cases first : hotwords.find? (Expects · 0 token) with
    | none => exact absurd (List.find?_eq_none.mp first hotword member) (by simpa using expected)
    | some hotword' =>
      have begun : Expects hotword' 0 token := by simpa using List.find?_some first
      have same := (distinct.place (List.mem_of_find?_eq_some first) member
        (expects_iff.mp begun).2 at_i).1
      simp only [advanceMatch, first, same]
  next => simp [advanceMatch, expected]

/-- A word of the hotword that is not dropped goes on with the words before it. -/
theorem DistinctSymbols.of_advance {hotwords : List (Compiled K)} (distinct : DistinctSymbols hotwords)
    {hotword : Compiled K} (member : hotword ∈ hotwords) {i token : Nat}
    (at_i : (symbolsOf hotword)[i]? = some token) {match? : Option (PartialMatch K)}
    (known : ∀ progress ∈ match?, progress.hotword ∈ hotwords ∧ 0 < progress.matched)
    (kept : advanceMatch hotwords match? token ≠ (none, none)) :
    token ≠ 0 ∧ match? = partly hotword i := by
  have label : token ≠ 0 := by
    rintro rfl
    exact kept (advanceMatch_epsilon hotwords match?)
  refine ⟨label, ?_⟩
  -- The symbol is in no other place of a hotword, so it says where the match stood.
  cases match? with
  | none =>
    cases first : hotwords.find? (Expects · 0 token) with
    | none => simp [advanceMatch, first] at kept
    | some hotword' =>
      have begun : Expects hotword' 0 token := by simpa using List.find?_some first
      have place := (distinct.place (List.mem_of_find?_eq_some first) member
        (expects_iff.mp begun).2 at_i).2
      rw [partly, if_pos place.symm]
  | some progress =>
    obtain ⟨hotword', j⟩ := progress
    obtain ⟨member', begun⟩ := known _ rfl
    have expected : Expects hotword' j token := by
      by_contra unexpected
      simp [advanceMatch, unexpected] at kept
    obtain ⟨rfl, rfl⟩ := distinct.place member' member (expects_iff.mp expected).2 at_i
    rw [partly, if_neg begun.ne']

/-! ## A hotword after some tokens -/

section
variable [LinearOrder K] [LogDomain K] [CommRing K] {config : ContextConfig K}
  {hotwords : List (Compiled K)} {graph : ContextGraph K}

omit [LinearOrder K] [LogDomain K] in
theorem StandsFor.known {state : Nat} {match? : Option (PartialMatch K)}
    (stands : StandsFor config hotwords graph state match?) :
    ∀ progress ∈ match?, progress.hotword ∈ hotwords ∧ 0 < progress.matched := by
  cases stands with
  | start => simp
  | inner member begun word words rest leads => simp [member, begun]

/-- The last symbol of the hotword ends it, and the hotword is credited in full once the match that
    was under way is given back. -/
def FoundAfter (config : ContextConfig K) (graph : ContextGraph K) (hotword : Compiled K)
    (tokens : List Nat) : Prop :=
  (∃ ids last, symbolsOf hotword = ids ++ [last] ∧
    (graph.getNextState (contextOf graph (tokens ++ ids)).state last).isEndBoundary = true) ∧
  (contextOf graph (tokens ++ symbolsOf hotword)).score =
    (finalContext graph tokens).score + fullScore config hotword

omit [LinearOrder K] [LogDomain K] in
theorem heldScore_partly (config : ContextConfig K) (hotword : Compiled K) (i : Nat) :
    heldScore config (partly hotword i) =
      wordScores config hotword.score 0 (hotword.words.take i) := by
  unfold partly
  split
  next start => simp [start, heldScore, wordScores]
  next => rfl

variable [AdditiveDomain K]

/-- One word of the hotword: the match goes on, and the word is credited. -/
theorem Paths.spell (paths : Paths config hotwords graph) (distinct : DistinctSymbols hotwords)
    {hotword : Compiled K} (member : hotword ∈ hotwords) {i token : Nat}
    (at_i : (symbolsOf hotword)[i]? = some token) (label : token ≠ 0) {tokens : List Nat}
    (begun : (matchTokens hotwords tokens).1 = partly hotword i) {base : K}
    (credited : (Ctc.contextOf graph tokens).score =
      base + wordScores config hotword.score 0 (hotword.words.take i)) :
    (matchTokens hotwords (tokens ++ [token])).1 = (reach hotword (i + 1)).1 ∧
      (graph.getNextState (Ctc.contextOf graph tokens).state token).isEndBoundary =
        (reach hotword (i + 1)).2.isSome ∧
      (Ctc.contextOf graph (tokens ++ [token])).score =
        base + wordScores config hotword.score 0 (hotword.words.take (i + 1)) := by
  have follows := paths.getNextState (paths.contextOf tokens) token
  have goes := distinct.advance member at_i label
  rw [← begun] at goes
  have paid := follows.credit fun _ dropped unfinished =>
    absurd (goes.symm.trans (Prod.ext dropped unfinished)) (reach_ne hotword (i + 1))
  rw [begun, heldScore_partly, ← begun, goes, reach_held] at paid
  refine ⟨by rw [matchTokens_snoc, goes], by rw [follows.ends, goes], ?_⟩
  rw [contextOf_score_snoc, credited, add_assoc, paid]

/-- The first words of the hotword, when no match is under way before them. -/
theorem Paths.spells (paths : Paths config hotwords graph) (distinct : DistinctSymbols hotwords)
    {hotword : Compiled K} (member : hotword ∈ hotwords)
    (labels : ∀ token ∈ symbolsOf hotword, token ≠ 0) {tokens : List Nat}
    (free : (matchTokens hotwords tokens).1 = none) {i : Nat} (inside : i < hotword.words.length) :
    (matchTokens hotwords (tokens ++ (symbolsOf hotword).take i)).1 = partly hotword i ∧
      (Ctc.contextOf graph (tokens ++ (symbolsOf hotword).take i)).score =
        (Ctc.contextOf graph tokens).score +
          wordScores config hotword.score 0 (hotword.words.take i) := by
  induction i with
  | zero => simpa [partly, wordScores] using free
  | succ i inductionHypothesis =>
    obtain ⟨begun, credited⟩ := inductionHypothesis (Nat.lt_of_succ_lt inside)
    have long : i < (symbolsOf hotword).length := by
      rw [symbolsOf, List.length_map]
      exact Nat.lt_of_succ_lt inside
    have at_i := List.getElem?_eq_getElem long
    have next := paths.spell distinct member at_i (labels _ (List.getElem_mem long)) begun credited
    rw [List.take_add_one, at_i, Option.toList_some, ← List.append_assoc]
    refine ⟨next.1.trans ?_, next.2.2⟩
    rw [reach, if_neg (not_le.mpr inside), partly, if_neg (Nat.succ_ne_zero i)]

/-- A word of the hotword that is not dropped has the words before it in one match. -/
theorem Paths.spelled (paths : Paths config hotwords graph) (distinct : DistinctSymbols hotwords)
    {hotword : Compiled K} (member : hotword ∈ hotwords) {tokens : List Nat} {i token : Nat}
    (at_i : (symbolsOf hotword)[i]? = some token)
    (kept : advanceMatch hotwords
      (matchTokens hotwords (tokens ++ (symbolsOf hotword).take i)).1 token ≠ (none, none)) :
    (matchTokens hotwords tokens).1 = none ∧
      ∀ token ∈ (symbolsOf hotword).take (i + 1), token ≠ 0 := by
  have known := (paths.contextOf (tokens ++ (symbolsOf hotword).take i)).known
  obtain ⟨label, begun⟩ := distinct.of_advance member at_i known kept
  -- Backwards from the `i`-th word: what is not dropped has gone on with the word before.
  induction i generalizing token with
  | zero =>
    rw [List.take_add_one, at_i]
    simpa [partly, label] using begun
  | succ i inductionHypothesis =>
    have long : i < (symbolsOf hotword).length :=
      Nat.lt_of_succ_lt (List.getElem?_eq_some_iff.mp at_i).1
    have at_before := List.getElem?_eq_getElem long
    have before : advanceMatch hotwords
        (matchTokens hotwords (tokens ++ (symbolsOf hotword).take i)).1
        (symbolsOf hotword)[i] ≠ (none, none) := by
      intro dropped
      rw [List.take_add_one, at_before, Option.toList_some, ← List.append_assoc, matchTokens_snoc,
        dropped, partly, if_neg (Nat.succ_ne_zero i)] at begun
      cases begun
    have knownBefore := (paths.contextOf (tokens ++ (symbolsOf hotword).take i)).known
    obtain ⟨labelBefore, begunBefore⟩ := distinct.of_advance member at_before knownBefore before
    obtain ⟨free, labels⟩ :=
      inductionHypothesis at_before before knownBefore labelBefore begunBefore
    refine ⟨free, fun token' found => ?_⟩
    rw [List.take_add_one, at_i, Option.toList_some, List.mem_append, List.mem_singleton] at found
    rcases found with earlier | rfl
    · exact labels token' earlier
    · exact label

theorem Paths.found_iff (paths : Paths config hotwords graph)
    (distinct : DistinctSymbols hotwords) {hotword : Compiled K} (member : hotword ∈ hotwords)
    (tokens : List Nat) : FoundAfter config graph hotword tokens ↔
      (Ctc.contextOf graph tokens).state = 0 ∧ hotword.words ≠ [] ∧
        ∀ word ∈ hotword.words, word.id ≠ 0 := by
  have stands := paths.contextOf tokens
  have labels : (∀ token ∈ symbolsOf hotword, token ≠ 0) ↔ ∀ word ∈ hotword.words, word.id ≠ 0 :=
    List.forall_mem_map
  rw [stands.state_eq_zero, ← labels]
  constructor
  -- Credited at its last token, the hotword was expected at each token before.
  · rintro ⟨⟨ids, last, symbols, ends⟩, -⟩
    obtain ⟨at_last, before, length⟩ := last_symbol symbols
    have follows := paths.getNextState (paths.contextOf (tokens ++ ids)) last
    have kept : advanceMatch hotwords (matchTokens hotwords (tokens ++ ids)).1 last ≠
        (none, none) := by
      intro dropped
      rw [follows.ends, dropped] at ends
      cases ends
    rw [← before] at kept
    obtain ⟨free, loud⟩ := paths.spelled distinct member at_last kept
    have whole : (symbolsOf hotword).take (ids.length + 1) = symbolsOf hotword := by
      rw [List.take_add_one, at_last, before, symbols, Option.toList_some]
    rw [whole] at loud
    exact ⟨free, List.ne_nil_of_length_pos (length ▸ Nat.succ_pos _), loud⟩
  -- Conversely nothing interrupts its tokens, and the last one ends it.
  · rintro ⟨free, words, loud⟩
    have nonempty : symbolsOf hotword ≠ [] := by simpa [symbolsOf] using words
    obtain ⟨ids, last, symbols⟩ := List.eq_nil_or_concat' (symbolsOf hotword) |>.resolve_left nonempty
    obtain ⟨at_last, before, length⟩ := last_symbol symbols
    obtain ⟨begun, credited⟩ := paths.spells distinct member loud free (Nat.lt_of_succ_le length.le)
    have completes := paths.spell distinct member at_last
      (loud last (List.mem_of_getElem? at_last)) begun credited
    rw [before, length] at completes
    refine ⟨⟨ids, last, symbols, ?_⟩, ?_⟩
    · rw [completes.2.1, reach_isSome]
    · rw [paths.finalContext_score, free, heldScore, sub_zero, symbols, ← List.append_assoc,
        completes.2.2, List.take_length, fullScore]

/-- The hotword is found after the tokens exactly when they leave no match under way and the hotword
    is not without a word, nor has one of the label 0. -/
theorem foundAfter_iff {symbolTable : CString → Option Nat} {queryContexts : List CString}
    {contextScores : List K} {fst : Fst K} (determinize : Fst K → Fst K)
    (lengths : queryContexts.length = contextScores.length)
    (built : buildContextGraph config symbolTable queryContexts contextScores = some fst)
    (distinct : DistinctSymbols (compiled config symbolTable queryContexts contextScores))
    (unchanged : determinize fst = fst) {hotword : Compiled K}
    (member : hotword ∈ compiled config symbolTable queryContexts contextScores)
    (tokens : List Nat) :
    FoundAfter config (determinize fst).toContextGraph hotword tokens ↔
      (contextOf (determinize fst).toContextGraph tokens).state = 0 ∧ hotword.words ≠ [] ∧
        ∀ word ∈ hotword.words, word.id ≠ 0 := by
  rw [buildContextGraph_eq lengths] at built
  cases built
  rw [unchanged]
  exact (paths_of_build _).found_iff distinct member tokens

end

/-! ## Two hotwords -/

/-- A table of the blank and four letters. -/
def fiveSymbols (word : CString) : Option Nat :=
  if word = kSpaceSymbol ++ [0x63] then some 3
  else if word = kSpaceSymbol ++ [0x64] then some 4
  else threeSymbols word

/-- The hotwords `a b` and `c d`. -/
def twoHotwords : List CString :=
  [[0x61, 0x20, 0x62], [0x63, 0x20, 0x64]]

def twoHotwordsFst : Fst ℚ :=
  ⟨[[⟨1, 6, 1⟩, ⟨3, 6, 2⟩], [⟨2, 6, 0⟩, ⟨0, -6, 0⟩], [⟨4, 6, 0⟩, ⟨0, -6, 0⟩]]⟩

theorem compiled_twoHotwords : compiled ⟨5000, 100, 0⟩ fiveSymbols twoHotwords [(3 : ℚ), 3] =
    [⟨0, [⟨1, 2⟩, ⟨2, 2⟩], 3⟩, ⟨1, [⟨3, 2⟩, ⟨4, 2⟩], 3⟩] := by decide +kernel

theorem built_twoHotwords :
    buildContextGraph ⟨5000, 100, 0⟩ fiveSymbols twoHotwords [(3 : ℚ), 3] = some twoHotwordsFst := by
  decide +kernel

theorem distinctSymbols_twoHotwords :
    DistinctSymbols (compiled ⟨5000, 100, 0⟩ fiveSymbols twoHotwords [(3 : ℚ), 3]) := by
  rw [compiled_twoHotwords]
  exact ⟨by simp [symbolsOf], by simp [symbolsOf]⟩

theorem second_mem_twoHotwords : (⟨1, [⟨3, 2⟩, ⟨4, 2⟩], 3⟩ : Compiled ℚ) ∈
    compiled ⟨5000, 100, 0⟩ fiveSymbols twoHotwords [(3 : ℚ), 3] := by
  rw [compiled_twoHotwords]
  simp

/-- After the first word of the one hotword, the other one is not found. -/
theorem foundAfter_broken :
    DistinctSymbols (compiled ⟨5000, 100, 0⟩ fiveSymbols twoHotwords [(3 : ℚ), 3]) ∧
      buildContextGraph ⟨5000, 100, 0⟩ fiveSymbols twoHotwords [(3 : ℚ), 3] = some twoHotwordsFst ∧
      ∃ hotword ∈ compiled ⟨5000, 100, 0⟩ fiveSymbols twoHotwords [(3 : ℚ), 3],
        ¬ FoundAfter ⟨5000, 100, 0⟩ twoHotwordsFst.toContextGraph hotword [1] := by
  refine ⟨distinctSymbols_twoHotwords, built_twoHotwords, _, second_mem_twoHotwords, ?_⟩
  rintro ⟨-, credited⟩
  revert credited
  decide +kernel

/-- After both words of the one hotword, the other one is found. -/
theorem foundAfter_iff_twoHotwords : FoundAfter (⟨5000, 100, 0⟩ : ContextConfig ℚ)
    (id twoHotwordsFst).toContextGraph ⟨1, [⟨3, 2⟩, ⟨4, 2⟩], 3⟩ [1, 2] := by
  have lengths : twoHotwords.length = [(3 : ℚ), 3].length := rfl
  have found := foundAfter_iff id lengths built_twoHotwords distinctSymbols_twoHotwords rfl
    second_mem_twoHotwords [1, 2]
  exact found.mpr ⟨by decide +kernel, by decide, by decide⟩

end Asr2Pass.Ctc
