import Asr2Pass.Ctc.BuildContextGraph

/-! # The paths of the hotword graph

The graph of a list of hotwords has one arc from state 0 for each of them, and the states behind it
are a path: an arc for the next word, and an escape arc that gives back what the words so far were
credited with.  `Paths` says so of a graph; `paths_of_build` says it of the graph that is built.
-/

namespace Asr2Pass.Ctc

variable {K : Type*} [CommRing K] {config : ContextConfig K}

/-! ## What the states of one hotword are -/

/-- The states from the `i`-th word on, the first of them at `position`. -/
def pathStates (config : ContextConfig K) (score : K) (position i : Nat) (escapeScore : K) :
    List Word → List (List (Arc K))
  | [] => []
  | word :: words =>
    [⟨word.id, wordScore config score i word, if words ≠ [] then position + 1 else 0⟩,
        ⟨0, -escapeScore, 0⟩] ::
      pathStates config score (position + 1) (i + 1) (escapeScore + wordScore config score i word) words

theorem modify_append_cons {α : Type*} (earlier : List α) (x : α) (later : List α) (change : α → α) :
    (earlier ++ x :: later).modify earlier.length change = earlier ++ change x :: later := by
  induction earlier with
  | nil => rfl
  | cons first earlier inductionHypothesis => simp [inductionHypothesis]

/-- The words after the first one. -/
theorem addWords_path (score : K) (earlier : List (List (Arc K))) {i : Nat} (inner : 0 < i)
    (escapeScore : K) (word : Word) (words : List Word) :
    addWords config score ⟨earlier ++ [[]]⟩ i earlier.length escapeScore (word :: words) =
      ⟨earlier ++ pathStates config score earlier.length i escapeScore (word :: words)⟩ := by
  -- On the words: each takes the state that the last one has added.
  induction words generalizing earlier i escapeScore word with
  | nil => simp [addWords, Fst.addArc, pathStates, inner, modify_append_cons]
  | cons next words inductionHypothesis =>
    have added : addWords config score ⟨earlier ++ [[]]⟩ i earlier.length escapeScore
        (word :: next :: words) =
          addWords config score
            ⟨(earlier ++ [[⟨word.id, wordScore config score i word, earlier.length + 1⟩,
              ⟨0, -escapeScore, 0⟩]]) ++ [[]]⟩ (i + 1) (earlier.length + 1)
            (escapeScore + wordScore config score i word) (next :: words) := by
      rw [addWords]
      simp [Fst.addState, Fst.addArc, inner, modify_append_cons]
    have rest := inductionHypothesis
      (earlier ++ [[⟨word.id, wordScore config score i word, earlier.length + 1⟩,
        ⟨0, -escapeScore, 0⟩]]) (Nat.succ_pos i) (escapeScore + wordScore config score i word) next
    rw [List.length_append, List.length_singleton] at rest
    rw [added, rest]
    simp [pathStates]

/-- The states that a hotword adds behind `position`. -/
def tailStates (config : ContextConfig K) (position : Nat) (hotword : Compiled K) :
    List (List (Arc K)) :=
  match hotword.words with
  | [] => []
  | word :: words => pathStates config hotword.score position 1
      (wordScore config hotword.score 0 word) words

/-- The arc that a hotword adds to state 0. -/
def startArc (config : ContextConfig K) (position : Nat) (hotword : Compiled K) : List (Arc K) :=
  match hotword.words with
  | [] => []
  | word :: words =>
    [⟨word.id, wordScore config hotword.score 0 word, if words ≠ [] then position else 0⟩]

theorem addCompiled_eq (start : List (Arc K)) (inner : List (List (Arc K))) (hotword : Compiled K) :
    addCompiled config ⟨start :: inner⟩ hotword =
      ⟨(start ++ startArc config (inner.length + 1) hotword) ::
        (inner ++ tailStates config (inner.length + 1) hotword)⟩ := by
  rw [addCompiled, startArc, tailStates]
  cases hotword.words with
  | nil => simp [addWords]
  | cons word words =>
    cases words with
    | nil => simp [addWords, Fst.addArc, pathStates]
    | cons next words =>
      have rest := @addWords_path _ _ config hotword.score
        ((start ++ [⟨word.id, wordScore config hotword.score 0 word, inner.length + 1⟩]) :: inner) 1
        Nat.one_pos (wordScore config hotword.score 0 word) next words
      rw [List.length_cons] at rest
      have added : addWords config hotword.score ⟨start :: inner⟩ 0 0 0 (word :: next :: words) =
          addWords config hotword.score
            ⟨((start ++ [⟨word.id, wordScore config hotword.score 0 word, inner.length + 1⟩]) :: inner)
              ++ [[]]⟩ 1 (inner.length + 1) (wordScore config hotword.score 0 word)
            (next :: words) := by
        rw [addWords]
        simp [Fst.addState, Fst.addArc]
      rw [added, rest]
      simp

/-! ## Reading the graph -/

/-- The states of `graph` from `state` on that lead through the words to state 0. -/
def Leads (config : ContextConfig K) (graph : ContextGraph K) (score : K) :
    Nat → Nat → K → List Word → Prop
  | state, _, _, [] => state = 0
  | state, i, escapeScore, word :: words =>
    state ≠ 0 ∧ ∃ nextState,
      graph.arcs state =
        [⟨word.id, wordScore config score i word, nextState⟩, ⟨0, -escapeScore, 0⟩] ∧
      Leads config graph score nextState (i + 1) (escapeScore + wordScore config score i word) words

/-- The arc of state 0 that begins a hotword. -/
def Begins (config : ContextConfig K) (graph : ContextGraph K) (hotword : Compiled K)
    (arc : Arc K) : Prop :=
  ∃ word words, hotword.words = word :: words ∧ arc.ilabel = word.id ∧
    arc.weight = wordScore config hotword.score 0 word ∧
    Leads config graph hotword.score arc.nextstate 1 arc.weight words

/-- The hotwords are the paths of the graph. -/
structure Paths (config : ContextConfig K) (hotwords : List (Compiled K)) (graph : ContextGraph K) :
    Prop where
  begins : List.Forall₂ (Begins config graph) (hotwords.filter (·.words ≠ [])) (graph.arcs 0)
  final : ∀ state, graph.final state = true ↔ state = 0

theorem leads_of_states {graph : ContextGraph K} {score : K} {position i : Nat} {escapeScore : K}
    {words : List Word} (later : 0 < position)
    (read : ∀ k arcs, (pathStates config score position i escapeScore words)[k]? = some arcs →
      graph.arcs (position + k) = arcs) :
    Leads config graph score (if words ≠ [] then position else 0) i escapeScore words := by
  induction words generalizing position i escapeScore with
  | nil => rfl
  | cons word words inductionHypothesis =>
    rw [if_pos (List.cons_ne_nil _ _)]
    refine ⟨later.ne', if words ≠ [] then position + 1 else 0, read 0 _ rfl, ?_⟩
    refine inductionHypothesis (Nat.succ_pos position) fun k arcs found => ?_
    have shifted := read (k + 1) arcs (by simpa [pathStates] using found)
    rwa [← add_assoc, add_right_comm] at shifted

/-- The states behind state 0, one hotword after the other. -/
def innerStates (config : ContextConfig K) : List (List (Arc K)) → List (Compiled K) →
    List (List (Arc K))
  | inner, [] => inner
  | inner, hotword :: hotwords =>
    innerStates config (inner ++ tailStates config (inner.length + 1) hotword) hotwords

def startArcs (config : ContextConfig K) : List (List (Arc K)) → List (Compiled K) → List (Arc K)
  | _, [] => []
  | inner, hotword :: hotwords => startArc config (inner.length + 1) hotword ++
      startArcs config (inner ++ tailStates config (inner.length + 1) hotword) hotwords

theorem foldl_addCompiled (hotwords : List (Compiled K)) (start : List (Arc K))
    (inner : List (List (Arc K))) :
    hotwords.foldl (addCompiled config) ⟨start :: inner⟩ =
      ⟨(start ++ startArcs config inner hotwords) :: innerStates config inner hotwords⟩ := by
  induction hotwords generalizing start inner with
  | nil => simp [startArcs, innerStates]
  | cons hotword hotwords inductionHypothesis =>
    rw [List.foldl_cons, addCompiled_eq, inductionHypothesis, List.append_assoc]
    rfl

/-- A later hotword leaves the states before it alone. -/
theorem innerStates_kept (inner : List (List (Arc K))) (hotwords : List (Compiled K)) :
    inner <+: innerStates config inner hotwords := by
  induction hotwords generalizing inner with
  | nil => exact List.prefix_refl _
  | cons hotword hotwords inductionHypothesis =>
    exact (List.prefix_append _ _).trans (inductionHypothesis _)

theorem begins_of_build {graph : ContextGraph K} (hotwords : List (Compiled K))
    (inner : List (List (Arc K)))
    (read : ∀ k arcs, (innerStates config inner hotwords)[k]? = some arcs → graph.arcs (k + 1) = arcs) :
    List.Forall₂ (Begins config graph) (hotwords.filter (·.words ≠ []))
      (startArcs config inner hotwords) := by
  induction hotwords generalizing inner with
  | nil => exact List.Forall₂.nil
  | cons hotword hotwords inductionHypothesis =>
    have rest := inductionHypothesis (inner ++ tailStates config (inner.length + 1) hotword) read
    rw [startArcs]
    -- A hotword without words has no arc.
    cases same : hotword.words with
    | nil => simpa [startArc, same] using rest
    | cons word words =>
      have kept : (hotword :: hotwords).filter (·.words ≠ []) =
          hotword :: hotwords.filter (·.words ≠ []) := List.filter_cons_of_pos (by simp [same])
      rw [kept, startArc, same, List.singleton_append]
      refine List.Forall₂.cons ⟨word, words, same, rfl, rfl, ?_⟩ rest
      refine leads_of_states (Nat.succ_pos _) fun k arcs found => ?_
      have states := (List.prefix_iff_getElem?.mp (@innerStates_kept _ _ config
        (inner ++ tailStates config (inner.length + 1) hotword) hotwords))
      have inside : (inner ++ tailStates config (inner.length + 1) hotword)[inner.length + k]? =
          some arcs := by
        rw [List.getElem?_append_right (by omega), Nat.add_sub_cancel_left, tailStates, same]
        exact found
      obtain ⟨bound, value⟩ := List.getElem?_eq_some_iff.mp inside
      have reached := read (inner.length + k) arcs (by rw [innerStates, states _ bound, value])
      rwa [add_right_comm] at reached

/-- The graph of a list of hotwords is their paths. -/
theorem paths_of_build (hotwords : List (Compiled K)) :
    Paths config hotwords (hotwords.foldl (addCompiled config) ⟨[[]]⟩).toContextGraph where
  begins := by
    rw [foldl_addCompiled]
    exact begins_of_build hotwords [] fun k arcs found => by simp [Fst.toContextGraph, found]
  final := by simp [Fst.toContextGraph]

end Asr2Pass.Ctc
