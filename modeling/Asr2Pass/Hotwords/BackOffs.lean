import Asr2Pass.Hotwords.PrefixTree

/-! # The states that `BuildGraph` backs off to

The search is breadth first, so the back-offs of all shorter states are known when a state is
linked, and every state backs off to its longest proper end in the tree.
-/

namespace Asr2Pass.Hotwords

open Library (backOff longest longest_of_accepts longest_backOff_append length_backOff_lt
  longest_eq_nil accepts_longest)

variable {R : Type*}

namespace SplitIds

variable {lm : SplitIds R} {state : State} {label : Int}

/-- The longest proper end of the state in the tree. -/
abbrev fail (lm : SplitIds R) (state : State) : State := backOff lm.IsState state

theorem isState_fail (lm : SplitIds R) (state : State) : lm.IsState (lm.fail state) :=
  accepts_longest isState_root _

/-! ## The search for the back-off -/

/-- With the back-offs of the shorter states, the climb ends at the longest end. -/
theorem climb_eq {nodes : State → Node R} {bound : Nat}
    (known : ∀ state, lm.IsState state → state ≠ .root → state.length < bound →
      (nodes state).backOff = some (lm.fail state))
    {fuel : Nat} {temp : State} (isState : lm.IsState temp) (short : temp.length < bound)
    (enough : temp.length < fuel) :
    lm.climb nodes label fuel temp = some (longest lm.IsState (temp ++ [label])) := by
  induction fuel generalizing temp with
  | zero => omega
  | succ fuel inductionHypothesis =>
    rw [climb]
    by_cases child : lm.IsState (temp ++ [label])
    · rw [find_of_isState child, longest_of_accepts child]
    · rw [find_of_not_isState child]
      by_cases root : temp = .root
      · have nothing : longest lm.IsState (State.root ++ [label]) = State.root := by
          rw [root] at child
          exact if_neg child
        simp only [root, if_true, nothing]
      · have shorter : (lm.fail temp).length < temp.length := length_backOff_lt root
        simp only [if_neg root, known temp isState root short, Option.bind_some]
        rw [inductionHypothesis (isState_fail lm temp) (by omega) (by omega),
          longest_backOff_append isState_of_append root child]

/-! ## The number of states -/

/-- All labels of all hotwords together bound the number of states. -/
theorem length_le_of_states {states : List State} (nodup : states.Nodup)
    (isState : ∀ state ∈ states, lm.IsState state ∧ state ≠ .root) :
    states.length ≤ (lm.hotwords.map (·.labels.length)).sum := by
  have inside : states ⊆ lm.hotwords.flatMap fun hotword => hotword.labels.inits.tail := by
    intro state member
    obtain ⟨root | ⟨hotword, isHotword, part⟩, nonempty⟩ := isState state member
    · exact absurd root nonempty
    · refine List.mem_flatMap.mpr ⟨hotword, isHotword, ?_⟩
      have isInit := (List.mem_inits _ _).mpr part
      cases labels : hotword.labels with
      | nil => exact absurd (List.prefix_nil.mp (labels ▸ part)) nonempty
      | cons label rest =>
        rw [labels, List.inits_cons] at isInit
        rw [List.inits_cons, List.tail_cons]
        cases isInit with
        | head => exact absurd rfl nonempty
        | tail _ later => exact later
  have bound := (List.subperm_of_subset nodup inside).length_le
  rw [List.length_flatMap] at bound
  simpa [List.length_tail, List.length_inits] using bound

/-! ## One link -/

variable [Field R] [LinearOrder R]

/-- The arc of label 0 that a state should get: nothing is taken back from a final state. -/
def failArc (lm : SplitIds R) (state : State) : Arc R where
  ilabel := 0
  weight :=
    if (lm.final state).isSome then 0
    else lm.increBias * (lm.fail state).length - lm.increBias * state.length
  nextstate := lm.fail state

/-- What holds when exactly the states of the list have been linked. -/
structure Linked (lm : SplitIds R) (reached : List State) (graph : Graph R) : Prop where
  scores : ∀ state, lm.IsState state → (graph.nodes state).score = (lm.node state).score
  finals : ∀ state, lm.IsState state → (graph.nodes state).isFinal = (lm.node state).isFinal
  backOffs : ∀ state ∈ reached, (graph.nodes state).backOff = some (lm.fail state)
  zeroArcs : ∀ state ∈ reached, graph.zeroArc state = some (lm.failArc state)
  fresh : ∀ state, state ∉ reached → graph.zeroArc state = none
  states : ∀ state ∈ reached, lm.IsState state ∧ state ≠ .root
  nodup : reached.Nodup

theorem Linked.link {reached : List State} {graph : Graph R} (linked : lm.Linked reached graph)
    {next : State} (isState : lm.IsState next) (nonempty : next ≠ .root) (new : next ∉ reached) :
    lm.Linked (reached ++ [next]) (graph.link next (lm.fail next)) where
  scores state isState' := by
    by_cases same : state = next
    · simp [Graph.link, same, linked.scores next isState]
    · simp [Graph.link, same, linked.scores state isState']
  finals state isState' := by
    by_cases same : state = next
    · simp [Graph.link, same, linked.finals next isState]
    · simp [Graph.link, same, linked.finals state isState']
  backOffs state member := by
    by_cases same : state = next
    · simp [Graph.link, same]
    · have before : state ∈ reached := by simpa [same] using member
      simp [Graph.link, same, linked.backOffs state before]
  zeroArcs state member := by
    by_cases same : state = next
    · have failScore := linked.scores (lm.fail next) (isState_fail lm next)
      simp [Graph.link, same, failArc, linked.finals next isState, linked.scores next isState,
        failScore, node]
    · have before : state ∈ reached := by simpa [same] using member
      simp [Graph.link, same, linked.zeroArcs state before]
  fresh state absent := by
    simp only [List.mem_append, List.mem_singleton, not_or] at absent
    simp [Graph.link, absent.2, linked.fresh state absent.1]
  states state member := by
    simp only [List.mem_append, List.mem_singleton] at member
    cases member with
    | inl before => exact linked.states state before
    | inr same => exact same ▸ ⟨isState, nonempty⟩
  nodup := List.nodup_append.mpr ⟨linked.nodup, by simp, fun state before other same => by
    rw [List.mem_singleton] at same
    rintro rfl
    exact new (same ▸ before)⟩

/-! ## The arcs of a popped state -/

/-- The arc of a label. -/
def child (lm : SplitIds R) (state : State) (label : Int) : Arc R :=
  ⟨label, lm.increBias, state ++ [label]⟩

/-- The loop over the arcs of a popped state links its children, in their order. -/
theorem visit_children {reached : List State} {graph : Graph R} (linked : lm.Linked reached graph)
    (member : state ∈ reached)
    (known : ∀ other, lm.IsState other → other ≠ .root → other.length < state.length →
      other ∈ reached) (further : List (Arc R)) {labels : List Int} (nodup : labels.Nodup)
    (new : ∀ label ∈ labels, lm.IsState (state ++ [label]) ∧ state ++ [label] ∉ reached) :
    ∃ graph', lm.visit state (labels.map (lm.child state) ++ further) graph =
        lm.visit state further graph' ∧
      lm.Linked (reached ++ labels.map (state ++ [·])) graph' ∧
      graph'.queue = graph.queue ++ labels.map (state ++ [·]) := by
  induction labels generalizing reached graph with
  | nil => exact ⟨graph, rfl, by simpa using linked, by simp⟩
  | cons label rest inductionHypothesis =>
    have isNew := new label (by simp)
    have nonempty := (linked.states state member).2
    have shorter : (lm.fail state).length < state.length := length_backOff_lt nonempty
    have notRoot : state ++ [label] ≠ .root := by simp
    have notBack : state ++ [label] ≠ lm.fail state := by
      intro same
      have := congrArg List.length same
      rw [List.length_append, List.length_singleton] at this
      omega
    -- the climb only meets states that are shorter than the popped one
    have climbed : lm.climb graph.nodes label ((lm.fail state).length + 1) (lm.fail state) =
        some (lm.fail (state ++ [label])) := by
      rw [climb_eq (fun other isState root short =>
        linked.backOffs other (known other isState root short)) (isState_fail lm state) shorter
        (by omega), fail, backOff, Library.longest_append isState_of_append, fail, backOff,
        List.tail_append_of_ne_nil nonempty]
    have next := linked.link isNew.1 notRoot isNew.2
    obtain ⟨graph', visited, linked', queued⟩ := inductionHypothesis next
      (by simp [member]) (fun other isState root short => by
        simp [known other isState root short]) (List.nodup_cons.mp nodup).2
      (fun other inside => ⟨(new other (by simp [inside])).1, by
        have different : other ≠ label := fun same => (List.nodup_cons.mp nodup).1 (same ▸ inside)
        simp [(new other (by simp [inside])).2, different]⟩)
    refine ⟨graph', ?_, by simpa using linked', by simpa [Graph.link] using queued⟩
    rw [List.map_cons, List.cons_append, visit, linked.backOffs state member, Option.bind_some,
      if_neg (by simp [child, notBack])]
    simpa only [child, climbed, Option.bind_some] using visited

/-! ## Breadth first -/

/-- The states that have been popped, and what holds of them and of the queue. -/
structure Searched (lm : SplitIds R) (popped : List State) (graph : Graph R) : Prop where
  linked : lm.Linked (popped ++ graph.queue) graph
  starts : ∀ label, lm.IsState [label] → [label] ∈ popped ++ graph.queue
  children : ∀ state ∈ popped, ∀ label, lm.IsState (state ++ [label]) →
    state ++ [label] ∈ popped ++ graph.queue
  parents : ∀ state ∈ popped ++ graph.queue, ∀ parent label, state = parent ++ [label] →
    parent = State.root ∨ parent ∈ popped
  ordered : graph.queue.Pairwise fun first second =>
    first.length ≤ second.length ∧ second.length ≤ first.length + 1

/-- Every state that is not longer than those of the queue has been reached. -/
theorem Searched.reaches {popped : List State} {graph : Graph R} (searched : lm.Searched popped graph)
    (isState : lm.IsState state) (nonempty : state ≠ .root)
    (short : ∀ queued ∈ graph.queue, state.length ≤ queued.length) :
    state ∈ popped ++ graph.queue := by
  induction state using List.reverseRecOn with
  | nil => exact absurd rfl nonempty
  | append_singleton parent label inductionHypothesis =>
    by_cases root : parent = State.root
    · rw [root] at isState ⊢
      exact searched.starts label isState
    · have shorter : ∀ queued ∈ graph.queue, parent.length < queued.length := by
        intro queued member
        have := short queued member
        rw [List.length_append, List.length_singleton] at this
        omega
      have reached := inductionHypothesis (isState_of_append _ _ isState) root
        fun queued member => (shorter queued member).le
      cases List.mem_append.mp reached with
      | inl done => exact searched.children parent done label isState
      | inr waits => exact absurd (shorter parent waits) (Nat.lt_irrefl _)

/-- One turn of the `while` loop. -/
theorem Searched.step {popped rest : List State} {graph : Graph R}
    (searched : lm.Searched popped graph) (queued : graph.queue = state :: rest) :
    ∃ graph', lm.visit state (lm.arcs state ++ (graph.zeroArc state).toList)
        { graph with queue := rest } = some graph' ∧ lm.Searched (popped ++ [state]) graph' := by
  have member : state ∈ popped ++ graph.queue := by simp [queued]
  have ordered := List.pairwise_cons.mp (queued ▸ searched.ordered)
  have linked : lm.Linked (popped ++ graph.queue) { graph with queue := rest } :=
    { searched.linked with }
  -- shorter states are not in the queue any more, and so they have been popped
  have known : ∀ other, lm.IsState other → other ≠ .root → other.length < state.length →
      other ∈ popped ++ graph.queue := by
    intro other isState nonempty short
    apply searched.reaches isState nonempty
    intro waiting inQueue
    rw [queued] at inQueue
    cases inQueue with
    | head => exact short.le
    | tail _ later => exact short.le.trans (ordered.1 waiting later).1
  have new : ∀ label ∈ lm.labels state,
      lm.IsState (state ++ [label]) ∧ state ++ [label] ∉ popped ++ graph.queue := by
    intro label isLabel
    refine ⟨mem_labels.mp isLabel, fun reached => ?_⟩
    have nodup := searched.linked.nodup
    rw [queued, List.nodup_append] at nodup
    cases searched.parents _ reached state label rfl with
    | inl root => exact (linked.states state member).2 root
    | inr done => exact nodup.2.2 state done state (by simp) rfl
  obtain ⟨graph', visited, linked', queued'⟩ :=
    visit_children linked member known (graph.zeroArc state).toList nodup_labels new
  refine ⟨graph', ?_, ?_⟩
  · rw [show lm.arcs state = (lm.labels state).map (lm.child state) from rfl, visited,
      searched.linked.zeroArcs state member, Option.toList_some, visit,
      linked'.backOffs state (List.mem_append_left _ member), Option.bind_some, if_pos (.inr rfl)]
    rfl
  · have reached : popped ++ [state] ++ graph'.queue =
        popped ++ graph.queue ++ (lm.labels state).map (state ++ [·]) := by
      rw [queued', queued]
      simp
    refine ⟨by rw [reached]; exact linked', fun label isState => ?_, fun other done label isState => ?_,
      fun other inside parent label same => ?_, ?_⟩
    · rw [reached]
      exact List.mem_append_left _ (searched.starts label isState)
    · rw [reached]
      cases List.mem_append.mp done with
      | inl before => exact List.mem_append_left _ (searched.children other before label isState)
      | inr now =>
        rw [List.mem_singleton] at now
        rw [now] at isState ⊢
        exact List.mem_append_right _ (List.mem_map.mpr ⟨label, mem_labels.mpr isState, rfl⟩)
    · rw [reached] at inside
      cases List.mem_append.mp inside with
      | inl before =>
        exact (searched.parents other before parent label same).imp_right (List.mem_append_left _)
      | inr now =>
        obtain ⟨other', _, rfl⟩ := List.mem_map.mp now
        have : parent = state := (List.append_inj_left' same rfl).symm
        exact .inr (by simp [this])
    · rw [queued', List.pairwise_append]
      refine ⟨ordered.2, ?_, ?_⟩
      · rw [List.pairwise_map]
        exact List.pairwise_of_forall (by simp)
      · intro waiting inQueue child isChild
        obtain ⟨label, _, rfl⟩ := List.mem_map.mp isChild
        have := ordered.1 waiting inQueue
        rw [List.length_append, List.length_singleton]
        omega

/-! ## The whole graph -/

/-- The loop over the arcs of the root. -/
theorem link_children {reached : List State} {graph : Graph R} (linked : lm.Linked reached graph)
    {labels : List Int} (nodup : labels.Nodup)
    (new : ∀ label ∈ labels, lm.IsState [label] ∧ [label] ∉ reached) :
    let graph' := (labels.map (lm.child .root)).foldl
      (fun graph arc => graph.link arc.nextstate .root) graph
    lm.Linked (reached ++ labels.map fun label => [label]) graph' ∧
      graph'.queue = graph.queue ++ labels.map fun label => [label] := by
  induction labels generalizing reached graph with
  | nil => exact ⟨by simpa using linked, by simp⟩
  | cons label rest inductionHypothesis =>
    have isNew := new label (by simp)
    have next := linked.link isNew.1 (List.cons_ne_nil label []) isNew.2
    obtain ⟨linked', queued⟩ := inductionHypothesis next (List.nodup_cons.mp nodup).2
      fun other inside => ⟨(new other (by simp [inside])).1, by
        have different : other ≠ label := fun same => (List.nodup_cons.mp nodup).1 (same ▸ inside)
        simp [(new other (by simp [inside])).2, different]⟩
    simp only [List.map_cons, List.foldl_cons]
    rw [List.append_cons reached, List.append_cons graph.queue]
    exact ⟨linked', queued⟩

theorem searched_linkRoot : lm.Searched [] lm.linkRoot := by
  have start : lm.Linked [] ⟨lm.marked, fun _ => none, []⟩ :=
    { scores := fun state isState => congrArg Node.score (marked_eq isState)
      finals := fun state isState => congrArg Node.isFinal (marked_eq isState)
      backOffs := fun state member => by cases member
      zeroArcs := fun state member => by cases member
      fresh := fun _ _ => rfl
      states := fun state member => by cases member
      nodup := List.nodup_nil }
  -- The children of the root are linked first; each of them backs off to the root.
  obtain ⟨linked, queued⟩ := link_children start (@nodup_labels R lm .root)
    fun label member => ⟨mem_labels.mp member, List.not_mem_nil⟩
  have queue : lm.linkRoot.queue = (lm.labels .root).map fun label => [label] := queued
  constructor
  case linked =>
    rw [List.nil_append, queue]
    exact linked
  case starts =>
    intro label isState
    rw [List.nil_append, queue]
    exact List.mem_map_of_mem (mem_labels.mpr isState)
  case children => intro state member; cases member
  case parents =>
    intro state member parent label same
    rw [List.nil_append, queue] at member
    obtain ⟨other, _, rfl⟩ := List.mem_map.mp member
    have split : [] ++ [other] = parent ++ [label] := same
    exact .inl (List.append_inj_left' split rfl).symm
  case ordered =>
    rw [queue, List.pairwise_map]
    exact List.pairwise_of_forall (by simp)

/-- The fuel is enough: every turn pops another state. -/
theorem search_returns {fuel : Nat} {popped : List State} {graph : Graph R}
    (searched : lm.Searched popped graph)
    (enough : (lm.hotwords.map (·.labels.length)).sum < popped.length + fuel) :
    ∃ graph' popped', lm.search fuel graph = some graph' ∧ lm.Searched popped' graph' ∧
      graph'.queue = [] := by
  induction fuel generalizing popped graph with
  | zero =>
    have bound := length_le_of_states searched.linked.nodup searched.linked.states
    rw [List.length_append] at bound
    omega
  | succ fuel inductionHypothesis =>
    rw [search]
    cases queued : graph.queue with
    | nil => exact ⟨graph, popped, rfl, searched, queued⟩
    | cons state rest =>
      obtain ⟨next, visited, searched'⟩ := searched.step queued
      obtain ⟨graph', popped', returns⟩ := inductionHypothesis searched' (by simp; omega)
      exact ⟨graph', popped', by simpa [visited] using returns⟩

/-- What the walk reads of the graph. -/
structure Built (lm : SplitIds R) (graph : Graph R) : Prop where
  finals : ∀ state, lm.IsState state → (graph.nodes state).isFinal = (lm.final state).isSome
  zeroArcs : ∀ state, lm.IsState state → state ≠ .root →
    graph.zeroArc state = some (lm.failArc state)
  rootArc : graph.zeroArc .root = none

/-- `BuildGraph` ends with all states searched. -/
theorem buildGraph_searched (lm : SplitIds R) :
    ∃ graph popped, lm.buildGraph = some graph ∧ lm.Searched popped graph ∧ graph.queue = [] :=
  search_returns searched_linkRoot (Nat.lt_add_left _ (Nat.lt_succ_self _))

/-- When the queue is empty every state has been linked. -/
theorem Searched.popped {popped : List State} {graph : Graph R} (searched : lm.Searched popped graph)
    (emptied : graph.queue = []) (isState : lm.IsState state) (nonempty : state ≠ .root) :
    state ∈ popped ++ graph.queue :=
  searched.reaches isState nonempty (by simp [emptied])

theorem Searched.backOff {popped : List State} {graph : Graph R} (searched : lm.Searched popped graph)
    (emptied : graph.queue = []) (isState : lm.IsState state) (nonempty : state ≠ .root) :
    (graph.nodes state).backOff = some (lm.fail state) :=
  searched.linked.backOffs state (searched.popped emptied isState nonempty)

theorem Searched.built {popped : List State} {graph : Graph R} (searched : lm.Searched popped graph)
    (emptied : graph.queue = []) : lm.Built graph where
  finals := searched.linked.finals
  zeroArcs state isState nonempty :=
    searched.linked.zeroArcs state (searched.popped emptied isState nonempty)
  rootArc := searched.linked.fresh .root fun member => (searched.linked.states _ member).2 rfl

/-- `BuildGraph` ends, and its arcs of label 0 are those of the automaton. -/
theorem buildGraph_built (lm : SplitIds R) : ∃ graph, lm.buildGraph = some graph ∧ lm.Built graph := by
  obtain ⟨graph, popped, returns, searched, emptied⟩ := buildGraph_searched lm
  exact ⟨graph, returns, searched.built emptied⟩

end SplitIds

end Asr2Pass.Hotwords
