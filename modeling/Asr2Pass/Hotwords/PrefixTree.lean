import Asr2Pass.Hotwords.BiasLm
import Mathlib.Tactic.Ring

/-! # What the matcher finds in the prefix tree, and what the nodes are marked with -/

namespace Asr2Pass.Hotwords

variable {R : Type*}

namespace SplitIds

variable {lm : SplitIds R} {state : State} {label : Int}

/-! ## States and arcs -/

@[simp] theorem isState_root : lm.IsState .root := .inl rfl

theorem isState_of_append (first second : List Int) (isState : lm.IsState (first ++ second)) :
    lm.IsState first := by
  cases isState with
  | inl empty => exact .inl (List.append_eq_nil_iff.mp empty).1
  | inr spelled =>
    obtain ⟨hotword, member, part⟩ := spelled
    exact .inr ⟨hotword, member, (List.prefix_append first second).trans part⟩

theorem isState_snoc :
    lm.IsState (state ++ [label]) ↔ ∃ hotword ∈ lm.hotwords, state ++ [label] <+: hotword.labels := by
  simp [IsState]

theorem labelAfter_eq_some {hotword : Hotword R} :
    labelAfter state hotword = some label ↔ state ++ [label] <+: hotword.labels := by
  rw [labelAfter]
  constructor
  · intro found
    split at found
    case isTrue part =>
      obtain ⟨rest, spelled⟩ := part
      rw [← spelled, List.drop_left] at found
      obtain ⟨further, starts⟩ := List.head?_eq_some_iff.mp found
      exact ⟨further, by rw [← spelled, starts]; simp⟩
    case isFalse => cases found
  · intro part
    obtain ⟨further, spelled⟩ := part
    rw [← spelled, List.append_assoc, if_pos (List.prefix_append _ _), List.drop_left]
    rfl

/-- The labels of the arcs of a state. -/
def labels (lm : SplitIds R) (state : State) : List Int :=
  (lm.hotwords.filterMap (labelAfter state)).dedup.insertionSort (· ≤ ·)

theorem mem_labels : label ∈ lm.labels state ↔ lm.IsState (state ++ [label]) := by
  simp [labels, isState_snoc, labelAfter_eq_some]

theorem nodup_labels : (lm.labels state).Nodup :=
  (List.perm_insertionSort _ _).nodup_iff.mpr (List.nodup_dedup _)

theorem find_eq_map : lm.find state label =
    ((lm.labels state).find? (· = label)).map fun label =>
      ⟨label, lm.increBias, state ++ [label]⟩ :=
  List.find?_map

theorem find_of_isState (isState : lm.IsState (state ++ [label])) :
    lm.find state label = some ⟨label, lm.increBias, state ++ [label]⟩ := by
  rw [find_eq_map]
  cases found : (lm.labels state).find? (· = label) with
  | none =>
    have absent := List.find?_eq_none.mp found label (mem_labels.mpr isState)
    simp at absent
  | some other =>
    have same : other = label := by simpa using List.find?_some found
    rw [same]
    rfl

theorem find_of_not_isState (isNot : ¬ lm.IsState (state ++ [label])) :
    lm.find state label = none := by
  rw [find_eq_map, Option.map_eq_none_iff, List.find?_eq_none]
  intro other member same
  have : other = label := by simpa using same
  exact isNot (mem_labels.mp (this ▸ member))

/-! ## Final weights -/

section

variable [LinearOrder R]

@[simp] theorem final_root : lm.final .root = none := by
  simp [final]

/-- A hotword of the least weight gives its state the final weight. -/
theorem final_eq_weight {hotword : Hotword R} (member : hotword ∈ lm.hotwords)
    (nonempty : hotword.labels ≠ [])
    (least : ∀ other ∈ lm.hotwords, other.labels = hotword.labels → hotword.weight ≤ other.weight) :
    lm.final hotword.labels = some hotword.weight := by
  rw [final, List.min?_eq_some_iff]
  constructor
  · exact List.mem_map_of_mem (List.mem_filter.mpr ⟨member, by simpa using nonempty⟩)
  · intro weight isWeight
    obtain ⟨other, kept, rfl⟩ := List.mem_map.mp isWeight
    obtain ⟨otherMember, same⟩ := List.mem_filter.mp kept
    exact least other otherMember (by simpa using (of_decide_eq_true same).2)

theorem final_nonneg [Zero R] (weights : ∀ hotword ∈ lm.hotwords, 0 ≤ hotword.weight) {weight : R}
    (isFinal : lm.final state = some weight) : 0 ≤ weight := by
  obtain ⟨hotword, kept, rfl⟩ := List.mem_map.mp (List.min?_mem isFinal)
  exact weights hotword (List.mem_filter.mp kept).1

end

/-! ## The marks -/

variable [Field R] [LinearOrder R]

/-- What a state is marked with. -/
def node (lm : SplitIds R) (state : State) : Node R :=
  ⟨lm.increBias * state.length, (lm.final state).isSome, none⟩

/-- A node has its marks or is as it was made. -/
def Sound (lm : SplitIds R) (nodes : State → Node R) : Prop :=
  ∀ state, nodes state = lm.node state ∨ nodes state = ⟨0, false, none⟩

theorem Sound.update {nodes : State → Node R} (sound : lm.Sound nodes) (next : State) :
    { nodes next with
      isFinal := (lm.final next).isSome || (nodes next).isFinal
      score := lm.increBias * next.length } = lm.node next := by
  cases sound next with
  | inl marked => simp [marked, node]
  | inr fresh => simp [fresh, node]

theorem sound_update {nodes : State → Node R} (sound : lm.Sound nodes) (next : State) :
    lm.Sound (Function.update nodes next (lm.node next)) := by
  intro state
  by_cases same : state = next
  · exact .inl (by rw [same, Function.update_self])
  · rw [Function.update_of_ne same]
    exact sound state

/-- One turn of the loop over the labels marks the next state. -/
theorem mark_cons {nodes : State → Node R} (sound : lm.Sound nodes) {rest : List Int}
    (isState : lm.IsState (state ++ [label])) :
    lm.mark state state.length (label :: rest) nodes =
      lm.mark (state ++ [label]) (state ++ [label]).length rest
        (Function.update nodes (state ++ [label]) (lm.node (state ++ [label]))) := by
  have marks := sound.update (state ++ [label])
  rw [List.length_append, List.length_singleton, Nat.cast_add, Nat.cast_one] at marks
  rw [mark, find_of_isState isState]
  simp only [marks, List.length_append, List.length_singleton]

theorem mark_sound {rest : List Int} {nodes : State → Node R} (sound : lm.Sound nodes)
    (isState : lm.IsState (state ++ rest)) :
    lm.Sound (lm.mark state state.length rest nodes) := by
  induction rest generalizing state nodes with
  | nil => exact sound
  | cons label rest inductionHypothesis =>
    rw [List.append_cons] at isState
    rw [mark_cons sound (isState_of_append _ _ isState)]
    exact inductionHypothesis (sound_update sound _) isState

/-- The states along the labels are marked, and marked states stay so. -/
theorem mark_marks {rest : List Int} {nodes : State → Node R} (sound : lm.Sound nodes)
    (isState : lm.IsState (state ++ rest)) {other : State}
    (marked : nodes other = lm.node other ∨ state <+: other ∧ other ≠ state ∧ other <+: state ++ rest) :
    lm.mark state state.length rest nodes other = lm.node other := by
  induction rest generalizing state nodes with
  | nil =>
    cases marked with
    | inl marked => exact marked
    | inr between =>
      rw [List.append_nil] at between
      exact absurd (between.2.2.eq_of_length_le between.1.length_le) between.2.1
  | cons label rest inductionHypothesis =>
    rw [List.append_cons] at isState marked
    rw [mark_cons sound (isState_of_append _ _ isState)]
    apply inductionHypothesis (sound_update sound _) isState
    by_cases next : other = state ++ [label]
    · exact .inl (by rw [next, Function.update_self])
    · rw [Function.update_of_ne next]
      refine marked.imp id fun between => ⟨?_, next, between.2.2⟩
      -- both start the same word, and the other state is the longer one
      apply List.prefix_of_prefix_length_le (List.prefix_append _ _) between.2.2
      have longer := between.1.length_le
      have differs : state.length ≠ other.length :=
        fun same => between.2.1 (between.1.eq_of_length same).symm
      rw [List.length_append, List.length_singleton]
      omega

theorem foldl_mark_marks (hotwords : List (Hotword R))
    (inside : ∀ hotword ∈ hotwords, hotword ∈ lm.hotwords) {nodes : State → Node R} (sound : lm.Sound nodes) :
    let after := hotwords.foldl (fun nodes hotword => lm.mark .root 0 hotword.labels nodes) nodes
    lm.Sound after ∧ ∀ state, (nodes state = lm.node state ∨
      state ≠ .root ∧ ∃ hotword ∈ hotwords, state <+: hotword.labels) →
        after state = lm.node state := by
  induction hotwords generalizing nodes with
  | nil =>
    refine ⟨sound, fun state marked => ?_⟩
    simpa using marked
  | cons hotword rest inductionHypothesis =>
    have isState : lm.IsState (.root ++ hotword.labels) :=
      .inr ⟨hotword, inside hotword (by simp), List.prefix_rfl⟩
    have further := inductionHypothesis (fun other member => inside other (by simp [member]))
      (mark_sound sound isState)
    refine ⟨further.1, fun state marked => further.2 state ?_⟩
    rcases marked with marked | ⟨nonempty, spelling, member, part⟩
    · exact .inl (mark_marks sound isState (.inl marked))
    · cases member with
      | head => exact .inl (mark_marks sound isState (.inr ⟨List.nil_prefix, nonempty, part⟩))
      | tail _ member => exact .inr ⟨nonempty, spelling, member, part⟩

/-- After the loop every state has its marks. -/
theorem marked_eq (isState : lm.IsState state) : lm.marked state = lm.node state := by
  have start : lm.Sound fun _ => ⟨0, false, none⟩ := fun _ => .inr rfl
  apply (foldl_mark_marks lm.hotwords (fun _ member => member) start).2
  cases isState with
  | inl root => exact .inl (by simp [root, node])
  | inr spelled =>
    by_cases root : state = .root
    · exact .inl (by simp [root, node])
    · exact .inr ⟨root, spelled⟩

end SplitIds

end Asr2Pass.Hotwords
