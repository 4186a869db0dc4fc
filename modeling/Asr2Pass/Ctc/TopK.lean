import Mathlib.Data.List.Sort
import Mathlib.Order.Basic

/-! # `TopK`

The first beam: the `k` largest entries of a frame with their positions, best first.  A priority
queue holds the best so far, its worst entry on top.
-/

namespace Asr2Pass.Ctc

variable {K : Type*} [LinearOrder K]

/-- `ValueComp`: the larger value, and the smaller position of two equal values, counts as less. -/
def ValueComp (lhs rhs : K × Nat) : Prop :=
  rhs.1 < lhs.1 ∨ lhs.1 = rhs.1 ∧ lhs.2 < rhs.2

instance (lhs rhs : K × Nat) : Decidable (ValueComp lhs rhs) :=
  inferInstanceAs (Decidable (_ ∨ _))

/-- The queue is kept in the order in which it is emptied: the greatest under `ValueComp` first. -/
def push (queue : List (K × Nat)) (item : K × Nat) : List (K × Nat) :=
  queue.orderedInsert (fun one other => ValueComp other one) item

/-- One turn of the loop over the entries after the first `k`; none for the top of an empty
    queue. -/
def replaceTop (queue : List (K × Nat)) (item : K × Nat) : Option (List (K × Nat)) :=
  match queue with
  | [] => none
  | top :: others => some (if top.1 < item.1 then push others item else queue)

/-- `TopK`: values and positions, filled in from the back as the queue is emptied. -/
def topK (data : List K) (k : Nat) : Option (List (K × Nat)) :=
  (((data.zipIdx.drop k).foldlM replaceTop ((data.zipIdx.take k).foldl push []))).map List.reverse

/-! ## What is selected -/

theorem push_perm (queue : List (K × Nat)) (item : K × Nat) :
    (push queue item).Perm (item :: queue) :=
  List.perm_orderedInsert _ _ _

theorem foldl_push_perm (items queue : List (K × Nat)) :
    (items.foldl push queue).Perm (items ++ queue) := by
  induction items generalizing queue with
  | nil => exact List.Perm.refl queue
  | cons item rest inductionHypothesis =>
    have later := inductionHypothesis (push queue item)
    have here := (push_perm queue item).append_left rest
    exact (later.trans here).trans List.perm_middle

/-- One turn keeps the size of the queue, and takes at most the new entry. -/
theorem replaceTop_cons {top : K × Nat} {others seen : List (K × Nat)} (item : K × Nat)
    (selected : (top :: others).Subperm seen) :
    ∃ queue, replaceTop (top :: others) item = some queue ∧
      queue.length = others.length + 1 ∧ queue.Subperm (seen ++ [item]) := by
  by_cases larger : top.1 < item.1
  · refine ⟨push others item, by simp [replaceTop, larger], (push_perm others item).length_eq, ?_⟩
    have fewer : (item :: others).Subperm (item :: seen) :=
      (List.subperm_cons item).mpr ((List.sublist_cons_self top others).subperm.trans selected)
    have moved : (item :: seen).Perm (seen ++ [item]) := (List.perm_append_singleton item seen).symm
    exact (push_perm others item).subperm.trans (fewer.trans moved.subperm)
  · refine ⟨top :: others, by simp [replaceTop, larger], rfl, ?_⟩
    exact selected.trans (List.sublist_append_left seen [item]).subperm

theorem foldlM_replaceTop {items queue seen : List (K × Nat)} (nonempty : queue ≠ [])
    (selected : queue.Subperm seen) :
    ∃ last, items.foldlM replaceTop queue = some last ∧ last.length = queue.length ∧
      last.Subperm (seen ++ items) := by
  induction items generalizing queue seen with
  | nil => exact ⟨queue, rfl, rfl, by simpa using selected⟩
  | cons item rest inductionHypothesis =>
    cases queue with
    | nil => exact absurd rfl nonempty
    | cons top others =>
      obtain ⟨next, stepped, size, selected⟩ := replaceTop_cons item selected
      have nonempty : next ≠ [] := by
        intro empty
        simp [empty] at size
      obtain ⟨last, ran, lastSize, selected⟩ := inductionHypothesis nonempty selected
      refine ⟨last, ?_, by simp [lastSize, size], by simpa using selected⟩
      simp [List.foldlM_cons, stepped, ran]

theorem topK_some (data : List K) {k : Nat} (positive : 0 < k) :
    ∃ best, topK data k = some best ∧ best.length = min k data.length ∧
      best.Subperm data.zipIdx := by
  have filled := foldl_push_perm (data.zipIdx.take k) []
  rw [List.append_nil] at filled
  by_cases nothing : data = []
  · exact ⟨[], by simp [topK, nothing], by simp [nothing], by simp⟩
  · have nonempty : (data.zipIdx.take k).foldl push [] ≠ [] := by
      intro empty
      have size := filled.length_eq
      rw [empty, List.length_nil, List.length_take, List.length_zipIdx] at size
      have := List.length_pos_iff.mpr nothing
      omega
    obtain ⟨last, ran, size, selected⟩ :=
      @foldlM_replaceTop _ _ (data.zipIdx.drop k) _ _ nonempty filled.subperm
    refine ⟨last.reverse, by rw [topK, ran, Option.map_some], ?_, ?_⟩
    · rw [List.length_reverse, size, filled.length_eq, List.length_take, List.length_zipIdx]
    · rw [List.take_append_drop] at selected
      exact (List.reverse_perm last).subperm.trans selected

/-- The beam is part of the frame, entries with their own positions. -/
theorem topK_subperm {data : List K} {k : Nat} {best : List (K × Nat)}
    (selected : topK data k = some best) : best.Subperm data.zipIdx := by
  cases k with
  | zero =>
    cases data with
    | nil => simp_all [topK]
    | cons first rest => simp [topK, replaceTop] at selected
  | succ k =>
    obtain ⟨other, same, -, part⟩ := topK_some data (Nat.succ_pos k)
    cases selected.symm.trans same
    exact part

theorem topK_length_le {data : List K} {k : Nat} {best : List (K × Nat)}
    (selected : topK data k = some best) : best.length ≤ data.length := by
  rw [← @List.length_zipIdx _ data]
  exact (topK_subperm selected).length_le

theorem topK_getElem? {data : List K} {k : Nat} {best : List (K × Nat)}
    (selected : topK data k = some best) {item : K × Nat} (member : item ∈ best) :
    data[item.2]? = some item.1 :=
  List.mk_mem_zipIdx_iff_getElem?.mp ((topK_subperm selected).subset member)

/-- A beam as wide as the frame leaves nothing out. -/
theorem topK_perm {data : List K} {k : Nat} {best : List (K × Nat)}
    (selected : topK data k = some best) (wide : data.length ≤ k) : best.Perm data.zipIdx := by
  apply (topK_subperm selected).perm_of_length_le
  cases k with
  | zero => simp_all
  | succ k =>
    obtain ⟨other, same, size, -⟩ := topK_some data (Nat.succ_pos k)
    cases selected.symm.trans same
    simp [size, wide]

end Asr2Pass.Ctc
