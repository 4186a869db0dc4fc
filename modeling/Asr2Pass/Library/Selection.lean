import Mathlib.Data.List.Sort

/-! # Selection

A queue, worst entry first, against the entries seen that are not in it.  It stays the best of what
was seen if a new entry takes the place of the worst one, or is left out, as the two compare.
-/

namespace Asr2Pass.Library

variable {α : Type*} {better : α → α → Prop} {queue seen : List α} {item top : α}

/-- What is in the queue is better than what is not. -/
structure Selects (better : α → α → Prop) (queue seen : List α) : Prop where
  sorted : queue.Pairwise fun one other => better other one
  rest : ∃ out, (queue ++ out).Perm seen ∧ ∀ one ∈ queue, ∀ other ∈ out, better one other

theorem selects_nil : Selects better [] [] := ⟨List.Pairwise.nil, [], List.Perm.refl _, by simp⟩

/-- A new entry is put where it belongs in a queue of entries that compare with it. -/
theorem pairwise_orderedInsert [IsTrans α better] [DecidableRel better]
    (sorted : queue.Pairwise fun one other => better other one)
    (compare : ∀ one ∈ queue, better one item ∨ better item one) :
    (queue.orderedInsert (fun one other => better other one) item).Pairwise
      fun one other => better other one := by
  induction queue with
  | nil => simp
  | cons worst others inductionHypothesis =>
    obtain ⟨worse, sorted⟩ := List.pairwise_cons.mp sorted
    rw [List.orderedInsert_cons]
    split
    next first =>
      refine List.pairwise_cons.mpr ⟨?_, List.pairwise_cons.mpr ⟨worse, sorted⟩⟩
      intro other member
      rcases List.mem_cons.mp member with rfl | later
      · exact first
      · exact trans_of better (worse other later) first
    next notFirst =>
      have before : better item worst := (compare worst List.mem_cons_self).resolve_left notFirst
      refine List.pairwise_cons.mpr ⟨?_, inductionHypothesis sorted fun one member =>
        compare one (List.mem_cons_of_mem _ member)⟩
      intro other member
      rcases (List.mem_orderedInsert _).mp member with rfl | later
      · exact before
      · exact worse other later

section
variable [IsTrans α better] [DecidableRel better]

/-- As long as nothing has been left out, a new entry is added. -/
theorem Selects.insert (selects : Selects better queue seen) (all : queue.length = seen.length)
    (compare : ∀ one ∈ queue, better one item ∨ better item one) :
    Selects better (queue.orderedInsert (fun one other => better other one) item)
      (seen ++ [item]) := by
  obtain ⟨sorted, out, perm, -⟩ := selects
  have nothing : out = [] := by
    have sizes := perm.length_eq
    rw [List.length_append] at sizes
    exact List.eq_nil_of_length_eq_zero (by omega)
  rw [nothing, List.append_nil] at perm
  refine ⟨pairwise_orderedInsert sorted compare, [], ?_, by simp⟩
  rw [List.append_nil]
  have inserted := List.perm_orderedInsert (fun one other => better other one) item queue
  exact inserted.trans ((perm.cons item).trans (List.perm_append_singleton item seen).symm)

/-- A new entry better than the worst one takes its place. -/
theorem Selects.replace (selects : Selects better (top :: queue) seen) (larger : better item top)
    (compare : ∀ one ∈ queue, better one item ∨ better item one) :
    Selects better (queue.orderedInsert (fun one other => better other one) item)
      (seen ++ [item]) := by
  obtain ⟨sorted, out, perm, worse⟩ := selects
  obtain ⟨aboveTop, sorted⟩ := List.pairwise_cons.mp sorted
  refine ⟨pairwise_orderedInsert sorted compare, top :: out, ?_, ?_⟩
  · have inserted := List.perm_orderedInsert (fun one other => better other one) item queue
    have moved : (queue ++ top :: out).Perm seen := List.perm_middle.trans perm
    have added := (inserted.append_right (top :: out)).trans (moved.cons item)
    exact added.trans (List.perm_append_singleton item seen).symm
  · intro one inQueue other outside
    have overTop : better one top := by
      rcases (List.mem_orderedInsert _).mp inQueue with rfl | old
      · exact larger
      · exact aboveTop one old
    rcases List.mem_cons.mp outside with rfl | before
    · exact overTop
    · exact trans_of better overTop (worse top List.mem_cons_self other before)

omit [DecidableRel better] in
/-- A new entry worse than the worst one is left out. -/
theorem Selects.keep (selects : Selects better (top :: queue) seen) (smaller : better top item) :
    Selects better (top :: queue) (seen ++ [item]) := by
  obtain ⟨sorted, out, perm, worse⟩ := selects
  have aboveTop := (List.pairwise_cons.mp sorted).1
  refine ⟨sorted, item :: out, ?_, ?_⟩
  · have moved := List.perm_middle.trans (perm.cons item)
    exact moved.trans (List.perm_append_singleton item seen).symm
  · intro one inQueue other outside
    rcases List.mem_cons.mp outside with rfl | before
    · rcases List.mem_cons.mp inQueue with rfl | old
      · exact smaller
      · exact trans_of better (aboveTop one old) smaller
    · exact worse one inQueue other before

end

/-- The queue is the front of what was seen, once it is put in order. -/
theorem Selects.take_eq [Std.Asymm better] {best : List α} (selects : Selects better queue seen)
    (sorted : best.Pairwise better) (perm : best.Perm seen) :
    best.take queue.length = queue.reverse := by
  obtain ⟨worstFirst, out, parts, worse⟩ := selects
  have part : out.Subperm best :=
    (List.sublist_append_right queue out).subperm.trans (parts.trans perm.symm).subperm
  obtain ⟨out', same, sublist⟩ := part
  have inOrder : (queue.reverse ++ out').Pairwise better := by
    refine List.pairwise_append.mpr ⟨List.pairwise_reverse.mpr worstFirst, sorted.sublist sublist, ?_⟩
    intro one inQueue other outside
    exact worse one (List.mem_reverse.mp inQueue) other (same.mem_iff.mp outside)
  have all : best.Perm (queue.reverse ++ out') :=
    perm.trans (parts.symm.trans ((List.reverse_perm queue).symm.append same.symm))
  have whole := all.eq_of_pairwise
    (fun one other _ _ before after => absurd after (asymm_of better before)) sorted inOrder
  rw [whole, ← List.length_reverse, List.take_left]

end Asr2Pass.Library
