import Mathlib.Algebra.BigOperators.Group.List.Basic
import Mathlib.Algebra.GroupWithZero.Nat

/-! # A list with things set between its entries

`Decorated form extra entries pieces` says that `pieces` show the entries in order, each once and in
one of its forms, and that whatever stands between them is an extra.
-/

namespace Asr2Pass.Library

variable {α β : Type*} {form : α → β → Prop} {extra : β → Prop}

inductive Decorated (form : α → β → Prop) (extra : β → Prop) : List α → List β → Prop where
  | nil : Decorated form extra [] []
  | entry {entry : α} {piece : β} {entries : List α} {pieces : List β} : form entry piece →
      Decorated form extra entries pieces → Decorated form extra (entry :: entries) (piece :: pieces)
  | extra {piece : β} {entries : List α} {pieces : List β} : extra piece →
      Decorated form extra entries pieces → Decorated form extra entries (piece :: pieces)

namespace Decorated

variable {entries : List α} {pieces : List β}

theorem append {entries' : List α} {pieces' : List β} (left : Decorated form extra entries pieces)
    (right : Decorated form extra entries' pieces') :
    Decorated form extra (entries ++ entries') (pieces ++ pieces') := by
  induction left with
  | nil => exact right
  | entry formed _ inductionHypothesis => exact .entry formed inductionHypothesis
  | extra between _ inductionHypothesis => exact .extra between inductionHypothesis

theorem snoc_extra {piece : β} (decorated : Decorated form extra entries pieces)
    (between : extra piece) : Decorated form extra entries (pieces ++ [piece]) := by
  have last := decorated.append (.extra between .nil)
  rwa [List.append_nil] at last

theorem flatten {groups : List (List α × List β)}
    (decorated : ∀ group ∈ groups, Decorated form extra group.1 group.2) :
    Decorated form extra (groups.flatMap Prod.fst) (groups.flatMap Prod.snd) := by
  induction groups with
  | nil => exact .nil
  | cons group groups inductionHypothesis =>
    obtain ⟨first, others⟩ := List.forall_mem_cons.mp decorated
    exact first.append (inductionHypothesis others)

/-- Entries and pieces add up to the same, when each piece weighs what the entry that it shows does and
    the extras weigh nothing. -/
theorem sum_map {weight : β → Nat} {weight' : α → Nat} (decorated : Decorated form extra entries pieces)
    (formed : ∀ entry ∈ entries, ∀ piece, form entry piece → weight piece = weight' entry)
    (silent : ∀ piece, extra piece → weight piece = 0) :
    (pieces.map weight).sum = (entries.map weight').sum := by
  induction decorated with
  | nil => rfl
  | entry form' _ inductionHypothesis =>
    obtain ⟨first, others⟩ := List.forall_mem_cons.mp formed
    rw [List.map_cons, List.sum_cons, List.map_cons, List.sum_cons, first _ form',
      inductionHypothesis others]
  | extra between _ inductionHypothesis =>
    rw [List.map_cons, List.sum_cons, silent _ between, Nat.zero_add, inductionHypothesis formed]

/-- A last piece that shows no entry is an extra, and can go. -/
theorem dropLast {piece : β} (decorated : Decorated form extra entries (pieces ++ [piece]))
    (none : ∀ entry ∈ entries, ¬ form entry piece) : Decorated form extra entries pieces := by
  generalize all : pieces ++ [piece] = whole at decorated
  induction decorated generalizing pieces with
  | nil => simp at all
  | @entry entry head entries rest formed _ inductionHypothesis =>
    obtain ⟨first, others⟩ := List.forall_mem_cons.mp none
    cases pieces with
    | nil =>
      cases all
      exact absurd formed first
    | cons head' pieces =>
      cases all
      exact .entry formed (inductionHypothesis others rfl)
  | @extra head entries rest between decorated inductionHypothesis =>
    cases pieces with
    | nil =>
      cases all
      exact decorated
    | cons head' pieces =>
      cases all
      exact .extra between (inductionHypothesis none rfl)

end Decorated

end Asr2Pass.Library
