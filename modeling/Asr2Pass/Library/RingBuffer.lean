import Mathlib.Algebra.BigOperators.Group.List.Basic

/-! # Ring buffers

A list of slots and the position of the oldest one, which the next entry replaces.  Read from the
oldest slot on, the slots are the latest entries in the order of writing.
-/

namespace Asr2Pass.Library

variable {α : Type*} {slots written : List α} {position : Nat}

def oldestFirst (slots : List α) (position : Nat) : List α :=
  slots.drop position ++ slots.take position

/-- The slots hold the latest entries, and `position` the oldest of them. -/
structure Recent (slots : List α) (position : Nat) (written : List α) : Prop where
  inside : position < slots.length
  entries : oldestFirst slots position = written.drop (written.length - slots.length)

theorem length_oldestFirst (slots : List α) (position : Nat) :
    (oldestFirst slots position).length = slots.length := by
  rw [oldestFirst, List.length_append, List.length_drop, List.length_take]
  omega

theorem oldestFirst_eq_cons (inside : position < slots.length) :
    oldestFirst slots position =
      slots[position] :: (slots.drop (position + 1) ++ slots.take position) := by
  rw [oldestFirst, List.drop_eq_getElem_cons inside, List.cons_append]

theorem oldestFirst_set (inside : position < slots.length) (x : α) :
    oldestFirst (slots.set position x) ((position + 1) % slots.length) =
      (oldestFirst slots position).tail ++ [x] := by
  have split : slots.set position x = slots.take position ++ x :: slots.drop (position + 1) :=
    List.set_eq_take_append_cons_drop.trans (if_pos inside)
  have before : (slots.take position ++ [x]).length = position + 1 := by
    rw [List.length_append, List.length_take, List.length_singleton]
    omega
  rw [oldestFirst_eq_cons inside, List.tail_cons, split, List.append_cons]
  by_cases last : position + 1 = slots.length
  · -- the last slot: the ring starts over
    have none : slots.drop (position + 1) = [] := by rw [last, List.drop_length]
    simp [oldestFirst, last ▸ none, last]
  · rw [Nat.mod_eq_of_lt (by omega), oldestFirst, List.drop_left' before, List.take_left' before,
      List.append_assoc]

/-- One more entry. -/
theorem Recent.push (recent : Recent slots position written) (x : α) :
    Recent (slots.set position x) ((position + 1) % slots.length) (written ++ [x]) where
  inside := by
    rw [List.length_set]
    exact Nat.mod_lt _ (Nat.zero_lt_of_lt recent.inside)
  entries := by
    have size := congrArg List.length recent.entries
    have some := recent.inside
    rw [length_oldestFirst, List.length_drop] at size
    rw [oldestFirst_set recent.inside, recent.entries, List.length_set, List.tail_drop,
      List.length_append, List.length_singleton, List.drop_append_of_le_length (by omega)]
    congr 2
    omega

theorem sum_oldestFirst [AddCommMonoid α] (slots : List α) (position : Nat) :
    (oldestFirst slots position).sum = slots.sum := by
  rw [oldestFirst, List.sum_append, add_comm, ← List.sum_append, List.take_append_drop]

end Asr2Pass.Library
