import Mathlib.Data.List.Basic
import Mathlib.Tactic.Ring

/-! # Ranges and windows of a list

`slice xs first last` are the elements from `first` up to `last`, when that is a range of the
list; it does not see what is appended or, shifted, what is dropped before it.
`windowAt xs start size` are `size` elements from `start` on; past the end of the list its last
element is repeated.  A window that ends inside the list does not see what is appended to it,
and dropping a prefix shifts every window.
-/

namespace Asr2Pass.Library

variable {α : Type*}

/-- Copies of the last element. -/
def repeatLast (xs : List α) (count : Nat) : List α :=
  xs.getLast?.elim [] (List.replicate count)

def windowAt (xs : List α) (start size : Nat) : List α :=
  (xs.drop start).take size ++ repeatLast xs (size - (xs.length - start))

theorem repeatLast_zero (xs : List α) : repeatLast xs 0 = [] := by
  cases last : xs.getLast? <;> simp [repeatLast, last]

theorem length_repeatLast {xs : List α} (nonempty : xs ≠ []) (count : Nat) :
    (repeatLast xs count).length = count := by
  simp [repeatLast, List.getLast?_eq_some_getLast nonempty]

theorem mem_of_mem_repeatLast {xs : List α} {count : Nat} {x : α}
    (member : x ∈ repeatLast xs count) : x ∈ xs := by
  cases last : xs.getLast? with
  | none => simp [repeatLast, last] at member
  | some y =>
    simp only [repeatLast, last, Option.elim_some] at member
    rw [List.eq_of_mem_replicate member]
    exact List.mem_of_getLast? last

theorem length_windowAt {xs : List α} (nonempty : xs ≠ []) (start size : Nat) :
    (windowAt xs start size).length = size := by
  rw [windowAt, List.length_append, length_repeatLast nonempty, List.length_take, List.length_drop]
  omega

theorem mem_of_mem_windowAt {xs : List α} {start size : Nat} {x : α}
    (member : x ∈ windowAt xs start size) : x ∈ xs := by
  cases List.mem_append.mp member with
  | inl inside => exact List.mem_of_mem_drop (List.mem_of_mem_take inside)
  | inr padded => exact mem_of_mem_repeatLast padded

/-- A window that ends inside the list. -/
theorem windowAt_full {xs : List α} {start size : Nat} (inside : size ≤ xs.length - start) :
    windowAt xs start size = (xs.drop start).take size := by
  rw [windowAt, Nat.sub_eq_zero_of_le inside, repeatLast_zero, List.append_nil]

theorem windowAt_append {xs : List α} {start size : Nat} (inside : start + size ≤ xs.length)
    (ys : List α) : windowAt (xs ++ ys) start size = windowAt xs start size := by
  rw [windowAt_full (by rw [List.length_append]; omega), windowAt_full (by omega),
    List.drop_append_of_le_length (by omega), List.take_append_of_le_length]
  rw [List.length_drop]
  omega

theorem windowAt_drop {xs : List α} {skipped : Nat} (inside : skipped = 0 ∨ skipped < xs.length)
    (start size : Nat) : windowAt (xs.drop skipped) start size = windowAt xs (skipped + start) size := by
  have last : (xs.drop skipped).getLast? = xs.getLast? := by
    rcases inside with rfl | inside
    · rw [List.drop_zero]
    · rw [List.getLast?_drop, if_neg (by omega)]
  rw [windowAt, windowAt, List.drop_drop, repeatLast, repeatLast, last, List.length_drop, Nat.sub_sub]

/-- Where the elements of a window are. -/
theorem getElem?_windowAt {xs : List α} {start size offset : Nat} (inside : offset < size)
    (stored : start + offset < xs.length) :
    (windowAt xs start size)[offset]? = xs[start + offset]? := by
  rw [windowAt, List.getElem?_append_left, List.getElem?_take_of_lt inside, List.getElem?_drop]
  rw [List.length_take, List.length_drop]
  omega

/-! ## Ranges -/

/-- The elements from `first` up to `last`; `none` where that is not a range of the list. -/
def slice (xs : List α) (first last : Nat) : Option (List α) :=
  if first ≤ last ∧ last ≤ xs.length then some ((xs.take last).drop first) else none

theorem slice_eq {xs : List α} {first last : Nat} (ordered : first ≤ last)
    (inside : last ≤ xs.length) : slice xs first last = some ((xs.take last).drop first) :=
  if_pos ⟨ordered, inside⟩

theorem slice_bounds {xs ys : List α} {first last : Nat} (read : slice xs first last = some ys) :
    first ≤ last ∧ last ≤ xs.length := by
  by_contra outside
  rw [slice, if_neg outside] at read
  cases read

/-- Two ranges, one behind the other. -/
theorem slice_trans {xs left right : List α} {first middle last : Nat}
    (before : slice xs first middle = some left) (behind : slice xs middle last = some right) :
    slice xs first last = some (left ++ right) := by
  obtain ⟨ordered, -⟩ := slice_bounds before
  obtain ⟨ordered', inside⟩ := slice_bounds behind
  rw [slice_eq ordered (by omega)] at before
  rw [slice_eq ordered' inside] at behind
  cases before
  cases behind
  rw [slice_eq (by omega) inside]
  have split := List.take_append_drop (middle - first) ((xs.take last).drop first)
  rw [List.take_drop, List.take_take, List.drop_drop] at split
  rw [← split, Nat.add_sub_cancel' ordered, Nat.min_eq_left ordered']

theorem slice_append {xs : List α} {first last : Nat} (inside : last ≤ xs.length) (ys : List α) :
    slice (xs ++ ys) first last = slice xs first last := by
  have longer : last ≤ (xs ++ ys).length := by
    rw [List.length_append]
    omega
  simp only [slice, inside, longer, and_true, List.take_append_of_le_length inside]

theorem slice_drop {xs : List α} {skipped first last : Nat} (before : skipped ≤ first)
    (ordered : first ≤ last) (inside : last ≤ xs.length) :
    slice (xs.drop skipped) (first - skipped) (last - skipped) = slice xs first last := by
  rw [slice_eq (by omega) (by rw [List.length_drop]; omega), slice_eq ordered inside,
    List.take_drop, List.drop_drop]
  congr 2
  · omega
  · congr 1
    omega

end Asr2Pass.Library
