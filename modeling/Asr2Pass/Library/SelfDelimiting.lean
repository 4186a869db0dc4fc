import Mathlib.Data.List.Basic

/-! # Words that announce their length

The first letter of a word says how many letters the word has.  A text made of such words is cut into
them from its front, and one that ends inside a word is not made of words.
-/

namespace Asr2Pass.Library

variable {α : Type*} {size size' : α → Nat} {first : α} {rest : List α}

/-- A word has as many letters as its first one says. -/
inductive Announced (size : α → Nat) : List α → Prop where
  | word {first : α} {rest : List α} : size first = rest.length + 1 → Announced size (first :: rest)

/-- The text is a sequence of words. -/
def MadeOf (size : α → Nat) (text : List α) : Prop :=
  ∃ words : List (List α), (∀ word ∈ words, Announced size word) ∧ words.flatten = text

/-- A length that says the same wherever the other says one announces the same words. -/
theorem Announced.of_agree {word : List α} (agree : ∀ first, size first ≠ 0 → size' first = size first)
    (announced : Announced size word) : Announced size' word := by
  cases announced with
  | @word first rest length => exact .word ((agree first (by omega)).trans length)

theorem take_announced (announced : size first = rest.length + 1) (further : List α) :
    (first :: (rest ++ further)).take (size first) = first :: rest := by
  rw [announced, List.take_succ_cons, List.take_left]

theorem drop_announced (announced : size first = rest.length + 1) (further : List α) :
    (first :: (rest ++ further)).drop (size first) = further := by
  rw [announced, List.drop_succ_cons, List.drop_left]

/-- What is taken by the length that a letter says is a word, when there are so many letters. -/
theorem announced_take {text : List α} (pos : 0 < size first)
    (enough : size first ≤ (first :: text).length) :
    Announced size ((first :: text).take (size first)) := by
  obtain ⟨more, isMore⟩ : ∃ more, size first = more + 1 := ⟨size first - 1, by omega⟩
  rw [isMore, List.take_succ_cons]
  refine .word ?_
  rw [List.length_cons] at enough
  rw [isMore, List.length_take]
  omega

end Asr2Pass.Library
