import Mathlib.Data.List.Infix
import Mathlib.Tactic.Common

/-! # The longest accepted end of a word

An automaton over a set of words that is closed under leaving labels off at the end stands at the
longest accepted end of what it has read.  It backs off by leaving labels off at the front.
-/

namespace Asr2Pass.Library

variable {α : Type*} (accepts : List α → Prop) [DecidablePred accepts]

/-- The longest end of the word that is accepted. -/
def longest : List α → List α
  | [] => []
  | label :: rest => if accepts (label :: rest) then label :: rest else longest rest

/-- The longest accepted end that is shorter than the word. -/
def backOff (word : List α) : List α := longest accepts word.tail

variable {accepts} {word : List α}

theorem longest_of_accepts (accepted : accepts word) : longest accepts word = word := by
  cases word with
  | nil => rfl
  | cons label rest => rw [longest, if_pos accepted]

theorem longest_of_not_accepts (rejected : ¬ accepts word) :
    longest accepts word = longest accepts word.tail := by
  cases word with
  | nil => rfl
  | cons label rest => rw [longest, if_neg rejected, List.tail_cons]

theorem longest_suffix (word : List α) : longest accepts word <:+ word := by
  induction word with
  | nil => exact List.suffix_rfl
  | cons label rest inductionHypothesis =>
    rw [longest]
    split
    · exact List.suffix_rfl
    · exact inductionHypothesis.trans (List.suffix_cons label rest)

theorem accepts_longest (empty : accepts []) (word : List α) : accepts (longest accepts word) := by
  induction word with
  | nil => exact empty
  | cons label rest inductionHypothesis =>
    rw [longest]
    split
    case isTrue accepted => exact accepted
    case isFalse => exact inductionHypothesis

/-- The word is a longest one of those with the property. -/
structure IsLongest (property : List α → Prop) (word : List α) : Prop where
  fits : property word
  greatest : ∀ other, property other → other.length ≤ word.length

theorem isLongest_longest (empty : accepts []) (word : List α) :
    IsLongest (fun part => part <:+ word ∧ accepts part) (longest accepts word) where
  fits := ⟨longest_suffix word, accepts_longest empty word⟩
  greatest := by
    rintro other ⟨suffix, accepted⟩
    induction word with
    | nil => rw [List.suffix_nil.mp suffix]; exact Nat.zero_le _
    | cons label rest inductionHypothesis =>
      rw [longest]
      split
      case isTrue => exact suffix.length_le
      case isFalse rejected =>
        cases List.suffix_cons_iff.mp suffix with
        | inl whole => exact absurd (whole ▸ accepted) rejected
        | inr inside => exact inductionHypothesis inside

theorem longest_eq_nil (rejected : ∀ part, part <:+ word → part ≠ [] → ¬ accepts part) :
    longest accepts word = [] := by
  induction word with
  | nil => rfl
  | cons label rest inductionHypothesis =>
    rw [longest, if_neg (rejected _ List.suffix_rfl (List.cons_ne_nil label rest))]
    exact inductionHypothesis fun part suffix => rejected part (suffix.trans (List.suffix_cons _ _))

/-- Labels in front of the longest accepted end do not count for what is read later. -/
theorem longest_append (closed : ∀ first second, accepts (first ++ second) → accepts first)
    (word further : List α) :
    longest accepts (longest accepts word ++ further) = longest accepts (word ++ further) := by
  induction word with
  | nil => rfl
  | cons label rest inductionHypothesis =>
    by_cases accepted : accepts (label :: rest)
    · rw [longest_of_accepts accepted]
    · have rejected : ¬ accepts (label :: rest ++ further) :=
        fun accepted' => accepted (closed _ _ accepted')
      rw [longest_of_not_accepts accepted, longest_of_not_accepts rejected]
      exact inductionHypothesis

theorem backOff_suffix (word : List α) : backOff accepts word <:+ word :=
  (longest_suffix word.tail).trans (List.tail_suffix word)

theorem length_backOff_lt (nonempty : word ≠ []) :
    (backOff accepts word).length < word.length := by
  have shorter : (backOff accepts word).length ≤ word.tail.length :=
    (longest_suffix word.tail).length_le
  have positive := List.length_pos_of_ne_nil nonempty
  rw [List.length_tail] at shorter
  omega

/-- An end that is not the word itself is an end of its tail. -/
theorem isLongest_backOff (empty : accepts []) (nonempty : word ≠ []) :
    IsLongest (fun part => part <:+ word ∧ part ≠ word ∧ accepts part) (backOff accepts word) where
  fits := by
    refine ⟨backOff_suffix word, ?_, accepts_longest empty word.tail⟩
    exact fun same => (length_backOff_lt nonempty).ne (congrArg List.length same)
  greatest := by
    rintro other ⟨suffix, proper, accepted⟩
    apply (isLongest_longest empty word.tail).greatest
    obtain ⟨label, rest, rfl⟩ := List.exists_cons_of_ne_nil nonempty
    exact ⟨(List.suffix_cons_iff.mp suffix).resolve_left proper, accepted⟩

/-- Where a label cannot be read, the search goes on at the state of the back-off. -/
theorem longest_backOff_append (closed : ∀ first second, accepts (first ++ second) → accepts first)
    (nonempty : word ≠ []) {label : α} (rejected : ¬ accepts (word ++ [label])) :
    longest accepts (backOff accepts word ++ [label]) = longest accepts (word ++ [label]) := by
  rw [backOff, longest_append closed, longest_of_not_accepts rejected,
    List.tail_append_of_ne_nil nonempty]

end Asr2Pass.Library
