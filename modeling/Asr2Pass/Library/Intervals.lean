import Mathlib.Data.List.Chain
import Mathlib.Data.List.Flatten
import Mathlib.Order.Basic
import Mathlib.Order.Monotone.Defs

/-! # Lists of intervals

Intervals with a begin and an end, each of them behind the one before it.  A part of such a list can be
exchanged for intervals that stay between its begin and its end.
-/

namespace Asr2Pass.Library

variable {α : Type*} [Preorder α] {lo hi : α} {spans earlier part later : List (α × α)}

/-- Every interval begins before it ends, and ends before the next one begins. -/
structure InOrder (spans : List (α × α)) : Prop where
  each : ∀ span ∈ spans, span.1 ≤ span.2
  next : spans.IsChain fun first second => first.2 ≤ second.1

def endpoints (spans : List (α × α)) : List α :=
  spans.flatMap fun span => [span.1, span.2]

omit [Preorder α] in
theorem endpoints_append (spans spans' : List (α × α)) :
    endpoints (spans ++ spans') = endpoints spans ++ endpoints spans' :=
  List.flatMap_append

omit [Preorder α] in
theorem mem_endpoints {x : α} : x ∈ endpoints spans ↔ ∃ span ∈ spans, x = span.1 ∨ x = span.2 := by
  simp [endpoints, List.mem_flatMap]

theorem inOrder_iff : InOrder spans ↔ (endpoints spans).Pairwise (· ≤ ·) := by
  induction spans with
  | nil => exact iff_of_true ⟨by simp, List.isChain_nil⟩ List.Pairwise.nil
  | cons span spans inductionHypothesis =>
    have parts : endpoints (span :: spans) = span.1 :: span.2 :: endpoints spans := rfl
    rw [parts, List.pairwise_cons, List.pairwise_cons, ← inductionHypothesis]
    constructor
    · rintro ⟨each, next⟩
      obtain ⟨own, others⟩ := List.forall_mem_cons.mp each
      obtain ⟨first, rest⟩ := List.isChain_cons.mp next
      -- what is behind the begin of the next interval is behind the end of this one
      have behind : ∀ x ∈ endpoints spans, span.2 ≤ x := by
        intro x member
        cases spans with
        | nil => cases member
        | cons span' spans =>
          have begins : span.2 ≤ span'.1 := first span' rfl
          have sorted := inductionHypothesis.mp ⟨others, rest⟩
          cases member with
          | head => exact begins
          | tail _ member => exact begins.trans ((List.pairwise_cons.mp sorted).1 x member)
      refine ⟨?_, behind, others, rest⟩
      intro x member
      cases member with
      | head => exact own
      | tail _ member => exact own.trans (behind x member)
    · rintro ⟨own, behind, each, next⟩
      refine ⟨List.forall_mem_cons.mpr ⟨own _ List.mem_cons_self, each⟩,
        List.isChain_cons.mpr ⟨fun span' first => behind _ ?_, next⟩⟩
      exact mem_endpoints.mpr ⟨span', List.mem_of_mem_head? first, .inl rfl⟩

theorem InOrder.ends (inOrder : InOrder spans) :
    spans.Pairwise fun first second => first.2 ≤ second.2 := by
  have across := (List.pairwise_flatMap.mp (inOrder_iff.mp inOrder)).2
  exact across.imp fun {first second} below => below first.2 (by simp) second.2 (by simp)

theorem InOrder.sublist (inOrder : InOrder spans) {fewer : List (α × α)}
    (sublist : (endpoints fewer).Sublist (endpoints spans)) : InOrder fewer :=
  inOrder_iff.mpr ((inOrder_iff.mp inOrder).sublist sublist)

/-- In order, and between two bounds. -/
def Fits (lo hi : α) (spans : List (α × α)) : Prop :=
  (lo :: (endpoints spans ++ [hi])).Pairwise (· ≤ ·)

theorem fits_iff_inOrder : Fits lo hi spans ↔
    lo ≤ hi ∧ InOrder spans ∧ ∀ x ∈ endpoints spans, lo ≤ x ∧ x ≤ hi := by
  rw [Fits, inOrder_iff, List.pairwise_cons, List.pairwise_append]
  simp only [List.mem_append, List.mem_singleton, List.pairwise_singleton]
  constructor
  · rintro ⟨least, sorted, -, most⟩
    exact ⟨least hi (.inr rfl), sorted, fun x member => ⟨least x (.inl member), most x member hi rfl⟩⟩
  · rintro ⟨bounds, sorted, within⟩
    refine ⟨?_, sorted, trivial, ?_⟩
    · rintro x (member | rfl)
      · exact (within x member).1
      · exact bounds
    · rintro x member _ rfl
      exact (within x member).2

/-- The bounds of the intervals bound their ends. -/
theorem fits_iff_within : Fits lo hi spans ↔
    lo ≤ hi ∧ InOrder spans ∧ ∀ span ∈ spans, lo ≤ span.1 ∧ span.2 ≤ hi := by
  rw [fits_iff_inOrder]
  constructor
  · rintro ⟨bounds, inOrder, within⟩
    refine ⟨bounds, inOrder, fun span member => ⟨(within _ ?_).1, (within _ ?_).2⟩⟩
    · exact mem_endpoints.mpr ⟨span, member, .inl rfl⟩
    · exact mem_endpoints.mpr ⟨span, member, .inr rfl⟩
  · rintro ⟨bounds, inOrder, within⟩
    refine ⟨bounds, inOrder, fun x member => ?_⟩
    obtain ⟨span, inside, point⟩ := mem_endpoints.mp member
    obtain ⟨least, most⟩ := within span inside
    have forward := inOrder.each span inside
    cases point with
    | inl begins => exact begins ▸ ⟨least, forward.trans most⟩
    | inr ends => exact ends ▸ ⟨least.trans forward, most⟩

theorem Fits.inOrder (fits : Fits lo hi spans) : InOrder spans := (fits_iff_inOrder.mp fits).2.1

theorem Fits.sublist (fits : Fits lo hi spans) {fewer : List (α × α)} (sublist : fewer.Sublist spans) :
    Fits lo hi fewer := by
  have points : (endpoints fewer).Sublist (endpoints spans) := sublist.flatMap _
  exact List.Pairwise.sublist ((points.append_right [hi]).cons_cons lo) fits

/-- Intervals in order lie between the begin of the first and the end of the last one. -/
theorem InOrder.fits (inOrder : InOrder spans) {first last : α × α} (begins : first ∈ spans.head?)
    (ends : last ∈ spans.getLast?) : Fits first.1 last.2 spans := by
  have sorted := inOrder_iff.mp inOrder
  have isFirst := List.mem_of_mem_head? begins
  have isLast := List.mem_of_mem_getLast? ends
  have least : ∀ x ∈ endpoints spans, first.1 ≤ x := by
    obtain ⟨rest, rfl⟩ := List.head?_eq_some_iff.mp begins
    rintro x (_ | ⟨_, member⟩)
    · exact le_rfl
    · exact (List.pairwise_cons.mp sorted).1 x member
  have most : ∀ x ∈ endpoints spans, x ≤ last.2 := by
    obtain ⟨rest, rfl⟩ := List.getLast?_eq_some_iff.mp ends
    have parts : endpoints (rest ++ [last]) = (endpoints rest ++ [last.1]) ++ [last.2] := by
      simp [endpoints]
    rw [parts] at sorted ⊢
    intro x member
    rcases List.mem_append.mp member with earlier | own
    · exact (List.pairwise_append.mp sorted).2.2 x earlier _ (List.mem_singleton_self _)
    · exact (List.mem_singleton.mp own).le
  have isPoint : last.2 ∈ endpoints spans := mem_endpoints.mpr ⟨last, isLast, .inr rfl⟩
  exact fits_iff_inOrder.mpr ⟨least _ isPoint, inOrder, fun x member => ⟨least x member, most x member⟩⟩

/-- A part is exchanged for intervals that stay within it. -/
theorem Fits.exchange (fits : Fits lo hi (earlier ++ part ++ later)) {begin last : α}
    (begins : begin ∈ endpoints part) (ends : last ∈ endpoints part) {others : List (α × α)}
    (within : Fits begin last others) : Fits lo hi (earlier ++ others ++ later) := by
  obtain ⟨-, sorted, inside⟩ := fits_iff_inOrder.mp within
  rw [inOrder_iff] at sorted
  have parts (middle : List (α × α)) :
      lo :: (endpoints (earlier ++ middle ++ later) ++ [hi]) =
        (lo :: endpoints earlier) ++ (endpoints middle ++ (endpoints later ++ [hi])) := by
    simp [endpoints_append]
  rw [Fits, parts] at fits ⊢
  obtain ⟨before, rest, low⟩ := List.pairwise_append.mp fits
  obtain ⟨-, behind, high⟩ := List.pairwise_append.mp rest
  -- What is before and behind stays; the ends of the part bound what takes its place.
  refine List.pairwise_append.mpr ⟨before, List.pairwise_append.mpr ⟨sorted, behind, ?_⟩, ?_⟩
  · exact fun x member y member' => (inside x member).2.trans (high last ends y member')
  · intro x member y member'
    rcases List.mem_append.mp member' with new | old
    · exact (low x member begin (List.mem_append_left _ begins)).trans (inside y new).1
    · exact low x member y (List.mem_append_right _ old)

/-- Intervals behind each other's bounds. -/
theorem Fits.append {middle middle' : α} (first : Fits lo middle spans) (between : middle ≤ middle')
    (second : Fits middle' hi later) : Fits lo hi (spans ++ later) := by
  obtain ⟨low, sorted, inside⟩ := fits_iff_inOrder.mp first
  obtain ⟨high, sorted', inside'⟩ := fits_iff_inOrder.mp second
  rw [inOrder_iff] at sorted sorted'
  rw [fits_iff_inOrder, inOrder_iff, endpoints_append]
  refine ⟨low.trans (between.trans high), List.pairwise_append.mpr ⟨sorted, sorted', ?_⟩, ?_⟩
  · exact fun x member y member' => (inside x member).2.trans (between.trans (inside' y member').1)
  · intro x member
    cases List.mem_append.mp member with
    | inl early => exact ⟨(inside x early).1, (inside x early).2.trans (between.trans high)⟩
    | inr late => exact ⟨low.trans (between.trans (inside' x late).1), (inside' x late).2⟩

/-- A monotone function keeps intervals in order. -/
theorem Fits.map {β : Type*} [Preorder β] {f : α → β} (mono : Monotone f) (fits : Fits lo hi spans) :
    Fits (f lo) (f hi) (spans.map (Prod.map f f)) := by
  have points : endpoints (spans.map (Prod.map f f)) = (endpoints spans).map f := by
    simp [endpoints, List.flatMap_map, List.map_flatMap]
  have mapped := List.Pairwise.map f (fun _ _ le => mono le) fits
  rw [Fits, points]
  simpa using mapped

end Asr2Pass.Library
