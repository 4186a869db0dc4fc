import Mathlib.Data.List.Nodup
import Mathlib.Data.List.Perm.Basic

/-! # Items with keys, taken in an order of the keys

Items that are looked up by their keys come in the order of the keys.  An item whose key is not
asked for is left out.
-/

namespace Asr2Pass.Library

variable {α β : Type*} [DecidableEq α] {key : β → α} {order : List α} {items : List β} {item : β}

/-- The item of each key of the order, where there is one. -/
def arrange (key : β → α) (order : List α) (items : List β) : List β :=
  order.filterMap fun asked => items.find? fun item => key item = asked

/-- The items whose key is not asked for. -/
def leftOut (key : β → α) (order : List α) (items : List β) : List β :=
  items.filter fun item => key item ∉ order

theorem find_key (distinct : (items.map key).Nodup) {asked : α} :
    items.find? (fun item => key item = asked) = some item ↔ item ∈ items ∧ key item = asked := by
  constructor
  · intro found
    exact ⟨List.mem_of_find?_eq_some found, by simpa using List.find?_some found⟩
  · rintro ⟨member, rfl⟩
    cases found : items.find? fun other => key other = key item with
    | none => exact absurd (List.find?_eq_none.mp found item member) (by simp)
    | some other =>
      have same : key other = key item := by simpa using List.find?_some found
      rw [List.inj_on_of_nodup_map distinct (List.mem_of_find?_eq_some found) member same]

theorem mem_arrange (distinct : (items.map key).Nodup) :
    item ∈ arrange key order items ↔ item ∈ items ∧ key item ∈ order := by
  simp only [arrange, List.mem_filterMap, find_key distinct]
  constructor
  · rintro ⟨asked, inOrder, member, rfl⟩
    exact ⟨member, inOrder⟩
  · exact fun ⟨member, inOrder⟩ => ⟨key item, inOrder, member, rfl⟩

/-- The keys come in their order. -/
theorem map_arrange_sublist : ((arrange key order items).map key).Sublist order := by
  induction order with
  | nil => exact List.Sublist.slnil
  | cons asked rest inductionHypothesis =>
    rw [arrange, List.filterMap_cons]
    cases found : items.find? fun item => key item = asked with
    | none => exact inductionHypothesis.cons asked
    | some item =>
      have same : key item = asked := by simpa using List.find?_some found
      rw [List.map_cons, same]
      exact inductionHypothesis.cons_cons asked

/-- No item is taken twice, and those whose key is not asked for are left over. -/
theorem arrange_append_leftOut_perm (nodup : order.Nodup) (distinct : (items.map key).Nodup) :
    (arrange key order items ++ leftOut key order items).Perm items := by
  have once : (arrange key order items).Nodup := (map_arrange_sublist.nodup nodup).of_map
  have taken : (arrange key order items).Perm (items.filter fun item => key item ∈ order) := by
    rw [List.perm_ext_iff_of_nodup once (distinct.of_map.filter _)]
    intro item
    rw [mem_arrange distinct, List.mem_filter, decide_eq_true_eq]
  have all := List.filter_append_perm (fun item => decide (key item ∈ order)) items
  simp only [← decide_not] at all
  exact (taken.append_right _).trans all

end Asr2Pass.Library
