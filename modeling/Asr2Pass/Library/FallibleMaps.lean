import Mathlib.Data.List.Perm.Basic
import Mathlib.Data.Option.Basic

/-! # Lists whose entries are mapped one by one, where an entry can fail -/

namespace Asr2Pass.Library

variable {α β : Type*} {f : α → Option β} {values : List α}

/-- A list is mapped when each of its entries is. -/
theorem isSome_mapM_iff : (values.mapM f).isSome ↔ ∀ value ∈ values, (f value).isSome := by
  induction values with
  | nil => simp
  | cons value rest inductionHypothesis =>
    rw [List.forall_mem_cons, ← inductionHypothesis, List.mapM_cons]
    cases f value with
    | none => simp
    | some result => cases rest.mapM f <;> simp

theorem length_of_mapM {results : List β} (mapped : values.mapM f = some results) :
    results.length = values.length := by
  induction values generalizing results with
  | nil => simp_all
  | cons value rest inductionHypothesis =>
    rw [List.mapM_cons] at mapped
    obtain ⟨result, -, mapped⟩ := Option.bind_eq_some_iff.mp mapped
    obtain ⟨others, later, same⟩ := Option.bind_eq_some_iff.mp mapped
    cases same
    simp [inductionHypothesis later]

theorem map_some_of_mapM {results : List β} (mapped : values.mapM f = some results) :
    results.map some = values.map f := by
  induction values generalizing results with
  | nil => simp_all
  | cons value rest inductionHypothesis =>
    rw [List.mapM_cons] at mapped
    obtain ⟨result, first, mapped⟩ := Option.bind_eq_some_iff.mp mapped
    obtain ⟨others, later, same⟩ := Option.bind_eq_some_iff.mp mapped
    cases same
    rw [List.map_cons, List.map_cons, first, inductionHypothesis later]

theorem getElem?_of_mapM {results : List β} (mapped : values.mapM f = some results)
    (position : Nat) : results[position]? = values[position]?.bind f := by
  have each := congrArg (fun (entries : List (Option β)) => entries[position]?) (map_some_of_mapM mapped)
  simp only [List.getElem?_map] at each
  cases found : values[position]? with
  | none => simpa [found] using each
  | some value =>
    rw [found] at each
    cases result : results[position]? with
    | none => simp [result] at each
    | some result' => simpa [result] using each

/-- The entries of a list, looked up in another order. -/
theorem mapM_getElem?_perm {sorted : List α} {indices : List Nat}
    (permutation : indices.Perm (List.range values.length))
    (mapped : (indices.mapM fun index => values[index]?) = some sorted) : sorted.Perm values := by
  rw [← List.map_perm_map_iff (Option.some_injective α), map_some_of_mapM mapped]
  have inOrder : (List.range values.length).map (fun index => values[index]?) = values.map some := by
    apply List.ext_getElem?
    intro index
    by_cases inside : index < values.length
    · simp [inside]
    · simp [Nat.le_of_not_lt inside]
  exact inOrder ▸ permutation.map _

/-! ## Maps that leave more entries out -/

section

variable {g : α → Option β}

theorem filterMap_sublist (less : ∀ value ∈ values, g value = none ∨ g value = f value) :
    (values.filterMap g).Sublist (values.filterMap f) := by
  induction values with
  | nil => exact List.Sublist.slnil
  | cons value rest inductionHypothesis =>
    obtain ⟨first, others⟩ := List.forall_mem_cons.mp less
    have later := inductionHypothesis others
    rw [List.filterMap_cons, List.filterMap_cons]
    cases first with
    | inl out =>
      rw [out]
      cases f value with
      | none => exact later
      | some result => exact later.cons result
    | inr same =>
      rw [same]
      cases f value with
      | none => exact later
      | some result => exact later.cons_cons result

/-- The lists are the same when no further entry is left out. -/
theorem filterMap_eq_iff (less : ∀ value ∈ values, g value = none ∨ g value = f value) :
    values.filterMap f = values.filterMap g ↔ ∀ value ∈ values, f value = g value := by
  induction values with
  | nil => simp
  | cons value rest inductionHypothesis =>
    obtain ⟨first, others⟩ := List.forall_mem_cons.mp less
    rw [List.forall_mem_cons, ← inductionHypothesis others, List.filterMap_cons, List.filterMap_cons]
    cases first with
    | inl out =>
      rw [out]
      cases f value with
      | none => simp
      | some result =>
        have shorter := (filterMap_sublist others).length_le
        refine ⟨fun same => ?_, fun both => absurd both.1 (by simp)⟩
        have lengths := congrArg List.length same
        simp only [List.length_cons] at lengths
        omega
    | inr same =>
      rw [same]
      cases f value with
      | none => simp
      | some result => simp

end

end Asr2Pass.Library
