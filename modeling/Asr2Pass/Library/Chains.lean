import Mathlib.Data.Set.Finite.Basic
import Mathlib.Data.Set.Finite.Lemmas
import Mathlib.Logic.Relation
import Mathlib.Order.WellFounded

/-! # Chains of a partial function

A point leads to the value of the function there.  A chain ends at a point without a value.  Where
only finitely many points have one, a chain that does not end comes back to a point.
-/

namespace Asr2Pass.Library

open Relation (ReflTransGen TransGen)

variable {α : Type*} {next : α → Option α} {start point last : α}

def Leads (next : α → Option α) (point point' : α) : Prop := next point = some point'

/-- The chain comes to a point without a value. -/
def Ends (next : α → Option α) (start : α) : Prop :=
  ∃ last, ReflTransGen (Leads next) start last ∧ next last = none

theorem Leads.unique {point point' point'' : α} (leads : Leads next point point')
    (leads' : Leads next point point'') : point' = point'' :=
  Option.some.inj (Eq.trans (Eq.symm leads) leads')

theorem ends_of_leads {point' : α} (leads : Leads next point point') (ends : Ends next point') :
    Ends next point := by
  obtain ⟨last, chain, isLast⟩ := ends
  exact ⟨last, .head leads chain, isLast⟩

/-- Behind a point of a chain that ends there is no way back to it. -/
theorem no_return_of_ends (chain : ReflTransGen (Leads next) start last) (isLast : next last = none) :
    ¬ TransGen (Leads next) start start := by
  induction chain using ReflTransGen.head_induction_on with
  | refl =>
    intro cycle
    obtain ⟨point, leads, -⟩ := TransGen.head'_iff.mp cycle
    rw [Leads, isLast] at leads
    cases leads
  | head leads _ inductionHypothesis =>
    intro cycle
    obtain ⟨point, leads', back⟩ := TransGen.head'_iff.mp cycle
    obtain rfl := leads.unique leads'
    exact inductionHypothesis (.tail' back leads)

theorem Ends.of_reflTransGen (ends : Ends next start) (chain : ReflTransGen (Leads next) start point) :
    Ends next point := by
  induction chain with
  | refl => exact ends
  | tail _ leads inductionHypothesis =>
    obtain ⟨last, chain, isLast⟩ := inductionHypothesis
    cases chain using ReflTransGen.head_induction_on with
    | refl =>
      rw [Leads, isLast] at leads
      cases leads
    | head leads' chain =>
      obtain rfl := leads.unique leads'
      exact ⟨last, chain, isLast⟩

/-- The points of a chain, when finitely many points have a value. -/
theorem finite_reached (finite : {point | next point ≠ none}.Finite) :
    Finite {point // ReflTransGen (Leads next) start point} := by
  have values := (finite.image fun point => (next point).getD start).insert start
  refine (values.subset fun point chain => ?_).to_subtype
  cases chain with
  | refl => exact .inl rfl
  | @tail before _ _ leads =>
    have value : next before = some point := leads
    exact .inr ⟨before, by simp [value], by simp [value]⟩

/-- A chain ends exactly when it comes to no point from which it returns to that point. -/
theorem ends_iff (finite : {point | next point ≠ none}.Finite) :
    Ends next start ↔
      ∀ point, ReflTransGen (Leads next) start point → ¬ TransGen (Leads next) point point := by
  constructor
  · intro ends point chain
    obtain ⟨last, chain', isLast⟩ := ends.of_reflTransGen chain
    exact no_return_of_ends chain' isLast
  · intro noReturn
    have reached := @finite_reached _ next start finite
    let later (point' point : {point // ReflTransGen (Leads next) start point}) : Prop :=
      TransGen (Leads next) point.1 point'.1
    have transitive : IsTrans _ later := ⟨fun _ _ _ first second => second.trans first⟩
    have irreflexive : Std.Irrefl later := ⟨fun point => noReturn point.1 point.2⟩
    have wellFounded := @Finite.wellFounded_of_trans_of_irrefl _ reached later transitive irreflexive
    refine @WellFounded.induction _ _ wellFounded (fun point => Ends next point.1) ⟨start, .refl⟩
      fun point later => ?_
    cases value : next point.1 with
    | none => exact ⟨point.1, .refl, value⟩
    | some point' => exact ends_of_leads value (later ⟨point', point.2.tail value⟩ (.single value))

end Asr2Pass.Library
