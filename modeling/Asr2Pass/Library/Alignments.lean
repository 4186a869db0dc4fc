import Mathlib.Algebra.BigOperators.Ring.List
import Mathlib.Algebra.Order.BigOperators.Group.List
import Mathlib.Algebra.Order.Ring.Canonical
import Mathlib.Data.List.Destutter

/-! # Alignments and the labels they collapse to

A frame is a list of weighted symbols.  An alignment takes one symbol of each frame; it stands for
the labels that are left when repeats are merged and blanks dropped.  The weight of all alignments
of some labels is a sum of exponentially many products, and yet one frame changes it by a
recurrence.
-/

namespace Asr2Pass.Library

variable {α R : Type*} [DecidableEq α]

/-! ## Collapsing -/

/-- The labels that an alignment stands for. -/
def collapse (blank : α) (alignment : List α) : List α :=
  (alignment.destutter (· ≠ ·)).filter (· ≠ blank)

theorem destutter'_snoc (first : α) (symbols : List α) (symbol : α) :
    (symbols ++ [symbol]).destutter' (· ≠ ·) first =
      if (first :: symbols).getLast? = some symbol then symbols.destutter' (· ≠ ·) first
      else symbols.destutter' (· ≠ ·) first ++ [symbol] := by
  induction symbols generalizing first with
  | nil => by_cases same : first = symbol <;> simp [same]
  | cons next rest inductionHypothesis =>
    by_cases same : first = next
    · subst same
      simp [inductionHypothesis]
    · simp [same, inductionHypothesis, apply_ite]

/-- One more symbol: merged with the one before it, dropped as a blank, or a new label. -/
theorem collapse_snoc (blank : α) (alignment : List α) (symbol : α) :
    collapse blank (alignment ++ [symbol]) =
      if symbol = blank ∨ alignment.getLast? = some symbol then collapse blank alignment
      else collapse blank alignment ++ [symbol] := by
  cases alignment with
  | nil => by_cases isBlank : symbol = blank <;> simp [collapse, isBlank]
  | cons first rest =>
    simp only [collapse, List.cons_append, List.destutter_cons', destutter'_snoc]
    by_cases repeated : (first :: rest).getLast? = some symbol
    · simp [repeated]
    · rw [if_neg repeated]
      by_cases isBlank : symbol = blank
      · simp [isBlank]
      · simp [repeated, isBlank]

@[simp] theorem collapse_nil (blank : α) : collapse blank ([] : List α) = [] := rfl

/-- An alignment that ends in a label ends in the last label of what it stands for. -/
theorem getLast?_collapse {blank symbol : α} (alignment : List α) (notBlank : symbol ≠ blank)
    (ends : alignment.getLast? = some symbol) :
    (collapse blank alignment).getLast? = some symbol := by
  induction alignment using List.reverseRecOn with
  | nil => simp at ends
  | append_singleton earlier last inductionHypothesis =>
    obtain rfl : last = symbol := by simpa using ends
    rw [collapse_snoc]
    by_cases repeated : earlier.getLast? = some last
    · rw [if_pos (Or.inr repeated)]
      exact inductionHypothesis repeated
    · rw [if_neg (by simp [notBlank, repeated])]
      simp

/-- The place holds a symbol that is no blank and does not repeat the one before it. -/
def StartsLabel (blank : α) (alignment : List α) (place : Nat) : Prop :=
  alignment[place]? ≠ some blank ∧ (place = 0 ∨ alignment[place - 1]? ≠ alignment[place]?)

instance (blank : α) (alignment : List α) (place : Nat) :
    Decidable (StartsLabel blank alignment place) :=
  inferInstanceAs (Decidable (_ ∧ _))

omit [DecidableEq α] in
theorem startsLabel_snoc_of_lt {blank symbol : α} {alignment : List α} {place : Nat}
    (inside : place < alignment.length) :
    StartsLabel blank (alignment ++ [symbol]) place ↔ StartsLabel blank alignment place := by
  have before : place - 1 < alignment.length := by omega
  rw [StartsLabel, List.getElem?_append_left inside, List.getElem?_append_left before, StartsLabel]

omit [DecidableEq α] in
theorem startsLabel_snoc_last {blank symbol : α} {alignment : List α} :
    StartsLabel blank (alignment ++ [symbol]) alignment.length ↔
      ¬ (symbol = blank ∨ alignment.getLast? = some symbol) := by
  rw [StartsLabel, List.getElem?_concat_length, not_or]
  refine and_congr (by simp) ?_
  rcases List.eq_nil_or_concat alignment with rfl | ⟨earlier, last, rfl⟩
  · simp
  · simp

/-- As many labels are left as start somewhere. -/
theorem length_collapse (blank : α) (alignment : List α) :
    (collapse blank alignment).length =
      (List.range alignment.length).countP fun place => StartsLabel blank alignment place := by
  induction alignment using List.reverseRecOn with
  | nil => rfl
  | append_singleton earlier last inductionHypothesis =>
    have others : (List.range earlier.length).countP
          (fun place => StartsLabel blank (earlier ++ [last]) place) =
        (List.range earlier.length).countP fun place => StartsLabel blank earlier place :=
      List.countP_congr fun place member => by
        simp only [decide_eq_true_eq]
        exact startsLabel_snoc_of_lt (List.mem_range.mp member)
    rw [collapse_snoc, List.length_append, List.length_singleton, List.range_succ, List.countP_append,
      others, ← inductionHypothesis, List.countP_singleton, apply_ite List.length]
    by_cases merged : last = blank ∨ earlier.getLast? = some last
    · rw [if_pos merged, if_neg (by simpa using fun starts => startsLabel_snoc_last.mp starts merged)]
      rfl
    · rw [if_neg merged, if_pos (by simpa using startsLabel_snoc_last.mpr merged)]
      simp

/-! ## Weights -/

section
variable [Semiring R]

/-- Each path goes on with each symbol of the frame. -/
def extend (paths : List (List α × R)) (frame : List (R × α)) : List (List α × R) :=
  paths.flatMap fun path => frame.map fun choice => (path.1 ++ [choice.2], path.2 * choice.1)

/-- Every alignment of the frames, with its weight. -/
def alignments (frames : List (List (R × α))) : List (List α × R) :=
  frames.foldl extend [([], 1)]

/-- The weight of the paths that have a property. -/
def weigh (paths : List (List α × R)) (property : List α → Prop) [DecidablePred property] : R :=
  (paths.map fun path => if property path.1 then path.2 else 0).sum

/-- The weight of a symbol in a frame. -/
def weightOf (frame : List (R × α)) (symbol : α) : R :=
  (frame.map fun choice => if choice.2 = symbol then choice.1 else 0).sum

omit [DecidableEq α] in
theorem alignments_snoc (frames : List (List (R × α))) (frame : List (R × α)) :
    alignments (frames ++ [frame]) = extend (alignments frames) frame := by
  simp [alignments]

omit [DecidableEq α] in
theorem weigh_congr {paths : List (List α × R)} {property property' : List α → Prop}
    [DecidablePred property] [DecidablePred property']
    (same : ∀ path, property path ↔ property' path) :
    weigh paths property = weigh paths property' := by
  simp only [weigh, same]

omit [DecidableEq α] in
theorem weigh_false (paths : List (List α × R)) {property : List α → Prop}
    [DecidablePred property] (never : ∀ path, ¬ property path) : weigh paths property = 0 := by
  simp [weigh, never]

omit [DecidableEq α] in
/-- Two properties that no path has both. -/
theorem weigh_or (paths : List (List α × R)) {property property' : List α → Prop}
    [DecidablePred property] [DecidablePred property']
    (apart : ∀ path, property path → ¬ property' path) :
    weigh paths (fun path => property path ∨ property' path) =
      weigh paths property + weigh paths property' := by
  simp only [weigh, ← List.sum_map_add]
  congr 2
  funext path
  by_cases first : property path.1
  · simp [first, apart path.1 first]
  · simp [first]

/-- A property of the longer paths that asks for one symbol last, and for a property before it. -/
theorem weigh_extend (paths : List (List α × R)) (frame : List (R × α)) {symbol : α}
    {property property' : List α → Prop} [DecidablePred property] [DecidablePred property']
    (splits : ∀ path last, property' (path ++ [last]) ↔ last = symbol ∧ property path) :
    weigh (extend paths frame) property' = weigh paths property * weightOf frame symbol := by
  simp only [weigh, extend, weightOf, List.flatMap_def, List.map_flatten, List.sum_flatten,
    List.map_map, ← List.sum_map_mul_right]
  congr 2
  funext path
  simp only [Function.comp_apply, List.map_map]
  rw [← List.sum_map_mul_left]
  congr 2
  funext choice
  by_cases same : choice.2 = symbol <;> by_cases before : property path.1 <;>
    simp [splits, same, before]

/-! ## The recurrence -/

/-- For each label sequence, the weight of its alignments that end in a blank and in a label. -/
@[ext] structure Mass (α R : Type*) where
  blank : List α → R
  label : List α → R

def Mass.all (mass : Mass α R) (labels : List α) : R :=
  mass.blank labels + mass.label labels

/-- What a frame does to the weights: a blank keeps the labels; so does one more of the last label,
    except after a blank, where it is a label of its own. -/
def Mass.step (blank : α) (weight : α → R) (mass : Mass α R) : Mass α R where
  blank labels := mass.all labels * weight blank
  label labels :=
    match labels.getLast? with
    | none => 0
    | some last =>
      -- A label that is the same as the one before it is new only behind a blank.
      if last = blank then
        0
      else
        let shorter := labels.dropLast
        (mass.label labels +
          if shorter.getLast? = some last then mass.blank shorter else mass.all shorter) *
          weight last

/-- The empty alignment counts as one that ends in a blank. -/
def EndsInBlank (blank : α) (alignment : List α) : Prop :=
  alignment.getLast?.getD blank = blank

instance (blank : α) (alignment : List α) : Decidable (EndsInBlank blank alignment) :=
  inferInstanceAs (Decidable (_ = _))

def massOf (blank : α) (frames : List (List (R × α))) : Mass α R where
  blank labels := weigh (alignments frames) fun alignment =>
    collapse blank alignment = labels ∧ EndsInBlank blank alignment
  label labels := weigh (alignments frames) fun alignment =>
    collapse blank alignment = labels ∧ ¬ EndsInBlank blank alignment

omit [DecidableEq α] [Semiring R] in
theorem not_endsInBlank {blank : α} {alignment : List α} :
    ¬ EndsInBlank blank alignment ↔
      ∃ symbol, alignment.getLast? = some symbol ∧ symbol ≠ blank := by
  cases ends : alignment.getLast? <;> simp [EndsInBlank, ends]

omit [Semiring R] in
/-- An alignment that ends in a label stands for labels that end in it. -/
theorem getLast?_of_not_endsInBlank {blank : α} {alignment : List α}
    (notBlank : ¬ EndsInBlank blank alignment) :
    ∃ symbol, alignment.getLast? = some symbol ∧ symbol ≠ blank ∧
      (collapse blank alignment).getLast? = some symbol := by
  obtain ⟨symbol, ends, differs⟩ := not_endsInBlank.mp notBlank
  exact ⟨symbol, ends, differs, getLast?_collapse alignment differs ends⟩

omit [DecidableEq α] [Semiring R] in
@[simp] theorem endsInBlank_snoc (blank : α) (alignment : List α) (last : α) :
    EndsInBlank blank (alignment ++ [last]) ↔ last = blank := by
  simp [EndsInBlank]

theorem massOf_blank (blank : α) (frames : List (List (R × α))) (labels : List α) :
    (massOf blank frames).blank labels = weigh (alignments frames) fun alignment =>
      collapse blank alignment = labels ∧ EndsInBlank blank alignment := rfl

theorem massOf_label (blank : α) (frames : List (List (R × α))) (labels : List α) :
    (massOf blank frames).label labels = weigh (alignments frames) fun alignment =>
      collapse blank alignment = labels ∧ ¬ EndsInBlank blank alignment := rfl

theorem massOf_all (blank : α) (frames : List (List (R × α))) (labels : List α) :
    (massOf blank frames).all labels =
      weigh (alignments frames) fun alignment => collapse blank alignment = labels := by
  rw [Mass.all, massOf_blank, massOf_label, ← weigh_or _ fun _ one other => other.2 one.2]
  apply weigh_congr
  intro alignment
  by_cases ends : EndsInBlank blank alignment <;> simp [ends]

omit [Semiring R] in
/-- A label last: it is the last of what the alignment stands for, whether it repeats the symbol
    before it or not. -/
theorem collapse_snoc_label {blank last : α} (notBlank : last ≠ blank)
    (shorter alignment : List α) (symbol : α) :
    (collapse blank (alignment ++ [symbol]) = shorter ++ [last] ∧ symbol ≠ blank) ↔
      symbol = last ∧
        ((collapse blank alignment = shorter ++ [last] ∧ ¬ EndsInBlank blank alignment) ∨
          (collapse blank alignment = shorter ∧ alignment.getLast? ≠ some last)) := by
  rw [collapse_snoc]
  constructor
  · intro ⟨same, isLabel⟩
    by_cases repeated : alignment.getLast? = some symbol
    · rw [if_pos (Or.inr repeated)] at same
      have ends := getLast?_collapse alignment isLabel repeated
      rw [same, List.getLast?_concat, Option.some.injEq] at ends
      exact ⟨ends.symm, Or.inl ⟨same, not_endsInBlank.mpr ⟨symbol, repeated, isLabel⟩⟩⟩
    · rw [if_neg (by simp [isLabel, repeated])] at same
      obtain ⟨before, rfl⟩ := List.append_singleton_inj.mp same
      exact ⟨rfl, Or.inr ⟨before, repeated⟩⟩
  · intro ⟨isLast, before⟩
    subst isLast
    refine ⟨?_, notBlank⟩
    cases before with
    | inl merged =>
      obtain ⟨other, ends, -, last⟩ := getLast?_of_not_endsInBlank merged.2
      rw [merged.1, List.getLast?_concat, Option.some.injEq] at last
      rw [if_pos (Or.inr (last ▸ ends)), merged.1]
    | inr new => rw [if_neg (by simp [notBlank, new.2]), new.1]

/-- The alignments that one more label makes longer. -/
theorem weigh_shorter {blank last : α} (notBlank : last ≠ blank)
    (frames : List (List (R × α))) (shorter : List α) :
    (weigh (alignments frames) fun alignment =>
        collapse blank alignment = shorter ∧ alignment.getLast? ≠ some last) =
      if shorter.getLast? = some last then (massOf blank frames).blank shorter
      else (massOf blank frames).all shorter := by
  by_cases ends : shorter.getLast? = some last
  · rw [if_pos ends, massOf_blank]
    apply weigh_congr
    intro alignment
    apply and_congr_right
    intro same
    -- such an alignment ends in a blank or in the last of its labels
    by_cases blankLast : EndsInBlank blank alignment
    · simp only [blankLast, iff_true]
      intro labelLast
      exact not_endsInBlank.mpr ⟨last, labelLast, notBlank⟩ blankLast
    · obtain ⟨symbol, symbolLast, -, collapsed⟩ := getLast?_of_not_endsInBlank blankLast
      rw [same, ends] at collapsed
      simp [blankLast, symbolLast, collapsed]
  · rw [if_neg ends, massOf_all]
    apply weigh_congr
    intro alignment
    refine and_iff_left_of_imp fun same labelLast => ends ?_
    rw [← same]
    exact getLast?_collapse alignment notBlank labelLast

theorem massOf_snoc (blank : α) (frames : List (List (R × α))) (frame : List (R × α)) :
    massOf blank (frames ++ [frame]) = (massOf blank frames).step blank (weightOf frame) := by
  ext labels
  -- A path that ends in a blank is a shorter one and a blank.
  · simp only [Mass.step, massOf_all, massOf_blank, alignments_snoc]
    apply weigh_extend
    intro alignment last
    rw [endsInBlank_snoc, and_comm]
    refine and_congr_right fun isBlank => ?_
    rw [collapse_snoc, if_pos (Or.inl isBlank)]
  · rw [massOf_label]
    induction labels using List.reverseRecOn with
    | nil =>
      apply weigh_false
      intro alignment ends
      obtain ⟨symbol, -, -, last⟩ := getLast?_of_not_endsInBlank ends.2
      simp [ends.1] at last
    | append_singleton shorter last _ =>
      simp only [Mass.step, List.getLast?_concat, List.dropLast_concat]
      -- No path of labels ends in the blank.
      by_cases isBlank : last = blank
      · rw [if_pos isBlank]
        apply weigh_false
        intro alignment ends
        obtain ⟨symbol, -, notBlank, symbolLast⟩ := getLast?_of_not_endsInBlank ends.2
        rw [ends.1, List.getLast?_concat, Option.some.injEq] at symbolLast
        exact notBlank (symbolLast.symm.trans isBlank)
      -- A path that ends in a label repeats it, or has begun it with this frame.
      · rw [if_neg isBlank, ← weigh_shorter isBlank, massOf_label, ← weigh_or]
        · rw [alignments_snoc]
          apply weigh_extend
          intro alignment symbol
          rw [endsInBlank_snoc]
          exact collapse_snoc_label isBlank shorter alignment symbol
        · intro alignment merged new
          obtain ⟨symbol, ends, -, symbolLast⟩ := getLast?_of_not_endsInBlank merged.2
          rw [merged.1, List.getLast?_concat, Option.some.injEq] at symbolLast
          exact new.2 (symbolLast ▸ ends)

/-- Before the first frame there is the empty alignment only. -/
theorem massOf_nil (blank : α) (labels : List α) :
    (massOf blank ([] : List (List (R × α)))).blank labels = (if labels = [] then 1 else 0) ∧
      (massOf blank ([] : List (List (R × α)))).label labels = 0 := by
  constructor
  · cases labels <;> simp [massOf_blank, weigh, alignments, EndsInBlank]
  · simp [massOf_label, weigh, alignments, EndsInBlank]

end

/-! ## Larger and smaller weights -/

section
variable [Semiring R] [PartialOrder R] [CanonicallyOrderedAdd R] [IsOrderedRing R]

instance : Preorder (Mass α R) where
  le mass mass' :=
    (∀ labels, mass.blank labels ≤ mass'.blank labels) ∧
      ∀ labels, mass.label labels ≤ mass'.label labels
  le_refl _ := ⟨fun _ => le_rfl, fun _ => le_rfl⟩
  le_trans _ _ _ first second :=
    ⟨fun labels => (first.1 labels).trans (second.1 labels),
      fun labels => (first.2 labels).trans (second.2 labels)⟩

omit [DecidableEq α] [CanonicallyOrderedAdd R] in
theorem Mass.all_le {mass mass' : Mass α R} (smaller : mass ≤ mass') (labels : List α) :
    mass.all labels ≤ mass'.all labels :=
  add_le_add (smaller.1 labels) (smaller.2 labels)

theorem Mass.step_le {mass mass' : Mass α R} {weight weight' : α → R} (blank : α)
    (smaller : mass ≤ mass') (lighter : ∀ symbol, weight symbol ≤ weight' symbol) :
    mass.step blank weight ≤ mass'.step blank weight' := by
  constructor
  · intro labels
    exact mul_le_mul' (Mass.all_le smaller labels) (lighter blank)
  · intro labels
    simp only [Mass.step]
    split
    · exact le_rfl
    · split
      · exact le_rfl
      · apply mul_le_mul' _ (lighter _)
        apply add_le_add (smaller.2 labels)
        split
        · exact smaller.1 _
        · exact Mass.all_le smaller _

omit [DecidableEq α] in
theorem weigh_ne_zero {paths : List (List α × R)} {property : List α → Prop}
    [DecidablePred property] :
    weigh paths property ≠ 0 ↔ ∃ path ∈ paths, property path.1 ∧ path.2 ≠ 0 := by
  simp [weigh, List.sum_eq_zero_iff]

end

end Asr2Pass.Library
