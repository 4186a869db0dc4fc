import Mathlib.Data.List.Basic

/-! # Values in quotes

A writer escapes a symbol by a backslash.  A reader that remembers the escape for one symbol longer
takes the next backslash for a plain symbol.  A text is gaps and quoted values in turn; reader and
writer see the same values in it only when the reader gets through each of them.
-/

namespace Asr2Pass.Library

variable {α : Type*} (quote backslash : α)

/-- Neither a quote nor a backslash. -/
def Gap (gap : List α) : Prop := quote ∉ gap ∧ backslash ∉ gap

/-- A text as gaps and quoted values in turn. -/
inductive Cuts (property : List α → Prop) : List (List α) → List α → Prop where
  | gap {gap : List α} : Gap quote backslash gap → Cuts property [] gap
  | value {gap value text : List α} {values : List (List α)} : Gap quote backslash gap →
      property value → Cuts property values text →
        Cuts property (value :: values) (gap ++ quote :: (value ++ quote :: text))

variable {quote backslash} {gap gap' first second text text' : List α}
  {values values' : List (List α)} {property : List α → Prop}

theorem Gap.append (isGap : Gap quote backslash gap) (isGap' : Gap quote backslash gap') :
    Gap quote backslash (gap ++ gap') := by
  simp only [Gap, List.mem_append, not_or]
  exact ⟨⟨isGap.1, isGap'.1⟩, isGap.2, isGap'.2⟩

theorem Gap.tail {symbol : α} (isGap : Gap quote backslash (symbol :: gap)) :
    Gap quote backslash gap :=
  ⟨fun inside => isGap.1 (.tail _ inside), fun inside => isGap.2 (.tail _ inside)⟩

theorem Cuts.gap_append (isGap : Gap quote backslash gap)
    (cuts : Cuts quote backslash property values text) :
    Cuts quote backslash property values (gap ++ text) := by
  cases cuts with
  | gap isGap' => exact .gap (isGap.append isGap')
  | value isGap' holds cuts =>
    rw [← List.append_assoc]
    exact .value (isGap.append isGap') holds cuts

theorem Cuts.append (cuts : Cuts quote backslash property values text)
    (cuts' : Cuts quote backslash property values' text') :
    Cuts quote backslash property (values ++ values') (text ++ text') := by
  induction cuts with
  | gap isGap => exact cuts'.gap_append isGap
  | value isGap holds _ inductionHypothesis =>
    simp only [List.append_assoc, List.cons_append]
    exact .value isGap holds inductionHypothesis

theorem cuts_value {value : List α} (holds : property value) :
    Cuts quote backslash property [value] (quote :: (value ++ [quote])) :=
  have nothing : Gap quote backslash [] := ⟨List.not_mem_nil, List.not_mem_nil⟩
  .value nothing holds (.gap nothing)

theorem Cuts.forall_mem (cuts : Cuts quote backslash property values text) :
    ∀ value ∈ values, property value := by
  induction cuts with
  | gap => exact fun _ member => nomatch member
  | value _ holds _ inductionHypothesis => exact List.forall_mem_cons.mpr ⟨holds, inductionHypothesis⟩

/-- A text that is one gap has no quote. -/
theorem no_quote (isGap : Gap quote backslash gap) (same : first ++ quote :: second = gap) :
    False :=
  isGap.1 (by simp [← same])

/-- Up to its first quote a text is one gap. -/
theorem gap_gap (isGap : quote ∉ gap) (isGap' : quote ∉ gap')
    (same : gap ++ quote :: first = gap' ++ quote :: second) : gap = gap' ∧ first = second := by
  induction gap generalizing gap' with
  | nil =>
    cases gap' with
    | nil => exact ⟨rfl, (List.cons.inj same).2⟩
    | cons symbol' rest' => exact absurd (by simp [(List.cons.inj same).1]) isGap'
  | cons symbol rest inductionHypothesis =>
    cases gap' with
    | nil => exact absurd (by simp [(List.cons.inj same).1]) isGap
    | cons symbol' rest' =>
      obtain ⟨rfl, same'⟩ := List.cons.inj same
      obtain ⟨rfl, further⟩ := inductionHypothesis (fun inside => isGap (.tail _ inside))
        (fun inside => isGap' (.tail _ inside)) same'
      exact ⟨rfl, further⟩

/-! ## The writer and the reader -/

variable [DecidableEq α] (quote backslash)

/-- The writer: a quote stands only behind a backslash, and every backslash has its symbol. -/
def Written : Bool → List α → Prop
  | behind, [] => behind = false
  | true, _ :: rest => Written false rest
  | false, symbol :: rest => symbol ≠ quote ∧ Written (symbol = backslash) rest

/-- The reader is inside of a value with its flag, or takes the next symbol whatever it is. -/
inductive Reading where
  | value (escape : Bool)
  | escaped
  deriving DecidableEq, Repr

/-- The reader after a symbol that does not close the value. -/
def Reading.next (symbol : α) : Reading → Reading
  | value escape => if symbol = backslash && !escape then escaped else value false
  | escaped => value true

/-- The reader comes to the end of the value and waits there for the quote. -/
def Through : Reading → List α → Prop
  | .value _, [] => True
  | .escaped, [] => False
  | .value escape, symbol :: rest =>
    symbol ≠ quote ∧ Through ((Reading.value escape).next backslash symbol) rest
  | .escaped, _ :: rest => Through (.value true) rest

variable {quote backslash} {reading : Reading} {escape behind : Bool} {value value' : List α}

theorem through_cons {symbol : α} {rest : List α}
    (through : Through quote backslash reading (symbol :: rest)) :
    Through quote backslash (reading.next backslash symbol) rest := by
  cases reading with
  | value escape => exact through.2
  | escaped => exact through

/-! ## A gap against a value -/

/-- A reader inside of a value reads a gap up to its quote. -/
theorem through_gap (isGap : Gap quote backslash gap)
    (through : Through quote backslash (.value escape) value)
    (same : gap ++ quote :: first = value ++ quote :: second) : value = gap ∧ first = second := by
  induction gap generalizing escape value with
  | nil =>
    cases value with
    | nil => exact ⟨rfl, (List.cons.inj same).2⟩
    | cons symbol rest => exact absurd (List.cons.inj same).1.symm through.1
  | cons symbol rest inductionHypothesis =>
    cases value with
    | nil => exact absurd (List.mem_cons.mpr (.inl (List.cons.inj same).1.symm)) isGap.1
    | cons symbol' rest' =>
      obtain ⟨rfl, same'⟩ := List.cons.inj same
      have plain : symbol ≠ backslash := fun is => isGap.2 (by simp [is])
      have next := through_cons through
      rw [Reading.next, decide_eq_false plain, Bool.false_and, if_neg Bool.false_ne_true] at next
      obtain ⟨rfl, rest⟩ := inductionHypothesis isGap.tail next same'
      exact ⟨rfl, rest⟩

/-- A writer inside of a value writes a gap up to its quote. -/
theorem written_gap (isGap : Gap quote backslash gap) (written : Written quote backslash false value)
    (same : value ++ quote :: first = gap ++ quote :: second) : first = second := by
  induction gap generalizing value with
  | nil =>
    cases value with
    | nil => exact (List.cons.inj same).2
    | cons symbol rest => exact absurd (List.cons.inj same).1 written.1
  | cons symbol rest inductionHypothesis =>
    cases value with
    | nil => exact absurd (List.mem_cons.mpr (.inl (List.cons.inj same).1)) isGap.1
    | cons symbol' rest' =>
      obtain ⟨rfl, same'⟩ := List.cons.inj same
      have plain : symbol' ≠ backslash := fun is => isGap.2 (by simp [is])
      have next := written.2
      rw [decide_eq_false plain] at next
      exact inductionHypothesis isGap.tail next same'

/-! ## A value against a value -/

/-- The reader stops where the writer does, or it stops at a quote of the value, or it takes the
    closing quote for an escaped one and goes on. -/
theorem written_through (written : Written quote backslash behind value)
    (through : Through quote backslash reading value')
    (same : value ++ quote :: first = value' ++ quote :: second) :
    value = value' ∧ first = second ∨
      (∃ rest, Written quote backslash false rest ∧ rest ++ quote :: first = second) ∨
      ∃ rest, Through quote backslash (.value true) rest ∧ first = rest ++ quote :: second := by
  -- On what was written: the two texts run in step until one of them meets a quote.
  induction value generalizing behind reading value' with
  | nil =>
    cases value' with
    | nil => exact .inl ⟨rfl, (List.cons.inj same).2⟩
    | cons symbol rest =>
      obtain ⟨rfl, same'⟩ := List.cons.inj same
      cases reading with
      | value escape => exact absurd rfl through.1
      | escaped => exact .inr (.inr ⟨rest, through, same'⟩)
  | cons symbol rest inductionHypothesis =>
    cases value' with
    | nil =>
      obtain ⟨rfl, same'⟩ := List.cons.inj same
      cases behind with
      | false => exact absurd rfl written.1
      | true => exact .inr (.inl ⟨rest, written, same'⟩)
    | cons symbol' rest' =>
      obtain ⟨rfl, same'⟩ := List.cons.inj same
      have next : ∃ behind', Written quote backslash behind' rest := by
        cases behind with
        | false => exact ⟨_, written.2⟩
        | true => exact ⟨_, written⟩
      obtain ⟨behind', next⟩ := next
      obtain equal | further := inductionHypothesis next (through_cons through) same'
      · exact .inl ⟨by rw [equal.1], equal.2⟩
      · exact .inr further

/-! ## Whole texts -/

/-- Once the writer is inside of a value where the reader is in a gap, this never mends. -/
theorem not_outside (cuts : Cuts quote backslash (Written quote backslash false) values text)
    (cuts' : Cuts quote backslash (Through quote backslash (.value false)) values' text')
    (written : Written quote backslash false value) (same : value ++ quote :: text = text') :
    False := by
  induction cuts generalizing value values' text' with
  | gap isGap =>
    cases cuts' with
    | gap isGap' => exact no_quote isGap' same
    | value isGap' through cuts' => exact no_quote isGap (written_gap isGap' written same).symm
  | value isGap written' cuts inductionHypothesis =>
    cases cuts' with
    | gap isGap' => exact no_quote isGap' same
    | value isGap' through cuts' =>
      -- the quote of the writer opens a value for the reader, and the next one closes it
      obtain ⟨_, outside⟩ := through_gap isGap through (written_gap isGap' written same)
      exact inductionHypothesis cuts' written' outside

/-- A text that both the writer and the reader can cut has the same values for both. -/
theorem Cuts.unique (cuts : Cuts quote backslash (Written quote backslash false) values text)
    (cuts' : Cuts quote backslash (Through quote backslash (.value false)) values' text) :
    values = values' := by
  generalize same : text = text' at cuts'
  induction cuts generalizing values' text' with
  | gap isGap =>
    cases cuts' with
    | gap => rfl
    | value => exact (no_quote isGap same.symm).elim
  | value isGap written cuts inductionHypothesis =>
    cases cuts' with
    | gap isGap' => exact (no_quote isGap' same).elim
    | value isGap' through cuts' =>
      obtain ⟨_, behind⟩ := gap_gap isGap.1 isGap'.1 same
      obtain ⟨value, rests⟩ | ⟨further, written, inside⟩ | ⟨further, through, inside⟩ :=
        written_through written through behind
      · rw [value, inductionHypothesis _ rests cuts']
      · exact (not_outside cuts cuts' written inside).elim
      · cases cuts with
        | gap isGap => exact (no_quote isGap inside.symm).elim
        | value isGap written cuts =>
          -- the quote of the next value closes the one that the reader is in
          obtain ⟨_, outside⟩ := through_gap isGap through inside
          exact (not_outside cuts cuts' written outside).elim

/-! ## Other symbols -/

section

variable {β : Type*} [DecidableEq β] {f : α → β}

theorem through_map (injective : Function.Injective f) :
    Through (f quote) (f backslash) reading (value.map f) ↔
      Through quote backslash reading value := by
  induction value generalizing reading with
  | nil => cases reading <;> rfl
  | cons symbol rest inductionHypothesis =>
    cases reading with
    | escaped => exact inductionHypothesis
    | value escape =>
      simp only [List.map_cons, Through, Reading.next, injective.ne_iff, injective.eq_iff]
      rw [inductionHypothesis]

theorem written_map (injective : Function.Injective f) :
    Written (f quote) (f backslash) behind (value.map f) ↔ Written quote backslash behind value := by
  induction value generalizing behind with
  | nil => rfl
  | cons symbol rest inductionHypothesis =>
    cases behind with
    | true => exact inductionHypothesis
    | false =>
      simp only [List.map_cons, Written, injective.ne_iff, injective.eq_iff]
      rw [inductionHypothesis]

end

instance decidableThrough : (reading : Reading) → (value : List α) →
    Decidable (Through quote backslash reading value)
  | .value _, [] => .isTrue trivial
  | .escaped, [] => .isFalse id
  | .value escape, symbol :: rest =>
    have := decidableThrough ((Reading.value escape).next backslash symbol) rest
    inferInstanceAs (Decidable (symbol ≠ quote ∧ _))
  | .escaped, _ :: rest => decidableThrough (.value true) rest

end Asr2Pass.Library
