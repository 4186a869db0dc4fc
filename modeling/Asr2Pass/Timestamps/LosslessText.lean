import Asr2Pass.Text.Detokenize
import Asr2Pass.Timestamps.PostProcess

/-! # No text is lost

`PostProcess` and `Vector2StringV2` join the same words.  Both skip `</s>` before they test for the
last token, so a sub-word before it waits for a token that is skipped.
-/

namespace Asr2Pass.Timestamps

open Text

theorem wordsText_append (words words' : List Word) :
    wordsText (words ++ words') = wordsText words ++ wordsText words' := by
  simp [wordsText]

theorem visible_wordsText_single (word : Word) : visible (wordsText [word]) = visible word.text := by
  cases spaced : word.spaced with
  | false => simp [wordsText, spaced]
  | true => simp [wordsText, spaced]

namespace Merging
variable {merging merging' : Merging}

/-- Nothing has been collected outside a word. -/
def Idle (merging : Merging) : Prop := merging.isCombining = false → merging.combine = []

theorem push_visible (merging : Merging) (word : CString) (stamp : Stamp) :
    visible (wordsText (merging.push word stamp).words) =
        visible (wordsText merging.words) ++ visible word ∧
      (merging.push word stamp).isCombining = merging.isCombining ∧
      (merging.push word stamp).combine = merging.combine := by
  unfold push
  split
  all_goals simp [wordsText_append, visible_wordsText_single]

theorem finish_visible (idle : merging.Idle) (word : CString) (stamp : Stamp) :
    visible (wordsText (merging.finish word stamp).words) =
        visible (wordsText merging.words) ++ visible (merging.combine ++ word) ∧
      (merging.finish word stamp).combine = [] := by
  rw [finish]
  cases combining : merging.isCombining with
  | false =>
    obtain ⟨text, -, combine⟩ := merging.push_visible word stamp
    rw [idle combining] at combine ⊢
    exact ⟨text, combine⟩
  | true =>
    obtain ⟨text, -, combine⟩ := push_visible
      { merging with isCombining := false, combine := [] } (merging.combine ++ word) stamp
    exact ⟨text, combine⟩

/-- A turn takes a token from those that are still to be written. -/
theorem step_visible (idle : merging.Idle) {token : CString} {rest : List CString}
    {stamp : Option Stamp} (step : merging.step token rest.head? stamp = some merging') :
    merging'.Idle ∧
      visible (wordsText merging'.words) ++ visible (wordsOf merging'.combine rest).flatten =
        visible (wordsText merging.words) ++
          visible (wordsOf merging.combine (token :: rest)).flatten := by
  rw [Merging.step, show contains token (bytes "@@") = isSubWord token from rfl] at step
  rw [wordsOf, isKept, wordEnd]
  cases special : isSpecial token with
  | true =>
    obtain rfl : merging = merging' := by simpa [special] using step
    exact ⟨idle, rfl⟩
  | false =>
    cases sub : isSubWord token with
    | false =>
      obtain ⟨value, -, rfl⟩ : ∃ value, stamp = some value ∧ merging.finish token value = merging' := by
        simpa [special, sub] using step
      obtain ⟨text, empty⟩ := merging.finish_visible idle token value
      exact ⟨fun _ => empty, by simp [text, empty]⟩
    | true =>
      cases chinese : rest.head?.all isChinese with
      | true =>
        obtain ⟨value, -, rfl⟩ : ∃ value, stamp = some value ∧
            merging.finish (eraseMark token ++ bytes " ") value = merging' := by
          simpa [special, sub, chinese] using step
        obtain ⟨text, empty⟩ := merging.finish_visible idle (eraseMark token ++ bytes " ") value
        refine ⟨fun _ => empty, ?_⟩
        -- The space behind the sub-word is written here where the tokens end, too.
        have ending : visible (if rest = [] then [] else bytes " ") = [] := by
          split
          · rfl
          · exact visible_space
        simp [text, empty, ending]
      | false =>
        obtain ⟨begin, rfl⟩ : ∃ begin, merging' = { merging with
            isCombining := true, combine := merging.combine ++ eraseMark token, begin } := by
          rw [if_neg (by simp [special]), if_pos sub, if_neg (by simp [chinese]), collect] at step
          cases combining : merging.isCombining with
          | true => exact ⟨merging.begin, by simpa [combining] using step.symm⟩
          | false =>
            rw [combining, if_neg Bool.false_ne_true] at step
            obtain ⟨begin, -, same⟩ := Option.bind_eq_some_iff.mp step
            exact ⟨begin, (Option.some.inj same).symm⟩
        exact ⟨by simp [Merging.Idle], by simp⟩

/-- The loop writes the words of the tokens. -/
theorem loop_visible (idle : merging.Idle) {tokens : List CString} {stamps : List Stamp}
    (run : merging.loop tokens stamps = some merging') :
    visible (wordsText merging'.words) =
      visible (wordsText merging.words) ++ visible (wordsOf merging.combine tokens).flatten := by
  induction tokens generalizing merging stamps with
  | nil =>
    cases run
    simp [wordsOf]
  | cons token rest inductionHypothesis =>
    obtain ⟨next, stepped, others⟩ := Option.bind_eq_some_iff.mp run
    obtain ⟨idle', text⟩ := step_visible idle stepped
    rw [inductionHypothesis idle' others, text]

end Merging

theorem emitted_visible {tokens : List CString} {stamps : List Stamp} {words : List Word}
    (emits : emitted tokens stamps = some words) :
    visible (wordsText words) = visible (wordsOf [] tokens).flatten := by
  obtain ⟨final, run, rfl⟩ := Option.map_eq_some_iff.mp emits
  simpa [wordsText] using @Merging.loop_visible {} final (fun _ => rfl) tokens stamps run

/-- The text is what the tokens spell, spaces aside. -/
def HasTextOf (tokens : List CString) (text : CString) : Prop :=
  visible text = visible (detokenized tokens)

instance (tokens : List CString) (text : CString) : Decidable (HasTextOf tokens text) :=
  inferInstanceAs (Decidable (_ = _))

/-- The words are all of the text exactly where no sub-word is forfeited. -/
theorem hasTextOf_words_iff {tokens : List CString} (marks : MarksAtEnd tokens) :
    HasTextOf tokens (wordsOf [] tokens).flatten ↔ ¬ Forfeits (· ≠ 0x20) tokens := by
  have whole := wordsOf_visible marks []
  rw [visible_nil, List.nil_append] at whole
  rw [HasTextOf, ← whole, forfeits_iff, not_not, List.self_eq_append_right]
  rfl

/-- No text is lost exactly where no sub-word is forfeited, with any stamps and any spaces. -/
theorem text_is_kept_iff {vocab : List CString} {ids : List Nat} {tokens : List CString}
    (spells : Spells vocab ids tokens) (marks : MarksAtEnd tokens) :
    (∀ language, language ≠ bytes "en-bpe" → ∀ isCompleteEnglish,
        ((∃ text vocab', (⟨vocab, isCompleteEnglish⟩ : Vocab).vector2StringV2 ids language =
          some (text, vocab') ∧ HasTextOf tokens text) ↔ ¬ Forfeits (· ≠ 0x20) tokens)) ∧
      ∀ stamps words, emitted tokens stamps = some words →
        (HasTextOf tokens (wordsText words) ↔ ¬ Forfeits (· ≠ 0x20) tokens) := by
  constructor
  · intro language other need
    rw [vector2StringV2_eq spells other need, ← hasTextOf_words_iff marks, HasTextOf,
      ← visible_textFrom need none]
    constructor
    · rintro ⟨text, vocab', same, has⟩
      obtain ⟨rfl, rfl⟩ := Prod.mk.inj (Option.some.inj same)
      exact has
    · exact fun has => ⟨_, _, rfl, has⟩
  · intro stamps words emits
    rw [← hasTextOf_words_iff marks, HasTextOf, emitted_visible emits]
    rfl

private def loved : List CString := [bytes "lo@@", bytes "ve", bytes "</s>"]

theorem text_is_kept_loved : ∃ text vocab',
    (⟨loved, true⟩ : Vocab).vector2StringV2 [0, 1, 2] [] = some (text, vocab') ∧
      HasTextOf loved text :=
  ((@text_is_kept_iff loved [0, 1, 2] loved rfl (by unfold MarksAtEnd; decide)).1 [] (by decide)
    true).mpr (by decide)

private def unfinished : List CString := [bytes "lo@@", bytes "</s>"]

/-- A sentence that ends inside a word loses what has been recognized of it. -/
theorem not_text_is_kept_unfinished :
    Spells unfinished [0, 1] unfinished ∧ MarksAtEnd unfinished ∧
      ((⟨unfinished, false⟩ : Vocab).vector2StringV2 [0, 1] []).map Prod.fst = some [] ∧
      ¬ HasTextOf unfinished [] ∧
      emitted unfinished [(0, 1), (1, 2)] = some [] ∧ ¬ HasTextOf unfinished (wordsText []) := by
  refine ⟨rfl, ?_, by decide, by decide, by decide, by decide⟩
  unfold MarksAtEnd
  decide

end Asr2Pass.Timestamps
