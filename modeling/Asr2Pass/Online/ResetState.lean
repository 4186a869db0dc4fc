import Asr2Pass.Frontend.RowCounts
import Asr2Pass.Online.ScoredRows

/-! # The state after an utterance

`Forward` resets the object at the end of every branch that has handed rows to `ForwardChunk` in a
last call.  It returns before that when the call makes no rows, or when an exception takes it to its
handler; the object then goes into the next utterance as one that has begun.
-/

namespace Asr2Pass.Online

/-- The members have the values that `InitCache` and `ResetCache` give them. -/
structure IsReset {F α ρ K δ : Type} [Field K] (parts : OnlineParts F α ρ K δ)
    (online : ParaformerOnline F ρ K δ) : Prop where
  isFirstChunk : online.isFirstChunk = true
  isLastChunk : online.isLastChunk = false
  startIdxCache : online.startIdxCache = 0
  cif : online.cif = parts.cif.initCache
  featsCache : online.featsCache =
    List.replicate parts.cif.chunkSize.context.toNat parts.zeroRow
  features : online.features = parts.resetCache

namespace OnlineParts

variable {F α ρ K δ : Type} [Field K] [LinearOrder K] {parts : OnlineParts F α ρ K δ}
  {online : ParaformerOnline F ρ K δ} {answer : Answer F ρ K δ}

omit [LinearOrder K] in
@[simp] theorem reset_eq : parts.reset online = parts.fresh := rfl

omit [LinearOrder K] in
theorem isReset_fresh : IsReset parts parts.fresh := ⟨rfl, rfl, rfl, rfl, rfl, rfl⟩

theorem forwardOne_finished {wavFeats : List ρ}
    (returned : parts.forwardOne online wavFeats true = some answer) :
    answer.online = parts.fresh := by
  simp only [forwardOne, Option.bind_eq_bind, Option.bind_eq_some_iff] at returned
  obtain ⟨_, -, _, -, same⟩ := returned
  cases same
  rfl

theorem forwardTwo_finished {wavFeats : List ρ}
    (returned : parts.forwardTwo online wavFeats = some answer) :
    answer.online = parts.fresh := by
  simp only [forwardTwo, Option.bind_eq_bind, Option.bind_eq_some_iff] at returned
  obtain ⟨_, -, _, -, _, -, _, -, _, -, same⟩ := returned
  cases same
  rfl

/-- Rows in the last call end in a reset, in one list or in two. -/
theorem forwardRows_finished {wavFeats : List ρ}
    (returned : parts.forwardRows online wavFeats true = some answer) :
    answer.online = parts.fresh := by
  simp only [forwardRows, if_true] at returned
  split at returned
  · exact forwardOne_finished returned
  · exact forwardTwo_finished returned

theorem shortTail_finished (returned : parts.shortTail online = some answer) :
    answer.online = parts.fresh := by
  simp only [shortTail, Option.bind_eq_bind, Option.bind_eq_some_iff] at returned
  obtain ⟨_, -, same⟩ := returned
  cases same
  rfl

/-- A last call that is no short tail: reset when it makes rows, begun otherwise. -/
theorem forward_finished {samples : List α} {fault : Option (Fault F)}
    (whole : ¬ (samples.length < 16 * 60 ∧ online.isFirstChunk = false))
    (returned : parts.forward online ⟨samples, true, fault⟩ = some answer) :
    (fault = none ∧ (∃ wavFeats features, parts.extractFeats online.features samples true =
        some (wavFeats, features) ∧ wavFeats ≠ []) ∧ answer.online = parts.fresh) ∨
      ((fault = none → ∃ features, parts.extractFeats online.features samples true =
        some ([], features)) ∧ answer.online.isFirstChunk = false) := by
  unfold forward at returned
  rw [if_neg (by simpa using whole)] at returned
  -- A fault stops the call before the reset; without one only missing rows do.
  cases fault with
  | some fault =>
    right
    refine ⟨by simp, ?_⟩
    cases fault with
    | extractFeats features =>
      cases returned
      rfl
    | getPosEmb =>
      simp only [Option.bind_eq_bind, Option.bind_eq_some_iff] at returned
      obtain ⟨_, -, ends⟩ := returned
      simp only [Option.isSome_some, if_true] at ends
      split at ends
      · cases ends
        rfl
      · cases ends
        rfl
  | none =>
    simp only [Option.bind_eq_bind, Option.bind_eq_some_iff] at returned
    obtain ⟨⟨wavFeats, features⟩, extracted, ends⟩ := returned
    simp only [Option.isSome_none, Bool.false_eq_true, if_false] at ends
    split at ends
    · rename_i empty
      cases ends
      exact .inr ⟨fun _ => ⟨features, by rw [extracted, empty]⟩, rfl⟩
    · rename_i made
      exact .inl ⟨rfl, ⟨wavFeats, features, extracted, made⟩, forwardRows_finished ends⟩

end OnlineParts

namespace OnlineModel

open Frontend (FeatureCache computeFrameNum newFrames)

variable {α β K δ : Type} [Add β] [Mul β] [Zero β] [Field K] [LinearOrder K]
  {model : OnlineModel α β K δ} {online : ParaformerOnline (FeatureCache α β) (List β) K δ}

/-- A last call that resets: it is a short tail, or no exception reaches the handler of `Forward` and
    the waiting samples make a frame or more frames wait than the copies of a first one. -/
def Resets (model : OnlineModel α β K δ)
    (online : ParaformerOnline (FeatureCache α β) (List β) K δ)
    (call : ForwardCall (FeatureCache α β) α) : Prop :=
  call.samples.length < 16 * 60 ∧ online.isFirstChunk = false ∨
    call.fault = none ∧
      (0 < computeFrameNum model.framing
          (online.features.inputCache.length + call.samples.length) ∨
        model.lfr.copies < online.features.lfrSpliceCache.length)

omit [Field K] [LinearOrder K] in
/-- When the last call makes rows. -/
theorem extractFeats_made {samples : List α} {wavFeats : List (List β)}
    {features : FeatureCache α β}
    (extracted : model.parts.extractFeats online.features samples true =
      some (wavFeats, features)) :
    wavFeats ≠ [] ↔ 0 < computeFrameNum model.framing
        (online.features.inputCache.length + samples.length) ∨
      model.lfr.copies < online.features.lfrSpliceCache.length := by
  obtain ⟨rows, ran, same⟩ := Option.map_eq_some_iff.mp extracted
  cases same
  have made := Frontend.extractFeats_ne_nil ran
  rw [made, newFrames, ← List.length_pos_iff, Frontend.length_fbankFrames, List.length_append]
  simp

/-- In any state, a last call leaves a new object if and only if it resets. -/
theorem forward_isReset {call : ForwardCall (FeatureCache α β) α} (final : call.inputFinished = true)
    {answer : Answer (FeatureCache α β) (List β) K δ}
    (returned : model.parts.forward online call = some answer) :
    (IsReset model.parts answer.online ↔ model.Resets online call) ∧
      (model.Resets online call → answer.online = model.parts.fresh) := by
  obtain ⟨samples, inputFinished, fault⟩ := call
  cases final
  by_cases short : samples.length < 16 * 60 ∧ online.isFirstChunk = false
  · have fresh : answer.online = model.parts.fresh := by
      unfold OnlineParts.forward at returned
      rw [if_pos (by simpa using short)] at returned
      exact OnlineParts.shortTail_finished returned
    have resets : model.Resets online ⟨samples, true, fault⟩ := .inl short
    rw [fresh]
    exact ⟨⟨fun _ => resets, fun _ => OnlineParts.isReset_fresh⟩, fun _ => rfl⟩
  · cases OnlineParts.forward_finished short returned with
    | inl made =>
      obtain ⟨rfl, ⟨wavFeats, features, extracted, rows⟩, fresh⟩ := made
      have resets : model.Resets online ⟨samples, true, none⟩ :=
        .inr ⟨rfl, (extractFeats_made extracted).mp rows⟩
      rw [fresh]
      exact ⟨⟨fun _ => resets, fun _ => OnlineParts.isReset_fresh⟩, fun _ => rfl⟩
    -- Otherwise the first chunk stays begun, which a new object is not.
    | inr left =>
      obtain ⟨empty, begun⟩ := left
      have keeps : ¬ model.Resets online ⟨samples, true, fault⟩ := by
        rintro (tail | ⟨unharmed, rows⟩)
        · exact short tail
        · obtain ⟨features, extracted⟩ := empty unharmed
          exact (extractFeats_made extracted).mpr rows rfl
      refine ⟨⟨fun reset => ?_, fun resets => absurd resets keeps⟩,
        fun resets => absurd resets keeps⟩
      have first := reset.isFirstChunk
      rw [begun] at first
      cases first

/-- Whatever calls came before, the object is a new one after a last call if and only if that call
    resets. -/
theorem isReset_iff {calls : List (ForwardCall (FeatureCache α β) α)}
    {call : ForwardCall (FeatureCache α β) α} (final : call.inputFinished = true)
    {presented : List (List (List β))}
    {last : ParaformerOnline (FeatureCache α β) (List β) K δ}
    (ran : model.parts.forwards model.parts.fresh (calls ++ [call]) = some (presented, last)) :
    (IsReset model.parts last ↔ ∃ before online,
        model.parts.forwards model.parts.fresh calls = some (before, online) ∧
          model.Resets online call) ∧
      (IsReset model.parts last → last = model.parts.fresh) := by
  simp only [OnlineParts.forwards_append, Option.bind_eq_bind, Option.bind_eq_some_iff] at ran
  obtain ⟨⟨before, online⟩, ran, answer, returned, same⟩ := ran
  cases same
  obtain ⟨reset, fresh⟩ := forward_isReset final returned
  refine ⟨⟨fun isReset => ⟨before, online, ran, reset.mp isReset⟩, ?_⟩,
    fun isReset => fresh (reset.mp isReset)⟩
  rintro ⟨before', online', ran', resets⟩
  rw [ran] at ran'
  cases ran'
  exact reset.mpr resets

end OnlineModel

/-! ## Two last calls -/

/-- Two calls that are not final make a row each, and the last one is a short tail. -/
theorem isReset_shortTail : ∃ presented last,
    smallModel.parts.forwards smallModel.parts.fresh
        ([⟨[1, 2, 3, 4], false, none⟩, ⟨[5, 6, 7, 8, 9, 10], false, none⟩] ++ [⟨[11], true, none⟩]) =
      some (presented, last) ∧ IsReset smallModel.parts last := by
  have returns : (smallModel.parts.forwards smallModel.parts.fresh
      ([⟨[1, 2, 3, 4], false, none⟩, ⟨[5, 6, 7, 8, 9, 10], false, none⟩] ++
        [⟨[11], true, none⟩])).isSome = true := by
    decide +kernel
  obtain ⟨⟨presented, last⟩, ran⟩ := Option.isSome_iff_exists.mp returns
  have begun : (smallModel.parts.forwards smallModel.parts.fresh
      [⟨[1, 2, 3, 4], false, none⟩, ⟨[5, 6, 7, 8, 9, 10], false, none⟩]).map (·.2.isFirstChunk) =
        some false := by
    decide +kernel
  obtain ⟨⟨before, online⟩, ran', going⟩ := Option.map_eq_some_iff.mp begun
  refine ⟨presented, last, ran, (OnlineModel.isReset_iff rfl ran).1.mpr ?_⟩
  exact ⟨before, online, ran', .inl ⟨by decide, going⟩⟩

/-- A recording without samples: the object goes on as one that has begun. -/
theorem not_isReset_noSamples : ∃ presented last,
    smallModel.parts.forwards smallModel.parts.fresh [⟨[], true, none⟩] =
      some (presented, last) ∧ ¬ IsReset smallModel.parts last := by
  refine ⟨_, _, rfl, ?_⟩
  intro reset
  have first := reset.isFirstChunk
  cases first

end Asr2Pass.Online
