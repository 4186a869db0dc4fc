import Asr2Pass.Online.ChunkGeometry
import Asr2Pass.Online.ResetState

/-! # The row lists of `Forward`

`ForwardChunk` changes none of the members that decide which rows a call copies and keeps, so the
row lists are those of a model whose encoder throws.
-/

namespace Asr2Pass.Online

/-- The members that decide about the row lists. -/
structure SameRows {F ρ K δ : Type} (online online' : ParaformerOnline F ρ K δ) : Prop where
  features : online'.features = online.features
  startIdxCache : online'.startIdxCache = online.startIdxCache
  featsCache : online'.featsCache = online.featsCache
  isFirstChunk : online'.isFirstChunk = online.isFirstChunk
  isLastChunk : online'.isLastChunk = online.isLastChunk

theorem SameRows.trans {F ρ K δ : Type} {online online' online'' : ParaformerOnline F ρ K δ}
    (first : SameRows online online') (second : SameRows online' online'') : SameRows online online'' :=
  ⟨second.features.trans first.features, second.startIdxCache.trans first.startIdxCache,
    second.featsCache.trans first.featsCache, second.isFirstChunk.trans first.isFirstChunk,
    second.isLastChunk.trans first.isLastChunk⟩

namespace OnlineParts

variable {F α ρ K δ : Type} [Field K] [LinearOrder K] {parts : OnlineParts F α ρ K δ}
  {online online' : ParaformerOnline F ρ K δ}

/-- `Forward` with an encoder that throws: only the row lists are left. -/
def rowsOnly (parts : OnlineParts F α ρ K δ) : OnlineParts F α ρ K δ :=
  { parts with encoder := fun _ => none }

theorem forwardChunk_rowsOnly (online : ParaformerOnline F ρ K δ) (chunkFeats : List ρ) :
    parts.rowsOnly.forwardChunk online chunkFeats = some ("", online) := rfl

/-- `ForwardChunk` leaves the row lists as they are. -/
theorem forwardChunk_sameRows {chunkFeats : List ρ} {result : String}
    {next : ParaformerOnline F ρ K δ}
    (returned : parts.forwardChunk online chunkFeats = some (result, next)) :
    SameRows next online := by
  unfold forwardChunk at returned
  split at returned
  · cases returned
    exact ⟨rfl, rfl, rfl, rfl, rfl⟩
  · obtain ⟨⟨listFrame, cif⟩, -, decoded⟩ := Option.bind_eq_some_iff.mp returned
    simp only at decoded
    split at decoded
    · split at decoded <;> cases decoded <;> exact ⟨rfl, rfl, rfl, rfl, rfl⟩
    · cases decoded
      exact ⟨rfl, rfl, rfl, rfl, rfl⟩

omit [Field K] [LinearOrder K] in
theorem overlap_sameRows (same : SameRows online online') {wavFeats chunk : List ρ}
    {inputFinished : Bool} {next : ParaformerOnline F ρ K δ}
    (returned : parts.overlap online wavFeats inputFinished = some (chunk, next)) :
    ∃ next', parts.rowsOnly.overlap online' wavFeats inputFinished = some (chunk, next') ∧
      SameRows next next' := by
  obtain ⟨kept, added, rfl⟩ := overlap_eq_some_iff.mp returned
  rw [← same.isLastChunk, ← same.featsCache] at added
  exact ⟨_, overlap_eq_some_iff.mpr ⟨kept, added, rfl⟩, same.features, same.startIdxCache, rfl,
    same.isFirstChunk, same.isLastChunk⟩

/-- The same lists, and the same members after the call. -/
structure SameAnswer (answer answer' : Answer F ρ K δ) : Prop where
  presented : answer'.presented = answer.presented
  online : SameRows answer.online answer'.online

omit [LinearOrder K] in
theorem sameRows_reset : SameRows (parts.reset online) (parts.rowsOnly.reset online') :=
  ⟨rfl, rfl, rfl, rfl, rfl⟩

theorem forwardOne_sameRows (same : SameRows online online') {wavFeats : List ρ}
    {inputFinished : Bool} {answer : Answer F ρ K δ}
    (returned : parts.forwardOne online wavFeats inputFinished = some answer) :
    ∃ answer', parts.rowsOnly.forwardOne online' wavFeats inputFinished = some answer' ∧
      SameAnswer answer answer' := by
  simp only [forwardOne, Option.bind_eq_bind, Option.bind_eq_some_iff, Option.pure_def] at returned
  obtain ⟨⟨chunk, next⟩, overlapped, ⟨result, last⟩, forwarded, made⟩ := returned
  cases made
  obtain ⟨next', overlapped', same'⟩ := overlap_sameRows same overlapped
  have after : SameRows last next' := (forwardChunk_sameRows forwarded).trans same'
  simp only [forwardOne, overlapped', Option.bind_eq_bind, Option.bind_some]
  refine ⟨_, rfl, rfl, ?_⟩
  cases inputFinished with
  | false => exact after
  | true => exact sameRows_reset

theorem forwardTwo_sameRows (same : SameRows online online') {wavFeats : List ρ}
    {answer : Answer F ρ K δ} (returned : parts.forwardTwo online wavFeats = some answer) :
    ∃ answer', parts.rowsOnly.forwardTwo online' wavFeats = some answer' ∧
      SameAnswer answer answer' := by
  simp only [forwardTwo, Option.bind_eq_bind, Option.bind_eq_some_iff, Option.pure_def] at returned
  obtain ⟨⟨first, next⟩, overlapped, ⟨strFirst, middle⟩, forwarded, rest, cut, ⟨last, next₂⟩,
    overlapped₂, ⟨strLast, final⟩, -, made⟩ := returned
  cases made
  obtain ⟨next', overlapped', same'⟩ := overlap_sameRows same overlapped
  have after : SameRows middle next' := (forwardChunk_sameRows forwarded).trans same'
  have marked : SameRows { middle with isLastChunk := true } { next' with isLastChunk := true } :=
    ⟨after.features, after.startIdxCache, after.featsCache, after.isFirstChunk, rfl⟩
  obtain ⟨next₂', overlapped₂', -⟩ := overlap_sameRows marked overlapped₂
  refine ⟨⟨"" ++ "", [first, last], parts.rowsOnly.reset next₂'⟩, ?_, rfl, sameRows_reset⟩
  simp only [forwardTwo, overlapped', Option.bind_eq_bind, Option.bind_some, Option.pure_def,
    forwardChunk_rowsOnly]
  rw [show parts.rowsOnly.cif = parts.cif from rfl, cut]
  simp only [Option.bind_some, overlapped₂']

theorem forwardRows_sameRows (same : SameRows online online') {wavFeats : List ρ}
    {inputFinished : Bool} {answer : Answer F ρ K δ}
    (returned : parts.forwardRows online wavFeats inputFinished = some answer) :
    ∃ answer', parts.rowsOnly.forwardRows online' wavFeats inputFinished = some answer' ∧
      SameAnswer answer answer' := by
  obtain ⟨features, startIdxCache, featsCache, isFirstChunk, isLastChunk⟩ := same
  have cif : parts.rowsOnly.cif = parts.cif := rfl
  have embed : parts.rowsOnly.embed = parts.embed := rfl
  simp only [forwardRows] at returned
  simp only [forwardRows, cif, embed, startIdxCache]
  cases inputFinished with
  | false =>
    simp only [Bool.false_eq_true, if_false] at returned ⊢
    refine forwardOne_sameRows ?_ returned
    exact ⟨features, rfl, featsCache, isFirstChunk, isLastChunk⟩
  | true =>
    simp only [if_true] at returned ⊢
    split at returned
    · rename_i few
      rw [if_pos few]
      refine forwardOne_sameRows ?_ returned
      exact ⟨features, rfl, featsCache, isFirstChunk, rfl⟩
    · rename_i many
      rw [if_neg many]
      refine forwardTwo_sameRows ?_ returned
      exact ⟨features, rfl, featsCache, isFirstChunk, isLastChunk⟩

/-- A call that returns, returns without the network as well, and presents the same lists. -/
theorem forward_sameRows (same : SameRows online online') {call : ForwardCall F α}
    {answer : Answer F ρ K δ} (returned : parts.forward online call = some answer) :
    ∃ answer', parts.rowsOnly.forward online' call = some answer' ∧ SameAnswer answer answer' := by
  obtain ⟨features, startIdxCache, featsCache, isFirstChunk, isLastChunk⟩ := same
  have extract : parts.rowsOnly.extractFeats = parts.extractFeats := rfl
  unfold forward at returned ⊢
  rw [isFirstChunk, features, extract]
  -- The branches of `Forward` in order: a short tail, a fault, no rows, a later fault, a chunk.
  split at returned
  · rename_i short
    rw [if_pos short]
    simp only [shortTail, Option.bind_eq_bind, Option.bind_eq_some_iff, Option.pure_def] at returned
    obtain ⟨⟨result, last⟩, forwarded, made⟩ := returned
    cases made
    have kept := (forwardChunk_sameRows forwarded).featsCache
    refine ⟨_, rfl, ?_, sameRows_reset⟩
    simp only [featsCache, ← kept]
  · rename_i long
    rw [if_neg long]
    split at returned
    · cases returned
      exact ⟨_, rfl, rfl, rfl, startIdxCache, featsCache, rfl, isLastChunk⟩
    · simp only [Option.bind_eq_bind, Option.bind_eq_some_iff] at returned
      obtain ⟨⟨wavFeats, features'⟩, extracted, made⟩ := returned
      simp only [extracted, Option.bind_eq_bind, Option.bind_some]
      simp only at made
      split at made
      · rename_i empty
        cases made
        rw [if_pos empty]
        exact ⟨_, rfl, rfl, rfl, startIdxCache, featsCache, rfl, isLastChunk⟩
      · rename_i some
        rw [if_neg some]
        split at made
        · rename_i faulty
          cases made
          rw [if_pos faulty]
          refine ⟨_, rfl, rfl, rfl, ?_, featsCache, rfl, isLastChunk⟩
          simp only [startIdxCache]
        · rename_i sound
          rw [if_neg sound]
          refine forwardRows_sameRows ?_ made
          exact ⟨rfl, startIdxCache, featsCache, rfl, isLastChunk⟩

/-- The row lists of calls that return are those of `rowsOnly`. -/
theorem forwards_sameRows (same : SameRows online online') {calls : List (ForwardCall F α)}
    {presented : List (List ρ)} {last : ParaformerOnline F ρ K δ}
    (ran : parts.forwards online calls = some (presented, last)) :
    ∃ last', parts.rowsOnly.forwards online' calls = some (presented, last') ∧
      SameRows last last' := by
  induction calls generalizing online online' presented with
  | nil =>
    cases ran
    exact ⟨online', rfl, same⟩
  | cons call rest inductionHypothesis =>
    simp only [forwards, Option.bind_eq_bind, Option.bind_eq_some_iff, Option.pure_def] at ran
    obtain ⟨answer, returned, ⟨more, last'⟩, later, made⟩ := ran
    cases made
    obtain ⟨answer', returned', same'⟩ := forward_sameRows same returned
    obtain ⟨last'', later', same''⟩ := inductionHypothesis same'.online later
    refine ⟨last'', ?_, same''⟩
    simp only [forwards, returned', later', same'.presented, Option.bind_eq_bind, Option.bind_some,
      Option.pure_def]

end OnlineParts

end Asr2Pass.Online
