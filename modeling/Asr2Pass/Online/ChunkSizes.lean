import Asr2Pass.Online.RowLists
import Asr2Pass.TwoPass.ClientChunks

/-! # Chunk sizes that are safe

The client sends `chunk_size`; the server refuses it only when its middle entry is zero.  `Usable`
is what `chunk_len`, the copies of `Split` and the row lists of `Forward` need of it.
-/

namespace Asr2Pass.Online

open Frontend (FeatureCache)

namespace OnlineParts

variable {F α ρ K δ : Type} [Field K] [LinearOrder K] {parts : OnlineParts F α ρ K δ}
  {online : ParaformerOnline F ρ K δ}

theorem forwards_one {last : ParaformerOnline F ρ K δ} {call : ForwardCall F α}
    {presented : List (List ρ)} (ran : parts.forwards online [call] = some (presented, last)) :
    ∃ answer, parts.forward online call = some answer := by
  simp only [forwards, Option.bind_eq_bind, Option.bind_eq_some_iff] at ran
  obtain ⟨answer, returned, -⟩ := ran
  exact ⟨answer, returned⟩

/-! ## Rows that stay inside -/

omit [Field K] [LinearOrder K] in
/-- A last list that reaches as far back as the left context. -/
theorem overlap_last (online : ParaformerOnline F ρ K δ) {wavFeats : List ρ}
    (left : 0 ≤ parts.cif.chunkSize.left)
    (inside : parts.cif.chunkSize.left ≤ (online.featsCache ++ wavFeats).length) :
    ∃ chunk next, parts.rowsOnly.overlap online wavFeats true = some (chunk, next) ∧
      (next.featsCache.length : Int) = parts.cif.chunkSize.left := by
  have added := addOverlapChunk_finished left online.isLastChunk inside
  exact ⟨_, _, overlap_eq_some_iff.mpr ⟨_, added, rfl⟩, length_leftRows left inside⟩

omit [Field K] [LinearOrder K] in
theorem left_of_overlap {wavFeats chunk : List ρ} {next : ParaformerOnline F ρ K δ}
    (overlapped : parts.rowsOnly.overlap online wavFeats true = some (chunk, next)) :
    0 ≤ parts.cif.chunkSize.left ∧
      parts.cif.chunkSize.left ≤ (online.featsCache ++ wavFeats).length := by
  obtain ⟨kept, added, -⟩ := overlap_eq_some_iff.mp overlapped
  simp only [addOverlapChunk, if_true, Option.bind_eq_bind, Option.bind_eq_some_iff] at added
  obtain ⟨last, cut, -⟩ := added
  obtain ⟨nonneg, inside, -⟩ := lastRows_eq_some_iff.mp cut
  exact ⟨nonneg, inside⟩

section
variable {wavFeats : List ρ}
  (cached : (online.featsCache.length : Int) = parts.cif.chunkSize.left + parts.cif.chunkSize.right)
include cached

/-- A call before the last one. -/
theorem forwardRows_open :
    ∃ answer, parts.rowsOnly.forwardRows online wavFeats false = some answer := by
  have cif : parts.rowsOnly.cif = parts.cif := rfl
  simp only [forwardRows, Bool.false_eq_true, if_false, forwardOne, overlap, addOverlapChunk, cif,
    Option.bind_eq_bind, Option.pure_def, forwardChunk_rowsOnly]
  rw [lastRows_eq (by omega) (by rw [List.length_append]; omega)]
  exact ⟨_, rfl⟩

/-- A last call: the second list is a part of the rows unless the context after a chunk is longer
    than the chunk. -/
theorem forwardRows_last (left : 0 ≤ parts.cif.chunkSize.left)
    (middle : 0 ≤ parts.cif.chunkSize.middle) (future : -1 ≤ parts.cif.chunkSize.right)
    (most : parts.cif.chunkSize.right ≤ parts.cif.chunkSize.middle) (made : wavFeats ≠ []) :
    ∃ answer, parts.rowsOnly.forwardRows online wavFeats true = some answer := by
  have cif : parts.rowsOnly.cif = parts.cif := rfl
  have some := List.length_pos_of_ne_nil made
  -- positions do not change the number of rows
  simp only [forwardRows, cif, if_true]
  generalize embedded : wavFeats.mapIdx (fun position row =>
    parts.rowsOnly.embed (online.startIdxCache + position) row) = rows
  have length : rows.length = wavFeats.length := by
    rw [← embedded, List.length_mapIdx]
  have inside : parts.cif.chunkSize.left ≤ (online.featsCache ++ rows).length := by
    rw [List.length_append]
    omega
  split
  · obtain ⟨chunk, next, overlapped, -⟩ := overlap_last { online with
      startIdxCache := online.startIdxCache + wavFeats.length
      isLastChunk := true } left inside
    simp only [forwardOne, overlapped, Option.bind_eq_bind, Option.bind_some, Option.pure_def,
      forwardChunk_rowsOnly]
    exact ⟨_, rfl⟩
  · rename_i many
    obtain ⟨chunk, next, overlapped, kept⟩ := overlap_last { online with
      startIdxCache := online.startIdxCache + wavFeats.length } left inside
    -- a sum that is not negative is at least its value as a `size_t`
    have bound := parts.cif.chunkSize.isInt parts.cif.chunkSize.middle (by simp)
    have more : parts.cif.chunkSize.middle < rows.length + parts.cif.chunkSize.right := by
      unfold sizeT at many
      omega
    have cut := @lastRows_eq _ rows (rows.length + parts.cif.chunkSize.right -
      parts.cif.chunkSize.middle) (by omega) (by omega)
    generalize rows.drop _ = rest at cut
    obtain ⟨chunk', next', overlapped', -⟩ := overlap_last { next with isLastChunk := true }
      left (show _ ≤ ((next.featsCache ++ rest).length : Int) by rw [List.length_append]; omega)
    simp only [forwardTwo, overlapped, Option.bind_eq_bind, Option.bind_some, Option.pure_def,
      forwardChunk_rowsOnly, cif, cut, overlapped']
    exact ⟨_, rfl⟩

/-- The last call of an utterance with one row shows whether the sizes are usable. -/
theorem forwardRows_one (middle : 0 ≤ parts.cif.chunkSize.middle) (one : wavFeats.length = 1)
    {answer : Answer F ρ K δ}
    (returned : parts.rowsOnly.forwardRows online wavFeats true = some answer) :
    0 ≤ parts.cif.chunkSize.left ∧ -1 ≤ parts.cif.chunkSize.right ∧
      parts.cif.chunkSize.right ≤ parts.cif.chunkSize.middle := by
  have cif : parts.rowsOnly.cif = parts.cif := rfl
  simp only [forwardRows, cif, if_true] at returned
  generalize embedded : wavFeats.mapIdx (fun position row =>
    parts.rowsOnly.embed (online.startIdxCache + position) row) = rows at returned
  have length : rows.length = 1 := by
    rw [← embedded, List.length_mapIdx, one]
  split at returned
  · rename_i few
    simp only [forwardOne, Option.bind_eq_bind, Option.bind_eq_some_iff] at returned
    obtain ⟨⟨chunk, next⟩, overlapped, -⟩ := returned
    obtain ⟨nonneg, inside⟩ := left_of_overlap overlapped
    simp only [List.length_append] at inside
    have bound := parts.cif.chunkSize.isInt parts.cif.chunkSize.middle (by simp)
    have bound' := parts.cif.chunkSize.isInt parts.cif.chunkSize.right (by simp)
    unfold sizeT at few
    omega
  · simp only [forwardTwo, Option.bind_eq_bind, Option.bind_eq_some_iff] at returned
    obtain ⟨⟨chunk, next⟩, overlapped, -, -, rest, cut, -⟩ := returned
    obtain ⟨nonneg, inside⟩ := left_of_overlap overlapped
    simp only [List.length_append] at inside
    obtain ⟨-, most, -⟩ := lastRows_eq_some_iff.mp cut
    rw [cif] at most
    omega

end

end OnlineParts

/-! ## The condition on the three entries -/

/-- The product of `chunk_len` is a positive `int`, so is the number of rows of the context, which is
    not negative, and at most a chunk lies ahead of another.  One row less than none ahead does no harm: a call has at
    least one. -/
structure ChunkSize.Usable (chunkSize : ChunkSize) : Prop where
  positive : 0 < chunkSize.middle
  int : chunkSize.middle * 10 * 6 * 16000 < 2 ^ 31
  left : 0 ≤ chunkSize.left
  context : 0 ≤ chunkSize.left + chunkSize.right
  sum : chunkSize.left + chunkSize.right < 2 ^ 31
  future : -1 ≤ chunkSize.right
  most : chunkSize.right ≤ chunkSize.middle

instance (chunkSize : ChunkSize) : Decidable chunkSize.Usable :=
  decidable_of_iff (0 < chunkSize.middle ∧ chunkSize.middle * 10 * 6 * 16000 < 2 ^ 31 ∧
      0 ≤ chunkSize.left ∧ 0 ≤ chunkSize.left + chunkSize.right ∧
      chunkSize.left + chunkSize.right < 2 ^ 31 ∧ -1 ≤ chunkSize.right ∧
      chunkSize.right ≤ chunkSize.middle)
    ⟨fun ⟨positive, int, left, context, sum, future, most⟩ =>
        ⟨positive, int, left, context, sum, future, most⟩,
      fun ⟨positive, int, left, context, sum, future, most⟩ =>
        ⟨positive, int, left, context, sum, future, most⟩⟩

/-- `chunk_len` at 16 kHz: the division is exact. -/
theorem chunkLen_eq_some_iff {chunkSize : ChunkSize} {len : Int} :
    chunkSize.chunkLen 10 6 16000 = some len ↔
      -2 ^ 31 ≤ chunkSize.middle * 10 * 6 * 16000 ∧ chunkSize.middle * 10 * 6 * 16000 < 2 ^ 31 ∧
        len = 960 * chunkSize.middle := by
  have product : chunkSize.middle * 10 * 6 * 16000 = 960 * chunkSize.middle * 1000 := by ring
  have exact : (chunkSize.middle * 10 * 6 * 16000).tdiv 1000 = 960 * chunkSize.middle := by
    rw [product]
    exact Int.mul_tdiv_cancel _ (by decide)
  simp only [ChunkSize.chunkLen, exact]
  split
  · rename_i int
    simp only [int, true_and, Option.some.injEq, eq_comm]
  · rename_i outside
    simp only [reduceCtorEq, false_iff]
    rintro ⟨low, high, -⟩
    exact outside ⟨low, high⟩

namespace OnlineModel

open TwoPass (Audio AudioFrame Feed)

variable {α β K δ : Type} [Add β] [Mul β] [Zero β] [Field K] [LinearOrder K]
  {model : OnlineModel α β K δ} {c : Nat}
  {online : ParaformerOnline (FeatureCache α β) (List β) K δ}

/-- The call of `Forward` for a frame of `asr_online_queue`. -/
def forwardCall {F : Type} (frame : AudioFrame α) : ForwardCall F α :=
  ⟨frame.data.getD [], frame.isFinal, none⟩

/-- Recordings from a new `Audio` on: all go through `Split`, and the frames through the row lists
    of a new `ParaformerOnline`. -/
def Safe (model : OnlineModel α β K δ) : Prop :=
  ∃ chunkLen, model.cif.chunkSize.chunkLen 10 6 16000 = some chunkLen ∧
    ∀ (audio : Audio α) (feeds : List (Feed α)), audio.destSampleRate = 16000 →
      audio.frameQueue = [] → audio.asrOnlineQueue = [] → Feed.Conform 16 16000 0 {} feeds →
      ∃ after, Library.run (Feed.step chunkLen) audio.resetIndex feeds = some after ∧
        ∃ presented last, model.parts.rowsOnly.forwards model.parts.fresh
          (after.asrOnlineQueue.map forwardCall) = some (presented, last)

section
variable (usable : model.cif.chunkSize.Usable) (middle : model.cif.chunkSize.middle = c)
  (framing : model.framing = .hertz16000) (lfr : model.lfr = .para)
include usable middle framing lfr

/-- A chunk or a last call, from caches between chunks on. -/
theorem Settled.rowsOnly (settled : model.Settled c online) {samples : List α}
    {inputFinished : Bool} (whole : inputFinished = false → samples.length = 960 * c) :
    ∃ answer, model.parts.rowsOnly.forward online ⟨samples, inputFinished, none⟩ = some answer ∧
      model.Settled c answer.online := by
  have positive : 1 ≤ c := by
    have := usable.positive
    omega
  have cached := settled.featsCache usable.context usable.sum
  cases inputFinished with
  | false =>
    obtain ⟨rows, features, extracted, count, -⟩ :=
      settled.extractFeats positive framing lfr (whole rfl)
    have made : rows ≠ [] := by
      rw [← List.length_pos_iff]
      omega
    obtain ⟨answer, returned⟩ := @OnlineParts.forwardRows_open _ _ _ _ _ _ _ model.parts
      { online with isFirstChunk := false, features := features } rows cached
    have forwarded : model.parts.rowsOnly.forward online ⟨samples, false, none⟩ = some answer := by
      unfold OnlineParts.forward
      rw [if_neg (by simp)]
      simp only [show model.parts.rowsOnly.extractFeats = model.parts.extractFeats from rfl,
        extracted, Option.bind_eq_bind, Option.bind_some, if_neg made, Option.isSome_none,
        Bool.false_eq_true, if_false]
      exact returned
    -- With an encoder that answers nothing, the lemma of a whole call is about the rows alone.
    have quiet : Settled { model with encoder := fun _ => none } c online :=
      ⟨settled.chunked, settled.featsCache⟩
    have next := @Settled.forward _ _ _ _ _ _ _ _ _ { model with encoder := fun _ => none } c online
      samples positive framing lfr quiet (whole rfl) answer forwarded
    exact ⟨answer, forwarded, next.chunked, next.featsCache⟩
  | true =>
    -- The last call: too few samples, no rows at all, or a final window. Each of them resets.
    by_cases short : samples.length < 16 * 60 ∧ online.isFirstChunk = false
    · refine ⟨⟨"", [online.featsCache], model.parts.fresh⟩, ?_, settled_fresh⟩
      unfold OnlineParts.forward
      rw [if_pos (by simpa using short)]
      rfl
    · obtain ⟨stream, rows, streamed, -⟩ := settled.chunked.streamed
      obtain ⟨extracted, ran⟩ := streamed.finish_returns (by decide) model.cmvn samples
      have reset := Frontend.extractFeats_finished ran
      have extracted' : model.parts.rowsOnly.extractFeats online.features samples true =
          some (extracted.feats, Frontend.resetCache) := by
        change model.parts.extractFeats online.features samples true = _
        simp only [parts, Frontend.ParaformerOnline.extractFeats, framing, lfr, ran,
          Option.map_some, reset]
      unfold OnlineParts.forward
      rw [if_neg (by simpa using short)]
      simp only [extracted', Option.bind_eq_bind, Option.bind_some, Option.isSome_none,
        Bool.false_eq_true, if_false]
      by_cases empty : extracted.feats = []
      · rw [if_pos empty]
        exact ⟨_, rfl, Frontend.chunked_initial c, settled.featsCache⟩
      · rw [if_neg empty]
        obtain ⟨answer, returned⟩ := @OnlineParts.forwardRows_last _ _ _ _ _ _ _ model.parts
          { online with isFirstChunk := false, features := Frontend.resetCache } extracted.feats
          cached usable.left usable.positive.le usable.future usable.most empty
        refine ⟨answer, returned, ?_⟩
        rw [OnlineParts.forwardRows_finished returned]
        exact settled_fresh

/-- Chunks and last calls in any order. -/
theorem Settled.rowsOnly_forwards (settled : model.Settled c online)
    {frames : List (AudioFrame α)}
    (whole : ∀ frame ∈ frames, frame.isFinal = false → (frame.data.getD []).length = 960 * c) :
    ∃ presented last, model.parts.rowsOnly.forwards online (frames.map forwardCall) =
      some (presented, last) := by
  induction frames generalizing online with
  | nil => exact ⟨[], online, rfl⟩
  | cons frame rest inductionHypothesis =>
    obtain ⟨first, others⟩ := List.forall_mem_cons.mp whole
    obtain ⟨answer, returned, settled'⟩ := settled.rowsOnly usable middle framing lfr first
    obtain ⟨presented, last, ran⟩ := inductionHypothesis settled' others
    refine ⟨answer.presented ++ presented, last, ?_⟩
    simp only [List.map_cons, forwardCall] at ran ⊢
    simp only [OnlineParts.forwards, returned, ran, Option.bind_eq_bind, Option.bind_some,
      Option.pure_def]

/-- Usable sizes are safe. -/
theorem safe_of_usable : model.Safe := by
  have positive := usable.positive
  have int := usable.int
  have len : model.cif.chunkSize.chunkLen 10 6 16000 = some ((60 * c : Nat) * 16) :=
    chunkLen_eq_some_iff.mpr ⟨by omega, int, by omega⟩
  refine ⟨_, len, fun audio feeds rate paired empty conform => ?_⟩
  have seg : audio.segSample = 16 := by
    rw [Audio.segSample, rate]
  have conform' : Feed.Conform audio.segSample audio.destSampleRate 0 {} feeds := by
    rw [seg, rate]
    exact conform
  obtain ⟨after, ran, -, frames, queue, chunks⟩ := Feed.run_pushes (show 0 < 60 * c by omega)
    (TwoPass.Consistent.initial audio) paired conform'
  rw [show audio.resetIndex.segSample = 16 from seg] at ran chunks
  refine ⟨after, ran, ?_⟩
  rw [queue, show audio.resetIndex.asrOnlineQueue = [] from empty, List.nil_append]
  refine settled_fresh.rowsOnly_forwards usable middle framing lfr ?_
  intro frame member open'
  obtain ⟨data, some, length⟩ := chunks frame member open'
  rw [some, Option.getD_some]
  omega

end

/-! ## The other direction -/

omit [Field K] [LinearOrder K] in
/-- 60 ms are one row. -/
theorem extractFeats_sixty (framing : model.framing = .hertz16000) (lfr : model.lfr = .para)
    {samples : List α} (length : samples.length = 960) :
    ∃ rows, model.parts.extractFeats {} samples true = some (rows, Frontend.resetCache) ∧
      rows.length = 1 := by
  have long : ¬ Frontend.Short .hertz16000 .para ({} : FeatureCache α β) samples := by
    simp only [Frontend.Short, List.nil_append, length, if_true]
    decide
  obtain ⟨extracted, ran, rest⟩ := (Frontend.Streamed.initial .hertz16000 .para model.fbank).finish
    (by decide) model.cmvn long
  have frames : (Frontend.fbankFrames .hertz16000 model.fbank samples).length = 4 := by
    rw [Frontend.length_fbankFrames, length]
    decide
  rw [Frontend.lfrCmvn_eq, List.nil_append, frames] at rest
  refine ⟨extracted.feats, ?_, ?_⟩
  · simp only [parts, Frontend.ParaformerOnline.extractFeats, framing, lfr, ran, Option.map_some,
      Frontend.extractFeats_finished ran]
  · have count := congrArg List.length rest
    simpa [Frontend.rowsFrom, show Frontend.LfrOptions.para.lfrN = 6 from rfl] using count

/-- A chunk of a new object that returns. -/
theorem context_of_chunk (framing : model.framing = .hertz16000) (lfr : model.lfr = .para)
    (positive : 1 ≤ c) (short : c < 2 ^ 31) {samples : List α} (length : samples.length = 960 * c)
    {answer : Answer (FeatureCache α β) (List β) K δ}
    (returned : model.parts.rowsOnly.forward model.parts.fresh ⟨samples, false, none⟩ =
      some answer) :
    0 ≤ model.cif.chunkSize.left + model.cif.chunkSize.right ∧
      model.cif.chunkSize.left + model.cif.chunkSize.right < 2 ^ 31 := by
  obtain ⟨rows, features, extracted, count, -⟩ :=
    (@settled_fresh _ _ _ _ _ _ model c _ _).extractFeats positive framing lfr length
  have made : rows ≠ [] := by
    rw [← List.length_pos_iff]
    omega
  obtain ⟨-, chunk, added⟩ := OnlineParts.forward_caches returned extracted made
  obtain ⟨rfl, nonneg, inside, -⟩ := addOverlapChunk_eq_some_iff.mp added
  refine ⟨nonneg, not_le.mp fun large => ?_⟩
  -- Without a context the chunk is all there is to copy from.
  change 2 ^ 31 ≤ model.parts.rowsOnly.cif.chunkSize.left +
    model.parts.rowsOnly.cif.chunkSize.right at large
  have cached : model.parts.fresh.featsCache = [] := OnlineParts.featsCache_fresh large
  rw [cached, List.nil_append, OnlineParts.length_embedFrom] at inside
  omega

/-- A last call of a new object that returns, with one row. -/
theorem sizes_of_sixty (framing : model.framing = .hertz16000) (lfr : model.lfr = .para)
    (middle : 0 ≤ model.cif.chunkSize.middle)
    (context : 0 ≤ model.cif.chunkSize.left + model.cif.chunkSize.right)
    (sum : model.cif.chunkSize.left + model.cif.chunkSize.right < 2 ^ 31) {samples : List α}
    (length : samples.length = 960) {answer : Answer (FeatureCache α β) (List β) K δ}
    (returned : model.parts.rowsOnly.forward model.parts.fresh ⟨samples, true, none⟩ =
      some answer) :
    0 ≤ model.cif.chunkSize.left ∧ -1 ≤ model.cif.chunkSize.right ∧
      model.cif.chunkSize.right ≤ model.cif.chunkSize.middle := by
  obtain ⟨rows, extracted, one⟩ := extractFeats_sixty framing lfr length
  have made : rows ≠ [] := by
    rw [← List.length_pos_iff]
    omega
  have cached := (@settled_fresh _ _ _ _ _ _ model 1 _ _).featsCache context sum
  unfold OnlineParts.forward at returned
  rw [if_neg (by simp [OnlineParts.fresh])] at returned
  simp only [show model.parts.rowsOnly.extractFeats = model.parts.extractFeats from rfl,
    show model.parts.fresh.features = {} from rfl, extracted, Option.bind_eq_bind,
    Option.bind_some, if_neg made, Option.isSome_none, Bool.false_eq_true, if_false] at returned
  exact OnlineParts.forwardRows_one cached middle one returned

omit [LinearOrder K] in
theorem forwardCall_map {F : Type} {frames : List (AudioFrame α)} {samples : List α} {final : Bool}
    (pushed : frames.map (fun frame => (frame.data.getD [], frame.isFinal)) = [(samples, final)]) :
    frames.map forwardCall = [(⟨samples, final, none⟩ : ForwardCall F α)] := by
  have mapped : frames.map (forwardCall (F := F)) =
      (frames.map fun frame => (frame.data.getD [], frame.isFinal)).map
        fun call => ⟨call.1, call.2, none⟩ := by
    rw [List.map_map]
    rfl
  rw [mapped, pushed]
  rfl

section
variable [Zero α] (framing : model.framing = .hertz16000) (lfr : model.lfr = .para)
include framing lfr

/-- Sizes that the server accepts are usable when they are safe: the two short recordings see the
    other cases. -/
theorem usable_of_safe (accepted : model.cif.chunkSize.middle ≠ 0) (safe : model.Safe) :
    model.cif.chunkSize.Usable := by
  obtain ⟨chunkLen, len, runs⟩ := safe
  have recorded := fun feeds => runs TwoPass.audio16000 feeds rfl rfl rfl
  obtain ⟨-, int, rfl⟩ := chunkLen_eq_some_iff.mp len
  have positive : 0 < model.cif.chunkSize.middle := by
    by_contra notPositive
    obtain ⟨after, ran, -⟩ := recorded [TwoPass.openFeed 0] (TwoPass.openFeed_conform 0)
    rw [TwoPass.openFeed_negative (by omega)] at ran
    cases ran
  obtain ⟨context, sum⟩ : 0 ≤ model.cif.chunkSize.left + model.cif.chunkSize.right ∧
      model.cif.chunkSize.left + model.cif.chunkSize.right < 2 ^ 31 := by
    obtain ⟨c, middle⟩ := Int.eq_ofNat_of_zero_le positive.le
    obtain ⟨after, ran, presented, last, forwarded⟩ :=
      recorded [TwoPass.openFeed (60 * c)] (TwoPass.openFeed_conform (60 * c))
    obtain ⟨after', ran', pushed⟩ := @TwoPass.openFeed_pushes α _ (60 * c)
    rw [show 960 * model.cif.chunkSize.middle = 16 * ((60 * c : Nat) : Int) by omega, ran'] at ran
    cases ran
    rw [forwardCall_map pushed] at forwarded
    obtain ⟨answer, returned⟩ := OnlineParts.forwards_one forwarded
    refine context_of_chunk framing lfr (show 1 ≤ c by omega) (by omega) ?_ returned
    rw [List.length_replicate]
    omega
  obtain ⟨after, ran, presented, last, forwarded⟩ :=
    recorded [TwoPass.wholeFeed 60] (TwoPass.wholeFeed_conform 60)
  obtain ⟨after', ran', pushed⟩ := @TwoPass.wholeFeed_pushes α _ 60
    (960 * model.cif.chunkSize.middle) (by decide)
  rw [ran'] at ran
  cases ran
  rw [forwardCall_map pushed] at forwarded
  obtain ⟨answer, returned⟩ := OnlineParts.forwards_one forwarded
  obtain ⟨left, future, most⟩ :=
    sizes_of_sixty framing lfr positive.le context sum List.length_replicate returned
  exact ⟨positive, int, left, context, sum, future, most⟩

/-- The chunk sizes with which every recording is safe. -/
theorem safe_iff_usable (accepted : model.cif.chunkSize.middle ≠ 0) :
    model.Safe ↔ model.cif.chunkSize.Usable := by
  constructor
  · exact usable_of_safe framing lfr accepted
  · intro usable
    have positive := usable.positive
    exact @safe_of_usable _ _ _ _ _ _ _ _ _ model model.cif.chunkSize.middle.toNat usable
      (by omega) framing lfr

end

end OnlineModel

theorem safe_tenRows :
    (10 : Int) ≠ 0 ∧
      (plainModel .hertz16000 { left := 5, middle := 10, right := 5 }).Safe := by
  refine ⟨by decide, (OnlineModel.safe_iff_usable rfl rfl (by decide)).mpr ?_⟩
  exact ⟨by decide, by decide, by decide, by decide, by decide, by decide, by decide⟩

/-- The server accepts a negative middle entry, and `Split` then copies -9600 samples. -/
theorem not_safe_negative :
    (-10 : Int) ≠ 0 ∧
      ¬ (plainModel .hertz16000 { left := 5, middle := -10, right := 5 }).Safe := by
  refine ⟨by decide, fun safe => ?_⟩
  have usable := OnlineModel.usable_of_safe rfl rfl (by decide) safe
  exact absurd usable.positive (by decide)

end Asr2Pass.Online
