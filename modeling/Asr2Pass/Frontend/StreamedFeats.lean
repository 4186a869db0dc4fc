import Asr2Pass.Frontend.ExtractFeats

/-! # Streamed features are the offline features

As long as no call is short and `float` holds its quotient, the rows of all calls are the rows of the
whole waveform.
`Streamed` relates the caches to the waveform so far; `Streamed.extractFeats` is one call,
`Streamed.extractCalls` a run of them.
-/

namespace Asr2Pass.Frontend

open Library

variable {α β : Type}

/-! ## Frames of a growing waveform -/

theorem computeFrameNum_eq_iff (framing : Framing) (size k : Nat) :
    computeFrameNum framing size = k ↔
      size < k * framing.frameShiftSampleLength + framing.frameSampleLength ∧
        (k = 0 ∨ (k - 1) * framing.frameShiftSampleLength + framing.frameSampleLength ≤ size) := by
  have pos := framing.pos
  unfold computeFrameNum
  cases k with
  | zero =>
    split
    · simp only [Nat.add_eq_zero_iff, one_ne_zero, and_false, false_iff]
      omega
    · simp only [true_or, and_true, true_iff]
      omega
  | succ k =>
    simp only [Nat.add_sub_cancel, add_mul, one_mul]
    split
    · rw [Nat.add_right_cancel_iff, Nat.div_eq_iff pos]
      omega
    · omega

theorem computeFrameNum_spec (framing : Framing) (size : Nat) :
    size < computeFrameNum framing size * framing.frameShiftSampleLength + framing.frameSampleLength ∧
      (computeFrameNum framing size = 0 ∨
        (computeFrameNum framing size - 1) * framing.frameShiftSampleLength +
          framing.frameSampleLength ≤ size) :=
  (computeFrameNum_eq_iff framing size _).mp rfl

/-- The frames of a waveform start inside it. -/
theorem computeFrameNum_mul_le (framing : Framing) (size : Nat) :
    computeFrameNum framing size * framing.frameShiftSampleLength ≤ size := by
  have le := framing.le
  obtain ⟨-, none | some⟩ := computeFrameNum_spec framing size
  · rw [none, Nat.zero_mul]
    exact Nat.zero_le _
  · cases frames : computeFrameNum framing size with
    | zero => omega
    | succ k =>
      rw [frames, Nat.add_sub_cancel] at some
      rw [add_mul, one_mul]
      omega

/-- The samples that no frame has used up carry over. -/
theorem computeFrameNum_append (framing : Framing) (size more : Nat) :
    computeFrameNum framing (size + more) = computeFrameNum framing size +
      computeFrameNum framing
        (size - computeFrameNum framing size * framing.frameShiftSampleLength + more) := by
  have inside := computeFrameNum_mul_le framing size
  obtain ⟨below, reached⟩ := computeFrameNum_spec framing size
  generalize computeFrameNum framing size = k at *
  obtain ⟨below', reached'⟩ :=
    computeFrameNum_spec framing (size - k * framing.frameShiftSampleLength + more)
  generalize computeFrameNum framing (size - k * framing.frameShiftSampleLength + more) = n at *
  rw [computeFrameNum_eq_iff, add_mul]
  refine ⟨by omega, ?_⟩
  cases n with
  | zero =>
    rw [Nat.add_zero]
    exact reached.imp_right fun enough => by omega
  | succ n =>
    right
    have last := reached'.resolve_left (by omega)
    rw [Nat.add_sub_cancel] at last
    rw [← add_assoc, Nat.add_sub_cancel, add_mul]
    omega

theorem frameSamples_append (framing : Framing) {waves : List α} {i : Nat}
    (inside : i * framing.frameShiftSampleLength + framing.frameSampleLength ≤ waves.length)
    (more : List α) : frameSamples framing (waves ++ more) i = frameSamples framing waves i := by
  rw [frameSamples, frameSamples, List.drop_append_of_le_length (by omega),
    List.take_append_of_le_length]
  rw [List.length_drop]
  omega

theorem frameSamples_take (framing : Framing) (waves : List α) {i size : Nat}
    (inside : i * framing.frameShiftSampleLength + framing.frameSampleLength ≤ size) :
    frameSamples framing (waves.take size) i = frameSamples framing waves i := by
  rw [frameSamples, frameSamples, List.drop_take, List.take_take, Nat.min_eq_left (by omega)]

theorem frameSamples_drop (framing : Framing) (waves : List α) (skipped i : Nat) :
    frameSamples framing (waves.drop (skipped * framing.frameShiftSampleLength)) i =
      frameSamples framing waves (skipped + i) := by
  rw [frameSamples, frameSamples, List.drop_drop, add_mul]

theorem length_fbankFrames (framing : Framing) (fbank : List α → List β) (waves : List α) :
    (fbankFrames framing fbank waves).length = computeFrameNum framing waves.length := by
  simp [fbankFrames]

/-- Every frame of a waveform ends inside it. -/
theorem frame_inside (framing : Framing) {size i : Nat} (frame : i < computeFrameNum framing size) :
    i * framing.frameShiftSampleLength + framing.frameSampleLength ≤ size := by
  obtain ⟨-, reached⟩ := computeFrameNum_spec framing size
  have last := reached.resolve_left (by omega)
  have before : i * framing.frameShiftSampleLength ≤
      (computeFrameNum framing size - 1) * framing.frameShiftSampleLength :=
    Nat.mul_le_mul_right _ (by omega)
  omega

/-- The frames of a longer waveform: the old ones, then those over the samples kept. -/
theorem fbankFrames_append (framing : Framing) (fbank : List α → List β) (stream waves : List α) :
    fbankFrames framing fbank (stream ++ waves) = fbankFrames framing fbank stream ++
      fbankFrames framing fbank
        (stream.drop (computeFrameNum framing stream.length * framing.frameShiftSampleLength) ++
          waves) := by
  have inside := computeFrameNum_mul_le framing stream.length
  rw [fbankFrames, List.length_append, computeFrameNum_append, List.range_add, List.map_append,
    List.map_map]
  congr 1
  · refine List.map_congr_left fun i member => ?_
    rw [frameSamples_append framing (frame_inside framing (List.mem_range.mp member))]
  · rw [fbankFrames, List.length_append, List.length_drop]
    refine List.map_congr_left fun i _ => ?_
    rw [← List.drop_append_of_le_length inside, frameSamples_drop]
    rfl

/-! ## One call -/

/-- What `FbankKaldi` leaves when `input_cache_` holds the samples that no frame has used up. -/
theorem fbankKaldi_eq (framing : Framing) (fbank : List α → List β) (cache : FeatureCache α β)
    (waves : List α) :
    (fbankKaldi framing fbank cache waves).feats =
        fbankFrames framing fbank (cache.inputCache ++ waves) ∧
      (fbankKaldi framing fbank cache waves).cache = { cache with
        inputCache := (cache.inputCache ++ waves).drop
          (computeFrameNum framing (cache.inputCache ++ waves).length *
            framing.frameShiftSampleLength) } ∧
      (computeFrameNum framing (cache.inputCache ++ waves).length ≠ 0 →
        (fbankKaldi framing fbank cache waves).waves.length =
          (computeFrameNum framing (cache.inputCache ++ waves).length - 1) *
            framing.frameShiftSampleLength + framing.frameSampleLength) := by
  unfold fbankKaldi
  generalize merged : cache.inputCache ++ waves = all
  by_cases none : computeFrameNum framing all.length = 0
  · simp [none, fbankFrames]
  · simp only [none, if_false, not_false_eq_true, forall_const, true_and, ne_eq]
    obtain ⟨-, reached⟩ := computeFrameNum_spec framing all.length
    have last := reached.resolve_left none
    refine ⟨?_, ?_⟩
    · refine List.map_congr_left fun i member => ?_
      have before := List.mem_range.mp member
      have bound : i * framing.frameShiftSampleLength ≤
          (computeFrameNum framing all.length - 1) * framing.frameShiftSampleLength :=
        Nat.mul_le_mul_right _ (by omega)
      rw [frameSamples_take framing all (by omega)]
    · rw [List.length_take]
      omega

/-- The samples kept for `frames` frames, of which the first `first` are dropped. -/
theorem slice_frames (framing : Framing) {waves : List α} {frames first : Nat}
    (length : waves.length =
      (frames - 1) * framing.frameShiftSampleLength + framing.frameSampleLength)
    (some : 0 < frames) (inside : first ≤ frames) :
    (waves.length - framing.frameSampleLength) / framing.frameShiftSampleLength + 1 = frames ∧
      ∃ reserve, slice waves (first * framing.frameShiftSampleLength)
          (frames * framing.frameShiftSampleLength) = Option.some reserve ∧
        reserve.length = (frames - first) * framing.frameShiftSampleLength := by
  have le := framing.le
  obtain ⟨before, rfl⟩ : ∃ before, frames = before + 1 := ⟨frames - 1, by omega⟩
  rw [Nat.add_sub_cancel] at length
  have ordered : first * framing.frameShiftSampleLength ≤
      (before + 1) * framing.frameShiftSampleLength := Nat.mul_le_mul_right _ inside
  have fits : (before + 1) * framing.frameShiftSampleLength ≤ waves.length := by
    rw [add_mul, one_mul]
    omega
  refine ⟨?_, _, slice_eq ordered fits, ?_⟩
  · rw [length, Nat.add_sub_cancel, Nat.mul_div_cancel _ framing.pos]
  · rw [List.length_drop, List.length_take, min_eq_left fits, Nat.sub_mul]

section
variable [Add β] [Mul β]

/-- A call with enough frames, when `reserve_waveforms_` holds the samples of `reserved` frames. -/
theorem spliceFeats_eq {framing : Framing} {lfr : LfrOptions} {cmvn : Cmvn β}
    {extracted : Extracted α β} {spliced : Spliced β} {reserved : Nat} {inputFinished : Bool}
    (nonempty : extracted.feats ≠ [])
    (enough : lfr.lfrM ≤ extracted.feats.length +
      (seedCache lfr extracted.cache.lfrSpliceCache extracted.feats).length)
    (returned : onlineLfrCmvn lfr cmvn
      (seedCache lfr extracted.cache.lfrSpliceCache extracted.feats ++ extracted.feats) inputFinished =
      some spliced)
    (reserve : extracted.cache.reserveWaveforms.length = reserved * framing.frameShiftSampleLength)
    (waves : extracted.waves.length =
      (extracted.feats.length - 1) * framing.frameShiftSampleLength + framing.frameSampleLength)
    {minusFrame : Nat} (minus : minusFrame = if reserved = 0 then lfr.copies else 0)
    (inside : ((spliced.lfrSpliceFrameIdxs : Int) - minusFrame).natAbs ≤
      reserved + extracted.feats.length) :
    ∃ extracted', spliceFeats framing lfr cmvn extracted inputFinished = some extracted' ∧
      extracted'.feats = spliced.feats ∧
      extracted'.cache.inputCache = extracted.cache.inputCache ∧
      extracted'.cache.lfrSpliceCache = spliced.lfrSpliceCache ∧
      extracted'.cache.reserveWaveforms.length =
        (reserved + extracted.feats.length -
          ((spliced.lfrSpliceFrameIdxs : Int) - minusFrame).natAbs) *
          framing.frameShiftSampleLength := by
  have frames := List.length_pos_of_ne_nil nonempty
  have pos := framing.pos
  have length : (extracted.cache.reserveWaveforms ++ extracted.waves).length =
      (reserved + extracted.feats.length - 1) * framing.frameShiftSampleLength +
        framing.frameSampleLength := by
    rw [List.length_append, reserve, waves, Nat.add_sub_assoc frames, add_mul, add_assoc]
  obtain ⟨count, kept, sliced, size⟩ := slice_frames framing length (by omega) inside
  -- The source asks whether the reserve is empty, not how many frames it is for.
  have empty : extracted.cache.reserveWaveforms = [] ↔ reserved = 0 := by
    rw [← List.length_eq_zero_iff, reserve, Nat.mul_eq_zero]
    omega
  have minus' : (if extracted.cache.reserveWaveforms = [] then (lfr.lfrM - 1) / 2 else 0) =
      minusFrame := by
    rw [minus]
    simp only [empty, LfrOptions.copies]
  unfold spliceFeats spliceFeatsBy
  simp only [ge_iff_le, enough, if_true, returned, count, minus', sliced, Option.bind_eq_bind,
    Option.bind_some]
  exact ⟨_, rfl, rfl, rfl, rfl, size⟩

end

/-- The caches once there are frames: `lfr_splice_cache_` has what the next row needs beyond its
    shift, and `reserve_waveforms_` the samples of all but a few of its frames. -/
structure Busy (framing : Framing) (lfr : LfrOptions) (frames : List (List β))
    (cache : FeatureCache α β) (rows : Nat) : Prop where
  keeps : Keeps lfr (padFeats lfr frames) rows cache.lfrSpliceCache
  kept : lfr.lfrM ≤ cache.lfrSpliceCache.length + lfr.lfrN
  reserve : ∃ reserved, 0 < reserved ∧
    cache.reserveWaveforms.length = reserved * framing.frameShiftSampleLength ∧
    cache.lfrSpliceCache.length ≤ reserved + 2 * (lfr.copies - lfr.lfrN) ∧
    reserved ≤ cache.lfrSpliceCache.length

/-- The caches after the samples `stream`, from which `rows` rows have been made. -/
structure Streamed (framing : Framing) (lfr : LfrOptions) (fbank : List α → List β)
    (stream : List α) (cache : FeatureCache α β) (rows : Nat) : Prop where
  input : cache.inputCache =
    stream.drop (computeFrameNum framing stream.length * framing.frameShiftSampleLength)
  idle : fbankFrames framing fbank stream = [] →
    cache.lfrSpliceCache = [] ∧ cache.reserveWaveforms = [] ∧ rows = 0
  busy : fbankFrames framing fbank stream ≠ [] →
    Busy framing lfr (fbankFrames framing fbank stream) cache rows

theorem Streamed.initial (framing : Framing) (lfr : LfrOptions) (fbank : List α → List β) :
    Streamed framing lfr fbank [] {} 0 where
  input := by simp
  idle := fun _ => ⟨rfl, rfl, rfl⟩
  busy := by
    intro some
    have le := framing.le
    have pos := framing.pos
    have none : computeFrameNum framing 0 = 0 := by
      rw [computeFrameNum_eq_iff]
      omega
    simp [fbankFrames, none] at some

theorem Streamed.input_append {framing : Framing} {lfr : LfrOptions} {fbank : List α → List β}
    {stream : List α} {cache : FeatureCache α β} {rows : Nat}
    (streamed : Streamed framing lfr fbank stream cache rows) (waves : List α) :
    (fbankKaldi framing fbank cache waves).cache.inputCache =
      (stream ++ waves).drop
        (computeFrameNum framing (stream ++ waves).length * framing.frameShiftSampleLength) := by
  have inside := computeFrameNum_mul_le framing stream.length
  simp only [(fbankKaldi_eq framing fbank cache waves).2.1, streamed.input, List.length_append,
    List.length_drop]
  rw [computeFrameNum_append framing stream.length waves.length, add_mul, ← List.drop_drop,
    List.drop_append_of_le_length inside]

/-- The frames of one more call. -/
def newFrames (framing : Framing) (fbank : List α → List β) (cache : FeatureCache α β)
    (waves : List α) : List (List β) :=
  fbankFrames framing fbank (cache.inputCache ++ waves)

theorem Streamed.frames_append {framing : Framing} {lfr : LfrOptions} {fbank : List α → List β}
    {stream : List α} {cache : FeatureCache α β} {rows : Nat}
    (streamed : Streamed framing lfr fbank stream cache rows) (waves : List α) :
    fbankFrames framing fbank (stream ++ waves) =
      fbankFrames framing fbank stream ++ newFrames framing fbank cache waves := by
  rw [fbankFrames_append, newFrames, streamed.input]

/-- The caches with which a call with frames starts: the frames seen so far, and how many frames
    `reserve_waveforms_` has samples for. -/
structure Seeded (framing : Framing) (lfr : LfrOptions) (cache : FeatureCache α β)
    (seeds padded : List (List β)) (rows reserved minusFrame : Nat) : Prop where
  keeps : Keeps lfr padded rows seeds
  reserve : cache.reserveWaveforms.length = reserved * framing.frameShiftSampleLength
  minus : minusFrame = if reserved = 0 then lfr.copies else 0
  first : reserved = 0 → seeds.length = lfr.copies
  later : 0 < reserved →
    seeds.length ≤ reserved + 2 * (lfr.copies - lfr.lfrN) ∧ reserved ≤ seeds.length

theorem Streamed.seeded {framing : Framing} {lfr : LfrOptions} {fbank : List α → List β}
    {stream : List α} {cache : FeatureCache α β} {rows : Nat}
    (streamed : Streamed framing lfr fbank stream cache rows) (feats : List (List β)) :
    ∃ padded reserved minusFrame,
      Seeded framing lfr cache (seedCache lfr cache.lfrSpliceCache feats) padded rows reserved
        minusFrame ∧
      padded ++ feats = padFeats lfr (fbankFrames framing fbank stream ++ feats) := by
  by_cases none : fbankFrames framing fbank stream = []
  · obtain ⟨empty, noReserve, rfl⟩ := streamed.idle none
    refine ⟨List.replicate lfr.copies (feats.headD []), 0, lfr.copies, ?_, by rw [none]; rfl⟩
    rw [seedCache, if_pos empty]
    exact ⟨.seed lfr _, by simp [noReserve], rfl, fun _ => List.length_replicate, by simp⟩
  · obtain ⟨keeps, kept, reserved, some, reserve, few⟩ := streamed.busy none
    have lt := lfr.lt
    have nonempty : cache.lfrSpliceCache ≠ [] := by
      rw [← List.length_pos_iff]
      omega
    refine ⟨padFeats lfr (fbankFrames framing fbank stream), reserved, 0, ?_, ?_⟩
    · rw [seedCache, if_neg nonempty]
      exact ⟨keeps, reserve, by rw [if_neg (by omega)], by omega, fun _ => few⟩
    · obtain ⟨first, rest, frames⟩ := List.exists_cons_of_ne_nil none
      rw [frames]
      simp [padFeats]

/-- The frames that are stepped over are among those of the reserve and the new ones. -/
theorem Seeded.inside {framing : Framing} {lfr : LfrOptions} {cache : FeatureCache α β}
    {seeds padded : List (List β)} {rows reserved minusFrame idxs count : Nat}
    (seeded : Seeded framing lfr cache seeds padded rows reserved minusFrame)
    (enough : lfr.lfrM ≤ count + seeds.length)
    (early : idxs + 2 * (lfr.copies - lfr.lfrN) ≤ seeds.length + count) :
    ((idxs : Int) - minusFrame).natAbs ≤ reserved + count := by
  have odd := lfr.lfrM_eq
  have minus := seeded.minus
  by_cases none : reserved = 0
  · have first := seeded.first none
    rw [if_pos none] at minus
    omega
  · have later := seeded.later (Nat.pos_of_ne_zero none)
    rw [if_neg none] at minus
    omega

/-- The reserve that is left is long enough for the frames that are left, and no longer than them. -/
theorem Seeded.left {framing : Framing} {lfr : LfrOptions} {cache : FeatureCache α β}
    {seeds padded : List (List β)} {rows reserved minusFrame idxs count : Nat}
    (seeded : Seeded framing lfr cache seeds padded rows reserved minusFrame)
    (shift : lfr.lfrN ≤ idxs) (fewer : ((idxs : Int) - minusFrame).natAbs ≤ reserved + count) :
    seeds.length + count - idxs ≤
        reserved + count - ((idxs : Int) - minusFrame).natAbs + 2 * (lfr.copies - lfr.lfrN) ∧
      reserved + count - ((idxs : Int) - minusFrame).natAbs ≤ seeds.length + count - idxs := by
  have minus := seeded.minus
  by_cases none : reserved = 0
  · have first := seeded.first none
    rw [if_pos none] at minus
    omega
  · have later := seeded.later (Nat.pos_of_ne_zero none)
    rw [if_neg none] at minus
    omega

section
variable [Add β] [Mul β] {framing : Framing} {lfr : LfrOptions} {fbank : List α → List β}
  {cmvn : Cmvn β} {stream waves : List α} {cache : FeatureCache α β} {rows : Nat}

/-- A call without frames that is not the last one. -/
theorem Streamed.extract_none (streamed : Streamed framing lfr fbank stream cache rows)
    (cmvn : Cmvn β) (none : newFrames framing fbank cache waves = []) :
    ∃ extracted, extractFeats framing lfr fbank cmvn cache waves false = some extracted ∧
      extracted.feats = [] ∧ Streamed framing lfr fbank (stream ++ waves) extracted.cache rows := by
  obtain ⟨feats, caches, -⟩ := fbankKaldi_eq framing fbank cache waves
  have same := streamed.frames_append waves
  rw [none, List.append_nil] at same
  refine ⟨fbankKaldi framing fbank cache waves, ?_, feats.trans none, ?_, ?_, ?_⟩
  · simp only [extractFeats, extractFeatsBy, feats.trans none, ne_eq, not_true_eq_false, if_false,
      flushFeatsBy, Bool.false_eq_true]
    rfl
  · exact streamed.input_append waves
  · rw [same, caches]
    exact streamed.idle
  · rw [same, caches]
    intro some
    obtain ⟨keeps, kept, reserve⟩ := streamed.busy some
    exact ⟨keeps, kept, reserve⟩

theorem extractFeats_some (cmvn : Cmvn β) (some : newFrames framing fbank cache waves ≠ [])
    (inputFinished : Bool) :
    extractFeats framing lfr fbank cmvn cache waves inputFinished =
      (spliceFeats framing lfr cmvn (fbankKaldi framing fbank cache waves) inputFinished).map
        fun extracted => if inputFinished then { extracted with cache := resetCache } else extracted := by
  have feats : (fbankKaldi framing fbank cache waves).feats ≠ [] := by
    rw [(fbankKaldi_eq framing fbank cache waves).1]
    exact some
  simp only [extractFeats, extractFeatsBy, feats, ne_eq, not_false_eq_true, if_true,
    Option.map_eq_bind]
  rfl

/-- A call with enough frames, once the rows and the range of `waves` to keep are known. -/
theorem Seeded.spliceFeats {padded : List (List β)} {reserved minusFrame : Nat}
    {spliced : Spliced β} {inputFinished : Bool} (some : newFrames framing fbank cache waves ≠ [])
    (seeded : Seeded framing lfr cache
      (seedCache lfr cache.lfrSpliceCache (newFrames framing fbank cache waves)) padded rows reserved
      minusFrame)
    (enough : lfr.lfrM ≤ (newFrames framing fbank cache waves).length +
      (seedCache lfr cache.lfrSpliceCache (newFrames framing fbank cache waves)).length)
    (returned : onlineLfrCmvn lfr cmvn
      (seedCache lfr cache.lfrSpliceCache (newFrames framing fbank cache waves) ++
        newFrames framing fbank cache waves) inputFinished = Option.some spliced)
    (inside : ((spliced.lfrSpliceFrameIdxs : Int) - minusFrame).natAbs ≤
      reserved + (newFrames framing fbank cache waves).length) :
    ∃ extracted, Frontend.spliceFeats framing lfr cmvn (fbankKaldi framing fbank cache waves)
        inputFinished = Option.some extracted ∧
      extracted.feats = spliced.feats ∧
      extracted.cache.inputCache = (fbankKaldi framing fbank cache waves).cache.inputCache ∧
      extracted.cache.lfrSpliceCache = spliced.lfrSpliceCache ∧
      extracted.cache.reserveWaveforms.length =
        (reserved + (newFrames framing fbank cache waves).length -
          ((spliced.lfrSpliceFrameIdxs : Int) - minusFrame).natAbs) *
          framing.frameShiftSampleLength := by
  obtain ⟨feats, caches, samples⟩ := fbankKaldi_eq framing fbank cache waves
  change _ = newFrames framing fbank cache waves at feats
  have frames : computeFrameNum framing (cache.inputCache ++ waves).length =
      (newFrames framing fbank cache waves).length := (length_fbankFrames framing fbank _).symm
  rw [frames] at samples
  have count := List.length_pos_of_ne_nil some
  have splice : (fbankKaldi framing fbank cache waves).cache.lfrSpliceCache = cache.lfrSpliceCache := by
    rw [caches]
  have reserve : (fbankKaldi framing fbank cache waves).cache.reserveWaveforms =
      cache.reserveWaveforms := by
    rw [caches]
  have spliced' := @spliceFeats_eq _ _ _ _ framing lfr cmvn (fbankKaldi framing fbank cache waves)
    spliced reserved inputFinished
  rw [feats, splice, reserve] at spliced'
  exact spliced' some enough returned seeded.reserve (samples (by omega)) seeded.minus inside

/-- A call with enough frames that is not the last one. -/
theorem Streamed.extract_some (streamed : Streamed framing lfr fbank stream cache rows)
    (cmvn : Cmvn β) (some : newFrames framing fbank cache waves ≠ [])
    (enough : lfr.lfrM ≤ (newFrames framing fbank cache waves).length +
      (seedCache lfr cache.lfrSpliceCache (newFrames framing fbank cache waves)).length) :
    ∃ extracted more, extractFeats framing lfr fbank cmvn cache waves false = Option.some extracted ∧
      extracted.feats =
        rowsFrom lfr cmvn (padFeats lfr (fbankFrames framing fbank (stream ++ waves))) rows more ∧
      Streamed framing lfr fbank (stream ++ waves) extracted.cache (rows + more) := by
  have frames := streamed.frames_append waves
  obtain ⟨padded, reserved, minusFrame, seeded, all⟩ :=
    streamed.seeded (newFrames framing fbank cache waves)
  rw [← frames] at all
  have splice := @Seeded.spliceFeats _ _ _ _ framing lfr fbank cmvn waves cache rows padded reserved
    minusFrame
  have odd := lfr.lfrM_eq
  have pos := lfr.pos
  have lt := lfr.lt
  have enough' : lfr.lfrM ≤ (seedCache lfr cache.lfrSpliceCache (newFrames framing fbank cache waves) ++
      newFrames framing fbank cache waves).length := by
    rw [List.length_append]
    omega
  obtain ⟨spliced, more, returned, splicedFeats, keeps⟩ :=
    seeded.keeps.onlineLfrCmvn cmvn _ enough'
  rw [all] at splicedFeats keeps
  -- What the call leaves: the frames that the windows step over are gone from the cache.
  have same := Option.some.inj (returned.symm.trans (onlineLfrCmvn_open lfr cmvn enough'))
  obtain ⟨shift, kept⟩ := fullRows_mul_bounds lfr enough'
  have idxs : spliced.lfrSpliceFrameIdxs = fullRows lfr _ * lfr.lfrN :=
    congrArg Spliced.lfrSpliceFrameIdxs same
  have dropped : spliced.lfrSpliceCache.length = _ :=
    (congrArg (fun spliced => spliced.lfrSpliceCache.length) same).trans List.length_drop
  rw [← idxs] at shift kept dropped
  rw [List.length_append] at kept dropped
  -- The reserve is long enough for the frames that are cut from it.
  have early : spliced.lfrSpliceFrameIdxs + 2 * (lfr.copies - lfr.lfrN) <
      (seedCache lfr cache.lfrSpliceCache (newFrames framing fbank cache waves)).length +
        (newFrames framing fbank cache waves).length := by omega
  have fewer := seeded.inside enough (Nat.le_of_lt early)
  obtain ⟨left, right⟩ := seeded.left shift fewer
  obtain ⟨extracted, split, feats, input, lfrCache, reserve⟩ :=
    splice some seeded enough returned fewer
  refine ⟨extracted, more, ?_, feats.trans splicedFeats, ?_, ?_, ?_⟩
  · rw [extractFeats_some cmvn some, split]
    rfl
  · rw [input]
    exact streamed.input_append waves
  · intro none
    rw [frames] at none
    exact absurd (List.append_eq_nil_iff.mp none).2 some
  · intro _
    refine ⟨by rw [lfrCache]; exact keeps, by rw [lfrCache]; omega, _, ?_, reserve, ?_, ?_⟩
    · omega
    · rw [lfrCache]
      omega
    · rw [lfrCache]
      omega

omit [Add β] [Mul β] in
theorem enough_of_not_short (fbank : List α → List β) (long : ¬ Short framing lfr cache waves)
    (some : newFrames framing fbank cache waves ≠ []) :
    lfr.lfrM ≤ (newFrames framing fbank cache waves).length +
      (seedCache lfr cache.lfrSpliceCache (newFrames framing fbank cache waves)).length := by
  have count := List.length_pos_of_ne_nil some
  rw [newFrames, length_fbankFrames] at count
  rw [newFrames, length_fbankFrames]
  have seeds : (seedCache lfr cache.lfrSpliceCache
      (fbankFrames framing fbank (cache.inputCache ++ waves))).length =
        if cache.lfrSpliceCache = [] then lfr.copies else cache.lfrSpliceCache.length := by
    unfold seedCache
    split
    · exact List.length_replicate
    · rfl
  rw [seeds]
  simp only [Short, ne_eq, not_and, not_lt] at long
  exact long (by omega)

/-- A call that is neither short nor the last one. -/
theorem Streamed.extractFeats (streamed : Streamed framing lfr fbank stream cache rows)
    (cmvn : Cmvn β) (long : ¬ Short framing lfr cache waves) :
    ∃ extracted more,
      Frontend.extractFeats framing lfr fbank cmvn cache waves false = Option.some extracted ∧
      extracted.feats =
        rowsFrom lfr cmvn (padFeats lfr (fbankFrames framing fbank (stream ++ waves))) rows more ∧
      Streamed framing lfr fbank (stream ++ waves) extracted.cache (rows + more) := by
  by_cases none : newFrames framing fbank cache waves = []
  · obtain ⟨extracted, returned, feats, streamed'⟩ := streamed.extract_none cmvn none
    exact ⟨extracted, 0, returned, feats, streamed'⟩
  · exact streamed.extract_some cmvn none (enough_of_not_short fbank long none)

/-- More samples do not change the rows so far. -/
theorem Streamed.rowsFrom_append (streamed : Streamed framing lfr fbank stream cache rows)
    (cmvn : Cmvn β) (waves : List α) {first count : Nat} (before : first + count ≤ rows) :
    rowsFrom lfr cmvn (padFeats lfr (fbankFrames framing fbank (stream ++ waves))) first count =
      rowsFrom lfr cmvn (padFeats lfr (fbankFrames framing fbank stream)) first count := by
  by_cases none : fbankFrames framing fbank stream = []
  · obtain ⟨-, -, rfl⟩ := streamed.idle none
    have nothing : count = 0 := by omega
    rw [nothing]
    rfl
  · have grown : padFeats lfr (fbankFrames framing fbank (stream ++ waves)) =
        padFeats lfr (fbankFrames framing fbank stream) ++ newFrames framing fbank cache waves := by
      obtain ⟨frame, rest, frames⟩ := List.exists_cons_of_ne_nil none
      rw [streamed.frames_append waves, frames]
      simp [padFeats]
    rw [grown, (streamed.busy none).keeps.rowsFrom_append cmvn _ before]

omit [Add β] [Mul β] in
/-- A call looks at its rows only in one place. -/
theorem extractFeatsBy_congr {splice splice' : List (List β) → Bool → Option (Spliced β)}
    {inputFinished : Bool}
    (same : ∀ feats : List (List β), feats.length = splicedFrames framing lfr cache waves →
      splice feats inputFinished = splice' feats inputFinished) :
    extractFeatsBy framing lfr fbank splice cache waves inputFinished =
      extractFeatsBy framing lfr fbank splice' cache waves inputFinished := by
  obtain ⟨feats, caches, -⟩ := fbankKaldi_eq framing fbank cache waves
  have kept : (fbankKaldi framing fbank cache waves).cache.lfrSpliceCache = cache.lfrSpliceCache := by
    rw [caches]
  have count : (fbankKaldi framing fbank cache waves).feats.length =
      computeFrameNum framing (cache.inputCache ++ waves).length := by
    rw [feats, length_fbankFrames]
  have seeds : (seedCache lfr cache.lfrSpliceCache (fbankKaldi framing fbank cache waves).feats).length =
      if cache.lfrSpliceCache = [] then lfr.copies else cache.lfrSpliceCache.length := by
    unfold seedCache
    split
    · exact List.length_replicate
    · rfl
  have spliced : splice (seedCache lfr cache.lfrSpliceCache (fbankKaldi framing fbank cache waves).feats ++
        (fbankKaldi framing fbank cache waves).feats) inputFinished =
      splice' (seedCache lfr cache.lfrSpliceCache (fbankKaldi framing fbank cache waves).feats ++
        (fbankKaldi framing fbank cache waves).feats) inputFinished :=
    same _ (by rw [List.length_append, seeds, count, splicedFrames])
  unfold extractFeatsBy
  simp only
  split
  · simp only [spliceFeatsBy, kept, spliced]
  · rename_i none
    rw [not_not] at none
    rw [none, List.length_nil] at count
    simp only [flushFeatsBy, kept]
    split
    · split
      · rfl
      · rename_i some
        have flushed : splice cache.lfrSpliceCache inputFinished =
            splice' cache.lfrSpliceCache inputFinished :=
          same _ (by rw [splicedFrames, if_neg some, ← count, Nat.add_zero])
        simp only [flushed]
    · rfl

theorem floatExtractFeats_eq (cmvn : Cmvn β)
    (right : lfr.FloatCeil (splicedFrames framing lfr cache waves)) (inputFinished : Bool) :
    floatExtractFeats framing lfr fbank cmvn cache waves inputFinished =
      extractFeats framing lfr fbank cmvn cache waves inputFinished :=
  extractFeatsBy_congr fun _ length =>
    floatOnlineLfrCmvn_eq cmvn (by rw [length]; exact right) inputFinished

/-- A run of regular calls. -/
theorem Streamed.extractCalls (cmvn : Cmvn β) (chunks : List (List α)) {stream : List α}
    {cache : FeatureCache α β} {rows : Nat} (streamed : Streamed framing lfr fbank stream cache rows)
    (regular : Regular framing lfr fbank cmvn cache chunks) :
    ∃ outputs cache' more,
      Frontend.extractCalls framing lfr fbank cmvn cache chunks = some (outputs, cache') ∧
      outputs.flatten = rowsFrom lfr cmvn
        (padFeats lfr (fbankFrames framing fbank (stream ++ chunks.flatten))) rows more ∧
      Streamed framing lfr fbank (stream ++ chunks.flatten) cache' (rows + more) := by
  induction chunks generalizing stream cache rows with
  | nil =>
    refine ⟨[], cache, 0, rfl, rfl, ?_⟩
    rw [List.flatten_nil, List.append_nil]
    exact streamed
  | cons waves chunks inductionHypothesis =>
    obtain ⟨long, right, rest⟩ := regular
    obtain ⟨extracted, more, returned, feats, streamed'⟩ := streamed.extractFeats cmvn long
    rw [← floatExtractFeats_eq cmvn right] at returned
    obtain ⟨outputs, cache', more', returned', feats', streamed''⟩ :=
      inductionHypothesis streamed' (rest extracted returned)
    rw [List.append_assoc, ← List.flatten_cons] at feats' streamed''
    refine ⟨extracted.feats :: outputs, cache', more + more', ?_, ?_, ?_⟩
    · simp only [Frontend.extractCalls, returned, Option.bind_eq_bind, Option.bind_some, returned']
      rfl
    · rw [List.flatten_cons, feats', feats, rowsFrom_add, List.flatten_cons, ← List.append_assoc,
        streamed'.rowsFrom_append cmvn chunks.flatten le_rfl]
    · rw [← add_assoc]
      exact streamed''

omit [Add β] [Mul β] in
theorem length_padFeats (lfr : LfrOptions) (frames : List (List β)) :
    (padFeats lfr frames).length = lfr.copies + frames.length := by
  rw [padFeats, List.length_append, List.length_replicate]

/-- The last call without frames makes the rest of the rows from `lfr_splice_cache_`. -/
theorem Streamed.finish_none (streamed : Streamed framing lfr fbank stream cache rows)
    (cmvn : Cmvn β) (none : newFrames framing fbank cache waves = []) :
    ∃ extracted, Frontend.extractFeats framing lfr fbank cmvn cache waves true = some extracted ∧
      rowsFrom lfr cmvn (padFeats lfr (fbankFrames framing fbank stream)) 0 rows ++ extracted.feats =
        lfrCmvn lfr cmvn (fbankFrames framing fbank stream) := by
  obtain ⟨feats, caches, -⟩ := fbankKaldi_eq framing fbank cache waves
  have empty : (fbankKaldi framing fbank cache waves).feats = [] := feats.trans none
  have splice : (fbankKaldi framing fbank cache waves).cache.lfrSpliceCache = cache.lfrSpliceCache := by
    rw [caches]
  simp only [Frontend.extractFeats, extractFeatsBy, empty, ne_eq, not_true_eq_false, if_false,
    flushFeatsBy, if_true, splice]
  by_cases idle : fbankFrames framing fbank stream = []
  · obtain ⟨noFrames, -, rfl⟩ := streamed.idle idle
    have pos := lfr.pos
    rw [if_pos noFrames, idle]
    refine ⟨_, rfl, ?_⟩
    have nothing : (0 + lfr.lfrN - 1) / lfr.lfrN = 0 := Nat.div_eq_of_lt (by omega)
    rw [lfrCmvn_eq, List.length_nil, nothing]
    rfl
  · obtain ⟨keeps, kept, -⟩ := streamed.busy idle
    have lt := lfr.lt
    have nonempty : cache.lfrSpliceCache ≠ [] := by
      rw [← List.length_pos_iff]
      omega
    obtain ⟨spliced, returned, rest, -⟩ := keeps.finish cmvn nonempty (length_padFeats lfr _)
    rw [if_neg nonempty, returned, lfrCmvn_eq]
    exact ⟨_, rfl, rest⟩

/-- The last call with enough frames. -/
theorem Streamed.finish_some (near : lfr.copies ≤ lfr.lfrN + 1)
    (streamed : Streamed framing lfr fbank stream cache rows) (cmvn : Cmvn β)
    (some : newFrames framing fbank cache waves ≠ [])
    (enough : lfr.lfrM ≤ (newFrames framing fbank cache waves).length +
      (seedCache lfr cache.lfrSpliceCache (newFrames framing fbank cache waves)).length) :
    ∃ extracted, Frontend.extractFeats framing lfr fbank cmvn cache waves true = Option.some extracted ∧
      rowsFrom lfr cmvn (padFeats lfr (fbankFrames framing fbank (stream ++ waves))) 0 rows ++
          extracted.feats =
        lfrCmvn lfr cmvn (fbankFrames framing fbank (stream ++ waves)) := by
  have frames := streamed.frames_append waves
  obtain ⟨padded, reserved, minusFrame, seeded, all⟩ :=
    streamed.seeded (newFrames framing fbank cache waves)
  rw [← frames] at all
  have nonempty : seedCache lfr cache.lfrSpliceCache (newFrames framing fbank cache waves) ++
      newFrames framing fbank cache waves ≠ [] := by
    simp [some]
  obtain ⟨spliced, returned, rest, before, early⟩ :=
    (seeded.keeps.append (newFrames framing fbank cache waves)).finish cmvn nonempty
      (by rw [all, length_padFeats])
  rw [List.length_append] at before early
  rw [all] at rest
  have fewer : spliced.lfrSpliceFrameIdxs + 2 * (lfr.copies - lfr.lfrN) ≤
      (seedCache lfr cache.lfrSpliceCache (newFrames framing fbank cache waves)).length +
        (newFrames framing fbank cache waves).length := by omega
  obtain ⟨extracted, split, feats, -⟩ := seeded.spliceFeats some enough returned (seeded.inside enough fewer)
  refine ⟨{ extracted with cache := resetCache }, ?_, ?_⟩
  · rw [extractFeats_some cmvn some, split]
    rfl
  · rw [lfrCmvn_eq, ← rest, ← feats]

/-- The last call: whatever it adds, all rows together are the offline ones. -/
theorem Streamed.finish (near : lfr.copies ≤ lfr.lfrN + 1)
    (streamed : Streamed framing lfr fbank stream cache rows) (cmvn : Cmvn β)
    (long : ¬ Short framing lfr cache waves) :
    ∃ extracted,
      Frontend.extractFeats framing lfr fbank cmvn cache waves true = some extracted ∧
      rowsFrom lfr cmvn (padFeats lfr (fbankFrames framing fbank stream)) 0 rows ++ extracted.feats =
        lfrCmvn lfr cmvn (fbankFrames framing fbank (stream ++ waves)) := by
  by_cases none : newFrames framing fbank cache waves = []
  · rw [streamed.frames_append waves, none, List.append_nil]
    exact streamed.finish_none cmvn none
  · rw [← streamed.rowsFrom_append cmvn waves (by omega)]
    exact streamed.finish_some near cmvn none (enough_of_not_short fbank long none)

/-- A last call returns, also a short one. -/
theorem Streamed.finish_returns (near : lfr.copies ≤ lfr.lfrN + 1)
    (streamed : Streamed framing lfr fbank stream cache rows) (cmvn : Cmvn β) (waves : List α) :
    ∃ extracted, Frontend.extractFeats framing lfr fbank cmvn cache waves true = some extracted := by
  by_cases none : newFrames framing fbank cache waves = []
  · obtain ⟨extracted, returned, -⟩ := streamed.finish_none cmvn none
    exact ⟨extracted, returned⟩
  · by_cases enough : lfr.lfrM ≤ (newFrames framing fbank cache waves).length +
        (seedCache lfr cache.lfrSpliceCache (newFrames framing fbank cache waves)).length
    · obtain ⟨extracted, returned, -⟩ := streamed.finish_some near cmvn none enough
      exact ⟨extracted, returned⟩
    · obtain ⟨feats, caches, -⟩ := fbankKaldi_eq framing fbank cache waves
      change _ = newFrames framing fbank cache waves at feats
      have splice : (fbankKaldi framing fbank cache waves).cache.lfrSpliceCache =
          cache.lfrSpliceCache := by
        rw [caches]
      rw [extractFeats_some cmvn none, spliceFeats, spliceFeatsBy,
        if_neg (by rw [feats, splice]; exact enough)]
      exact ⟨_, rfl⟩

theorem regular_append {chunks : List (List α)} {last : List α}
    (regular : Regular framing lfr fbank cmvn cache (chunks ++ [last])) :
    Regular framing lfr fbank cmvn cache chunks ∧
      ∀ outputs cache', Frontend.extractCalls framing lfr fbank cmvn cache chunks =
        some (outputs, cache') →
          ¬ Short framing lfr cache' last ∧ lfr.FloatCeil (splicedFrames framing lfr cache' last) := by
  induction chunks generalizing cache with
  | nil =>
    refine ⟨trivial, ?_⟩
    rintro outputs cache' returned
    cases returned
    exact ⟨regular.1, regular.2.1⟩
  | cons waves chunks inductionHypothesis =>
    obtain ⟨long, right, rest⟩ := regular
    refine ⟨⟨long, right, fun extracted returned => (inductionHypothesis (rest extracted returned)).1⟩, ?_⟩
    intro outputs cache' returned
    simp only [Frontend.extractCalls, Option.bind_eq_bind, Option.bind_eq_some_iff] at returned
    obtain ⟨extracted, first, ⟨outputs', cache''⟩, others, same⟩ := returned
    cases same
    exact (inductionHypothesis (rest extracted first)).2 _ _ others

/-- The rows of a recording are the offline rows of its waveform. -/
theorem extractRecording_eq (near : lfr.copies ≤ lfr.lfrN + 1) (framing : Framing)
    (fbank : List α → List β) (cmvn : Cmvn β) (chunks : List (List α)) (last : List α)
    (regular : Regular framing lfr fbank cmvn {} (chunks ++ [last])) :
    ∃ outputs, extractRecording framing lfr fbank cmvn chunks last = some outputs ∧
      outputs.flatten = lfrCmvn lfr cmvn (fbankFrames framing fbank (chunks ++ [last]).flatten) := by
  obtain ⟨before, final⟩ := regular_append regular
  obtain ⟨outputs, cache, rows, returned, feats, streamed⟩ :=
    (Streamed.initial framing lfr fbank).extractCalls cmvn chunks before
  rw [List.nil_append] at feats streamed
  rw [Nat.zero_add] at streamed
  obtain ⟨long, right⟩ := final outputs cache returned
  obtain ⟨extracted, returned', rest⟩ := streamed.finish near cmvn long
  rw [← floatExtractFeats_eq cmvn right] at returned'
  refine ⟨outputs ++ [extracted.feats], ?_, ?_⟩
  · simp only [extractRecording, returned, Option.bind_eq_bind, Option.bind_some, returned']
    rfl
  · rw [List.flatten_append, List.flatten_singleton, feats, rest, List.flatten_append,
      List.flatten_singleton]

/-! ## Rows of whole frames -/

/-- `row` is made of the `lfr_m` frames of `window`, all of them among `frames`. -/
structure RowOf (lfr : LfrOptions) (cmvn : Cmvn β) (frames window : List (List β)) (row : List β) :
    Prop where
  length : window.length = lfr.lfrM
  among : ∀ frame ∈ window, frame ∈ frames
  row : row = cmvn.apply window.flatten

theorem rowOf_windowAt (lfr : LfrOptions) (cmvn : Cmvn β) {frames : List (List β)}
    (some : frames ≠ []) (i : Nat) :
    RowOf lfr cmvn frames (windowAt (padFeats lfr frames) (i * lfr.lfrN) lfr.lfrM)
      (cmvn.apply (spliceRow lfr (padFeats lfr frames) i)) where
  length := length_windowAt (by simp [padFeats, some]) _ _
  among := by
    intro frame member
    cases List.mem_append.mp (mem_of_mem_windowAt member) with
    | inl copy =>
      obtain ⟨first, rest, rfl⟩ := List.exists_cons_of_ne_nil some
      rw [List.eq_of_mem_replicate copy]
      exact List.mem_cons_self
    | inr own => exact own
  row := by rw [spliceRow_eq]

theorem mem_lfrCmvn {lfr : LfrOptions} {cmvn : Cmvn β} {frames : List (List β)} {row : List β}
    (member : row ∈ lfrCmvn lfr cmvn frames) : ∃ window, RowOf lfr cmvn frames window row := by
  have pos := lfr.pos
  obtain ⟨i, index, rfl⟩ := List.mem_map.mp member
  have some : frames ≠ [] := by
    rintro rfl
    rw [List.mem_range, List.length_nil, Nat.div_eq_of_lt (by omega)] at index
    omega
  exact ⟨_, rowOf_windowAt lfr cmvn some i⟩

/-- The window of the last row reaches the last frame. -/
def LfrOptions.Reaches (lfr : LfrOptions) (frames : Nat) : Prop :=
  frames ≤ ((frames + lfr.lfrN - 1) / lfr.lfrN - 1) * lfr.lfrN + lfr.copies + 1

instance (lfr : LfrOptions) (frames : Nat) : Decidable (lfr.Reaches frames) :=
  inferInstanceAs (Decidable (_ ≤ _))

/-- With a shift of at most half a window it always does. -/
theorem LfrOptions.reaches_of_dense {lfr : LfrOptions} (dense : lfr.lfrN ≤ lfr.copies + 1)
    (frames : Nat) : lfr.Reaches frames := by
  have pos := lfr.pos
  rw [Reaches]
  rcases Nat.eq_zero_or_pos frames with rfl | some
  · omega
  · have shifted : frames + lfr.lfrN - 1 = (frames - 1) + lfr.lfrN := by omega
    have below := Nat.lt_div_mul_add pos (a := frames - 1)
    rw [shifted, Nat.add_div_right _ pos, Nat.add_sub_cancel]
    omega

/-- Then every frame is in a row. -/
theorem frame_mem_lfrCmvn {lfr : LfrOptions} (cmvn : Cmvn β) {frames : List (List β)}
    (reaches : lfr.Reaches frames.length) {k : Nat} (frame : k < frames.length) :
    ∃ window row, row ∈ lfrCmvn lfr cmvn frames ∧ RowOf lfr cmvn frames window row ∧
      ∃ j < lfr.lfrM, window[j]? = frames[k]? := by
  have pos := lfr.pos
  have lt := lfr.lt
  have odd := lfr.lfrM_eq
  have nonempty : frames ≠ [] := List.ne_nil_of_length_pos (by omega)
  have some : 0 < (frames.length + lfr.lfrN - 1) / lfr.lfrN := Nat.div_pos (by omega) pos
  rw [LfrOptions.Reaches] at reaches
  have below := Nat.div_mul_le_self (k + lfr.copies) lfr.lfrN
  have next := Nat.lt_div_mul_add pos (a := k + lfr.copies)
  obtain ⟨i, rows, start, inside⟩ : ∃ i < (frames.length + lfr.lfrN - 1) / lfr.lfrN,
      i * lfr.lfrN ≤ k + lfr.copies ∧ k + lfr.copies < i * lfr.lfrN + lfr.lfrM := by
    by_cases early : (k + lfr.copies) / lfr.lfrN < (frames.length + lfr.lfrN - 1) / lfr.lfrN
    · exact ⟨_, early, below, by omega⟩
    · have last : ((frames.length + lfr.lfrN - 1) / lfr.lfrN - 1) * lfr.lfrN ≤
          (k + lfr.copies) / lfr.lfrN * lfr.lfrN := Nat.mul_le_mul_right _ (by omega)
      exact ⟨_, Nat.sub_lt some one_pos, by omega, by omega⟩
  have stored : (padFeats lfr frames)[i * lfr.lfrN + (k + lfr.copies - i * lfr.lfrN)]? =
      frames[k]? := by
    have index : i * lfr.lfrN + (k + lfr.copies - i * lfr.lfrN) = lfr.copies + k := by omega
    rw [index, padFeats, List.getElem?_append_right (by simp), List.length_replicate,
      Nat.add_sub_cancel_left]
  refine ⟨_, _, List.mem_map_of_mem (List.mem_range.mpr rows), rowOf_windowAt lfr cmvn nonempty _,
    k + lfr.copies - i * lfr.lfrN, by omega, ?_⟩
  rw [getElem?_windowAt (by omega) (by rw [length_padFeats]; omega), stored]

/-- When every call is regular, every row is made of `lfr_m` frames of the waveform, and the rows are
    those of offline extraction: none is held back, and when the last window reaches the last frame
    every frame is in one. -/
theorem extractRecording_rows {lfr : LfrOptions} (near : lfr.copies ≤ lfr.lfrN + 1) (framing : Framing)
    (fbank : List α → List β) (cmvn : Cmvn β) (chunks : List (List α)) (last : List α)
    (regular : Regular framing lfr fbank cmvn {} (chunks ++ [last])) :
    ∃ outputs, extractRecording framing lfr fbank cmvn chunks last = some outputs ∧
      (∀ rows ∈ outputs, ∀ row ∈ rows, ∃ window,
        RowOf lfr cmvn (fbankFrames framing fbank (chunks ++ [last]).flatten) window row) ∧
      outputs.flatten = lfrCmvn lfr cmvn (fbankFrames framing fbank (chunks ++ [last]).flatten) ∧
      (lfr.Reaches (fbankFrames framing fbank (chunks ++ [last]).flatten).length →
        ∀ k < (fbankFrames framing fbank (chunks ++ [last]).flatten).length,
          ∃ window row, row ∈ outputs.flatten ∧
            RowOf lfr cmvn (fbankFrames framing fbank (chunks ++ [last]).flatten) window row ∧
            ∃ j < lfr.lfrM,
              window[j]? = (fbankFrames framing fbank (chunks ++ [last]).flatten)[k]?) := by
  obtain ⟨outputs, returned, rows⟩ := extractRecording_eq near framing fbank cmvn chunks last regular
  refine ⟨outputs, returned, ?_, rows, ?_⟩
  · intro output member row inside
    exact mem_lfrCmvn (rows ▸ List.mem_flatten_of_mem member inside)
  · intro reaches k frame
    rw [rows]
    exact frame_mem_lfrCmvn cmvn reaches frame

end

/-! ## Recordings at 16 kHz with one feature a frame -/

def firstSample (samples : List Int) : List Int := [samples.headD 0]

/-- Means of zero and factors of one, for rows of `size` features. -/
def plainCmvn (size : Nat) : Cmvn Int := ⟨List.replicate size 0, List.replicate size 1⟩

def samples (count : Nat) : List Int := (List.range count).map fun i => i

/-- Seven frames, four in the first call and three in the last. -/
theorem extractRecording_rows_two :
    ∃ outputs, extractRecording .hertz16000 .vad firstSample (plainCmvn 5) [samples 880] (samples 480) =
        some outputs ∧
      (∀ rows ∈ outputs, ∀ row ∈ rows, ∃ window, RowOf .vad (plainCmvn 5)
        (fbankFrames .hertz16000 firstSample ([samples 880] ++ [samples 480]).flatten) window row) ∧
      outputs.flatten = lfrCmvn .vad (plainCmvn 5)
        (fbankFrames .hertz16000 firstSample ([samples 880] ++ [samples 480]).flatten) ∧
      ∀ k < (fbankFrames .hertz16000 firstSample ([samples 880] ++ [samples 480]).flatten).length,
        ∃ window row, row ∈ outputs.flatten ∧
          RowOf .vad (plainCmvn 5)
            (fbankFrames .hertz16000 firstSample ([samples 880] ++ [samples 480]).flatten) window row ∧
          ∃ j < LfrOptions.vad.lfrM, window[j]? =
            (fbankFrames .hertz16000 firstSample ([samples 880] ++ [samples 480]).flatten)[k]? := by
  have later : ∀ extracted ∈ floatExtractFeats .hertz16000 .vad firstSample (plainCmvn 5) {}
      (samples 880) false, ¬ Short .hertz16000 .vad extracted.cache (samples 480) ∧
        LfrOptions.vad.FloatCeil (splicedFrames .hertz16000 .vad extracted.cache (samples 480)) := by
    decide +kernel
  obtain ⟨outputs, returned, windows, rows, all⟩ := extractRecording_rows (by decide) .hertz16000
    firstSample (plainCmvn 5) [samples 880] (samples 480)
    ⟨by decide +kernel, by decide +kernel, fun extracted returned =>
      ⟨(later extracted returned).1, (later extracted returned).2, fun _ _ => trivial⟩⟩
  exact ⟨outputs, returned, windows, rows, all (LfrOptions.reaches_of_dense (by decide) _)⟩

/-- A short call leaves its frame as a row.  Of twelve frames in rows of 7 every 6 the last two are
    in no row.  With rows of 11 every frame, the samples to keep can lie outside `waves`. -/
theorem extractFeats_short :
    ((floatExtractFeats .hertz16000 .vad firstSample (plainCmvn 5) {} (samples 400) false).map
        (·.feats) = some [[0]] ∧
      ¬ ∃ window, RowOf .vad (plainCmvn 5) (fbankFrames .hertz16000 firstSample (samples 400)) window
        [0]) ∧
    ((fbankFrames .hertz16000 firstSample (samples 2160)).drop 10 = [[1600], [1760]] ∧
      (extractRecording .hertz16000 .para firstSample (plainCmvn 7) [] (samples 2160)).map
        List.flatten =
          some [[0, 0, 0, 0, 160, 320, 480], [480, 640, 800, 960, 1120, 1280, 1440]]) ∧
    extractRecording .hertz16000 ⟨11, 1, by decide, by decide, by decide⟩ firstSample (plainCmvn 11)
      [samples 1200] (samples 160) = none := by
  refine ⟨⟨by decide +kernel, ?_⟩, ⟨by decide +kernel, by decide +kernel⟩, by decide +kernel⟩
  rintro ⟨window, length, among, row⟩
  have frames : fbankFrames .hertz16000 firstSample (samples 400) = [[0]] := by decide +kernel
  have same : window = List.replicate 5 [0] := by
    refine List.eq_replicate_iff.mpr ⟨length, fun frame member => ?_⟩
    simpa [frames] using among frame member
  rw [same] at row
  revert row
  decide

end Asr2Pass.Frontend
