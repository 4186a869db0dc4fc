import Asr2Pass.Frontend.StreamedFeats

/-! # Calls that make rows

A call of `ExtractFeats` leaves rows when it has frames, and the last call also when the cache
reaches beyond the first half of a window.
-/

namespace Asr2Pass.Frontend

variable {α β : Type} [Add β] [Mul β] {framing : Framing} {lfr : LfrOptions}
  {fbank : List α → List β} {cmvn : Cmvn β} {cache : FeatureCache α β} {waves : List α}

/-- The first row is made, or the loop breaks at it. -/
theorem onlineLfrCmvn_ne_nil {feats : List (List β)} {inputFinished : Bool} {spliced : Spliced β}
    (ran : onlineLfrCmvn lfr cmvn feats inputFinished = some spliced) :
    spliced.feats ≠ [] ↔
      lfr.copies < feats.length ∧ (lfr.lfrM ≤ feats.length ∨ inputFinished = true) := by
  have pos := lfr.pos
  have some : 0 < (lfr.tLrf feats.length).toNat ↔ lfr.copies < feats.length := by
    rw [LfrOptions.tLrf, Int.lt_toNat, Nat.cast_zero, Int.lt_iff_add_one_le,
      Int.le_ediv_iff_mul_le (by omega)]
    omega
  simp only [onlineLfrCmvn, onlineLfrCmvnRows] at ran
  split at ran
  · cases ran
  · cases ran
    rw [← some, ne_eq, List.map_eq_nil_iff]
    cases (lfr.tLrf feats.length).toNat with
    | zero => simp [spliceRows]
    | succ count =>
      simp only [spliceRows, Nat.zero_mul, Nat.sub_zero]
      split
      · rename_i first
        simp [first]
      · rename_i stopped
        simp [stopped]

theorem extractFeats_ne_nil {inputFinished : Bool} {extracted : Extracted α β}
    (ran : extractFeats framing lfr fbank cmvn cache waves inputFinished = some extracted) :
    extracted.feats ≠ [] ↔ newFrames framing fbank cache waves ≠ [] ∨
      inputFinished = true ∧ lfr.copies < cache.lfrSpliceCache.length := by
  obtain ⟨feats, caches, -⟩ := fbankKaldi_eq framing fbank cache waves
  change _ = newFrames framing fbank cache waves at feats
  -- Without a new frame only the flush of a last call makes rows.
  by_cases none : newFrames framing fbank cache waves = []
  · have empty := feats.trans none
    have kept : (fbankKaldi framing fbank cache waves).cache.lfrSpliceCache =
        cache.lfrSpliceCache := by
      rw [caches]
    simp only [none, ne_eq, not_true_eq_false, false_or]
    simp only [extractFeats, extractFeatsBy, empty, ne_eq, not_true_eq_false, if_false, flushFeatsBy,
      kept] at ran
    cases inputFinished with
    | false =>
      cases ran
      simp [empty]
    | true =>
      simp only [if_true, true_and] at ran ⊢
      split at ran
      · rename_i nothing
        cases ran
        simp [nothing]
      · obtain ⟨extracted', spliced, same⟩ := Option.bind_eq_some_iff.mp ran
        cases same
        obtain ⟨rows, returned, same⟩ := Option.bind_eq_some_iff.mp spliced
        cases same
        have made := onlineLfrCmvn_ne_nil returned
        simp only [or_true, and_true] at made
        exact made
  · rw [extractFeats_some cmvn none] at ran
    obtain ⟨extracted', spliced, rfl⟩ := Option.map_eq_some_iff.mp ran
    have made : extracted'.feats ≠ [] := by
      simp only [spliceFeats, spliceFeatsBy, feats] at spliced
      split at spliced
      · rename_i enough
        simp only [Option.bind_eq_bind, Option.bind_eq_some_iff] at spliced
        obtain ⟨rows, returned, reserve, -, same⟩ := spliced
        cases same
        have odd := lfr.lfrM_eq
        apply (onlineLfrCmvn_ne_nil returned).mpr
        rw [List.length_append]
        exact ⟨by omega, .inl (by omega)⟩
      -- With too few frames waiting, they are handed on as they are.
      · cases spliced
        exact none
    have same : (if inputFinished = true then { extracted' with cache := resetCache }
        else extracted').feats = extracted'.feats := by
      split <;> rfl
    rw [same]
    simp [made, none]

/-- The caches are empty after the last call. -/
theorem extractFeats_finished {extracted : Extracted α β}
    (ran : extractFeats framing lfr fbank cmvn cache waves true = some extracted) :
    extracted.cache = resetCache := by
  simp only [extractFeats, extractFeatsBy, if_true] at ran
  split at ran
  · obtain ⟨extracted', -, same⟩ := Option.bind_eq_some_iff.mp ran
    cases same
    rfl
  · obtain ⟨extracted', -, same⟩ := Option.bind_eq_some_iff.mp ran
    cases same
    rfl

/-- The waveform that a call returns has a window for each of its new frames. -/
theorem extractFeats_windows {inputFinished : Bool} {extracted : Extracted α β}
    (ran : extractFeats framing lfr fbank cmvn cache waves inputFinished = some extracted) :
    (newFrames framing fbank cache waves).length ≤ computeFrameNum framing extracted.waves.length := by
  by_cases none : newFrames framing fbank cache waves = []
  · rw [none]
    exact Nat.zero_le _
  · obtain ⟨feats, caches, samples⟩ := fbankKaldi_eq framing fbank cache waves
    change _ = newFrames framing fbank cache waves at feats
    have count : computeFrameNum framing (cache.inputCache ++ waves).length =
        (newFrames framing fbank cache waves).length := (length_fbankFrames framing fbank _).symm
    have size := List.length_pos_of_ne_nil none
    rw [count] at samples
    have enough := samples (by omega)
    rw [extractFeats_some cmvn none] at ran
    obtain ⟨extracted', spliced, same⟩ := Option.map_eq_some_iff.mp ran
    have returned : extracted.waves = extracted'.waves := by
      rw [← same]
      split <;> rfl
    -- Both branches put the samples in reserve in front, and cut behind the last frame at most.
    have long : ((newFrames framing fbank cache waves).length - 1) * framing.frameShiftSampleLength +
        framing.frameSampleLength ≤ extracted'.waves.length := by
      simp only [spliceFeats, spliceFeatsBy, feats] at spliced
      split at spliced
      · simp only [Option.bind_eq_bind, Option.bind_eq_some_iff] at spliced
        obtain ⟨rows, -, reserve, -, same⟩ := spliced
        cases same
        simp only [List.length_take, List.length_append, enough]
        generalize (fbankKaldi framing fbank cache waves).cache.reserveWaveforms.length = reserved
        generalize (newFrames framing fbank cache waves).length - 1 = frames
        have whole : frames ≤ (reserved + (frames * framing.frameShiftSampleLength +
            framing.frameSampleLength) - framing.frameSampleLength) /
              framing.frameShiftSampleLength := by
          rw [Nat.le_div_iff_mul_le framing.pos]
          omega
        have inside := Nat.mul_le_mul_right framing.frameShiftSampleLength whole
        rw [Nat.add_sub_cancel]
        omega
      · cases spliced
        simp only [List.length_append, enough]
        omega
    rw [returned]
    obtain ⟨below, -⟩ := computeFrameNum_spec framing extracted'.waves.length
    by_contra fewer
    have before : computeFrameNum framing extracted'.waves.length * framing.frameShiftSampleLength ≤
        ((newFrames framing fbank cache waves).length - 1) * framing.frameShiftSampleLength :=
      Nat.mul_le_mul_right _ (by omega)
    omega

/-- No sample that it returns is new to the caches and to the call. -/
theorem extractFeats_waves_le {inputFinished : Bool} {extracted : Extracted α β}
    (ran : extractFeats framing lfr fbank cmvn cache waves inputFinished = some extracted) :
    extracted.waves.length ≤
      cache.reserveWaveforms.length + (cache.inputCache.length + waves.length) := by
  obtain ⟨-, caches, -⟩ := fbankKaldi_eq framing fbank cache waves
  have reserve : (fbankKaldi framing fbank cache waves).cache.reserveWaveforms =
      cache.reserveWaveforms := by
    rw [caches]
  have taken : (fbankKaldi framing fbank cache waves).waves.length ≤
      cache.inputCache.length + waves.length := by
    rw [← List.length_append]
    simp only [fbankKaldi]
    split
    · exact le_rfl
    · exact List.length_take_le' _ _
  rw [← reserve]
  have returned {extracted' : Extracted α β} (same : pure (if inputFinished then
      { extracted' with cache := resetCache } else extracted') = some extracted) :
      extracted.waves = extracted'.waves := by
    cases same
    split <;> rfl
  rw [extractFeats, extractFeatsBy] at ran
  split at ran
  · obtain ⟨extracted', branch, same⟩ := Option.bind_eq_some_iff.mp ran
    rw [returned same]
    simp only [spliceFeatsBy] at branch
    split at branch
    · obtain ⟨spliced, -, branch⟩ := Option.bind_eq_some_iff.mp branch
      obtain ⟨kept, -, branch⟩ := Option.bind_eq_some_iff.mp branch
      cases branch
      refine (List.length_take_le' _ _).trans ?_
      rw [List.length_append]
      omega
    · cases branch
      simp only [List.length_append]
      omega
  · obtain ⟨extracted', branch, same⟩ := Option.bind_eq_some_iff.mp ran
    rw [returned same]
    simp only [flushFeatsBy] at branch
    split at branch
    · -- A last call without frames returns the reserve, or what there is.
      have either : (if (fbankKaldi framing fbank cache waves).cache.reserveWaveforms = [] then
          (fbankKaldi framing fbank cache waves).waves
          else (fbankKaldi framing fbank cache waves).cache.reserveWaveforms).length ≤
            (fbankKaldi framing fbank cache waves).cache.reserveWaveforms.length +
              (cache.inputCache.length + waves.length) := by
        split <;> omega
      split at branch
      · cases branch
        exact either
      · obtain ⟨spliced, -, branch⟩ := Option.bind_eq_some_iff.mp branch
        cases branch
        exact either
    · cases branch
      omega

/-- A call with enough frames that is not the last one makes every row that it can. -/
theorem extractFeats_rows {extracted : Extracted α β}
    (ran : extractFeats framing lfr fbank cmvn cache waves false = some extracted)
    (some : newFrames framing fbank cache waves ≠ [])
    (enough : lfr.lfrM ≤ (newFrames framing fbank cache waves).length +
      (seedCache lfr cache.lfrSpliceCache (newFrames framing fbank cache waves)).length) :
    extracted.feats.length = fullRows lfr
      (seedCache lfr cache.lfrSpliceCache (newFrames framing fbank cache waves) ++
        newFrames framing fbank cache waves) := by
  obtain ⟨feats, caches, -⟩ := fbankKaldi_eq framing fbank cache waves
  change _ = newFrames framing fbank cache waves at feats
  have kept : (fbankKaldi framing fbank cache waves).cache.lfrSpliceCache = cache.lfrSpliceCache := by
    rw [caches]
  have long : lfr.lfrM ≤ (seedCache lfr cache.lfrSpliceCache (newFrames framing fbank cache waves) ++
      newFrames framing fbank cache waves).length := by
    rw [List.length_append]
    omega
  rw [extractFeats_some cmvn some] at ran
  obtain ⟨extracted', spliced, rfl⟩ := Option.map_eq_some_iff.mp ran
  simp only [spliceFeats, spliceFeatsBy, feats, kept, ge_iff_le, enough, if_true,
    onlineLfrCmvn_open lfr cmvn long, Option.bind_eq_bind, Option.bind_some, Option.bind_eq_some_iff] at spliced
  obtain ⟨reserve, -, same⟩ := spliced
  cases same
  simp [rowsFrom]

end Asr2Pass.Frontend
