import Asr2Pass.Frontend.StreamedFeats

/-! # Streamed frames are the frames of the waveform

`FbankKaldi` of `FsmnVadOnline` and of `ParaformerOnline` have one text.  Over its calls, whatever
their chunks, it computes every frame once; what it keeps for the next call is short of a frame.
-/

namespace Asr2Pass.Frontend

variable {α β : Type}

/-! ## `ComputeFrameNum` -/

/-- `ComputeFrameNum` in the integers of the source, whose division truncates. -/
def computeFrameNumInt (sampleLength frameSampleLength frameShiftSampleLength : Int) : Int :=
  let frameNum := (sampleLength - frameSampleLength).tdiv frameShiftSampleLength + 1
  if frameNum ≥ 1 ∧ sampleLength ≥ frameSampleLength then frameNum else 0

theorem computeFrameNumInt_eq (framing : Framing) (sampleLength : Nat) :
    computeFrameNumInt sampleLength framing.frameSampleLength framing.frameShiftSampleLength =
      computeFrameNum framing sampleLength := by
  unfold computeFrameNumInt computeFrameNum
  by_cases long : framing.frameSampleLength ≤ sampleLength
  · have difference : (sampleLength : Int) - framing.frameSampleLength =
        (sampleLength - framing.frameSampleLength : Nat) := by omega
    have quotient : ((sampleLength : Int) - framing.frameSampleLength).tdiv
        framing.frameShiftSampleLength =
          ((sampleLength - framing.frameSampleLength) / framing.frameShiftSampleLength : Nat) := by
      rw [difference]
      rfl
    simp only [quotient]
    have one : (1 : Int) ≤ ((sampleLength - framing.frameSampleLength) /
        framing.frameShiftSampleLength : Nat) + 1 :=
      Int.le_add_of_nonneg_left (Int.natCast_nonneg _)
    rw [if_pos ⟨one, by exact_mod_cast long⟩, if_pos long]
    push_cast
    rfl
  · -- a short difference truncates to a quotient of 0, which the second test catches
    simp only
    rw [if_neg (by omega), if_neg long]
    rfl

/-! ## One call -/

/-- The frames are those of the buffer that `OnlineFbank` accepts. -/
theorem fbankKaldi_feats (framing : Framing) (fbank : List α → List β) (cache : FeatureCache α β)
    (waves : List α) (some : computeFrameNum framing (cache.inputCache ++ waves).length ≠ 0) :
    (fbankKaldi framing fbank cache waves).feats =
      fbankFrames framing fbank (fbankKaldi framing fbank cache waves).waves := by
  obtain ⟨-, -, size⟩ := fbankKaldi_eq framing fbank cache waves
  have accepted := size some
  have frames : computeFrameNum framing (fbankKaldi framing fbank cache waves).waves.length =
      computeFrameNum framing (cache.inputCache ++ waves).length := by
    rw [computeFrameNum_eq_iff, accepted]
    have pos := framing.pos
    cases count : computeFrameNum framing (cache.inputCache ++ waves).length with
    | zero => exact absurd count some
    | succ k =>
      simp only [Nat.add_sub_cancel, add_mul, one_mul]
      omega
  rw [fbankFrames, frames]
  simp only [fbankKaldi, some, if_false]

theorem fbankKaldi_ne_nil (framing : Framing) (fbank : List α → List β) (cache : FeatureCache α β)
    (waves : List α) : (fbankKaldi framing fbank cache waves).feats ≠ [] ↔
      computeFrameNum framing (cache.inputCache ++ waves).length ≠ 0 := by
  obtain ⟨feats, -⟩ := fbankKaldi_eq framing fbank cache waves
  rw [feats, ne_eq, ← List.length_eq_zero_iff, length_fbankFrames]

/-- What a call with a frame keeps reaches back to the last shift and is short of a frame. -/
theorem fbankKaldi_inputCache (framing : Framing) (fbank : List α → List β)
    (cache : FeatureCache α β) (waves : List α)
    (some : (fbankKaldi framing fbank cache waves).feats ≠ []) :
    framing.frameSampleLength - framing.frameShiftSampleLength ≤
        (fbankKaldi framing fbank cache waves).cache.inputCache.length ∧
      (fbankKaldi framing fbank cache waves).cache.inputCache.length < framing.frameSampleLength := by
  rw [fbankKaldi_ne_nil] at some
  obtain ⟨-, kept, -⟩ := fbankKaldi_eq framing fbank cache waves
  rw [kept, List.length_drop]
  obtain ⟨below, reached⟩ := computeFrameNum_spec framing (cache.inputCache ++ waves).length
  have last := reached.resolve_left some
  have le := framing.le
  cases count : computeFrameNum framing (cache.inputCache ++ waves).length with
  | zero => exact absurd count some
  | succ k =>
    simp only [count, Nat.add_sub_cancel, add_mul, one_mul] at below last ⊢
    omega

/-! ## A run of calls -/

/-- What each call of `FbankKaldi` puts into `vad_feats`, and the caches after the last one. -/
def fbankCalls (framing : Framing) (fbank : List α → List β) (cache : FeatureCache α β) :
    List (List α) → List (List (List β)) × FeatureCache α β
  | [] => ([], cache)
  | waves :: chunks =>
    let extracted := fbankKaldi framing fbank cache waves
    let (outputs, cache) := fbankCalls framing fbank extracted.cache chunks
    (extracted.feats :: outputs, cache)

/-- `input_cache_` holds the samples of `stream` that no frame has used up. -/
def Unused (framing : Framing) (stream : List α) (cache : FeatureCache α β) : Prop :=
  cache.inputCache = stream.drop (computeFrameNum framing stream.length * framing.frameShiftSampleLength)

variable {framing : Framing} {fbank : List α → List β} {cache : FeatureCache α β} {stream : List α}

theorem Unused.fbankKaldi (unused : Unused framing stream cache) (waves : List α) :
    fbankFrames framing fbank (stream ++ waves) =
        fbankFrames framing fbank stream ++ (fbankKaldi framing fbank cache waves).feats ∧
      Unused framing (stream ++ waves) (fbankKaldi framing fbank cache waves).cache := by
  obtain ⟨feats, kept, -⟩ := fbankKaldi_eq framing fbank cache waves
  have inside := computeFrameNum_mul_le framing stream.length
  constructor
  · rw [fbankFrames_append, feats, unused]
  · have grown : (stream ++ waves).length = stream.length + waves.length := List.length_append
    rw [Unused, kept, unused, grown, computeFrameNum_append framing stream.length,
      ← List.drop_append_of_le_length inside, List.drop_drop, List.length_drop, grown,
      add_mul, Nat.sub_add_comm inside]

theorem Unused.fbankCalls (unused : Unused framing stream cache) (chunks : List (List α)) :
    fbankFrames framing fbank (stream ++ chunks.flatten) =
      fbankFrames framing fbank stream ++ (fbankCalls framing fbank cache chunks).1.flatten := by
  induction chunks generalizing stream cache with
  | nil => simp [Frontend.fbankCalls]
  | cons waves chunks inductionHypothesis =>
    obtain ⟨frames, unused'⟩ := @Unused.fbankKaldi _ _ _ fbank _ _ unused waves
    rw [List.flatten_cons, ← List.append_assoc, inductionHypothesis unused', frames,
      List.append_assoc]
    rfl

/-- The calls compute the frames of the waveform, in order and each once, and every call that
    computes one leaves between a length less a shift and a length. -/
theorem fbankCalls_frames (framing : Framing) (fbank : List α → List β) (chunks : List (List α)) :
    (fbankCalls framing fbank {} chunks).1.flatten = fbankFrames framing fbank chunks.flatten ∧
      ∀ before waves after, chunks = before ++ waves :: after →
        let call := fbankKaldi framing fbank (fbankCalls framing fbank {} before).2 waves
        call.feats ≠ [] →
          framing.frameSampleLength - framing.frameShiftSampleLength ≤
              call.cache.inputCache.length ∧
            call.cache.inputCache.length < framing.frameSampleLength := by
  have fresh : Unused framing [] ({} : FeatureCache α β) := by simp [Unused]
  have none : fbankFrames framing fbank [] = [] := by
    have pos := framing.pos
    have le := framing.le
    simp [fbankFrames, computeFrameNum, show ¬ framing.frameSampleLength = 0 by omega]
  constructor
  · have frames := @Unused.fbankCalls _ _ _ fbank _ _ fresh chunks
    rw [List.nil_append, none, List.nil_append] at frames
    exact frames.symm
  · intro before waves after _ call some
    exact fbankKaldi_inputCache framing fbank _ waves some

end Asr2Pass.Frontend
