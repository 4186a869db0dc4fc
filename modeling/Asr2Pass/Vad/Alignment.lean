import Asr2Pass.Frontend.RowCounts
import Asr2Pass.Vad.AllReset
import Asr2Pass.Vad.FsmnVadOnline

/-! # Energies and frames of a streamed recording

`decibel` grows by every window of the waveform that `ExtractFeats` returns, and that waveform
starts again with the samples of the frames kept back.  So `decibel[t]` is the energy of frame `t`
for the frames of the first call that has frames, and for no more.
-/

namespace Asr2Pass.Vad

open Library Frontend E2EVadModel

/-! ## The windows of a waveform -/

section
variable {α δ : Type} {khz : Nat} {pos : 0 < khz}

theorem frameSampleLength_khz (khz : Nat) : frameSampleLength (1000 * khz) = khz * 25 := by
  simp only [frameSampleLength, VADXOptions.frameLengthMs]
  omega

theorem frameShiftLength_khz (khz : Nat) : frameShiftLength (1000 * khz) = khz * 10 := by
  simp only [frameShiftLength, VADXOptions.frameInMs]
  omega

theorem windowCount_khz (size : Nat) :
    windowCount (1000 * khz) size = computeFrameNum (framing khz pos) size := by
  rw [windowCount, frameSampleLength_khz, frameShiftLength_khz]
  rfl

theorem decibelOf_khz (energy : List α → δ) (waveform : List α) :
    decibelOf energy (1000 * khz) waveform =
      (List.range (computeFrameNum (framing khz pos) waveform.length)).map fun t =>
        energy (frameSamples (framing khz pos) waveform t) := by
  rw [decibelOf, @windowCount_khz khz pos, frameSampleLength_khz, frameShiftLength_khz]
  rfl

/-- The samples after the last frame have no window. -/
theorem decibelOf_trimmed (energy : List α → δ) {waves : List α}
    (some : computeFrameNum (framing khz pos) waves.length ≠ 0) :
    decibelOf energy (1000 * khz)
        (waves.take ((computeFrameNum (framing khz pos) waves.length - 1) *
          (framing khz pos).frameShiftSampleLength + (framing khz pos).frameSampleLength)) =
      (List.range (computeFrameNum (framing khz pos) waves.length)).map fun t =>
        energy (frameSamples (framing khz pos) waves t) := by
  obtain ⟨-, reached⟩ := computeFrameNum_spec (framing khz pos) waves.length
  have last := reached.resolve_left some
  generalize counted : computeFrameNum (framing khz pos) waves.length = count at *
  have size : (waves.take ((count - 1) * (framing khz pos).frameShiftSampleLength +
      (framing khz pos).frameSampleLength)).length =
        (count - 1) * (framing khz pos).frameShiftSampleLength +
          (framing khz pos).frameSampleLength := by
    rw [List.length_take]
    omega
  -- As many windows fit as before, since the last one ends where the samples do.
  have same : computeFrameNum (framing khz pos) ((count - 1) *
      (framing khz pos).frameShiftSampleLength + (framing khz pos).frameSampleLength) = count := by
    have positive := (framing khz pos).pos
    have next : count * (framing khz pos).frameShiftSampleLength =
        (count - 1) * (framing khz pos).frameShiftSampleLength +
          (framing khz pos).frameShiftSampleLength := by
      rw [← Nat.succ_mul, Nat.succ_eq_add_one, Nat.sub_add_cancel (by omega)]
    rw [computeFrameNum_eq_iff]
    exact ⟨by omega, .inr le_rfl⟩
  rw [@decibelOf_khz _ _ khz pos, size, same]
  apply List.map_congr_left
  intro t member
  have before := List.mem_range.mp member
  have inside : t * (framing khz pos).frameShiftSampleLength ≤
      (count - 1) * (framing khz pos).frameShiftSampleLength := Nat.mul_le_mul_right _ (by omega)
  rw [frameSamples_take (framing khz pos) waves (by omega)]

end

/-! ## A recording -/

/-- The handle with what it has been given since the last reset: the samples, and the number of
    frames of the first chunk with which there were any. -/
structure Recording (α β δ κ : Type) where
  handle : FsmnVadOnline α β δ κ
  stream : List α := []
  first : Nat := 0

namespace VadConfig

variable {α β δ κ : Type}

/-- The frames of a waveform. -/
def frames (config : VadConfig α β δ κ) (waves : List α) : Nat :=
  computeFrameNum (framing config.khz config.pos) waves.length

/-- The energy of the 25 ms that start at `t * 10` ms. -/
def energyAt (config : VadConfig α β δ κ) (stream : List α) (t : Nat) : δ :=
  config.energy (frameSamples (framing config.khz config.pos) stream t)

variable [Add β] [Mul β] [Field δ] [LinearOrder δ]

def step (config : VadConfig α β δ κ) (recording : Recording α β δ κ) (chunk : Chunk α) :
    Option (Recording α β δ κ) :=
  (config.infer recording.handle chunk).map fun (_, handle) =>
    if chunk.inputFinished then { handle }
    else
      let stream := recording.stream ++ chunk.waves
      { handle, stream, first := if recording.first = 0 then config.frames stream else recording.first }

/-- Each frame that the scorer looks at for the chunk has its own energy in `decibel`. -/
def Aligned (config : VadConfig α β δ κ) (recording : Recording α β δ κ) (chunk : Chunk α) : Prop :=
  ∀ extracted vadProbs inCache,
    config.judge recording.handle chunk = some (extracted, vadProbs, inCache) →
    ∀ row < vadProbs.length,
      let model := recording.handle.vadScorer.model
      let t := model.frmCnt.toNat + row
      (model.decibel ++ decibelOf config.energy (1000 * config.khz) extracted.waves)[t]? =
        some (config.energyAt (recording.stream ++ chunk.waves) t)

/-- The session does not throw, and the chunk is the first one with frames, or has no frame and
    is not the last one, or has none that is scored beyond the frames of the first one. -/
def WithinFirst (config : VadConfig α β δ κ) (recording : Recording α β δ κ) (chunk : Chunk α) :
    Prop :=
  let seen := config.frames (recording.stream ++ chunk.waves)
  chunk.threw = false ∧ (recording.first = 0 ∨
    seen = config.frames recording.stream ∧ chunk.inputFinished = false ∨
    3 ≤ recording.first ∧ seen ≤ recording.first + if chunk.inputFinished then 0 else 2)

end VadConfig

/-! ## The first call with frames -/

section
variable {α β : Type} {framing : Framing} {fbank : List α → List β} {cmvn : Cmvn β}
  {cache : FeatureCache α β} {waves : List α}

theorem fbankFrames_ne_nil {stream : List α} (some : computeFrameNum framing stream.length ≠ 0) :
    fbankFrames framing fbank stream ≠ [] := by
  rw [← List.length_pos_iff, length_fbankFrames]
  omega

/-- Rows stay two frames behind. -/
theorem rows_le {stream : List α} {rows : Nat}
    (streamed : Streamed framing .vad fbank stream cache rows)
    (some : computeFrameNum framing stream.length ≠ 0) :
    rows + 2 ≤ computeFrameNum framing stream.length := by
  have length := length_fbankFrames framing fbank stream
  have nonempty := @fbankFrames_ne_nil _ _ _ fbank _ some
  obtain ⟨keeps, kept, -⟩ := streamed.busy nonempty
  rw [keeps.cache, List.length_drop, length_padFeats, length] at kept
  simp only [LfrOptions.vad, LfrOptions.copies] at kept
  omega

variable [Add β] [Mul β]

/-- Without samples in reserve the scorer gets the samples of the frames. -/
theorem spliceFeats_waves {lfr : LfrOptions} {extracted extracted' : Extracted α β} {count : Nat}
    {inputFinished : Bool}
    (spliced : spliceFeats framing lfr cmvn extracted inputFinished = some extracted')
    (empty : extracted.cache.reserveWaveforms = [])
    (length : extracted.waves.length =
      count * framing.frameShiftSampleLength + framing.frameSampleLength) :
    extracted'.waves = extracted.waves := by
  have back : (extracted.waves.length - framing.frameSampleLength) /
      framing.frameShiftSampleLength = count := by
    rw [length, Nat.add_sub_cancel, Nat.mul_div_cancel _ framing.pos]
  simp only [spliceFeats, spliceFeatsBy, empty, List.nil_append] at spliced
  split at spliced
  · simp only [Option.bind_eq_bind, Option.bind_eq_some_iff] at spliced
    obtain ⟨rows, -, reserve, -, same⟩ := spliced
    cases same
    simp only [back, Nat.add_sub_cancel, ← length, List.take_length]
  · cases spliced
    rfl

theorem extractFeats_waves {lfr : LfrOptions} {extracted : Extracted α β} {inputFinished : Bool}
    (ran : Frontend.extractFeats framing lfr fbank cmvn cache waves inputFinished = some extracted)
    (empty : cache.reserveWaveforms = [])
    (frames : computeFrameNum framing (cache.inputCache ++ waves).length ≠ 0) :
    extracted.waves = (cache.inputCache ++ waves).take
      ((computeFrameNum framing (cache.inputCache ++ waves).length - 1) *
        framing.frameShiftSampleLength + framing.frameSampleLength) := by
  obtain ⟨feats, caches, samples⟩ := fbankKaldi_eq framing fbank cache waves
  have some : newFrames framing fbank cache waves ≠ [] := by
    rw [newFrames, ← List.length_pos_iff, length_fbankFrames]
    omega
  rw [extractFeats_some cmvn some] at ran
  obtain ⟨extracted', spliced, rfl⟩ := Option.map_eq_some_iff.mp ran
  have same := spliceFeats_waves spliced (by rw [caches]; exact empty) (samples frames)
  have kaldi : (fbankKaldi framing fbank cache waves).waves = (cache.inputCache ++ waves).take
      ((computeFrameNum framing (cache.inputCache ++ waves).length - 1) *
        framing.frameShiftSampleLength + framing.frameSampleLength) := by
    simp only [fbankKaldi, frames, if_false]
  rw [← kaldi, ← same]
  split <;> rfl

/-- A call without frames that is not the last one only keeps its samples. -/
theorem extractFeats_idle {lfr : LfrOptions} {extracted : Extracted α β}
    (ran : Frontend.extractFeats framing lfr fbank cmvn cache waves false = some extracted)
    (none : newFrames framing fbank cache waves = []) :
    extracted.feats = [] ∧ extracted.cache = (fbankKaldi framing fbank cache waves).cache := by
  have feats : (fbankKaldi framing fbank cache waves).feats = [] :=
    (fbankKaldi_eq framing fbank cache waves).1.trans none
  simp only [Frontend.extractFeats, extractFeatsBy, feats, ne_eq, not_true_eq_false, if_false, flushFeatsBy,
    Bool.false_eq_true] at ran
  cases ran
  exact ⟨feats, rfl⟩

/-- A first call with fewer frames than a row needs leaves them as they are. -/
theorem extractFeats_few {extracted : Extracted α β} {inputFinished : Bool}
    (ran : Frontend.extractFeats framing .vad fbank cmvn cache waves inputFinished = some extracted)
    (empty : cache.lfrSpliceCache = []) (some : newFrames framing fbank cache waves ≠ [])
    (few : (newFrames framing fbank cache waves).length < 3) :
    extracted.feats = newFrames framing fbank cache waves ∧
      (inputFinished = false → extracted.cache.inputCache =
        (fbankKaldi framing fbank cache waves).cache.inputCache) := by
  obtain ⟨feats, caches, -⟩ := fbankKaldi_eq framing fbank cache waves
  rw [extractFeats_some cmvn some] at ran
  obtain ⟨extracted', spliced, rfl⟩ := Option.map_eq_some_iff.mp ran
  have seeds : (seedCache .vad (fbankKaldi framing fbank cache waves).cache.lfrSpliceCache
      (fbankKaldi framing fbank cache waves).feats).length = 2 := by
    rw [caches]
    simp [seedCache, empty, LfrOptions.copies, LfrOptions.vad]
  have short : ¬ (fbankKaldi framing fbank cache waves).feats.length +
      (seedCache .vad (fbankKaldi framing fbank cache waves).cache.lfrSpliceCache
        (fbankKaldi framing fbank cache waves).feats).length ≥ LfrOptions.vad.lfrM := by
    rw [seeds, feats]
    change ¬ (newFrames framing fbank cache waves).length + 2 ≥ 5
    omega
  simp only [spliceFeats, spliceFeatsBy, short, if_false] at spliced
  cases spliced
  cases inputFinished with
  | true =>
    refine ⟨feats, fun more => ?_⟩
    cases more
  | false => exact ⟨feats, fun _ => rfl⟩

/-! ## How many rows a call makes -/

variable {stream : List α} {rows : Nat}

omit [Add β] [Mul β] in
/-- A call with frames after the first one has enough of them. -/
theorem seeds_of_frames (streamed : Streamed framing .vad fbank stream cache rows)
    (seen : computeFrameNum framing stream.length ≠ 0)
    (some : newFrames framing fbank cache waves ≠ []) :
    LfrOptions.vad.lfrM ≤ (newFrames framing fbank cache waves).length +
      (seedCache .vad cache.lfrSpliceCache (newFrames framing fbank cache waves)).length := by
  have nonempty := @fbankFrames_ne_nil _ _ _ fbank _ seen
  obtain ⟨-, kept, -⟩ := streamed.busy nonempty
  simp only [LfrOptions.vad] at kept ⊢
  have cached : cache.lfrSpliceCache ≠ [] := by
    intro none
    rw [none, List.length_nil] at kept
    omega
  have count := List.length_pos_of_ne_nil some
  rw [seedCache, if_neg cached]
  omega

omit [Add β] [Mul β] in
/-- A first call with a row's worth of frames. -/
theorem seeds_of_many (empty : cache.lfrSpliceCache = [])
    (many : 3 ≤ (newFrames framing fbank cache waves).length) :
    LfrOptions.vad.lfrM ≤ (newFrames framing fbank cache waves).length +
      (seedCache .vad cache.lfrSpliceCache (newFrames framing fbank cache waves)).length := by
  have seeds : (seedCache .vad cache.lfrSpliceCache (newFrames framing fbank cache waves)).length = 2 := by
    simp [seedCache, empty, LfrOptions.copies, LfrOptions.vad]
  rw [seeds]
  change 5 ≤ _
  omega

/-- The last call makes the rows of the frames that have none yet. -/
theorem rows_last (streamed : Streamed framing .vad fbank stream cache rows)
    (enough : newFrames framing fbank cache waves ≠ [] →
      LfrOptions.vad.lfrM ≤ (newFrames framing fbank cache waves).length +
        (seedCache .vad cache.lfrSpliceCache (newFrames framing fbank cache waves)).length)
    {extracted : Extracted α β}
    (ran : Frontend.extractFeats framing .vad fbank cmvn cache waves true = some extracted) :
    rows + extracted.feats.length = computeFrameNum framing (stream ++ waves).length := by
  have offline (frames : List (List β)) : (lfrCmvn .vad cmvn frames).length = frames.length := by
    rw [lfrCmvn_eq]
    simp [rowsFrom, LfrOptions.vad]
  by_cases none : newFrames framing fbank cache waves = []
  · obtain ⟨extracted', returned, all⟩ := streamed.finish_none cmvn none
    rw [ran] at returned
    cases returned
    have count := congrArg List.length all
    have same := streamed.frames_append waves
    rw [none, List.append_nil] at same
    rw [← length_fbankFrames framing fbank, same]
    simpa [rowsFrom, offline] using count
  · obtain ⟨extracted', returned, all⟩ :=
      streamed.finish_some (by decide) cmvn none (enough none)
    rw [ran] at returned
    cases returned
    have count := congrArg List.length all
    rw [← length_fbankFrames framing fbank]
    simpa [rowsFrom, offline] using count

end

/-! ## The invariant -/

namespace VadConfig

variable {α β δ κ : Type} {config : VadConfig α β δ κ} {recording : Recording α β δ κ}
  {chunk : Chunk α}

/-- Between two calls of a recording. -/
structure Kept (config : VadConfig α β δ κ) (recording : Recording α β δ κ) : Prop where
  none : recording.first = 0 → config.frames recording.stream = 0 ∧
    recording.handle.vadScorer.model.decibel = [] ∧ recording.handle.vadScorer.model.frmCnt = 0
  some : recording.first ≤ config.frames recording.stream
  energies : ∀ t < recording.first, recording.handle.vadScorer.model.decibel[t]? =
    Option.some (config.energyAt recording.stream t)
  input : recording.handle.features.inputCache = recording.stream.drop
    (config.frames recording.stream * (framing config.khz config.pos).frameShiftSampleLength)
  /-- The first call was not short. -/
  streamed : recording.first = 0 ∨ 3 ≤ recording.first → ∃ rows : Nat,
    Streamed (framing config.khz config.pos) .vad config.fbank recording.stream
      recording.handle.features rows ∧ recording.handle.vadScorer.model.frmCnt = rows

theorem Kept.new [Field δ] (config : VadConfig α β δ κ) : config.Kept { handle := config.new } where
  none := fun _ => ⟨by
    have le := (framing config.khz config.pos).le
    have pos := (framing config.khz config.pos).pos
    rw [frames, List.length_nil, computeFrameNum_eq_iff]
    omega, rfl, rfl⟩
  some := Nat.zero_le _
  energies := fun t before => absurd before (Nat.not_lt_zero t)
  input := by simp [VadConfig.new]
  streamed := fun _ => ⟨0, Streamed.initial _ _ _, rfl⟩

/-- The energies so far stay those of the stream. -/
theorem energyAt_append {stream waves : List α} {t : Nat} (frame : t < config.frames stream) :
    config.energyAt (stream ++ waves) t = config.energyAt stream t := by
  rw [energyAt, energyAt, frameSamples_append _ (frame_inside _ frame)]

theorem Kept.frames_append (kept : config.Kept recording) (waves : List α) :
    config.frames (recording.stream ++ waves) = config.frames recording.stream +
      (newFrames (framing config.khz config.pos) config.fbank recording.handle.features waves).length := by
  have inside := computeFrameNum_mul_le (framing config.khz config.pos) recording.stream.length
  rw [newFrames, length_fbankFrames, kept.input, List.length_append, List.length_drop, frames, frames,
    List.length_append, computeFrameNum_append]

/-- The first frames of a later chunk are in `decibel` already. -/
theorem Kept.energies_later (kept : config.Kept recording) (waves : List α) (more : List δ) {t : Nat}
    (before : t < recording.first) :
    (recording.handle.vadScorer.model.decibel ++ more)[t]? =
      Option.some (config.energyAt (recording.stream ++ waves) t) := by
  have known := kept.energies t before
  have frame : t < config.frames recording.stream := lt_of_lt_of_le before kept.some
  have index : t < recording.handle.vadScorer.model.decibel.length :=
    (List.getElem?_eq_some_iff.mp known).1
  rw [List.getElem?_append_left index, known, energyAt_append frame]

/-- The samples that wait after one more chunk. -/
theorem Kept.input_append (kept : config.Kept recording) (waves : List α) :
    (fbankKaldi (framing config.khz config.pos) config.fbank recording.handle.features
        waves).cache.inputCache =
      (recording.stream ++ waves).drop (config.frames (recording.stream ++ waves) *
        (framing config.khz config.pos).frameShiftSampleLength) := by
  have inside := computeFrameNum_mul_le (framing config.khz config.pos) recording.stream.length
  rw [(fbankKaldi_eq _ config.fbank recording.handle.features waves).2.1]
  simp only [kept.input, frames, List.length_append, List.length_drop]
  rw [computeFrameNum_append _ recording.stream.length waves.length, add_mul, ← List.drop_drop,
    List.drop_append_of_le_length inside]

variable [Add β] [Mul β]

/-- The first frames of the recording come with this chunk. -/
theorem Kept.energies_first (kept : config.Kept recording) (first : recording.first = 0)
    {extracted : Extracted α β}
    (ran : config.extractFeats recording.handle.features chunk = Option.some extracted)
    (seen : config.frames (recording.stream ++ chunk.waves) ≠ 0) :
    decibelOf config.energy (1000 * config.khz) extracted.waves =
      (List.range (config.frames (recording.stream ++ chunk.waves))).map fun t =>
        config.energyAt (recording.stream ++ chunk.waves) t := by
  obtain ⟨idle, -, -⟩ := kept.none first
  obtain ⟨rows, streamed, -⟩ := kept.streamed (.inl first)
  have input : recording.handle.features.inputCache ++ chunk.waves =
      recording.stream ++ chunk.waves := by
    rw [kept.input, idle, Nat.zero_mul, List.drop_zero]
  have empty : fbankFrames (framing config.khz config.pos) config.fbank recording.stream = [] := by
    rw [← List.length_eq_zero_iff, length_fbankFrames]
    exact idle
  have waves := extractFeats_waves ran (streamed.idle empty).2.1 (by rw [input]; exact seen)
  rw [waves, input]
  exact decibelOf_trimmed config.energy seen

/-- The rows of the chunk with the first frames. -/
theorem Kept.rows_first (kept : config.Kept recording) (first : recording.first = 0)
    {extracted : Extracted α β}
    (ran : config.extractFeats recording.handle.features chunk = Option.some extracted)
    (made : extracted.feats ≠ []) :
    config.frames (recording.stream ++ chunk.waves) ≠ 0 ∧
      extracted.feats.length ≤ config.frames (recording.stream ++ chunk.waves) := by
  obtain ⟨idle, -, counted⟩ := kept.none first
  obtain ⟨rows, streamed, frmCnt⟩ := kept.streamed (.inl first)
  have grown := kept.frames_append chunk.waves
  have rows' : rows = 0 := by omega
  subst rows'
  have empty : fbankFrames (framing config.khz config.pos) config.fbank recording.stream = [] := by
    rw [← List.length_eq_zero_iff, length_fbankFrames]
    exact idle
  have spliceCache := (streamed.idle empty).1
  have size := List.length_pos_of_ne_nil made
  obtain ⟨waves, inputFinished, threw⟩ := chunk
  simp only [extractFeats, FsmnVadOnline.extractFeats] at grown ran ⊢
  rw [idle, Nat.zero_add] at grown
  by_cases none : newFrames (framing config.khz config.pos) config.fbank recording.handle.features
    waves = []
  · cases inputFinished with
    | false => exact absurd (extractFeats_idle ran none).1 made
    | true =>
      have all := rows_last streamed (fun some => absurd none some) ran
      rw [none, List.length_nil] at grown
      change 0 + _ = config.frames _ at all
      omega
  · have some := List.length_pos_of_ne_nil none
    refine ⟨by omega, ?_⟩
    by_cases few : (newFrames (framing config.khz config.pos) config.fbank
      recording.handle.features waves).length < 3
    · rw [(extractFeats_few ran spliceCache none few).1, grown]
    · have enough := seeds_of_many spliceCache (not_lt.mp few)
      cases inputFinished with
      | true =>
        have all := rows_last streamed (fun _ => enough) ran
        change 0 + _ = config.frames _ at all
        omega
      | false =>
        obtain ⟨extracted', more, returned, feats, streamed'⟩ :=
          streamed.extract_some config.cmvn none enough
        rw [ran] at returned
        cases returned
        have behind := rows_le streamed' (by change config.frames _ ≠ 0; omega)
        rw [feats]
        simp only [rowsFrom, List.length_map, List.length_range']
        change 0 + more + 2 ≤ config.frames _ at behind
        omega

/-- The rows of a later chunk. -/
theorem Kept.rows_later (kept : config.Kept recording) (within : config.WithinFirst recording chunk)
    (later : recording.first ≠ 0) {extracted : Extracted α β}
    (ran : config.extractFeats recording.handle.features chunk = Option.some extracted)
    (made : extracted.feats ≠ []) :
    recording.handle.vadScorer.model.frmCnt.toNat + extracted.feats.length ≤ recording.first := by
  have grown := kept.frames_append chunk.waves
  obtain ⟨-, within⟩ := within
  have seen := kept.some
  obtain ⟨waves, inputFinished, threw⟩ := chunk
  simp only [extractFeats, FsmnVadOnline.extractFeats] at within grown ran
  -- Without a frame there are no rows; with frames they stay two behind, but for the last chunk.
  rcases within.resolve_left later with ⟨same, going⟩ | ⟨many, within⟩
  · subst going
    have none : newFrames (framing config.khz config.pos) config.fbank recording.handle.features
        waves = [] := by
      rw [← List.length_eq_zero_iff]
      omega
    exact absurd (extractFeats_idle ran none).1 made
  · obtain ⟨rows, streamed, frmCnt⟩ := kept.streamed (.inr many)
    have frames : config.frames recording.stream ≠ 0 := by omega
    cases inputFinished with
    | true =>
      have all := rows_last streamed (fun some => seeds_of_frames streamed frames some) ran
      change rows + _ = config.frames _ at all
      simp only [if_true] at within
      omega
    | false =>
      by_cases none : newFrames (framing config.khz config.pos) config.fbank
        recording.handle.features waves = []
      · exact absurd (extractFeats_idle ran none).1 made
      · obtain ⟨extracted', more, returned, feats, streamed'⟩ :=
          streamed.extract_some config.cmvn none (seeds_of_frames streamed frames none)
        rw [ran] at returned
        cases returned
        have behind := rows_le streamed' (by change config.frames _ ≠ 0; omega)
        change rows + more + 2 ≤ config.frames _ at behind
        rw [feats]
        simp only [rowsFrom, List.length_map, List.length_range']
        simp only [Bool.false_eq_true, if_false] at within
        omega

/-! ## One call -/

/-- The session answers with a row for each row of features. -/
theorem judge_cases {handle : FsmnVadOnline α β δ κ} {extracted : Extracted α β}
    {vadProbs : List (List δ)} {inCache : κ} (threw : chunk.threw = false)
    (judged : config.judge handle chunk = Option.some (extracted, vadProbs, inCache)) :
    config.extractFeats handle.features chunk = Option.some extracted ∧
      vadProbs.length = extracted.feats.length := by
  simp only [judge, Option.bind_eq_bind, Option.bind_eq_some_iff] at judged
  obtain ⟨extracted', ran, judged⟩ := judged
  split at judged
  · rename_i none
    cases judged
    exact ⟨ran, by rw [none]; rfl⟩
  · simp only [forward, threw] at judged
    cases judged
    exact ⟨ran, config.session.length_run _ _⟩

/-- The frames of a chunk that is within the first one's have their energies. -/
theorem Kept.aligned (kept : config.Kept recording) (within : config.WithinFirst recording chunk) :
    config.Aligned recording chunk := by
  intro extracted vadProbs inCache judged row index
  obtain ⟨ran, length⟩ := judge_cases within.1 judged
  have made : extracted.feats ≠ [] := by
    apply List.ne_nil_of_length_pos
    omega
  by_cases first : recording.first = 0
  · obtain ⟨seen, rows⟩ := kept.rows_first first ran made
    obtain ⟨-, decibel, frmCnt⟩ := kept.none first
    simp only [decibel, frmCnt, List.nil_append, kept.energies_first first ran seen, Int.toNat_zero,
      Nat.zero_add]
    rw [List.getElem?_map, List.getElem?_range (by omega)]
    rfl
  · have rows := kept.rows_later within first ran made
    exact kept.energies_later chunk.waves _ (by omega)

/-- A call without rows. -/
theorem Kept.idle (kept : config.Kept recording) (going : chunk.inputFinished = false)
    {extracted : Extracted α β}
    (ran : config.extractFeats recording.handle.features chunk = Option.some extracted)
    (nothing : extracted.feats = []) {handle : FsmnVadOnline α β δ κ}
    (features : handle.features = extracted.cache)
    (vadScorer : handle.vadScorer = recording.handle.vadScorer) :
    config.Kept
      { handle
        stream := recording.stream ++ chunk.waves
        first := if recording.first = 0 then config.frames (recording.stream ++ chunk.waves)
          else recording.first } := by
  have grown := kept.frames_append chunk.waves
  simp only [extractFeats, FsmnVadOnline.extractFeats, going] at ran
  have none : newFrames (framing config.khz config.pos) config.fbank recording.handle.features
      chunk.waves = [] := by
    by_contra some
    exact absurd nothing ((extractFeats_ne_nil ran).mpr (.inl some))
  rw [none, List.length_nil, Nat.add_zero] at grown
  have first : (if recording.first = 0 then config.frames (recording.stream ++ chunk.waves)
      else recording.first) = recording.first := by
    split
    · rename_i first
      rw [grown, (kept.none first).1, first]
    · rfl
  rw [first]
  refine ⟨fun first => ?_, grown.symm ▸ kept.some, fun t before => ?_, ?_, fun long => ?_⟩
  · simp only [vadScorer, grown]
    exact kept.none first
  · simp only [vadScorer]
    rw [kept.energies t before, energyAt_append (lt_of_lt_of_le before kept.some)]
  · rw [features, (extractFeats_idle ran none).2]
    exact kept.input_append chunk.waves
  · obtain ⟨rows, streamed, frmCnt⟩ := kept.streamed long
    obtain ⟨extracted', returned, -, streamed'⟩ := streamed.extract_none config.cmvn none
    rw [ran] at returned
    cases returned
    simp only [features, vadScorer]
    exact ⟨rows, streamed', frmCnt⟩

/-- The chunk with the first frames. -/
theorem Kept.begun (kept : config.Kept recording) (going : chunk.inputFinished = false)
    (first : recording.first = 0) {extracted : Extracted α β}
    (ran : config.extractFeats recording.handle.features chunk = Option.some extracted)
    (made : extracted.feats ≠ []) {handle : FsmnVadOnline α β δ κ}
    (features : handle.features = extracted.cache)
    (decibel : handle.vadScorer.model.decibel = recording.handle.vadScorer.model.decibel ++
      decibelOf config.energy (1000 * config.khz) extracted.waves)
    (frmCnt : handle.vadScorer.model.frmCnt =
      recording.handle.vadScorer.model.frmCnt + extracted.feats.length) :
    config.Kept
      { handle
        stream := recording.stream ++ chunk.waves
        first := config.frames (recording.stream ++ chunk.waves) } := by
  obtain ⟨idle, empty, zero⟩ := kept.none first
  obtain ⟨seen, -⟩ := kept.rows_first first ran made
  obtain ⟨rows, streamed, same⟩ := kept.streamed (.inl first)
  have rows' : rows = 0 := by omega
  subst rows'
  have energies := kept.energies_first first ran seen
  have grown := kept.frames_append chunk.waves
  rw [idle, Nat.zero_add] at grown
  have spliceCache := (streamed.idle (by
    rw [← List.length_eq_zero_iff, length_fbankFrames]
    exact idle)).1
  simp only [extractFeats, FsmnVadOnline.extractFeats, going] at ran
  have some : newFrames (framing config.khz config.pos) config.fbank recording.handle.features
      chunk.waves ≠ [] := by
    apply List.ne_nil_of_length_pos
    omega
  refine ⟨fun none => absurd none seen, le_rfl, fun t before => ?_, ?_, fun long => ?_⟩
  · simp only [decibel, empty, List.nil_append, energies]
    rw [List.getElem?_map, List.getElem?_range before]
    rfl
  · rw [features, ← kept.input_append chunk.waves]
    by_cases few : (newFrames (framing config.khz config.pos) config.fbank
      recording.handle.features chunk.waves).length < 3
    · exact (extractFeats_few ran spliceCache some few).2 rfl
    · obtain ⟨extracted', more, returned, -, streamed'⟩ :=
        streamed.extract_some config.cmvn some (seeds_of_many spliceCache (not_lt.mp few))
      rw [ran] at returned
      cases returned
      rw [kept.input_append chunk.waves]
      exact streamed'.input
  · have many := long.resolve_left seen
    simp only at many
    obtain ⟨extracted', more, returned, rowsOf, streamed'⟩ := streamed.extract_some config.cmvn some
      (seeds_of_many spliceCache (by omega))
    rw [ran] at returned
    cases returned
    refine ⟨0 + more, by rw [features]; exact streamed', ?_⟩
    rw [frmCnt, zero, rowsOf]
    simp [rowsFrom]

/-- A later chunk with frames. -/
theorem Kept.continued (kept : config.Kept recording) (within : config.WithinFirst recording chunk)
    (going : chunk.inputFinished = false) (later : recording.first ≠ 0) {extracted : Extracted α β}
    (ran : config.extractFeats recording.handle.features chunk = Option.some extracted)
    (made : extracted.feats ≠ []) {handle : FsmnVadOnline α β δ κ}
    (features : handle.features = extracted.cache)
    (decibel : handle.vadScorer.model.decibel = recording.handle.vadScorer.model.decibel ++
      decibelOf config.energy (1000 * config.khz) extracted.waves)
    (frmCnt : handle.vadScorer.model.frmCnt =
      recording.handle.vadScorer.model.frmCnt + extracted.feats.length) :
    config.Kept
      { handle, stream := recording.stream ++ chunk.waves, first := recording.first } := by
  have grown := kept.frames_append chunk.waves
  have seen := kept.some
  simp only [extractFeats, FsmnVadOnline.extractFeats, going] at ran
  have some : newFrames (framing config.khz config.pos) config.fbank recording.handle.features
      chunk.waves ≠ [] := by
    have rows := (extractFeats_ne_nil ran).mp made
    simpa using rows
  have count := List.length_pos_of_ne_nil some
  have many : 3 ≤ recording.first := by
    rcases (within.2).resolve_left later with ⟨same, -⟩ | ⟨many, -⟩
    · omega
    · exact many
  obtain ⟨rows, streamed, same⟩ := kept.streamed (.inr many)
  have frames : config.frames recording.stream ≠ 0 := by omega
  obtain ⟨extracted', more, returned, rowsOf, streamed'⟩ :=
    streamed.extract_some config.cmvn some (seeds_of_frames streamed frames some)
  rw [ran] at returned
  cases returned
  refine ⟨fun none => absurd none later, ?_, fun t before => ?_, ?_, fun _ => ⟨rows + more, ?_, ?_⟩⟩
  · simp only
    omega
  · simp only [decibel]
    exact kept.energies_later chunk.waves _ before
  · rw [features]
    exact streamed'.input
  · rw [features]
    exact streamed'
  · rw [frmCnt, same, rowsOf]
    simp [rowsFrom]

variable [Field δ] [LinearOrder δ]

/-- The model after a call. -/
theorem infer_cases {handle handle' : FsmnVadOnline α β δ κ} {segments : List Segment}
    (threw : chunk.threw = false)
    (inferred : config.infer handle chunk = Option.some (segments, handle')) :
    ∃ extracted, config.extractFeats handle.features chunk = Option.some extracted ∧
      handle'.features = extracted.cache ∧
      (extracted.feats = [] ∧ handle'.vadScorer = handle.vadScorer ∨
        extracted.feats ≠ [] ∧ if chunk.inputFinished
          then handle'.vadScorer.model.decibel = [] ∧ handle'.vadScorer.model.frmCnt = 0
          else handle'.vadScorer.model.decibel = handle.vadScorer.model.decibel ++
              decibelOf config.energy (1000 * config.khz) extracted.waves ∧
            handle'.vadScorer.model.frmCnt =
              handle.vadScorer.model.frmCnt + extracted.feats.length) := by
  simp only [infer, Option.bind_eq_bind, Option.bind_eq_some_iff, Prod.exists] at inferred
  obtain ⟨extracted, vadProbs, inCache, judged, inferred⟩ := inferred
  obtain ⟨ran, length⟩ := judge_cases threw judged
  -- Without scores the scorer is not called.
  split at inferred
  · rename_i none
    cases inferred
    rw [none, List.length_nil] at length
    exact ⟨extracted, ran, rfl, .inl ⟨List.length_eq_zero_iff.mp length.symm, rfl⟩⟩
  · rename_i some
    simp only [Option.bind_eq_some_iff, Prod.exists] at inferred
    obtain ⟨answers, vadScorer, called, same⟩ := inferred
    cases same
    have made : extracted.feats ≠ [] := by
      apply List.ne_nil_of_length_pos
      rw [← length]
      exact List.length_pos_of_ne_nil some
    refine ⟨extracted, ran, rfl, .inr ⟨made, ?_⟩⟩
    have stepped : handle.vadScorer.step config.elementary config.energy
        (config.scorerCall vadProbs extracted.waves chunk.inputFinished) =
          Option.some vadScorer := by
      rw [Scorer.step, called]
      rfl
    obtain ⟨reported, persists, after⟩ := Scorer.step_cases stepped
    cases final : chunk.inputFinished with
    | true =>
      simp only [scorerCall, final, if_true] at after
      rw [after]
      exact ⟨rfl, rfl⟩
    | false =>
      simp only [scorerCall, final, Bool.false_eq_true, if_false] at after
      have decibel := persists.decibel
      have frmCnt := persists.frmCnt
      simp only [scorerCall, fed, length] at decibel frmCnt
      simp only [Bool.false_eq_true, if_false, after.1]
      exact ⟨decibel, frmCnt⟩

/-- The last call starts a new recording. -/
theorem Kept.finish (kept : config.Kept recording) (within : config.WithinFirst recording chunk)
    (final : chunk.inputFinished = true) {handle : FsmnVadOnline α β δ κ} {segments : List Segment}
    (inferred : config.infer recording.handle chunk = Option.some (segments, handle)) :
    config.Kept { handle } := by
  obtain ⟨extracted, ran, features, scored⟩ := infer_cases within.1 inferred
  have reset : handle.features = {} := by
    simp only [extractFeats, FsmnVadOnline.extractFeats, final] at ran
    rw [features, extractFeats_finished ran]
    rfl
  have fresh : handle.vadScorer.model.decibel = [] ∧ handle.vadScorer.model.frmCnt = 0 := by
    rcases scored with ⟨none, same⟩ | ⟨-, same⟩
    · rw [same]
      by_cases first : recording.first = 0
      · exact (kept.none first).2
      · -- Two frames at least have no row yet, so that the last call makes one.
        rcases (within.2).resolve_left first with ⟨-, going⟩ | ⟨many, -⟩
        · rw [final] at going
          cases going
        · obtain ⟨rows, streamed, -⟩ := kept.streamed (.inr many)
          have seen := kept.some
          have behind := rows_le streamed (by change config.frames _ ≠ 0; omega)
          simp only [extractFeats, FsmnVadOnline.extractFeats, final] at ran
          have all := rows_last streamed
            (fun some => seeds_of_frames streamed (by change config.frames _ ≠ 0; omega) some) ran
          have grown := kept.frames_append chunk.waves
          rw [none, List.length_nil] at all
          change rows + 2 ≤ config.frames _ at behind
          change rows + 0 = config.frames _ at all
          omega
    · rw [final] at same
      exact same
  have blank := Kept.new config
  exact ⟨fun _ => ⟨(blank.none rfl).1, fresh⟩, Nat.zero_le _,
    fun t before => absurd before (Nat.not_lt_zero t), by rw [reset]; exact blank.input,
    fun _ => ⟨0, by rw [reset]; exact Streamed.initial _ _ _, fresh.2⟩⟩

/-- A call that is not the last one. -/
theorem Kept.more (kept : config.Kept recording) (within : config.WithinFirst recording chunk)
    (going : chunk.inputFinished = false) {handle : FsmnVadOnline α β δ κ} {segments : List Segment}
    (inferred : config.infer recording.handle chunk = Option.some (segments, handle)) :
    config.Kept
      { handle
        stream := recording.stream ++ chunk.waves
        first := if recording.first = 0 then config.frames (recording.stream ++ chunk.waves)
          else recording.first } := by
  obtain ⟨extracted, ran, features, scored⟩ := infer_cases within.1 inferred
  rcases scored with ⟨nothing, vadScorer⟩ | ⟨made, scored⟩
  · exact kept.idle going ran nothing features vadScorer
  · simp only [going, Bool.false_eq_true, if_false] at scored
    obtain ⟨decibel, frmCnt⟩ := scored
    split
    · rename_i first
      exact kept.begun going first ran made features decibel frmCnt
    · rename_i later
      exact kept.continued within going later ran made features decibel frmCnt

theorem Kept.step (kept : config.Kept recording) (within : config.WithinFirst recording chunk)
    {next : Recording α β δ κ} (stepped : config.step recording chunk = Option.some next) :
    config.Kept next := by
  obtain ⟨⟨segments, handle⟩, inferred, rfl⟩ := Option.map_eq_some_iff.mp stepped
  cases final : chunk.inputFinished with
  | true => exact kept.finish within final inferred
  | false => exact kept.more within final inferred

def start (config : VadConfig α β δ κ) : Recording α β δ κ := { handle := config.new }

/-- In a run whose chunks stay within the first one with frames, every frame that the scorer looks
    at has in `decibel` the energy of its own 25 ms. -/
theorem run_aligned {chunks : List (Chunk α)}
    (ran : run config.step config.start chunks = some recording)
    (within : Meets config.step config.WithinFirst config.start (chunks ++ [chunk])) :
    config.Aligned recording chunk := by
  obtain ⟨before, last⟩ := meets_append.mp within
  have kept := @run_meets _ _ config.step config.WithinFirst (fun _ recording => config.Kept recording)
    (fun kept within stepped => kept.step within stepped) [] chunks _ _ (Kept.new config) before ran
  exact kept.aligned (last recording ran).1

/-! ## A recording of 880 and 160 samples -/

/-- A session that takes every row for silence, and energy without its logarithm. -/
def silent : VadConfig ℚ ℚ ℚ Unit where
  khz := 16
  pos := by decide
  fbank _ := [0]
  cmvn := ⟨[], []⟩
  session := { run := fun feats _ => (feats.map fun _ => [1], ()), length_run := by simp }
  initCache := ()
  elementary := ⟨id, id⟩
  energy window := (window.map fun sample => sample * sample).sum
  vadSilenceDuration := 800
  vadMaxLen := 15000
  vadSpeechNoiseThres := 4 / 5

/-- Four frames, of which two are scored. -/
def fourFrames : Chunk ℚ :=
  { waves := List.replicate 640 1 ++ List.replicate 240 0, inputFinished := false }

theorem run_aligned_fourFrames :
    ∃ recording, run silent.step silent.start [fourFrames] = some recording ∧
      silent.Aligned recording { waves := [], inputFinished := true } := by
  have returns : (run silent.step silent.start [fourFrames]).isSome = true := by decide +kernel
  obtain ⟨recording, ran⟩ := Option.isSome_iff_exists.mp returns
  refine ⟨recording, ran, run_aligned ran ⟨⟨rfl, .inl rfl⟩, ?_⟩⟩
  intro next stepped
  obtain ⟨⟨segments, handle⟩, -, rfl⟩ := Option.map_eq_some_iff.mp stepped
  have four : silent.frames (silent.start.stream ++ fourFrames.waves) = 4 := by decide +kernel
  have going : fourFrames.inputFinished = false := rfl
  have idle : silent.start.first = 0 := rfl
  refine ⟨⟨rfl, .inr (.inr ?_)⟩, fun _ _ => trivial⟩
  simp [four, going, idle]

/-- The last 10 ms make a fifth frame. -/
def fifthFrame : Chunk ℚ := { waves := List.replicate 160 0, inputFinished := true }

/-- The scorer looks at frame 4 with the energy of frame 0. -/
theorem run_aligned_fifthFrame :
    ∃ recording, run silent.step silent.start [fourFrames] = some recording ∧
      ¬ silent.Aligned recording fifthFrame := by
  have scored : ((run silent.step silent.start [fourFrames]).bind fun recording =>
      (silent.judge recording.handle fifthFrame).map fun (extracted, vadProbs, _) =>
        (vadProbs.length, recording.handle.vadScorer.model.frmCnt,
          (recording.handle.vadScorer.model.decibel ++
            decibelOf silent.energy (1000 * silent.khz) extracted.waves)[4]?,
          silent.energyAt (recording.stream ++ fifthFrame.waves) 4)) =
      some (3, 2, some 400, 0) := by
    decide +kernel
  simp only [Option.bind_eq_some_iff, Option.map_eq_some_iff, Prod.exists, Prod.mk.injEq] at scored
  obtain ⟨recording, ran, extracted, vadProbs, inCache, judged, rows, frmCnt, loud, quiet⟩ := scored
  refine ⟨recording, ran, fun aligned => ?_⟩
  have own := aligned extracted vadProbs inCache judged 2 (by omega)
  simp only [frmCnt] at own
  change (recording.handle.vadScorer.model.decibel ++ _)[4]? = some (silent.energyAt _ 4) at own
  rw [loud, quiet] at own
  cases own

end VadConfig

end Asr2Pass.Vad
