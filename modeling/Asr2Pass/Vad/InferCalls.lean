import Asr2Pass.Vad.Alignment
import Asr2Pass.Vad.SegmentLengths
import Asr2Pass.Vad.StartTimes

/-! # Calls of `FsmnVadOnline::Infer`

`Listening` is what the handle satisfies between two calls of a recording: it has judged all frames
of the samples so far but two, and its scorer follows the segmenter.  `infer_more` is one call,
`infer_last` the last one.
-/

namespace Asr2Pass.Vad

open Library Frontend E2EVadModel

/-! ## The scorer -/

section
variable {α δ : Type} [Field δ] [LinearOrder δ]

/-- Only a missing probability leaves a frame without a state. -/
theorem frameState_some (elementary : Elementary δ) (speechNoiseThres noise curDecibel : δ)
    {score : List δ} (some : score ≠ []) :
    ∃ judged, Scorer.frameState elementary [0] speechNoiseThres noise curDecibel score =
      Option.some judged := by
  obtain ⟨silence, rest, rfl⟩ := List.exists_cons_of_ne_nil some
  simp only [Scorer.frameState, List.mapM_cons, List.mapM_nil, List.getElem?_cons_zero]
  split
  · exact ⟨_, rfl⟩
  · simp only [Option.bind_eq_bind, Option.bind_some, Option.pure_def, List.length_singleton,
      gt_iff_lt, zero_lt_one, if_true]
    split
    · split <;> exact ⟨_, rfl⟩
    · exact ⟨_, rfl⟩

theorem frameStates_some (elementary : Elementary δ) (speechNoiseThres : δ) (decibel : List δ)
    (noise : δ) (t : Nat) {scores : List (List δ)} (full : ∀ score ∈ scores, score ≠ [])
    (covered : t + scores.length ≤ decibel.length) :
    ∃ rows noise', Scorer.frameStates elementary [0] speechNoiseThres decibel noise t scores =
      some (rows, noise') ∧ rows.length = scores.length := by
  induction scores generalizing noise t with
  | nil => exact ⟨[], noise, rfl, rfl⟩
  | cons score scores inductionHypothesis =>
    rw [List.length_cons] at covered
    obtain ⟨curDecibel, index⟩ : ∃ curDecibel, decibel[t]? = some curDecibel :=
      ⟨decibel.get ⟨t, by omega⟩, List.getElem?_eq_getElem _⟩
    obtain ⟨⟨state, noise'⟩, judged⟩ := frameState_some elementary speechNoiseThres noise curDecibel
      (full score List.mem_cons_self)
    obtain ⟨rows, noise'', later, length⟩ := inductionHypothesis noise' (t + 1)
      (fun score member => full score (List.mem_cons_of_mem _ member)) (by omega)
    refine ⟨state :: rows, noise'', ?_, by rw [List.length_cons, List.length_cons, length]⟩
    simp only [Scorer.frameStates, index, Option.bind_eq_bind, Option.bind_some, judged, later]
    rfl

/-- A call of the scorer is a call of its model on the rows that it makes of the probabilities. -/
theorem scorerCall_eq (elementary : Elementary δ) (energy : List α → δ) {scorer : Scorer α δ}
    (silPdfIds : scorer.silPdfIds = [0]) (rate : SampleRate) {args : ScorerCall α δ}
    (online : args.online = true) (sampleRate : args.sampleRate = rate) (some : args.score ≠ [])
    (full : ∀ score ∈ args.score, score ≠ [])
    (covered : scorer.model.frmCnt.toNat + args.score.length ≤
      scorer.model.decibel.length + windowCount rate args.waveform.length) :
    ∃ call : Call α, call.rows.length = args.score.length ∧ call.waveform = args.waveform ∧
      ∀ answer model, onlineCall energy rate scorer.model call args.isFinal =
          Option.some (answer, model) →
        ∃ scorer', scorer.call elementary energy args = Option.some (answer, scorer') ∧
          scorer'.model = model ∧ scorer'.silPdfIds = [0] := by
  obtain ⟨rows, noise', states, length⟩ := frameStates_some elementary args.speechNoiseThres
    (scorer.model.decibel ++ decibelOf energy args.sampleRate args.waveform)
    scorer.noiseAverageDecibel scorer.model.frmCnt.toNat full
    (by rw [List.length_append, sampleRate, length_decibelOf]; exact covered)
  have nonempty : rows ≠ [] := by
    apply List.ne_nil_of_length_pos
    rw [length]
    exact List.length_pos_of_ne_nil some
  refine ⟨⟨rows, args.waveform, args.maxEndSil, args.maxSingleSegmentTime, nonempty⟩, length, rfl,
    fun answer model called => ?_⟩
  simp only [onlineCall, ← sampleRate] at called
  rw [Scorer.call, silPdfIds, states]
  simp only [Option.bind_eq_bind, Option.bind_some, online, called]
  refine ⟨_, rfl, ?_, ?_⟩
  · split <;> rfl
  · split <;> rfl

end

/-! ## Between two calls -/

namespace VadConfig

variable {α β δ κ : Type}

def rate (config : VadConfig α β δ κ) : SampleRate :=
  ⟨1000 * config.khz, by have := config.pos; omega⟩

/-- The session gives every row its probabilities. -/
def Scores (config : VadConfig α β δ κ) : Prop :=
  ∀ feats inCache, ∀ score ∈ (config.session.run feats inCache).1, score ≠ []

/-- As many samples as a call may pass to the scorer: its own, and 65 ms that calls before have left. -/
def passes (config : VadConfig α β δ κ) (waves : List α) : Nat := waves.length + 65 * config.khz

/-- The handle after the samples `stream` of a recording, `rows` frames of which are judged; `ahead`
    samples are still to be passed to the scorer. -/
structure Listening (config : VadConfig α β δ κ) (handle : FsmnVadOnline α β δ κ) (stream : List α)
    (segmenter : Segmenter) (rows ahead : Nat) : Prop where
  streamed : Streamed (framing config.khz config.pos) .vad config.fbank stream handle.features rows
  scorer : ∃ windows, config.frames stream ≤ windows ∧
    Streaming config.rate handle.vadScorer.model segmenter rows windows ahead
  silPdfIds : handle.vadScorer.silPdfIds = [0]
  judged : rows ≤ config.frames stream
  behind : config.frames stream ≤ rows + 2
  fresh : rows = 0 → segmenter = Segmenter.initial

theorem frames_nil (config : VadConfig α β δ κ) : config.frames [] = 0 := by
  have le := (framing config.khz config.pos).le
  have pos := (framing config.khz config.pos).pos
  rw [frames, List.length_nil, computeFrameNum_eq_iff]
  omega

theorem Listening.new [Field δ] (config : VadConfig α β δ κ) (ahead : Nat) :
    config.Listening config.new [] Segmenter.initial 0 ahead where
  streamed := Streamed.initial _ _ _
  scorer := ⟨0, by rw [frames_nil], (@Ready.new _ _ config.energy config.rate).streaming ahead⟩
  silPdfIds := rfl
  judged := Nat.zero_le _
  behind := by rw [frames_nil]; exact Nat.zero_le _
  fresh := fun _ => rfl

theorem Listening.newInt [Field δ] (config : VadConfig α β δ κ) {ahead : Nat}
    (few : ahead < 2 ^ 31) : config.Listening config.newInt [] Segmenter.initial 0 ahead where
  streamed := Streamed.initial _ _ _
  scorer := ⟨0, by rw [frames_nil],
    (@Served.new _ _ config.energy config.rate).streaming ((Nat.zero_add ahead).symm ▸ few)⟩
  silPdfIds := rfl
  judged := Nat.zero_le _
  behind := by rw [frames_nil]; exact Nat.zero_le _
  fresh := fun _ => rfl

/-- `SetConfig`. -/
def setConfig (config : VadConfig α β δ κ) (vadTailSil vadMaxLen : Int) : VadConfig α β δ κ :=
  { config with vadSilenceDuration := vadTailSil, vadMaxLen }

/-- `SetConfig` leaves a recording as it is. -/
theorem listening_setConfig {config : VadConfig α β δ κ} {handle : FsmnVadOnline α β δ κ}
    {stream : List α} {segmenter : Segmenter} {rows ahead : Nat} (vadTailSil vadMaxLen : Int) :
    (config.setConfig vadTailSil vadMaxLen).Listening handle stream segmenter rows ahead ↔
      config.Listening handle stream segmenter rows ahead :=
  ⟨fun ⟨streamed, scorer, silPdfIds, judged, behind, fresh⟩ =>
      ⟨streamed, scorer, silPdfIds, judged, behind, fresh⟩,
    fun ⟨streamed, scorer, silPdfIds, judged, behind, fresh⟩ =>
      ⟨streamed, scorer, silPdfIds, judged, behind, fresh⟩⟩

/-- No call leaves a recording with one or two frames, too few for a row of five. -/
def Enough (config : VadConfig α β δ κ) (stream : List α) : Prop :=
  config.frames stream = 0 ∨ 3 ≤ config.frames stream

instance (config : VadConfig α β δ κ) (stream : List α) : Decidable (config.Enough stream) :=
  inferInstanceAs (Decidable (_ ∨ _))

section
variable {config : VadConfig α β δ κ} {handle : FsmnVadOnline α β δ κ} {stream : List α}
  {segmenter : Segmenter} {rows ahead : Nat}

theorem Listening.frames_append (listening : config.Listening handle stream segmenter rows ahead)
    (waves : List α) : config.frames (stream ++ waves) = config.frames stream +
      (newFrames (framing config.khz config.pos) config.fbank handle.features waves).length := by
  have grown := congrArg List.length (listening.streamed.frames_append waves)
  rwa [List.length_append, length_fbankFrames, length_fbankFrames] at grown

/-- A call with frames has enough of them. -/
theorem Listening.seeds (listening : config.Listening handle stream segmenter rows ahead) {waves : List α}
    (enough : config.Enough (stream ++ waves))
    (some : newFrames (framing config.khz config.pos) config.fbank handle.features waves ≠ []) :
    LfrOptions.vad.lfrM ≤
      (newFrames (framing config.khz config.pos) config.fbank handle.features waves).length +
        (seedCache .vad handle.features.lfrSpliceCache
          (newFrames (framing config.khz config.pos) config.fbank handle.features waves)).length := by
  by_cases seen : config.frames stream = 0
  · have empty : fbankFrames (framing config.khz config.pos) config.fbank stream = [] := by
      rw [← List.length_eq_zero_iff, length_fbankFrames]
      exact seen
    have grown := listening.frames_append waves
    have count := List.length_pos_of_ne_nil some
    refine seeds_of_many (listening.streamed.idle empty).1 ?_
    rcases enough with none | many
    · omega
    · omega
  · exact seeds_of_frames listening.streamed seen some

variable [Add β] [Mul β]

theorem Listening.waves_le (listening : config.Listening handle stream segmenter rows ahead)
    {chunk : Chunk α} {extracted : Extracted α β}
    (ran : config.extractFeats handle.features chunk = some extracted) :
    extracted.waves.length ≤ config.passes chunk.waves := by
  have returned := extractFeats_waves_le ran
  obtain ⟨below, -⟩ := computeFrameNum_spec (framing config.khz config.pos) stream.length
  have input := congrArg List.length listening.streamed.input
  rw [List.length_drop] at input
  have reserve : handle.features.reserveWaveforms.length ≤ 4 * (config.khz * 10) := by
    by_cases seen : config.frames stream = 0
    · have empty : fbankFrames (framing config.khz config.pos) config.fbank stream = [] := by
        rw [← List.length_eq_zero_iff, length_fbankFrames]
        exact seen
      rw [(listening.streamed.idle empty).2.1]
      exact Nat.zero_le _
    · obtain ⟨keeps, -, reserved, -, length, -, few⟩ :=
        listening.streamed.busy (@fbankFrames_ne_nil _ _ _ config.fbank _ seen)
      have cache := congrArg List.length keeps.cache
      have behind := listening.behind
      rw [List.length_drop, length_padFeats, length_fbankFrames] at cache
      change _ = LfrOptions.vad.copies + config.frames stream - _ at cache
      simp only [LfrOptions.vad, LfrOptions.copies] at cache
      rw [length]
      exact Nat.mul_le_mul_right _ (by omega)
  simp only [framing, passes] at below input ⊢
  omega

/-- A call that is not the last one makes the rows of all frames but the last two. -/
theorem Listening.rows_more (listening : config.Listening handle stream segmenter rows ahead)
    {waves : List α} (enough : config.Enough (stream ++ waves)) (threw : Bool) :
    ∃ extracted, config.extractFeats handle.features ⟨waves, false, threw⟩ = some extracted ∧
      Streamed (framing config.khz config.pos) .vad config.fbank (stream ++ waves) extracted.cache
        (rows + extracted.feats.length) ∧
      rows + extracted.feats.length ≤ config.frames (stream ++ waves) ∧
      config.frames (stream ++ waves) ≤ rows + extracted.feats.length + 2 := by
  have grown := listening.frames_append waves
  have judged := listening.judged
  have behind := listening.behind
  by_cases none : newFrames (framing config.khz config.pos) config.fbank handle.features waves = []
  · obtain ⟨extracted, returned, feats, streamed⟩ := listening.streamed.extract_none config.cmvn none
    rw [none, List.length_nil] at grown
    refine ⟨extracted, returned, ?_, ?_, ?_⟩
    · rw [feats]
      exact streamed
    · rw [feats, List.length_nil]
      omega
    · rw [feats, List.length_nil]
      omega
  · have seeds := listening.seeds enough none
    have count := List.length_pos_of_ne_nil none
    obtain ⟨extracted, more, returned, feats, streamed⟩ :=
      listening.streamed.extract_some config.cmvn none seeds
    have length : extracted.feats.length = more := by
      rw [feats]
      simp [rowsFrom]
    have counted := extractFeats_rows returned none seeds
    subst length
    have below := rows_le streamed (by change config.frames _ ≠ 0; omega)
    change _ ≤ config.frames _ at below
    refine ⟨extracted, returned, streamed, by omega, ?_⟩
    -- The cache has the two copies of the first frame, or what the rows so far have left.
    have left : (seedCache .vad handle.features.lfrSpliceCache
        (newFrames (framing config.khz config.pos) config.fbank handle.features waves)).length + rows =
          config.frames stream + 2 := by
      by_cases seen : config.frames stream = 0
      · have empty : fbankFrames (framing config.khz config.pos) config.fbank stream = [] := by
          rw [← List.length_eq_zero_iff, length_fbankFrames]
          exact seen
        obtain ⟨noCache, -, zero⟩ := listening.streamed.idle empty
        rw [seedCache, if_pos noCache, List.length_replicate, seen, zero]
        rfl
      · have nonempty := @fbankFrames_ne_nil _ _ _ config.fbank _ seen
        obtain ⟨keeps, kept, -⟩ := listening.streamed.busy nonempty
        have cache : handle.features.lfrSpliceCache ≠ [] := by
          apply List.ne_nil_of_length_pos
          simp only [LfrOptions.vad] at kept
          omega
        have length := congrArg List.length keeps.cache
        rw [List.length_drop, length_padFeats, length_fbankFrames] at length
        change _ = LfrOptions.vad.copies + config.frames stream - _ at length
        simp only [LfrOptions.vad, LfrOptions.copies] at length kept
        rw [seedCache, if_neg cache]
        omega
    simp only [fullRows, LfrOptions.vad, List.length_append] at counted left seeds
    omega

/-- The last call makes the rows of the other frames. -/
theorem Listening.rows_last (listening : config.Listening handle stream segmenter rows ahead)
    {waves : List α} (enough : config.Enough (stream ++ waves)) (threw : Bool) :
    ∃ extracted, config.extractFeats handle.features ⟨waves, true, threw⟩ = some extracted ∧
      extracted.cache = resetCache ∧
      rows + extracted.feats.length = config.frames (stream ++ waves) := by
  obtain ⟨extracted, returned⟩ := listening.streamed.finish_returns (by decide) config.cmvn waves
  exact ⟨extracted, returned, extractFeats_finished returned,
    Vad.rows_last listening.streamed (listening.seeds enough) returned⟩

end

/-! ## One call -/

section
variable {α β δ κ : Type} [Add β] [Mul β] [Field δ] [LinearOrder δ] {config : VadConfig α β δ κ}
  {handle : FsmnVadOnline α β δ κ} {chunk : Chunk α}

/-- Without rows the scorer is not called. -/
theorem infer_silent {extracted : Extracted α β}
    (ran : config.extractFeats handle.features chunk = some extracted) (none : extracted.feats = []) :
    ∃ handle', config.infer handle chunk = some ([], handle') ∧
      handle'.features = extracted.cache ∧ handle'.vadScorer = handle.vadScorer := by
  simp only [infer, judge, ran, none, if_true, Option.bind_eq_bind, Option.bind_some, Option.pure_def]
  exact ⟨_, rfl, rfl, rfl⟩

/-- With rows the answer is that of the scorer's model. -/
theorem infer_scored (scores : config.Scores) (threw : chunk.threw = false)
    {extracted : Extracted α β}
    (ran : config.extractFeats handle.features chunk = some extracted) (made : extracted.feats ≠ [])
    (silPdfIds : handle.vadScorer.silPdfIds = [0])
    (covered : handle.vadScorer.model.frmCnt.toNat + extracted.feats.length ≤
      handle.vadScorer.model.decibel.length + windowCount config.rate extracted.waves.length) :
    ∃ call : Call α, call.rows.length = extracted.feats.length ∧ call.waveform = extracted.waves ∧
      ∀ answer model,
        onlineCall config.energy config.rate handle.vadScorer.model call chunk.inputFinished =
          some (answer, model) →
        ∃ handle', config.infer handle chunk = some (answer, handle') ∧
          handle'.features = extracted.cache ∧ handle'.vadScorer.model = model ∧
          handle'.vadScorer.silPdfIds = [0] := by
  generalize cached : (if chunk.inputFinished then config.initCache else handle.inCache) = inCache
  have length := config.session.length_run extracted.feats inCache
  have full := scores extracted.feats inCache
  have some : (config.session.run extracted.feats inCache).1 ≠ [] := by
    apply List.ne_nil_of_length_pos
    rw [length]
    exact List.length_pos_of_ne_nil made
  obtain ⟨call, rows, waveform, called⟩ := @scorerCall_eq _ _ _ _ config.elementary config.energy
    _ silPdfIds config.rate (config.scorerCall (config.session.run extracted.feats inCache).1
      extracted.waves chunk.inputFinished) rfl rfl some full
    (by simp only [scorerCall, length]; exact covered)
  refine ⟨call, rows.trans length, waveform, fun answer model answered => ?_⟩
  obtain ⟨scorer', returned, same, silPdfIds'⟩ := called answer model answered
  refine ⟨⟨extracted.cache, if chunk.inputFinished then inCache
    else (config.session.run extracted.feats inCache).2, scorer'⟩, ?_, rfl, same, silPdfIds'⟩
  simp only [infer, judge, ran, made, if_false, cached, forward, threw, Bool.false_eq_true,
    Option.bind_eq_bind, Option.bind_some, Option.pure_def, some, returned]

/-- What a call answers, when the segmenter goes on to `after` with the frames from `since` up to
    `judged`. -/
structure Answered (answer : List Segment) (since judged : Nat) (before after : Segmenter) : Prop where
  entries : ∃ added, before.Continues after added ∧
    answer = Segmenter.entries added after.current before.current.isSome
  starts : before.StartsSince since after
  long : before.Long → after.Long
  single : judged ≤ since + 15 → after.closed.length ≤ before.closed.length + 1

theorem Answered.silent (since : Nat) (segmenter : Segmenter) :
    Answered [] since since segmenter segmenter := by
  refine ⟨⟨[], .refl segmenter, ?_⟩, .refl since segmenter, id, fun _ => Nat.le_succ _⟩
  cases segmenter.current with
  | none => rfl
  | some span => rfl

variable {stream : List α} {segmenter : Segmenter} {rows ahead : Nat}

omit [Add β] [Mul β] [Field δ] [LinearOrder δ] in
theorem windowCount_frames (config : VadConfig α β δ κ) (waves : List α) :
    windowCount config.rate waves.length = config.frames waves :=
  @windowCount_khz config.khz config.pos waves.length

/-- A call that is not the last one of its recording. -/
theorem Listening.infer_more
    (listening : config.Listening handle stream segmenter rows (config.passes chunk.waves + ahead))
    (scores : config.Scores) (going : chunk.inputFinished = false) (threw : chunk.threw = false)
    (enough : config.Enough (stream ++ chunk.waves)) :
    ∃ answer handle' segmenter' rows', config.infer handle chunk = some (answer, handle') ∧
      Answered answer rows rows' segmenter segmenter' ∧
      config.Listening handle' (stream ++ chunk.waves) segmenter' rows' ahead := by
  obtain ⟨waves, inputFinished, threw'⟩ := chunk
  simp only at going threw enough listening ⊢
  subst going
  obtain ⟨extracted, ran, streamed, judged, behind⟩ := listening.rows_more enough threw'
  obtain ⟨windows, covered, streaming⟩ := listening.scorer
  have grown := listening.frames_append waves
  by_cases none : extracted.feats = []
  · obtain ⟨handle', inferred, features, vadScorer⟩ := infer_silent ran none
    rw [none, List.length_nil] at streamed judged behind
    have same := (extractFeats_ne_nil ran).not.mp (not_not_intro none)
    have nothing : newFrames (framing config.khz config.pos) config.fbank handle.features waves = [] := by
      by_contra some
      exact same (.inl some)
    rw [nothing, List.length_nil] at grown
    refine ⟨[], handle', segmenter, rows, inferred, .silent rows segmenter, ?_, ?_, ?_, judged, behind,
      listening.fresh⟩
    · rw [features]
      exact streamed
    · rw [vadScorer, grown]
      exact ⟨windows, covered, streaming.mono (Nat.le_add_left _ _)⟩
    · rw [vadScorer]
      exact listening.silPdfIds
  · have window := extractFeats_windows ran
    change (newFrames _ _ _ waves).length ≤ config.frames _ at window
    rw [← windowCount_frames] at window
    have inside : rows + extracted.feats.length ≤
        windows + windowCount config.rate extracted.waves.length := by omega
    obtain ⟨call, length, waveform, called⟩ := infer_scored scores threw ran none listening.silPdfIds
      (by rw [streaming.frmCnt, streaming.decibel, Int.toNat_natCast]; exact inside)
    have passed := listening.waves_le ran
    rw [← waveform] at passed
    rw [← length, ← waveform] at inside
    obtain ⟨added, model, answered, continues, streaming'⟩ := onlineCall_streaming config.energy call
      (streaming.mono (Nat.add_le_add_right passed ahead)) inside
    obtain ⟨handle', inferred, features, same, silPdfIds⟩ := called _ _ answered
    rw [length] at streaming'
    have made := List.length_pos_of_ne_nil none
    refine ⟨_, handle', segmenter.stepCall rows call, rows + extracted.feats.length, inferred,
      ⟨⟨added, continues, rfl⟩, segmenter.stepCall_startsSince rows call,
        fun long => long.stepCall streaming.valid call,
        fun few => Segmenter.stepCall_closed_length streaming.valid call (by omega)⟩, ?_, ?_, silPdfIds, judged, behind,
      fun zero => absurd zero (by omega)⟩
    · rw [features]
      exact streamed
    · rw [same]
      rw [waveform] at streaming'
      refine ⟨_, ?_, streaming'⟩
      omega

/-- The last call of a recording, after which the handle is ready for the next one. -/
theorem Listening.infer_last
    (listening : config.Listening handle stream segmenter rows (config.passes chunk.waves + ahead))
    (scores : config.Scores) (last : chunk.inputFinished = true) (threw : chunk.threw = false)
    (enough : config.Enough (stream ++ chunk.waves)) :
    ∃ answer handle' segmenter', config.infer handle chunk = some (answer, handle') ∧
      Answered answer rows (config.frames (stream ++ chunk.waves)) segmenter segmenter' ∧
      segmenter'.Valid (config.frames (stream ++ chunk.waves)) ∧
      config.Listening handle' [] Segmenter.initial 0 ahead := by
  obtain ⟨waves, inputFinished, threw'⟩ := chunk
  simp only at last threw enough listening ⊢
  subst last
  obtain ⟨extracted, ran, reset, all⟩ := listening.rows_last enough threw'
  obtain ⟨windows, covered, streaming⟩ := listening.scorer
  have grown := listening.frames_append waves
  have listened : ∀ handle' : FsmnVadOnline α β δ κ, handle'.features = extracted.cache →
      handle'.vadScorer.silPdfIds = [0] →
      (∃ windows, Streaming config.rate handle'.vadScorer.model Segmenter.initial 0 windows ahead) →
      config.Listening handle' [] Segmenter.initial 0 ahead := by
    rintro handle' features silPdfIds ⟨windows, streaming⟩
    refine ⟨?_, ⟨windows, ?_, streaming⟩, silPdfIds, Nat.zero_le _, ?_, fun _ => rfl⟩
    · rw [features, reset]
      exact Streamed.initial _ _ _
    · rw [frames_nil]
      exact Nat.zero_le _
    · rw [frames_nil]
      exact Nat.zero_le _
  by_cases none : extracted.feats = []
  · obtain ⟨handle', inferred, features, vadScorer⟩ := infer_silent ran none
    rw [none, List.length_nil, Nat.add_zero] at all
    -- Two frames are always left for the last call, unless there is none at all.
    have zero : rows = 0 := by
      by_cases seen : config.frames stream = 0
      · have judged := listening.judged
        omega
      · have below := rows_le listening.streamed seen
        change _ ≤ config.frames _ at below
        omega
    have initial := listening.fresh zero
    subst zero initial
    refine ⟨[], handle', Segmenter.initial, inferred, ?_, ?_, listened handle' features ?_ ?_⟩
    · rw [← all]
      exact .silent 0 _
    · rw [← all]
      exact Segmenter.initial_valid
    · rw [vadScorer]
      exact listening.silPdfIds
    · rw [vadScorer]
      exact ⟨windows, streaming.mono (Nat.le_add_left _ _)⟩
  · have window := extractFeats_windows ran
    change (newFrames _ _ _ waves).length ≤ config.frames _ at window
    rw [← windowCount_frames] at window
    have inside : rows + extracted.feats.length ≤
        windows + windowCount config.rate extracted.waves.length := by omega
    obtain ⟨call, length, waveform, called⟩ := infer_scored scores threw ran none listening.silPdfIds
      (by rw [streaming.frmCnt, streaming.decibel, Int.toNat_natCast]; exact inside)
    have passed := listening.waves_le ran
    rw [← waveform] at passed
    rw [← length, ← waveform] at inside
    obtain ⟨added, model, answered, continues, restarted⟩ := onlineCall_final config.energy call
      (streaming.mono (Nat.add_le_add_right passed ahead)) inside
    obtain ⟨handle', inferred, features, same, silPdfIds⟩ := called _ _ answered
    refine ⟨_, handle', segmenter.stepFinal rows call, inferred,
      ⟨⟨added, continues, rfl⟩, segmenter.stepFinal_startsSince rows call,
        fun long => long.stepFinal streaming.valid call,
        fun few => Segmenter.stepFinal_closed_length streaming.valid call (by omega)⟩, ?_,
      listened handle' features silPdfIds ?_⟩
    · rw [← all, ← length]
      exact Segmenter.stepFinal_valid streaming.valid call
    · rw [same]
      exact ⟨0, restarted⟩

end

end VadConfig

/-! ## A session that takes every row for speech -/

/-- Every probability of silence is zero, and the energy is constant. -/
def speechConfig : VadConfig Unit ℚ ℚ Unit where
  khz := 16
  pos := VadConfig.silent.pos
  fbank _ := [0]
  cmvn := ⟨[], []⟩
  session := { run := fun feats _ => (feats.map fun _ => [0], ()), length_run := by simp }
  initCache := ()
  elementary := ⟨id, id⟩
  energy _ := 0
  vadSilenceDuration := 800
  vadMaxLen := 15000
  vadSpeechNoiseThres := 4 / 5

theorem speechConfig_scores : speechConfig.Scores := by
  intro feats inCache score member
  obtain ⟨-, -, rfl⟩ := List.mem_map.mp member
  exact List.cons_ne_nil _ _

end Asr2Pass.Vad
