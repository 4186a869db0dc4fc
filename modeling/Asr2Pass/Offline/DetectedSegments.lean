import Asr2Pass.Offline.SharedVad
import Asr2Pass.Vad.InferCalls

/-! # `CutSplit` with its detector

The detector of `CutSplit` is a new `FsmnVadOnline`.  Its answers keep the protocol that the frames
rely on, so that every recording is cut into segments that lie in it one after the other, and the
queue has one frame for each of them.
-/

namespace Asr2Pass.Offline

open Library Vad
open TwoPass (VadSegment)

/-! ## The answers name the closed segments -/

/-- Answers that complete their starts, and perhaps one more start. -/
theorem names_of_protocol {complete : List VadSegment} (protocol : OnlineProtocol complete)
    {earliest : Int} (current : Option FrameSpan)
    (ordered : ∀ segment ∈ joinAnswers complete, earliest ≤ segment.1 ∧ segment.1 ≤ segment.2)
    (apart : (joinAnswers complete).Pairwise fun earlier later => earlier.2 ≤ later.1)
    (late : ∀ span ∈ current, earliest ≤ span.ms.1 ∧
      ∀ segment ∈ joinAnswers complete, segment.2 ≤ span.ms.1) :
    Names earliest (complete ++ current.toList.map FrameSpan.startMs) (joinAnswers complete) := by
  induction protocol generalizing earliest with
  | nil =>
    cases current with
    | none => exact .nil
    | some span => exact .opened (late span rfl).1
  | @whole first last rest nonneg longer protocol inductionHypothesis =>
    rw [joinAnswers_whole (by omega)] at ordered apart late ⊢
    obtain ⟨before, others⟩ := List.pairwise_cons.mp apart
    obtain ⟨here, -⟩ := List.forall_mem_cons.mp ordered
    refine .whole here.1 here.2 (inductionHypothesis ?_ others ?_)
    · intro segment member
      exact ⟨before segment member, (ordered segment (List.mem_cons_of_mem _ member)).2⟩
    · intro span opened
      obtain ⟨-, behind⟩ := late span opened
      exact ⟨behind _ List.mem_cons_self, fun segment member =>
        behind segment (List.mem_cons_of_mem _ member)⟩
  | @split first last rest nonneg longer protocol inductionHypothesis =>
    rw [joinAnswers_split] at ordered apart late ⊢
    obtain ⟨before, others⟩ := List.pairwise_cons.mp apart
    obtain ⟨here, -⟩ := List.forall_mem_cons.mp ordered
    refine .split here.1 here.2 (inductionHypothesis ?_ others ?_)
    · intro segment member
      exact ⟨before segment member, (ordered segment (List.mem_cons_of_mem _ member)).2⟩
    · intro span opened
      obtain ⟨-, behind⟩ := late span opened
      exact ⟨behind _ List.mem_cons_self, fun segment member =>
        behind segment (List.mem_cons_of_mem _ member)⟩

/-- A transcript names the closed segments. -/
theorem transcript_names {answers complete : List VadSegment} {segmenter : Segmenter} {limit : Int}
    (transcript : Transcript answers segmenter complete) (valid : segmenter.Valid limit) :
    Names 0 answers (segmenter.closed.map FrameSpan.ms) := by
  obtain ⟨inside, apart⟩ := ordered_ms valid.ordered
  rw [Segmenter.spans, List.map_append] at inside apart
  obtain ⟨apart, -, before⟩ := List.pairwise_append.mp apart
  rw [transcript.answers, ← transcript.joined]
  rw [← transcript.joined] at inside apart before
  refine names_of_protocol transcript.protocol segmenter.current ?_ apart fun span opened => ?_
  · intro segment member
    obtain ⟨nonneg, longer, -⟩ := inside segment (List.mem_append_left _ member)
    exact ⟨nonneg, longer.le⟩
  · have member : span.ms ∈ segmenter.current.toList.map FrameSpan.ms :=
      List.mem_map_of_mem (Option.mem_toList.mpr opened)
    exact ⟨(inside _ (List.mem_append_right _ member)).1, fun segment earlier =>
      before segment earlier _ member⟩

/-! ## The pieces of a recording -/

section
variable {α : Type}

/-- The first piece is the whole recording, or as long as all others but the last one. -/
theorem pieces_first {step : Nat} {speechData : List α} {count : Nat} {cut : List (List α × Bool)}
    (cutUp : Audio.pieces step speechData 0 count = some cut) (nonempty : speechData ≠ []) :
    cut = [(speechData, true)] ∨
      step ≤ speechData.length ∧ ∃ rest, cut = (speechData.take step, false) :: rest := by
  have inside := List.length_pos_iff.mpr nonempty
  cases count with
  | zero =>
    rw [Audio.pieces, if_pos inside] at cutUp
    cases cutUp
  | succ count =>
    rw [Audio.pieces, if_pos inside] at cutUp
    split at cutUp
    · rw [slice_eq inside.le le_rfl, Audio.pieces_done] at cutUp
      cases cutUp
      exact .inl (by simp)
    · rename_i long
      have within : 0 + step ≤ speechData.length := by omega
      rw [slice_eq (Nat.le_add_right _ _) within] at cutUp
      simp only [Option.bind_eq_bind, Option.bind_some, Option.bind_eq_some_iff] at cutUp
      obtain ⟨rest, -, same⟩ := cutUp
      cases same
      exact .inr ⟨by omega, rest, by simp⟩

/-- No piece but the last one is shorter than a step. -/
theorem pieces_length {step : Nat} {speechData : List α} {sampleOffset count : Nat}
    {cut : List (List α × Bool)}
    (cutUp : Audio.pieces step speechData sampleOffset count = some cut) :
    cut.length * step ≤ speechData.length - sampleOffset + step := by
  induction count generalizing sampleOffset cut with
  | zero =>
    rw [Audio.pieces] at cutUp
    split at cutUp
    · cases cutUp
    · cases cutUp
      simp
  | succ count inductionHypothesis =>
    rw [Audio.pieces] at cutUp
    split at cutUp
    · split at cutUp
      · simp only [Audio.pieces_done, Option.bind_eq_bind, Option.bind_some, Option.pure_def,
          Option.bind_eq_some_iff] at cutUp
        obtain ⟨pcmData, -, same⟩ := cutUp
        cases same
        simp
      · simp only [Option.bind_eq_bind, Option.bind_eq_some_iff, Option.pure_def] at cutUp
        obtain ⟨pcmData, -, rest, later, same⟩ := cutUp
        cases same
        have fewer := inductionHypothesis later
        rw [List.length_cons, Nat.succ_mul]
        omega
    · cases cutUp
      simp

end

variable {α β δ κ : Type} {config : VadConfig α β δ κ}

/-- As many samples as the scorer may get in `CutSplit`, where each piece of a second brings 65 ms of
    earlier samples at most. -/
def cutPasses (config : VadConfig α β δ κ) (speechData : List α) : Nat :=
  speechData.length + 65 * config.khz * (speechData.length / (1000 * config.khz) + 1)

theorem pieces_passes {speechData : List α} {count : Nat} {cut : List (List α × Bool)}
    (cutUp : Audio.pieces (1000 * config.khz) speechData 0 count = some cut)
    (samples : cut.flatMap Prod.fst = speechData) :
    (cut.map fun piece => config.passes piece.1).sum ≤ cutPasses config speechData := by
  have positive := config.pos
  have counted : (cut.map fun piece => config.passes piece.1).sum =
      (cut.flatMap Prod.fst).length + 65 * config.khz * cut.length := by
    clear cutUp samples
    induction cut with
    | nil => rfl
    | cons piece cut inductionHypothesis =>
      rw [List.map_cons, List.sum_cons, inductionHypothesis, List.flatMap_cons, List.length_append,
        List.length_cons, VadConfig.passes, Nat.mul_succ]
      omega
  have long := pieces_length cutUp
  have few : cut.length ≤ speechData.length / (1000 * config.khz) + 1 := by
    have whole : (cut.length - 1) * (1000 * config.khz) ≤ speechData.length := by
      rw [Nat.sub_one_mul]
      omega
    have least := (Nat.le_div_iff_mul_le (by omega)).mpr whole
    omega
  rw [counted, samples]
  exact Nat.add_le_add_left (Nat.mul_le_mul_left _ few) _

/-- The pieces of a second leave no recording with one or two frames, unless it has no more. -/
theorem pieces_enough {speechData : List α} {count : Nat} {cut : List (List α × Bool)}
    (cutUp : Audio.pieces (1000 * config.khz) speechData 0 count = some cut)
    (nonempty : speechData ≠ []) (enough : config.Enough speechData)
    {before : List (List α × Bool)} (first : before <+: cut) :
    config.Enough (before.flatMap Prod.fst) := by
  cases before with
  | nil => exact .inl config.frames_nil
  | cons piece before =>
    rcases pieces_first cutUp nonempty with rfl | ⟨long, rest, rfl⟩
    · obtain ⟨rfl, single⟩ := List.cons_prefix_cons.mp first
      obtain rfl := List.prefix_nil.mp single
      simpa using enough
    · obtain ⟨rfl, -⟩ := List.cons_prefix_cons.mp first
      have positive := config.pos
      obtain ⟨below, -⟩ := Frontend.computeFrameNum_spec (framing config.khz config.pos)
        (((speechData.take (1000 * config.khz), false) :: before).flatMap Prod.fst).length
      change _ < config.frames _ * _ + _ at below
      refine .inr ?_
      by_contra few
      have scaled : config.frames (((speechData.take (1000 * config.khz), false) :: before).flatMap
          Prod.fst) * (config.khz * 10) ≤ 2 * (config.khz * 10) := Nat.mul_le_mul_right _ (by omega)
      simp only [framing, List.flatMap_cons, List.length_append, List.length_take] at below scaled
      omega

section
variable [Add β] [Mul β] [Field δ] [LinearOrder δ]

/-- The detector's answers to pieces of which only the last one is final. -/
theorem inferAll_transcript (scores : config.Scores) {body : List (List α × Bool)} (last : List α)
    (others : ∀ piece ∈ body, piece.2 = false) {handle : FsmnVadOnline α β δ κ} {samples : List α}
    {segmenter : Segmenter} {rows : Nat} {answers complete : List VadSegment}
    (listening : config.Listening handle samples segmenter rows
      ((body ++ [(last, true)]).map fun piece => config.passes piece.1).sum)
    (transcript : Transcript answers segmenter complete)
    (enough : ∀ before, before <+: body ++ [(last, true)] →
      config.Enough (samples ++ before.flatMap Prod.fst)) :
    ∃ answers' segmenter' complete',
      Audio.inferAll (onlineInfer config) handle (body ++ [(last, true)]) = some answers' ∧
      Transcript (answers ++ answers') segmenter' complete' ∧
      segmenter'.Valid (config.frames (samples ++ (body ++ [(last, true)]).flatMap Prod.fst)) := by
  induction body generalizing handle samples segmenter rows answers complete with
  | nil =>
    obtain ⟨answer, handle', segmenter', inferred, answered, valid, -⟩ :=
      @VadConfig.Listening.infer_last _ _ _ _ _ _ _ _ _ _ { waves := last, inputFinished := true } _ _ _
        0 (by simpa using listening) scores rfl rfl
        (by simpa using enough [(last, true)] List.prefix_rfl)
    obtain ⟨⟨added, continues, same⟩, -⟩ := answered
    obtain ⟨complete', transcript'⟩ := transcript.answer continues valid
    rw [← same] at transcript'
    refine ⟨answer, segmenter', complete', ?_, transcript', by simpa using valid⟩
    simp [Audio.inferAll, onlineInfer, inferred]
  | cons piece body inductionHypothesis =>
    obtain ⟨waves, isFinal⟩ := piece
    rw [List.cons_append, List.map_cons, List.sum_cons] at listening
    obtain rfl : isFinal = false := others (waves, isFinal) List.mem_cons_self
    obtain ⟨answer, handle', segmenter', rows', inferred, answered, listening'⟩ :=
      @VadConfig.Listening.infer_more _ _ _ _ _ _ _ _ _ _ { waves, inputFinished := false } _ _ _
        _ listening scores rfl rfl
        (by simpa using enough [(waves, false)] ⟨body ++ [(last, true)], rfl⟩)
    obtain ⟨windows, -, streaming⟩ := listening'.scorer
    obtain ⟨⟨added, continues, same⟩, -⟩ := answered
    obtain ⟨complete', transcript'⟩ := transcript.answer continues streaming.valid
    rw [← same] at transcript'
    obtain ⟨answers', segmenter'', complete'', later, transcript'', valid⟩ :=
      inductionHypothesis (fun piece member => others piece (List.mem_cons_of_mem _ member)) listening'
        transcript' fun before first => by
          have grown := enough ((waves, false) :: before) (List.cons_prefix_cons.mpr ⟨rfl, first⟩)
          rwa [List.flatMap_cons, ← List.append_assoc] at grown
    refine ⟨answer ++ answers', segmenter'', complete'', ?_, by rwa [← List.append_assoc],
      by simpa using valid⟩
    simp only [List.cons_append, Audio.inferAll, onlineInfer] at later ⊢
    simp only [inferred, later, Option.bind_eq_bind, Option.bind_some, Option.pure_def]

end

/-! ## The queue -/

/-- What `CutSplit` leaves for a recording: segments that lie in it one after the other, and a queue
    with the frame of each, the shorter ones first. -/
structure CutInto (audio : Audio α) (segments : List VadSegment) (indexVector : List Nat)
    (queue : List AudioFrame) : Prop where
  inside : ∀ segment ∈ segments,
    0 ≤ segment.1 ∧ segment.1 < segment.2 ∧ segment.2 * audio.segSample ≤ audio.speechData.length
  apart : segments.Pairwise fun earlier later => earlier.2 ≤ later.1
  permutation : indexVector.Perm (List.range segments.length)
  frames : queue.map some = indexVector.map fun index => segments[index]?.map fun segment =>
    ⟨segment.1 * audio.segSample, segment.2 * audio.segSample,
      (segment.2 - segment.1) * audio.segSample⟩
  sorted : queue.Pairwise fun earlier later => earlier.len ≤ later.len

/-- `FetchDynamic` and `Forward` take from the queue samples of the recording only. -/
theorem CutInto.within {audio : Audio α} {segments : List VadSegment} {indexVector : List Nat}
    {queue : List AudioFrame} (cut : CutInto audio segments indexVector queue) :
    ∀ frame ∈ queue, 0 ≤ frame.start ∧ 0 < frame.len ∧ frame.stop = frame.start + frame.len ∧
      frame.stop ≤ audio.speechData.length := by
  intro frame member
  have mapped : some frame ∈ queue.map some := List.mem_map_of_mem member
  rw [cut.frames] at mapped
  obtain ⟨index, -, found⟩ := List.mem_map.mp mapped
  obtain ⟨segment, named, rfl⟩ := Option.map_eq_some_iff.mp found
  obtain ⟨nonneg, longer, inside⟩ := cut.inside segment (List.mem_of_getElem? named)
  have rate : 0 < audio.segSample := Nat.div_pos audio.enough (by decide)
  refine ⟨mul_nonneg nonneg (by omega), mul_pos (by omega) (by omega), ?_, inside⟩
  simp only
  ring

theorem cutInto_of_names (std : StdSort) {audio : Audio α} {answers segments : List VadSegment}
    (names : Names 0 answers segments)
    (inside : ∀ segment ∈ segments,
      0 ≤ segment.1 ∧ segment.1 < segment.2 ∧ segment.2 * audio.segSample ≤ audio.speechData.length)
    (apart : segments.Pairwise fun earlier later => earlier.2 ≤ later.1) {sorted : List AudioFrame}
    (mapped : (Audio.indexVector std (audio.vadFrames (-1) (-1) answers)).mapM
      (fun index => (audio.vadFrames (-1) (-1) answers)[index]?) = some sorted) :
    CutInto audio segments (Audio.indexVector std (audio.vadFrames (-1) (-1) answers)) sorted := by
  have framed := audio.vadFrames_eq names le_rfl
  have placed : audio.vadFrames (-1) (-1) answers = segments.map fun segment =>
      ⟨segment.1 * audio.segSample, segment.2 * audio.segSample,
        (segment.2 - segment.1) * audio.segSample⟩ := by
    rw [framed]
    exact List.map_congr_left fun segment member => audio.frame_eq (inside segment member).1
  have permutation := Audio.indexVector_perm std (audio.vadFrames (-1) (-1) answers)
  have ascending := std.sorted
    (fun index => (audio.vadFrames (-1) (-1) answers)[index]?.elim 0 AudioFrame.len)
    (List.range (audio.vadFrames (-1) (-1) answers).length)
  have looked := map_some_of_mapM mapped
  refine ⟨inside, apart, ?_, ?_, ?_⟩
  · rwa [placed, List.length_map, ← placed] at permutation
  · rw [looked]
    refine List.map_congr_left fun index _ => ?_
    rw [placed, List.getElem?_map]
  · -- The keys that `std::sort` compares are the lengths of the frames.
    have keys : sorted.map AudioFrame.len =
        (Audio.indexVector std (audio.vadFrames (-1) (-1) answers)).map fun index =>
          (audio.vadFrames (-1) (-1) answers)[index]?.elim 0 AudioFrame.len := by
      have each := congrArg (List.map fun frame => Option.elim frame 0 AudioFrame.len) looked
      rw [List.map_map, List.map_map] at each
      exact each
    have ordered : (sorted.map AudioFrame.len).Pairwise fun earlier later => earlier ≤ later := by
      rw [keys, List.pairwise_map]
      exact ascending
    rwa [List.pairwise_map] at ordered

variable [Add β] [Mul β] [Field δ] [LinearOrder δ]

/-- What the detector answers in `CutSplit`, whatever it hears in a recording that does not end after
    one or two frames. -/
theorem detected (scores : config.Scores) (enough : 1000 ≤ 1000 * config.khz) {speechData : List α}
    (nonempty : speechData ≠ []) (frames : config.Enough speechData)
    (few : cutPasses config speechData < 2 ^ 31) :
    ∃ answers segments,
      (Audio.load (1000 * config.khz) enough speechData).vadSegments (onlineInfer config)
          config.newInt = some answers ∧
      Names 0 answers segments ∧
      (∀ segment ∈ segments, 0 ≤ segment.1 ∧ segment.1 < segment.2 ∧
        segment.2 * (Audio.load (1000 * config.khz) enough speechData).segSample ≤
          speechData.length) ∧
      segments.Pairwise fun earlier later => earlier.2 ≤ later.1 := by
  have rate : (Audio.load (1000 * config.khz) enough speechData).segSample = config.khz := by
    rw [Audio.segSample, Audio.load, Nat.mul_div_cancel_left _ (by decide)]
  obtain ⟨cut, cutUp, samples, body, last, rfl, others⟩ :=
    (Audio.load (1000 * config.khz) enough speechData).pieces_fedOnce nonempty
  obtain ⟨answers, segmenter, complete, answered, transcript, valid⟩ :=
    inferAll_transcript scores last others
      (.newInt config ((pieces_passes cutUp samples).trans_lt few)) .initial fun before first => by
      rw [List.nil_append]
      exact pieces_enough cutUp nonempty frames first
  rw [List.nil_append] at transcript valid
  rw [samples] at valid
  obtain ⟨inside, apart⟩ := ordered_ms valid.ordered
  rw [Segmenter.spans, List.map_append] at inside apart
  -- The frames of a recording end within it.
  have reached := Frontend.computeFrameNum_mul_le (framing config.khz config.pos) speechData.length
  change config.frames speechData * (config.khz * 10) ≤ _ at reached
  refine ⟨answers, _, ?_, transcript_names transcript valid, ?_, (List.pairwise_append.mp apart).1⟩
  · rw [Audio.vadSegments, cutUp]
    exact answered
  · intro segment member
    obtain ⟨nonneg, longer, before⟩ := inside segment (List.mem_append_left _ member)
    refine ⟨nonneg, longer, ?_⟩
    rw [rate]
    have scaled : segment.2 * config.khz ≤ 10 * (config.frames speechData : Int) * config.khz :=
      mul_le_mul_of_nonneg_right before (by omega)
    have product : 10 * (config.frames speechData : Int) * config.khz =
        (config.frames speechData * (config.khz * 10) : Nat) := by
      push_cast
      ring
    change _ ≤ (speechData.length : Int)
    omega

/-- The segments are those that the detector's answers name, however `std::sort` orders segments of one
    length. -/
theorem cutSplit_detected (scores : config.Scores) (enough : 1000 ≤ 1000 * config.khz)
    {speechData : List α} (nonempty : speechData ≠ []) (frames : config.Enough speechData)
    (few : cutPasses config speechData < 2 ^ 31) :
    ∃ answers segments,
      (Audio.load (1000 * config.khz) enough speechData).vadSegments (onlineInfer config)
          config.newInt = some answers ∧
      Names 0 answers segments ∧
      ∀ std : StdSort, ∃ indexVector queue,
        (Audio.load (1000 * config.khz) enough speechData).cutSplit std (onlineInfer config)
            config.newInt =
          some (indexVector,
            { Audio.load (1000 * config.khz) enough speechData with frameQueue := queue }) ∧
        CutInto (Audio.load (1000 * config.khz) enough speechData) segments indexVector queue := by
  obtain ⟨answers, segments, heard, names, inside, apart⟩ :=
    detected scores enough nonempty frames few
  refine ⟨answers, segments, heard, names, fun std => ?_⟩
  obtain ⟨sorted, mapped, split⟩ := Audio.cutSplit_eq std _ _ _ rfl heard
  exact ⟨_, sorted, split, cutInto_of_names std names inside apart mapped⟩

theorem enough_20000 : speechConfig.Enough (List.replicate 20000 ()) := by
  decide +kernel

theorem cutPasses_20000 : cutPasses speechConfig (List.replicate 20000 ()) < 2 ^ 31 := by
  rw [cutPasses, List.length_replicate]
  decide

theorem cutSplit_detected_spoken : ∃ answers segments,
    (Audio.load 16000 (by decide) (List.replicate 20000 ())).vadSegments (onlineInfer speechConfig)
        speechConfig.newInt = some answers ∧
      Names 0 answers segments ∧
      ∀ std : StdSort, ∃ indexVector queue,
        (Audio.load 16000 (by decide) (List.replicate 20000 ())).cutSplit std
            (onlineInfer speechConfig) speechConfig.newInt =
          some (indexVector, { Audio.load 16000 (by decide) (List.replicate 20000 ()) with
            frameQueue := queue }) ∧
        CutInto (Audio.load 16000 (by decide) (List.replicate 20000 ())) segments indexVector queue :=
  cutSplit_detected speechConfig_scores (by decide) (by decide) enough_20000 cutPasses_20000

end Asr2Pass.Offline
