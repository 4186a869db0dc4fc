import Asr2Pass.TwoPass.DetectorAnswers
import Asr2Pass.TwoPass.LastFrames

/-! # Detector and `Audio` together

In `FunTpassInferBuffer` the answers that `Split` works on are those of `FsmnVadOnline` for the same
samples.  So no protocol is left to assume: every recording is cut without an error, and every
segment that the detector closes is handed to the recognisers once.
-/

namespace Asr2Pass.TwoPass

open Library
open Vad (VadConfig FsmnVadOnline FrameSpan Segmenter Transcript joinAnswers speechConfig
  speechConfig_scores)

variable {α β δ κ : Type}

/-! ## A call -/

/-- The arguments of `FunTpassInferBuffer` that matter here, with the samples of the buffer. -/
structure TpassBuffer (α : Type) where
  samples : List α
  chunkMs : Nat
  positive : 0 < chunkMs
  mode : AsrType := .asrTwoPass
  vadTailSil : Int := 800
  vadMaxLen : Int := 60000

/-- `vad_online_handle`, and the `audio_handle` that it has. -/
structure TpassOnlineStream (α β δ κ : Type) where
  vadOnlineHandle : FsmnVadOnline α β δ κ
  audio : Audio α

/-- What the detector answers, and the frames that go to the online and to the offline model. -/
structure Recognized (α : Type) where
  answers : List VadSegment := []
  online : List (AudioFrame α) := []
  offline : List (AudioFrame α) := []

/-- The loop over `FetchChunck`. -/
def Audio.fetchChuncks (audio : Audio α) : Nat → List (AudioFrame α) × Audio α
  | 0 => ([], audio)
  | turns + 1 =>
    match audio.fetchChunck with
    | (none, audio) => ([], audio)
    | (some frame, audio) =>
      let (frames, audio) := audio.fetchChuncks turns
      (frame :: frames, audio)

/-- The loop over `FetchTpass`. -/
def Audio.fetchTpasses (audio : Audio α) : Nat → List (AudioFrame α) × Audio α
  | 0 => ([], audio)
  | turns + 1 =>
    match audio.fetchTpass with
    | (none, audio) => ([], audio)
    | (some frame, audio) =>
      let (frames, audio) := audio.fetchTpasses turns
      (frame :: frames, audio)

def Recognized.append (first second : Recognized α) : Recognized α where
  answers := first.answers ++ second.answers
  online := first.online ++ second.online
  offline := first.offline ++ second.offline

section
variable [Add β] [Mul β] [Field δ] [LinearOrder δ]

/-- `FunTpassInferBuffer` up to the calls of the models; none where `Split` copies or erases what
    is not there. -/
def TpassOnlineStream.inferBuffer (config : VadConfig α β δ κ) (stream : TpassOnlineStream α β δ κ)
    (buffer : TpassBuffer α) (inputFinished : Bool) :
    Option (Recognized α × TpassOnlineStream α β δ κ) := do
  let config := config.setConfig buffer.vadTailSil buffer.vadMaxLen
  let (answers, vadOnlineHandle) ← config.infer stream.vadOnlineHandle
    { waves := buffer.samples, inputFinished }
  let loaded := stream.audio.loadPcmwavOnline buffer.samples
  let audio ← loaded.split answers (buffer.chunkMs * loaded.segSample) buffer.mode
  let (online, audio) := audio.fetchChuncks (audio.asrOnlineQueue.length + 1)
  let (offline, audio) := audio.fetchTpasses (audio.asrOfflineQueue.length + 1)
  return ({ answers, online, offline },
    { vadOnlineHandle, audio := if inputFinished then audio.resetIndex else audio })

/-- The buffers of a recording but the last one. -/
def TpassOnlineStream.inferBuffers (config : VadConfig α β δ κ) (stream : TpassOnlineStream α β δ κ) :
    List (TpassBuffer α) → Option (Recognized α × TpassOnlineStream α β δ κ)
  | [] => some ({}, stream)
  | buffer :: rest => do
    let (first, stream) ← stream.inferBuffer config buffer false
    let (others, stream) ← stream.inferBuffers config rest
    return (first.append others, stream)

/-- A recording, and the stream ready for the next one. -/
def TpassOnlineStream.serve (config : VadConfig α β δ κ) (stream : TpassOnlineStream α β δ κ)
    (recording : List (TpassBuffer α) × TpassBuffer α) :
    Option (Recognized α × TpassOnlineStream α β δ κ) := do
  let (first, stream) ← stream.inferBuffers config recording.1
  let (last, stream) ← stream.inferBuffer config recording.2 true
  return (first.append last, stream)

end

/-- As many samples as the buffers may pass to the scorer. -/
def passed (config : VadConfig α β δ κ) (buffers : List (TpassBuffer α)) : Nat :=
  (buffers.map fun buffer => config.passes buffer.samples).sum

theorem passed_append (config : VadConfig α β δ κ) (buffers others : List (TpassBuffer α)) :
    passed config (buffers ++ others) = passed config buffers + passed config others := by
  rw [passed, List.map_append, List.sum_append]
  rfl

theorem passed_cons (config : VadConfig α β δ κ) (buffer : TpassBuffer α)
    (others : List (TpassBuffer α)) :
    passed config (buffer :: others) = config.passes buffer.samples + passed config others := by
  rw [passed, List.map_cons, List.sum_cons]
  rfl

/-! ## What a recording leaves -/

theorem fetchChuncks_eq (audio : Audio α) {queue : List (AudioFrame α)}
    (queued : audio.asrOnlineQueue = queue) :
    audio.fetchChuncks (queue.length + 1) = (queue, { audio with asrOnlineQueue := [] }) := by
  induction queue generalizing audio with
  | nil =>
    obtain ⟨_, _, _, _, online, _, _, _, _, _, _⟩ := audio
    subst queued
    rfl
  | cons frame queue inductionHypothesis =>
    have rest := inductionHypothesis { audio with asrOnlineQueue := queue } rfl
    simp only [List.length_cons, Audio.fetchChuncks, Audio.fetchChunck, queued] at rest ⊢
    rw [rest]

theorem fetchTpasses_eq (audio : Audio α) {queue : List (AudioFrame α)}
    (queued : audio.asrOfflineQueue = queue) :
    audio.fetchTpasses (queue.length + 1) = (queue, { audio with asrOfflineQueue := [] }) := by
  induction queue generalizing audio with
  | nil =>
    obtain ⟨_, _, _, _, _, offline, _, _, _, _, _⟩ := audio
    subst queued
    rfl
  | cons frame queue inductionHypothesis =>
    have rest := inductionHypothesis { audio with asrOfflineQueue := queue } rfl
    simp only [List.length_cons, Audio.fetchTpasses, Audio.fetchTpass, queued] at rest ⊢
    rw [rest]

variable {config : VadConfig α β δ κ}

/-- A recording of `khz` kHz has been served: its closed segments lie in it one after the other, and
    in two-pass mode the offline model has received each of them once, the online model in a group
    of frames each, and the chunks of a segment that the last frame has opened. -/
structure Delivered (khz : Nat) (waveform : List α) (twoPass : Prop) (result : Recognized α) : Prop where
  delivered : ∃ closed opened, joinAnswers result.answers = closed ++ opened.toList.map (·, -1) ∧
    SpansInside waveform khz closed ∧
    closed.Pairwise (fun earlier later => earlier.2 ≤ later.1) ∧
    (twoPass → result.offline = closed.map (offlineFrame waveform khz) ∧
      ∃ groups pending, result.online = groups.flatten ++ pending ∧
        List.Forall₂ (OnlineGroup waveform khz) closed groups ∧ (opened = none → pending = []))

/-- Every segment that has ended lasts 160 ms at least. -/
def Recognized.LongSegments (result : Recognized α) : Prop :=
  ∀ entry ∈ joinAnswers result.answers, entry.2 ≠ -1 → entry.1 + 160 ≤ entry.2

/-- The frames for the online model: chunks, and behind them last frames of at most a chunk and a
    sample or `most` samples. -/
def Recognized.Sized (chunkLen most : Nat) (result : Recognized α) : Prop :=
  ∀ frame ∈ result.online, (frame.isFinal = false → frame.samples.length = chunkLen) ∧
    (frame.isFinal = true → frame.samples.length ≤ chunkLen + 1 ∨ frame.samples.length ≤ most)

theorem Recognized.Sized.append {chunkLen most : Nat} {first second : Recognized α}
    (sized : first.Sized chunkLen most) (sized' : second.Sized chunkLen most) :
    (first.append second).Sized chunkLen most := by
  intro frame member
  exact (List.mem_append.mp member).elim (sized frame) (sized' frame)

/-- The stream in a recording, after the samples so far; its scorer may be passed `ahead` more. -/
structure Serving (config : VadConfig α β δ κ) (stream : TpassOnlineStream α β δ κ) (samples : List α)
    (twoPass : Prop) (result : Recognized α) (segmenter : Segmenter) (rows : Nat)
    (complete : List VadSegment) (ahead : Nat) : Prop where
  listening : config.Listening stream.vadOnlineHandle samples segmenter rows ahead
  consistent : Consistent stream.audio samples samples.length
    (heard segmenter.closed segmenter.current)
  rate : stream.audio.destSampleRate = 1000 * config.khz
  frameQueue : stream.audio.frameQueue = []
  onlineQueue : stream.audio.asrOnlineQueue = []
  offlineQueue : stream.audio.asrOfflineQueue = []
  transcript : Transcript result.answers segmenter complete
  emitted : twoPass → Emitted samples config.khz (heard segmenter.closed segmenter.current)
    stream.audio.speechStart result.online result.offline
  long : segmenter.Long

/-- Between two recordings. -/
def Ready (config : VadConfig α β δ κ) (stream : TpassOnlineStream α β δ κ) (ahead : Nat) : Prop :=
  Serving config stream [] True {} Segmenter.initial 0 [] ahead

theorem segSample_khz {audio : Audio α} {khz : Nat} (rate : audio.destSampleRate = 1000 * khz) :
    audio.segSample = khz := by
  rw [Audio.segSample, rate, Nat.mul_div_cancel_left _ (by decide)]

theorem Ready.new [Field δ] (config : VadConfig α β δ κ) (audio : Audio α)
    (rate : audio.destSampleRate = 1000 * config.khz) (frameQueue : audio.frameQueue = [])
    (onlineQueue : audio.asrOnlineQueue = []) (offlineQueue : audio.asrOfflineQueue = [])
    {ahead : Nat} (few : ahead < 2 ^ 31) :
    Ready config { vadOnlineHandle := config.newInt, audio := audio.resetIndex } ahead where
  listening := .newInt config few
  consistent := .initial audio
  rate := rate
  frameQueue := frameQueue
  onlineQueue := onlineQueue
  offlineQueue := offlineQueue
  transcript := .initial
  emitted := fun _ => Emitted.initial _ _ _
  long := .initial

/-- All frames end within the samples, and a start that looks back from a frame not judged yet lies
    less than two seconds before their end. -/
theorem frames_samples (config : VadConfig α β δ κ) (samples : List α) :
    (config.frames samples : Int) * Vad.VADXOptions.frameInMs * config.khz ≤ samples.length ∧
      ∀ rows : Nat, config.frames samples ≤ rows + 2 → (samples.length : Int) ≤
        ((rows : Int) - Segmenter.latency) * Vad.VADXOptions.frameInMs * config.khz +
          2 * (1000 * config.khz : Nat) := by
  have inside := Frontend.computeFrameNum_mul_le (Vad.framing config.khz config.pos) samples.length
  obtain ⟨below, -⟩ :=
    Frontend.computeFrameNum_spec (Vad.framing config.khz config.pos) samples.length
  change config.frames samples * _ ≤ _ at inside
  change _ < config.frames samples * _ + _ at below
  simp only [Vad.framing, Vad.VADXOptions.frameInMs, Segmenter.latency] at inside below ⊢
  constructor
  · have product : (config.frames samples : Int) * (10 : Nat) * config.khz =
        (config.frames samples * (config.khz * 10) : Nat) := by
      push_cast
      ring
    rw [product]
    omega
  · intro rows behind
    have scaled : config.frames samples * (config.khz * 10) ≤ (rows + 2) * (config.khz * 10) :=
      Nat.mul_le_mul_right _ behind
    have product : ((rows : Int) - 40) * (10 : Nat) * config.khz =
        (rows * (config.khz * 10) : Nat) - 400 * config.khz := by
      push_cast
      ring
    rw [product]
    rw [add_mul] at scaled
    omega

section
variable [Add β] [Mul β] [Field δ] [LinearOrder δ] {stream : TpassOnlineStream α β δ κ}
  {samples : List α} {twoPass : Prop} {result : Recognized α} {segmenter : Segmenter} {rows : Nat}
  {complete : List VadSegment} {ahead : Nat}

omit [Add β] [Mul β] [Field δ] [LinearOrder δ] in
/-- `Split` on an answer of the detector. -/
theorem Serving.split
    (serving : Serving config stream samples twoPass result segmenter rows complete ahead)
    (buffer : TpassBuffer α) {answers : List VadSegment} {segmenter' : Segmenter} {limit : Nat}
    (answered : VadConfig.Answered answers rows limit segmenter segmenter')
    (valid : segmenter'.Valid limit) (inside : limit ≤ config.frames (samples ++ buffer.samples)) :
    ∃ audio, (stream.audio.loadPcmwavOnline buffer.samples).split answers
        (buffer.chunkMs * (stream.audio.loadPcmwavOnline buffer.samples).segSample) buffer.mode =
          some audio ∧
      Consistent audio (samples ++ buffer.samples) (samples ++ buffer.samples).length
        (heard segmenter'.closed segmenter'.current) ∧
      audio.destSampleRate = 1000 * config.khz ∧ audio.frameQueue = [] ∧
      (twoPass ∧ buffer.mode = .asrTwoPass → Emitted (samples ++ buffer.samples) config.khz
        (heard segmenter'.closed segmenter'.current) audio.speechStart
        (result.online ++ audio.asrOnlineQueue) (result.offline ++ audio.asrOfflineQueue)) := by
  obtain ⟨reached, -⟩ := frames_samples config (samples ++ buffer.samples)
  obtain ⟨-, recent⟩ := frames_samples config samples
  have seg := segSample_khz serving.rate
  have received : (limit : Int) * Vad.VADXOptions.frameInMs * config.khz ≤
      (samples.length + buffer.samples.length : Nat) := by
    rw [← List.length_append]
    refine le_trans ?_ reached
    exact mul_le_mul_of_nonneg_right (mul_le_mul_of_nonneg_right (by omega) (by decide)) (by omega)
  have protocol := vadAnswer answered valid received (recent rows serving.listening.behind)
  obtain ⟨audio, split, consistent, advances⟩ := @Consistent.split _ _ _ _ serving.consistent
    serving.frameQueue ⟨buffer.samples, answers, buffer.chunkMs, buffer.positive, buffer.mode⟩ _
    (by rw [seg, serving.rate]; exact protocol)
  obtain ⟨-, rate, frameQueue, online, offline, onlineQueue, offlineQueue, emitted⟩ := advances
  rw [serving.onlineQueue, List.nil_append] at onlineQueue
  rw [serving.offlineQueue, List.nil_append] at offlineQueue
  refine ⟨audio, split, consistent, rate.trans serving.rate, frameQueue.trans serving.frameQueue, ?_⟩
  rintro ⟨both, mode⟩
  rw [onlineQueue, offlineQueue, ← seg]
  have before := serving.emitted both
  have spans := serving.consistent.spans
  rw [← seg] at before
  exact emitted mode _ _ (before.grow spans buffer.samples)

/-- A buffer that is not the last one of its recording. -/
theorem Serving.inferBuffer (scores : config.Scores) (buffer : TpassBuffer α)
    (serving : Serving config stream samples twoPass result segmenter rows complete
      (config.passes buffer.samples + ahead))
    (enough : config.Enough (samples ++ buffer.samples)) :
    ∃ added stream' segmenter' rows' complete',
      stream.inferBuffer config buffer false = some (added, stream') ∧
      Serving config stream' (samples ++ buffer.samples) (twoPass ∧ buffer.mode = .asrTwoPass)
        (result.append added) segmenter' rows' complete' ahead := by
  obtain ⟨answers, handle, segmenter', rows', inferred, answered, listening⟩ :=
    @Vad.VadConfig.Listening.infer_more _ _ _ _ _ _ _ _ _ _
      { waves := buffer.samples, inputFinished := false } _ _ _ ahead
      ((Vad.VadConfig.listening_setConfig buffer.vadTailSil buffer.vadMaxLen).mpr serving.listening)
      scores rfl rfl enough
  rw [Vad.VadConfig.listening_setConfig] at listening
  obtain ⟨windows, -, streaming⟩ := listening.scorer
  obtain ⟨audio, split, consistent, rate, frameQueue, emitted⟩ :=
    serving.split buffer answered streaming.valid listening.judged
  obtain ⟨⟨added, continues, same⟩, -, long, -⟩ := answered
  obtain ⟨complete', transcript⟩ := serving.transcript.answer continues streaming.valid
  rw [← same] at transcript
  refine ⟨⟨answers, audio.asrOnlineQueue, audio.asrOfflineQueue⟩,
    ⟨handle, { audio with asrOnlineQueue := [], asrOfflineQueue := [] }⟩, segmenter', rows', complete',
    ?_, listening, consistent.queues [] [], rate, frameQueue, rfl, rfl, transcript, emitted,
    long serving.long⟩
  simp only [TpassOnlineStream.inferBuffer, inferred, split, Option.bind_eq_bind, Option.bind_some,
    fetchChuncks_eq audio rfl]
  rw [fetchTpasses_eq _ rfl]
  rfl

theorem Serving.inferBuffers (scores : config.Scores) (buffers : List (TpassBuffer α))
    (serving : Serving config stream samples twoPass result segmenter rows complete
      (passed config buffers + ahead))
    (enough : ∀ before, before <+: buffers →
      config.Enough (samples ++ before.flatMap TpassBuffer.samples)) :
    ∃ added stream' segmenter' rows' complete',
      stream.inferBuffers config buffers = some (added, stream') ∧
      Serving config stream' (samples ++ buffers.flatMap TpassBuffer.samples)
        (twoPass ∧ ∀ buffer ∈ buffers, buffer.mode = .asrTwoPass)
        (result.append added) segmenter' rows' complete' ahead := by
  induction buffers generalizing stream samples twoPass result segmenter rows complete with
  | nil =>
    refine ⟨{}, stream, segmenter, rows, complete, rfl, ?_⟩
    simp only [List.flatMap_nil, List.append_nil, List.not_mem_nil, false_implies, implies_true,
      and_true, Recognized.append]
    exact Nat.zero_add ahead ▸ serving
  | cons buffer rest inductionHypothesis =>
    rw [passed_cons, Nat.add_assoc] at serving
    obtain ⟨added, stream', segmenter', rows', complete', inferred, serving'⟩ :=
      serving.inferBuffer scores buffer (by simpa using enough [buffer] ⟨rest, rfl⟩)
    obtain ⟨added', stream'', segmenter'', rows'', complete'', later, serving''⟩ :=
      inductionHypothesis serving' fun before first => by
        have grown := enough (buffer :: before) (List.cons_prefix_cons.mpr ⟨rfl, first⟩)
        rwa [List.flatMap_cons, ← List.append_assoc] at grown
    refine ⟨added.append added', stream'', segmenter'', rows'', complete'', ?_, ?_⟩
    · simp only [TpassOnlineStream.inferBuffers, inferred, later, Option.bind_eq_bind,
        Option.bind_some, Option.pure_def]
    · rw [List.flatMap_cons, ← List.append_assoc]
      simp only [List.forall_mem_cons, ← and_assoc]
      simpa only [Recognized.append, List.append_assoc] using serving''

theorem heard_closed (closed : List FrameSpan) (current : Option FrameSpan) :
    (heard closed current).closed = closed.map FrameSpan.ms := by
  cases current with
  | none => rfl
  | some span => rfl

theorem heard_opened (closed : List FrameSpan) (current : Option FrameSpan) :
    (heard closed current).opened = current.map fun span => span.ms.1 := by
  cases current with
  | none => rfl
  | some span => rfl

/-- The last buffer of a recording. -/
theorem Serving.inferBuffer_last (scores : config.Scores) (buffer : TpassBuffer α)
    (serving : Serving config stream samples twoPass result segmenter rows complete
      (config.passes buffer.samples + ahead))
    (enough : config.Enough (samples ++ buffer.samples)) :
    ∃ added stream', stream.inferBuffer config buffer true = some (added, stream') ∧
      Delivered config.khz (samples ++ buffer.samples) (twoPass ∧ buffer.mode = .asrTwoPass)
        (result.append added) ∧
      (result.append added).LongSegments ∧ Ready config stream' ahead := by
  obtain ⟨answers, handle, segmenter', inferred, answered, valid, listening⟩ :=
    @Vad.VadConfig.Listening.infer_last _ _ _ _ _ _ _ _ _ _
      { waves := buffer.samples, inputFinished := true } _ _ _ ahead
      ((Vad.VadConfig.listening_setConfig buffer.vadTailSil buffer.vadMaxLen).mpr serving.listening)
      scores rfl rfl enough
  rw [Vad.VadConfig.listening_setConfig] at listening
  obtain ⟨audio, split, consistent, rate, frameQueue, emitted⟩ :=
    serving.split buffer answered valid le_rfl
  obtain ⟨⟨added, continues, same⟩, -, long, -⟩ := answered
  obtain ⟨complete', transcript⟩ := serving.transcript.answer continues valid
  rw [← same] at transcript
  refine ⟨⟨answers, audio.asrOnlineQueue, audio.asrOfflineQueue⟩,
    ⟨handle, { audio with asrOnlineQueue := [], asrOfflineQueue := [] }.resetIndex⟩, ?_, ?_, ?_, ?_⟩
  · simp only [TpassOnlineStream.inferBuffer, inferred, split, Option.bind_eq_bind, Option.bind_some,
      fetchChuncks_eq audio rfl]
    rw [fetchTpasses_eq _ rfl]
    rfl
  · refine ⟨segmenter'.closed.map FrameSpan.ms, segmenter'.current.map fun span => span.ms.1, ?_, ?_,
      ?_, fun both => ?_⟩
    · rw [Recognized.append, transcript.join]
      cases segmenter'.current with
      | none => rfl
      | some span => rfl
    · have spans := consistent.spans
      rwa [heard_closed, segSample_khz rate] at spans
    · have apart := (Vad.ordered_ms valid.ordered).2
      rw [Segmenter.spans, List.map_append] at apart
      exact (List.pairwise_append.mp apart).1
    · obtain ⟨offline, groups, pending, online, grouped, idle, -⟩ := emitted both
      rw [heard_closed] at offline grouped
      rw [heard_opened] at idle
      exact ⟨offline, groups, pending, online, grouped, idle⟩
  · intro entry member ended
    rw [Recognized.append, transcript.join] at member
    cases List.mem_append.mp member with
    | inl closed =>
      obtain ⟨span, inside, rfl⟩ := List.mem_map.mp closed
      have frames := (long serving.long).closed span inside
      simp only [FrameSpan.ms, Vad.VADXOptions.frameInMs]
      omega
    | inr opened =>
      obtain ⟨span, -, rfl⟩ := List.mem_map.mp opened
      exact absurd rfl ended
  · exact ⟨listening, .initial _, rate, frameQueue, rfl, rfl, .initial,
      fun _ => Emitted.initial _ _ _, .initial⟩

omit [Add β] [Mul β] [Field δ] [LinearOrder δ] in
/-- Every shift brings one frame. -/
theorem frames_more (config : VadConfig α β δ κ) (samples : List α) {more : List α} {shifts : Nat}
    (few : more.length ≤ shifts * (10 * config.khz)) :
    config.frames (samples ++ more) ≤ config.frames samples + shifts := by
  obtain ⟨before, -⟩ :=
    Frontend.computeFrameNum_spec (Vad.framing config.khz config.pos) samples.length
  obtain ⟨-, after⟩ := Frontend.computeFrameNum_spec (Vad.framing config.khz config.pos)
    (samples ++ more).length
  change _ < config.frames samples * _ + _ at before
  change config.frames (samples ++ more) = 0 ∨ (config.frames (samples ++ more) - 1) * _ + _ ≤ _ at after
  rw [List.length_append] at after
  obtain none | some := after
  · omega
  · have shift : (Vad.framing config.khz config.pos).frameShiftSampleLength = 10 * config.khz :=
      Nat.mul_comm _ _
    rw [shift] at before some
    have less : (config.frames (samples ++ more) - 1) * (10 * config.khz) <
        (config.frames samples + shifts) * (10 * config.khz) := by
      rw [Nat.add_mul]
      omega
    have fewer := Nat.lt_of_mul_lt_mul_right less
    omega

omit [Add β] [Mul β] [Field δ] [LinearOrder δ] in
/-- The frames that `Split` makes of an answer. -/
theorem Serving.sized_split
    (serving : Serving config stream samples twoPass result segmenter rows complete ahead)
    (buffer : TpassBuffer α) {shifts : Nat} (few : buffer.samples.length ≤ shifts * (10 * config.khz))
    {answers : List VadSegment} {segmenter' : Segmenter} {limit : Nat}
    (answered : VadConfig.Answered answers rows limit segmenter segmenter')
    (valid : segmenter'.Valid limit) (inside : limit ≤ config.frames (samples ++ buffer.samples))
    {audio : Audio α} (split : (stream.audio.loadPcmwavOnline buffer.samples).split answers
      (buffer.chunkMs * (stream.audio.loadPcmwavOnline buffer.samples).segSample) buffer.mode =
        some audio) :
    Recognized.Sized (buffer.chunkMs * config.khz) ((shifts + 42) * (10 * config.khz))
      { online := audio.asrOnlineQueue } := by
  have seg : (stream.audio.loadPcmwavOnline buffer.samples).segSample = config.khz :=
    segSample_khz serving.rate
  have empty : (stream.audio.loadPcmwavOnline buffer.samples).asrOnlineQueue = [] :=
    serving.onlineQueue
  rw [seg, ← Nat.cast_mul] at split
  obtain ⟨-, frames, queue, whole⟩ := Audio.split_pushes split
  obtain ⟨-, frames', queue', ends⟩ := Audio.split_closes (by omega) split
  rw [empty, List.nil_append] at queue queue'
  subst queue
  rw [← queue', seg] at ends
  have grown := frames_more config samples few
  have behind := serving.listening.behind
  intro frame member
  refine ⟨fun open' => ?_, fun final => ?_⟩
  · obtain ⟨data, some, length⟩ := whole frame member open'
    rw [AudioFrame.samples, some]
    exact_mod_cast length
  · obtain short | ⟨entry, among, first, last, length⟩ := ends frame member final
    · exact .inl (by exact_mod_cast short)
    · right
      have most := answered_whole answered valid among first last
      have product := mul_le_mul_of_nonneg_right
        (show entry.2 - entry.1 ≤ ((shifts + 42 : Nat) : Int) * 10 by
          simp only [Segmenter.latency, Vad.VADXOptions.frameInMs] at most
          omega)
        (show (0 : Int) ≤ config.khz by omega)
      rw [← length] at product
      rw [← Nat.mul_assoc]
      exact_mod_cast product

/-- What the detector answers in a call of either kind. -/
theorem Serving.answer (scores : config.Scores) (buffer : TpassBuffer α)
    (serving : Serving config stream samples twoPass result segmenter rows complete
      (config.passes buffer.samples + ahead))
    (enough : config.Enough (samples ++ buffer.samples)) (inputFinished : Bool) :
    ∃ answers handle segmenter', ∃ limit : Nat,
      (config.setConfig buffer.vadTailSil buffer.vadMaxLen).infer stream.vadOnlineHandle
        { waves := buffer.samples, inputFinished } = some (answers, handle) ∧
      VadConfig.Answered answers rows limit segmenter segmenter' ∧ segmenter'.Valid limit ∧
      limit ≤ config.frames (samples ++ buffer.samples) := by
  have listening := (Vad.VadConfig.listening_setConfig buffer.vadTailSil buffer.vadMaxLen).mpr
    serving.listening
  cases inputFinished with
  | false =>
    obtain ⟨answers, handle, segmenter', rows', answer, answered, listening'⟩ :=
      @Vad.VadConfig.Listening.infer_more _ _ _ _ _ _ _ _ _ _
        { waves := buffer.samples, inputFinished := false } _ _ _ ahead listening scores rfl rfl enough
    obtain ⟨windows, -, streaming⟩ := listening'.scorer
    exact ⟨answers, handle, segmenter', rows', answer, answered, streaming.valid, listening'.judged⟩
  | true =>
    obtain ⟨answers, handle, segmenter', answer, answered, valid, -⟩ :=
      @Vad.VadConfig.Listening.infer_last _ _ _ _ _ _ _ _ _ _
        { waves := buffer.samples, inputFinished := true } _ _ _ ahead listening scores rfl rfl enough
    exact ⟨answers, handle, segmenter', _, answer, answered, valid, le_rfl⟩

section
variable (scores : config.Scores) (buffer : TpassBuffer α)
  (serving : Serving config stream samples twoPass result segmenter rows complete
    (config.passes buffer.samples + ahead))
  (enough : config.Enough (samples ++ buffer.samples)) {inputFinished : Bool} {added : Recognized α}
  {stream' : TpassOnlineStream α β δ κ}
  (inferred : stream.inferBuffer config buffer inputFinished = some (added, stream'))
include scores serving enough inferred

/-- The frames of a call with few samples. -/
theorem Serving.sized {shifts : Nat} (few : buffer.samples.length ≤ shifts * (10 * config.khz)) :
    added.Sized (buffer.chunkMs * config.khz) ((shifts + 42) * (10 * config.khz)) := by
  obtain ⟨answers, handle, segmenter', limit, answer, answered, valid, inside⟩ :=
    serving.answer scores buffer enough inputFinished
  simp only [TpassOnlineStream.inferBuffer, answer, Option.bind_eq_bind, Option.bind_some,
    Option.bind_eq_some_iff] at inferred
  obtain ⟨audio, split, same⟩ := inferred
  rw [fetchChuncks_eq audio rfl] at same
  cases same
  exact serving.sized_split buffer few answered valid inside split

/-- A call with 130 ms of samples at most queues one segment at most. -/
theorem Serving.single (few : buffer.samples.length ≤ 13 * (10 * config.khz))
    (both : twoPass ∧ buffer.mode = .asrTwoPass) : added.offline.length ≤ 1 := by
  obtain ⟨answers, handle, segmenter', limit, answer, answered, valid, inside⟩ :=
    serving.answer scores buffer enough inputFinished
  have grown := frames_more config samples few
  have behind := serving.listening.behind
  obtain ⟨audio, split, -, -, -, emitted⟩ := serving.split buffer answered valid inside
  simp only [TpassOnlineStream.inferBuffer, answer, split, Option.bind_eq_bind,
    Option.bind_some] at inferred
  rw [fetchChuncks_eq audio rfl] at inferred
  simp only at inferred
  rw [fetchTpasses_eq _ rfl] at inferred
  cases inferred
  have single := answered.single (by omega)
  have before := congrArg List.length (serving.emitted both.1).offline
  have after := congrArg List.length (emitted both).offline
  rw [heard_closed, List.length_map, List.length_map] at before after
  rw [List.length_append] at after
  simp only
  omega

end

/-- The samples of a recording. -/
def waveform (recording : List (TpassBuffer α) × TpassBuffer α) : List α :=
  (recording.1 ++ [recording.2]).flatMap TpassBuffer.samples

def InTwoPass (recording : List (TpassBuffer α) × TpassBuffer α) : Prop :=
  (∀ buffer ∈ recording.1, buffer.mode = .asrTwoPass) ∧ recording.2.mode = .asrTwoPass

/-- No buffer leaves the recording with one or two frames. -/
def EnoughFrames (config : VadConfig α β δ κ) (recording : List (TpassBuffer α) × TpassBuffer α) :
    Prop :=
  ∀ before, before <+: recording.1 ++ [recording.2] →
    config.Enough (before.flatMap TpassBuffer.samples)

theorem Ready.serve (scores : config.Scores) (recording : List (TpassBuffer α) × TpassBuffer α)
    (ready : Ready config stream (passed config (recording.1 ++ [recording.2]) + ahead))
    (enough : EnoughFrames config recording) :
    ∃ result stream', stream.serve config recording = some (result, stream') ∧
      Delivered config.khz (waveform recording) (InTwoPass recording) result ∧
      Ready config stream' ahead := by
  obtain ⟨buffers, last⟩ := recording
  have whole := enough (buffers ++ [last]) List.prefix_rfl
  simp only [List.flatMap_append, List.flatMap_singleton] at whole
  rw [passed_append, Nat.add_assoc] at ready
  obtain ⟨first, stream', segmenter', rows', complete', inferred, serving⟩ :=
    Serving.inferBuffers scores buffers ready fun before prefix' =>
      enough before (prefix'.trans (List.prefix_append buffers [last]))
  rw [List.nil_append] at serving
  obtain ⟨added, stream'', inferred', delivered, -, ready'⟩ :=
    serving.inferBuffer_last scores last whole
  refine ⟨first.append added, stream'', ?_, ?_, ready'⟩
  · simp only [TpassOnlineStream.serve, inferred, inferred', Option.bind_eq_bind, Option.bind_some,
      Option.pure_def]
  · simp only [Recognized.append, List.nil_append, true_and] at delivered
    simpa only [waveform, InTwoPass, Recognized.append, List.flatMap_append, List.flatMap_singleton]
      using delivered

end

/-! ## A recording in which every frame is speech -/

def sixteenKhz : Audio Unit where
  destSampleRate := 16000
  enough := enough_16000

end Asr2Pass.TwoPass
