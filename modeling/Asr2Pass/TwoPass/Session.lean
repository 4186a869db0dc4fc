import Asr2Pass.Library.Runs
import Asr2Pass.TwoPass.Consistency

/-! # A recording through `Audio`

Chunks are loaded and split one after the other, and in between frames are fetched from the two
queues.  While the detector keeps its protocol, `all_samples` ends with the samples loaded
(`run_consistent`), and in two-pass mode the queues receive every closed segment exactly once
(`run_emitted`).
-/

namespace Asr2Pass.TwoPass

open Library

variable {α : Type}

/-- `LoadPcmwavOnline` and `Split` for one chunk, with the detector's answer to it; `chunk_len` is
    `chunkMs * seg_sample`. -/
structure Call (α : Type) where
  samples : List α
  vadSegments : List VadSegment := []
  chunkMs : Nat
  positive : 0 < chunkMs
  asrMode : AsrType := .asrTwoPass

inductive Event (α : Type) where
  | feed (call : Call α)
  | fetchChunck
  | fetchTpass

/-- `audio`, and the frames taken from its queues so far. -/
structure Session (α : Type) where
  audio : Audio α
  online : List (AudioFrame α) := []
  offline : List (AudioFrame α) := []

namespace Session

def step (session : Session α) : Event α → Option (Session α)
  | .feed call => do
    let loaded := session.audio.loadPcmwavOnline call.samples
    let audio ← loaded.split call.vadSegments (call.chunkMs * loaded.segSample) call.asrMode
    return { session with audio }
  | .fetchChunck =>
    let (frame, audio) := session.audio.fetchChunck
    some { session with audio, online := session.online ++ frame.toList }
  | .fetchTpass =>
    let (frame, audio) := session.audio.fetchTpass
    some { session with audio, offline := session.offline ++ frame.toList }

/-- What `asr_online_queue` has received. -/
def sentOnline (session : Session α) : List (AudioFrame α) :=
  session.online ++ session.audio.asrOnlineQueue

/-- What `asr_offline_queue` has received. -/
def sentOffline (session : Session α) : List (AudioFrame α) :=
  session.offline ++ session.audio.asrOfflineQueue

end Session

namespace Event

def samples : Event α → List α
  | .feed call => call.samples
  | .fetchChunck => []
  | .fetchTpass => []

def vadSegments : Event α → List VadSegment
  | .feed call => call.vadSegments
  | .fetchChunck => []
  | .fetchTpass => []

def InTwoPass : Event α → Prop
  | .feed call => call.asrMode = .asrTwoPass
  | .fetchChunck => True
  | .fetchTpass => True

end Event

/-- The samples loaded. -/
def received (events : List (Event α)) : List α := events.flatMap Event.samples

/-- The detector keeps its protocol in every call, from `count` samples and the state `vad` on. -/
inductive Conforms (seg destSampleRate : Nat) :
    Nat → VadState → List (Event α) → VadState → Prop where
  | nil {count : Nat} {vad : VadState} : Conforms seg destSampleRate count vad [] vad
  | cons {count : Nat} {vad vad' vad'' : VadState} {event : Event α} {rest : List (Event α)} :
      VadAnswer seg destSampleRate count (count + event.samples.length) vad event.vadSegments vad' →
      Conforms seg destSampleRate (count + event.samples.length) vad' rest vad'' →
      Conforms seg destSampleRate count vad (event :: rest) vad''

/-! ## A call -/

/-- `audio` in a call of `Split`, with the chunk taken from `frame_queue` and counted. -/
def Audio.counted (audio : Audio α) (samples : List α) : Audio α :=
  { audio.loadPcmwavOnline samples with
    frameQueue := []
    speechEnd := audio.speechEnd + (samples.length : Int).tdiv audio.segSample }

theorem Audio.split_eq (audio : Audio α) (paired : audio.frameQueue = []) (samples : List α)
    (vadSegments : List VadSegment) (chunkLen : Int) (asrMode : AsrType) :
    (audio.loadPcmwavOnline samples).split vadSegments chunkLen asrMode =
      ((audio.counted samples).splitAnswer vadSegments chunkLen asrMode).bind eraseSamples := by
  simp only [Audio.split, Audio.loadPcmwavOnline, paired, List.nil_append]
  rfl

section
variable {audio : Audio α} {stream : List α} {before : Nat} {vad : VadState}

/-- The new chunk counts into `speech_end`. -/
theorem Consistent.counted (consistent : Consistent audio stream stream.length vad)
    (samples : List α) :
    Consistent (audio.counted samples) (stream ++ samples) stream.length vad := by
  obtain ⟨⟨held, nonneg, inside⟩, behind, endNonneg, endInside, lastNonneg, lastInside, spans, idle,
    speaking⟩ := consistent
  have advance : (samples.length : Int).tdiv audio.segSample * audio.segSample ≤ samples.length := by
    rw [Int.tdiv_eq_ediv_of_nonneg (by omega)]
    exact Int.ediv_mul_le _ (by have := audio.segSample_pos; omega)
  have forward : 0 ≤ (samples.length : Int).tdiv audio.segSample :=
    Int.tdiv_nonneg (by omega) (by omega)
  have length : ((stream ++ samples).length : Int) = stream.length + samples.length := by
    rw [List.length_append]
    omega
  refine ⟨⟨?_, nonneg, ?_⟩, behind, Int.add_nonneg endNonneg forward, ?_, lastNonneg, ?_,
    spans.grow samples, idle, speaking⟩
  · change audio.allSamples ++ samples = (stream ++ samples).drop audio.offset.toNat
    rw [held, List.drop_append_of_le_length (by omega)]
  · change audio.offset ≤ _
    omega
  · change (audio.speechEnd + (samples.length : Int).tdiv audio.segSample) * audio.segSample ≤ _
    rw [add_mul]
    omega
  · change vad.last * audio.segSample ≤ _
    omega

theorem Audio.Holds.eraseFront (holds : audio.Holds stream) {eraseNum : Int} (nonneg : 0 ≤ eraseNum)
    (inside : audio.offset + eraseNum ≤ stream.length) :
    audio.eraseFront eraseNum = some { audio with
      allSamples := audio.allSamples.drop eraseNum.toNat, offset := audio.offset + eraseNum } ∧
    Holds { audio with
      allSamples := audio.allSamples.drop eraseNum.toNat, offset := audio.offset + eraseNum }
      stream := by
  obtain ⟨held, offset, within⟩ := holds
  have length : audio.allSamples.length = stream.length - audio.offset.toNat := by
    rw [held, List.length_drop]
  refine ⟨?_, ?_, Int.add_nonneg offset nonneg, inside⟩
  · rw [Audio.eraseFront, if_pos ⟨nonneg, by omega⟩]
  · simp only [held, List.drop_drop]
    congr 1
    omega

/-- An erasure that leaves what an answer can still ask for. -/
theorem Consistent.eraseFront (consistent : Consistent audio stream before vad) {eraseNum : Int}
    (nonneg : 0 ≤ eraseNum)
    (behind : audio.offset + eraseNum ≤ stream.length - 2 * audio.destSampleRate)
    (held : ∀ first, vad.opened = some first →
      audio.offset + eraseNum ≤ first * audio.segSample) :
    ∃ kept offset', audio.eraseFront eraseNum =
        some { audio with allSamples := kept, offset := offset' } ∧
      Consistent { audio with allSamples := kept, offset := offset' } stream stream.length vad := by
  obtain ⟨holds, -, endNonneg, endInside, lastNonneg, lastInside, spans, idle, speaking⟩ := consistent
  obtain ⟨erased, holds'⟩ := holds.eraseFront nonneg (by omega)
  refine ⟨_, _, erased, holds', by simp only; omega, endNonneg, endInside, lastNonneg, lastInside,
    spans, idle, fun first opened => ?_⟩
  obtain ⟨offlineStart, started, later, named, -⟩ := speaking first opened
  exact ⟨offlineStart, started, later, named, held first opened⟩

/-- Nothing that an answer can still ask for is erased. -/
theorem Consistent.eraseSamples (consistent : Consistent audio stream before vad)
    (earlier : before ≤ stream.length) :
    ∃ kept offset', audio.eraseSamples =
        some { audio with allSamples := kept, offset := offset' } ∧
      Consistent { audio with allSamples := kept, offset := offset' } stream stream.length vad := by
  obtain ⟨holds, behind, endNonneg, endInside, lastNonneg, lastInside, spans, idle, speaking⟩ :=
    consistent
  have same : Consistent audio stream stream.length vad :=
    ⟨holds, by omega, endNonneg, endInside, lastNonneg, lastInside, spans, idle, speaking⟩
  have length : (audio.allSamples.length : Int) = stream.length - audio.offset := by
    have offset := holds.nonneg
    have inside := holds.inside
    rw [holds.samples, List.length_drop]
    omega
  -- Two seconds of samples stay: the last ones between segments, those before the start in one.
  cases opened : vad.opened with
  | none =>
    obtain ⟨-, offlineStart⟩ := idle opened
    rw [Audio.eraseSamples, if_pos offlineStart]
    by_cases long : (audio.allSamples.length : Int) > audio.destSampleRate * 2
    · rw [if_pos long]
      refine same.eraseFront (by omega) (by omega) fun first open' => ?_
      rw [opened] at open'
      cases open'
    · rw [if_neg long]
      exact ⟨_, _, rfl, same⟩
  | some first =>
    obtain ⟨rfl, nonneg, later, named, held⟩ := speaking first opened
    have named' : audio.speechOfflineStart * audio.segSample ≤ vad.last * (audio.segSample : Int) :=
      mul_le_mul_of_nonneg_right named (by omega)
    rw [Audio.eraseSamples, if_neg (by omega)]
    by_cases long : audio.speechOfflineStart * audio.segSample - audio.offset >
        (audio.destSampleRate * 2 : Int)
    · rw [if_pos long]
      refine same.eraseFront (by omega) (by omega) fun first' open' => ?_
      rw [opened] at open'
      cases open'
      omega
    · rw [if_neg long]
      exact ⟨_, _, rfl, same⟩

theorem Consistent.splitAnswer (consistent : Consistent audio stream before vad)
    {entries : List VadSegment} {vad' : VadState}
    (protocol : VadAnswer audio.segSample audio.destSampleRate before stream.length vad entries vad')
    {chunkMs : Nat} (positive : 0 < chunkMs) (asrMode : AsrType) :
    ∃ audio', audio.splitAnswer entries (chunkMs * audio.segSample) asrMode = some audio' ∧
      Advances stream before asrMode audio vad audio' vad' := by
  rw [Audio.splitAnswer]
  by_cases silent : entries = []
  · rw [silent] at protocol
    cases protocol
    rw [if_pos silent]
    cases opened : vad.opened with
    | none =>
      rw [if_neg (not_not_intro (consistent.idle opened).1)]
      exact ⟨audio, rfl, .refl consistent⟩
    | some first =>
      obtain ⟨-, nonneg, later, -⟩ := consistent.speaking first opened
      rw [if_pos (by omega)]
      exact consistent.emitChunk opened chunkMs asrMode
  · rw [if_neg silent]
    exact consistent.splitSegments protocol positive asrMode

/-- A chunk and an answer that keeps the protocol. -/
theorem Consistent.split (consistent : Consistent audio stream stream.length vad)
    (paired : audio.frameQueue = []) {call : Call α} {vad' : VadState}
    (protocol : VadAnswer audio.segSample audio.destSampleRate stream.length
      (stream.length + call.samples.length) vad call.vadSegments vad') :
    ∃ audio', (audio.loadPcmwavOnline call.samples).split call.vadSegments
        (call.chunkMs * audio.segSample) call.asrMode = some audio' ∧
      Consistent audio' (stream ++ call.samples) (stream ++ call.samples).length vad' ∧
      Advances (stream ++ call.samples) (stream ++ call.samples).length call.asrMode audio vad audio'
        vad' := by
  have counted := consistent.counted call.samples
  rw [← List.length_append] at protocol
  obtain ⟨answered, split, advances⟩ := counted.splitAnswer protocol call.positive call.asrMode
  obtain ⟨kept, offset', erased, consistent'⟩ := advances.consistent.eraseSamples
    (by rw [List.length_append]; omega)
  obtain ⟨-, rate, frameQueue, pushed⟩ := advances
  refine ⟨_, ?_, consistent', consistent', rate, by rw [paired]; exact frameQueue, pushed⟩
  rw [audio.split_eq paired]
  exact Option.bind_eq_some_iff.mpr ⟨answered, split, erased⟩

end

/-! ## A run -/

/-- From `session` to `final` the recording went from `stream` to `stream'`. -/
structure Continues (twoPass : Prop) (session : Session α) (stream : List α) (vad : VadState)
    (final : Session α) (stream' : List α) (vad' : VadState) : Prop where
  consistent : Consistent final.audio stream' stream'.length vad'
  paired : final.audio.frameQueue = []
  rate : final.audio.destSampleRate = session.audio.destSampleRate
  sent : ∃ online offline, final.sentOnline = session.sentOnline ++ online ∧
    final.sentOffline = session.sentOffline ++ offline ∧
    (twoPass → ∀ sent sent',
      Emitted stream session.audio.segSample vad session.audio.speechStart sent sent' →
      Emitted stream' session.audio.segSample vad' final.audio.speechStart (sent ++ online)
        (sent' ++ offline))

theorem Continues.segSample {twoPass : Prop} {session final : Session α} {stream stream' : List α}
    {vad vad' : VadState} (continues : Continues twoPass session stream vad final stream' vad') :
    final.audio.segSample = session.audio.segSample := by
  rw [Audio.segSample, continues.rate, Audio.segSample]

theorem Continues.trans {twoPass : Prop} {session session' final : Session α}
    {stream stream' stream'' : List α} {vad vad' vad'' : VadState} {twoPass' : Prop}
    (first : Continues twoPass session stream vad session' stream' vad')
    (second : Continues twoPass' session' stream' vad' final stream'' vad'') :
    Continues (twoPass ∧ twoPass') session stream vad final stream'' vad'' := by
  have seg := first.segSample
  obtain ⟨-, -, rate, online, offline, sentOnline, sentOffline, emitted⟩ := first
  obtain ⟨consistent, paired, rate', online', offline', sentOnline', sentOffline', emitted'⟩ := second
  refine ⟨consistent, paired, rate'.trans rate, online ++ online', offline ++ offline', ?_, ?_, ?_⟩
  · rw [sentOnline', sentOnline, List.append_assoc]
  · rw [sentOffline', sentOffline, List.append_assoc]
  · rintro ⟨both, both'⟩ sent sent' before
    have later := emitted' both' _ _ (seg.symm ▸ emitted both sent sent' before)
    rwa [seg, List.append_assoc, List.append_assoc] at later

/-- Frames that are fetched stay sent. -/
theorem Continues.fetched {session final : Session α} {stream : List α} {vad : VadState}
    (consistent : Consistent final.audio stream stream.length vad)
    (paired : final.audio.frameQueue = [])
    (rate : final.audio.destSampleRate = session.audio.destSampleRate)
    (start : final.audio.speechStart = session.audio.speechStart)
    (online : final.sentOnline = session.sentOnline)
    (offline : final.sentOffline = session.sentOffline) :
    Continues True session stream vad final stream vad := by
  refine ⟨consistent, paired, rate, [], [], by rw [online, List.append_nil],
    by rw [offline, List.append_nil], fun _ sent sent' before => ?_⟩
  rwa [List.append_nil, List.append_nil, start]

theorem step_continues {session : Session α} {stream : List α} {vad vad' : VadState}
    (consistent : Consistent session.audio stream stream.length vad)
    (paired : session.audio.frameQueue = []) {event : Event α}
    (protocol : VadAnswer session.audio.segSample session.audio.destSampleRate stream.length
      (stream.length + event.samples.length) vad event.vadSegments vad') :
    ∃ next, session.step event = some next ∧
      Continues event.InTwoPass session stream vad next (stream ++ event.samples) vad' := by
  -- Only a call that feeds samples goes on with the stream; a fetch takes from a queue.
  cases event with
  | feed call =>
    obtain ⟨audio', split, consistent', advances⟩ := consistent.split paired protocol
    obtain ⟨-, rate, frameQueue, online, offline, onlineQueue, offlineQueue, emitted⟩ := advances
    refine ⟨{ session with audio := audio' }, ?_, consistent', by rw [frameQueue, paired], rate,
      online, offline, ?_, ?_, ?_⟩
    · exact Option.bind_eq_some_iff.mpr ⟨audio', split, rfl⟩
    · simp only [Session.sentOnline, onlineQueue, List.append_assoc]
    · simp only [Session.sentOffline, offlineQueue, List.append_assoc]
    · intro twoPass sent sent' before
      exact emitted twoPass sent sent' (before.grow consistent.spans call.samples)
  | fetchChunck =>
    cases protocol
    rw [Event.samples, List.append_nil]
    cases queue : session.audio.asrOnlineQueue with
    | nil =>
      refine ⟨session, ?_, .fetched consistent paired rfl rfl rfl rfl⟩
      simp [Session.step, Audio.fetchChunck, queue]
    | cons frame rest =>
      refine ⟨{ session with
        audio := { session.audio with asrOnlineQueue := rest }
        online := session.online ++ [frame] }, ?_, .fetched ?_ paired rfl rfl ?_ rfl⟩
      · simp [Session.step, Audio.fetchChunck, queue]
      · exact consistent.queues rest session.audio.asrOfflineQueue
      · simp [Session.sentOnline, queue]
  | fetchTpass =>
    cases protocol
    rw [Event.samples, List.append_nil]
    cases queue : session.audio.asrOfflineQueue with
    | nil =>
      refine ⟨session, ?_, .fetched consistent paired rfl rfl rfl rfl⟩
      simp [Session.step, Audio.fetchTpass, queue]
    | cons frame rest =>
      refine ⟨{ session with
        audio := { session.audio with asrOfflineQueue := rest }
        offline := session.offline ++ [frame] }, ?_, .fetched ?_ paired rfl rfl rfl ?_⟩
      · simp [Session.step, Audio.fetchTpass, queue]
      · exact consistent.queues session.audio.asrOnlineQueue rest
      · simp [Session.sentOffline, queue]

theorem run_continues {session : Session α} {stream : List α} {vad vad' : VadState}
    (consistent : Consistent session.audio stream stream.length vad)
    (paired : session.audio.frameQueue = []) {events : List (Event α)}
    (conforms : Conforms session.audio.segSample session.audio.destSampleRate stream.length vad events
      vad') :
    ∃ final, run Session.step session events = some final ∧
      Continues (∀ event ∈ events, event.InTwoPass) session stream vad final
        (stream ++ received events) vad' := by
  induction events generalizing session stream vad with
  | nil =>
    cases conforms
    refine ⟨session, rfl, ?_⟩
    rw [received, List.flatMap_nil, List.append_nil]
    refine ⟨consistent, paired, rfl, [], [], by simp, by simp, fun _ sent sent' before => ?_⟩
    rwa [List.append_nil, List.append_nil]
  | cons event rest inductionHypothesis =>
    cases conforms with
    | @cons _ _ vad'' _ _ _ protocol conforms =>
      obtain ⟨next, stepped, continues⟩ := step_continues consistent paired protocol
      rw [← continues.segSample, ← continues.rate, ← List.length_append] at conforms
      obtain ⟨final, ran, continues'⟩ :=
        inductionHypothesis continues.consistent continues.paired conforms
      refine ⟨final, run_cons_eq_some.mpr ⟨next, stepped, ran⟩, ?_⟩
      have both := continues.trans continues'
      rw [List.append_assoc] at both
      rw [received, List.flatMap_cons]
      simp only [List.forall_mem_cons]
      exact both

theorem Consistent.initial (audio : Audio α) : Consistent audio.resetIndex [] 0 {} := by
  refine ⟨⟨rfl, le_refl _, le_refl _⟩, by simp [Audio.resetIndex], le_refl _, ?_, le_refl _, ?_, ?_,
    fun _ => ⟨rfl, rfl⟩, by simp⟩
  · simp [Audio.resetIndex]
  · simp
  · intro span member
    cases member

/-- After any chunks and fetches, `all_samples` ends with the last of the samples loaded: no copy
    and no erasure has left it. -/
theorem run_consistent (audio : Audio α) (paired : audio.frameQueue = []) {events : List (Event α)}
    {vad : VadState} (conforms : Conforms audio.segSample audio.destSampleRate 0 {} events vad) :
    ∃ final, run Session.step { audio := audio.resetIndex } events = some final ∧
      final.audio.offset + final.audio.allSamples.length = (received events).length ∧
      final.audio.frameQueue = [] := by
  obtain ⟨final, ran, continues⟩ := @run_continues _ { audio := audio.resetIndex } [] {} vad
    (Consistent.initial audio) paired events conforms
  obtain ⟨held, nonneg, inside⟩ := continues.consistent.holds
  refine ⟨final, ran, ?_, continues.paired⟩
  rw [held, List.length_drop]
  rw [List.nil_append] at inside ⊢
  omega

/-- A recording with one segment. -/
def newAudio : Audio Nat where
  destSampleRate := 16000
  enough := enough_16000

def segmentEvents : List (Event Nat) :=
  [.feed { samples := List.range 48, vadSegments := [(1, -1)], chunkMs := 2, positive := by decide },
    .fetchChunck,
    .feed { samples := List.range 40, vadSegments := [(-1, 4)], chunkMs := 2, positive := by decide },
    .fetchTpass]

theorem segmentEvents_conforms : Conforms newAudio.segSample newAudio.destSampleRate 0 {}
    segmentEvents { opened := none, last := 4, closed := [(1, 4)] } :=
  .cons (.cons (.start rfl (by decide) (by decide) (by decide)) .nil) <|
    .cons .nil <|
    .cons (.cons (.stop rfl (by decide) (by decide)) .nil) <|
    .cons .nil .nil

theorem run_consistent_segment :
    ∃ final, run Session.step { audio := newAudio.resetIndex } segmentEvents = some final ∧
      final.audio.offset + final.audio.allSamples.length = (received segmentEvents).length ∧
      final.audio.frameQueue = [] :=
  run_consistent newAudio rfl segmentEvents_conforms

/-- In two-pass mode, after the frames that `audio` began with, `asr_offline_queue` has received one
    frame with the samples of each closed segment, and `asr_online_queue` one group of frames for
    each, and the chunks of the segment that is open. -/
theorem run_emitted (audio : Audio α) (paired : audio.frameQueue = []) {events : List (Event α)}
    {vad : VadState} (conforms : Conforms audio.segSample audio.destSampleRate 0 {} events vad)
    (twoPass : ∀ event ∈ events, event.InTwoPass) :
    ∃ final groups pending, run Session.step { audio := audio.resetIndex } events = some final ∧
      final.sentOffline = audio.asrOfflineQueue ++
        vad.closed.map (offlineFrame (received events) audio.segSample) ∧
      final.sentOnline = audio.asrOnlineQueue ++ (groups.flatten ++ pending) ∧
      List.Forall₂ (OnlineGroup (received events) audio.segSample) vad.closed groups ∧
      SpansInside (received events) audio.segSample vad.closed ∧
      (∀ span ∈ vad.closed, (offlineFrame (received events) audio.segSample span).data =
        some (((received events).drop (span.1 * audio.segSample).toNat).take
          ((span.2 * audio.segSample).toNat - (span.1 * audio.segSample).toNat))) ∧
      (vad.opened = none → pending = []) ∧
      ∀ first, vad.opened = some first → (∀ frame ∈ pending, frame.isFinal = false) ∧
        Contiguous (received events) (first * audio.segSample) pending
          (final.audio.speechStart * audio.segSample) := by
  obtain ⟨final, ran, continues⟩ := @run_continues _ { audio := audio.resetIndex } [] {} vad
    (Consistent.initial audio) paired events conforms
  have seg := continues.segSample
  obtain ⟨consistent, -, -, online, offline, sentOnline, sentOffline, emitted⟩ := continues
  have spans := consistent.spans
  rw [seg, List.nil_append] at spans
  obtain ⟨offlineFrames, groups, pending, onlineFrames, grouped, idle, speaking⟩ :=
    emitted twoPass [] [] (Emitted.initial _ _ _)
  simp only [List.nil_append] at offlineFrames onlineFrames
  refine ⟨final, groups, pending, ran, ?_, ?_, grouped, spans,
    fun span member => spans.offlineFrame_data member, idle, fun first opened => ?_⟩
  · rw [sentOffline, offlineFrames]
    rfl
  · rw [sentOnline, onlineFrames]
    rfl
  · exact ⟨(speaking first opened).2, (speaking first opened).1⟩

theorem run_emitted_segment :
    ∃ final groups pending,
      run Session.step { audio := newAudio.resetIndex } segmentEvents = some final ∧
      final.sentOffline = [offlineFrame (received segmentEvents) 16 (1, 4)] ∧
      final.sentOnline = groups.flatten ++ pending ∧
      List.Forall₂ (OnlineGroup (received segmentEvents) 16) [(1, 4)] groups ∧ pending = [] := by
  obtain ⟨final, groups, pending, ran, offline, online, grouped, -, -, idle, -⟩ :=
    run_emitted newAudio rfl segmentEvents_conforms (by simp [segmentEvents, Event.InTwoPass])
  exact ⟨final, groups, pending, ran, offline, online, grouped, idle rfl⟩

end Asr2Pass.TwoPass
