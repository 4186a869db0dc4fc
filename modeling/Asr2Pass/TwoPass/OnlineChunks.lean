import Asr2Pass.TwoPass.Session

/-! # Frames of one chunk

Whatever the detector answers, a frame in `asr_online_queue` that is not final has exactly
`chunk_len` samples: `Split` pushes it either as a whole chunk of the open segment, or as a step of
the loop over what is left of one.
-/

namespace Asr2Pass.TwoPass

open Library

variable {α : Type} {chunkLen : Int} {audio audio' audio'' : Audio α}

/-- The frames that are not final have `chunkLen` samples. -/
def WholeChunks (chunkLen : Int) (frames : List (AudioFrame α)) : Prop :=
  ∀ frame ∈ frames, frame.isFinal = false →
    ∃ data, frame.data = some data ∧ (data.length : Int) = chunkLen

/-- `audio'` comes from `audio` by pushing such frames for the online recognizer. -/
structure Pushes (chunkLen : Int) (audio audio' : Audio α) : Prop where
  rate : audio'.destSampleRate = audio.destSampleRate
  queue : ∃ frames, audio'.asrOnlineQueue = audio.asrOnlineQueue ++ frames ∧
    WholeChunks chunkLen frames

namespace Pushes

theorem none (rate : audio'.destSampleRate = audio.destSampleRate)
    (queue : audio'.asrOnlineQueue = audio.asrOnlineQueue) : Pushes chunkLen audio audio' :=
  ⟨rate, [], by rw [queue, List.append_nil], nofun⟩

theorem trans (first : Pushes chunkLen audio audio') (second : Pushes chunkLen audio' audio'') :
    Pushes chunkLen audio audio'' := by
  obtain ⟨frames, queue, whole⟩ := first.queue
  obtain ⟨frames', queue', whole'⟩ := second.queue
  refine ⟨second.rate.trans first.rate, frames ++ frames', ?_, ?_⟩
  · rw [queue', queue, List.append_assoc]
  · intro frame member
    exact (List.mem_append.mp member).elim (whole frame) (whole' frame)

theorem pushOnline {frame : AudioFrame α} (whole : WholeChunks chunkLen [frame]) :
    Pushes chunkLen audio (audio.pushOnline frame) :=
  ⟨rfl, [frame], rfl, whole⟩

end Pushes

namespace Audio

/-- A copied frame has as many samples as it was asked for. -/
theorem copyFrame_eq {start len globalStart globalEnd : Int} {isFinal : Bool}
    {frame : AudioFrame α}
    (copied : audio.copyFrame start len isFinal globalStart globalEnd = some frame) :
    frame.isFinal = isFinal ∧ ∃ data, frame.data = some data ∧ (data.length : Int) = len := by
  obtain ⟨data, read, same⟩ := Option.bind_eq_some_iff.mp copied
  cases same
  refine ⟨rfl, data, rfl, ?_⟩
  unfold memcpy at read
  split at read
  · rename_i inside
    unfold slice at read
    split at read
    · rename_i within
      cases read
      rw [List.length_drop, List.length_take]
      omega
    · cases read
  · cases read

theorem wholeChunks_final {frame : AudioFrame α} (final : frame.isFinal = true) :
    WholeChunks chunkLen [frame] := by
  intro other member open'
  rw [List.mem_singleton.mp member, final] at open'
  cases open'

theorem copyFrame_whole {start globalStart globalEnd : Int} {isFinal : Bool}
    {frame : AudioFrame α}
    (copied : audio.copyFrame start chunkLen isFinal globalStart globalEnd = some frame) :
    WholeChunks chunkLen [frame] := by
  intro other member _
  rw [List.mem_singleton.mp member]
  exact (copyFrame_eq copied).2

theorem emitChunk_pushes {asrMode : AsrType}
    (emitted : audio.emitChunk chunkLen asrMode = some audio') : Pushes chunkLen audio audio' := by
  simp only [emitChunk] at emitted
  split at emitted
  · obtain ⟨frame, copied, same⟩ := Option.bind_eq_some_iff.mp emitted
    cases same
    have pushed : Pushes chunkLen audio (audio.pushOnline frame) :=
      .pushOnline (copyFrame_whole copied)
    exact ⟨pushed.rate, pushed.queue⟩
  · cases emitted
    exact .none rfl rfl

theorem emitOnline_pushes {start stop globalStart globalEnd : Int} {asrMode : AsrType}
    (emitted : audio.emitOnline start stop globalStart globalEnd asrMode = some audio') :
    Pushes chunkLen audio audio' := by
  unfold emitOnline at emitted
  split at emitted
  · obtain ⟨frame, copied, rfl⟩ := Option.map_eq_some_iff.mp emitted
    exact .pushOnline (wholeChunks_final (copyFrame_eq copied).1)
  · cases emitted
    exact .none rfl rfl

theorem emitOffline_pushes {start stop globalStart globalEnd : Int} {asrMode : AsrType}
    (emitted : audio.emitOffline start stop globalStart globalEnd asrMode = some audio') :
    Pushes chunkLen audio audio' := by
  unfold emitOffline at emitted
  split at emitted
  · obtain ⟨frame, copied, rfl⟩ := Option.map_eq_some_iff.mp emitted
    exact .none rfl rfl
  · cases emitted
    exact .none rfl rfl

/-- The step of the loop changes only with the last, final frame. -/
theorem flush_pushes (count : Nat) {start buffLen sampleOffset : Int}
    (flushed : audio.flush start buffLen sampleOffset chunkLen count = some audio') :
    Pushes chunkLen audio audio' := by
  induction count generalizing audio sampleOffset with
  | zero =>
    unfold flush at flushed
    split at flushed
    · cases flushed
    · cases flushed
      exact .none rfl rfl
  | succ count inductionHypothesis =>
    unfold flush at flushed
    split at flushed
    · obtain ⟨frame, copied, rest⟩ := Option.bind_eq_some_iff.mp flushed
      by_cases last : sampleOffset + chunkLen ≥ buffLen - 1
      · have final : frame.isFinal = true := by
          rw [(copyFrame_eq copied).1]
          exact decide_eq_true last
        simp only [last, decide_true, if_true] at rest
        rw [flush_done count _ (by omega)] at rest
        cases rest
        exact .pushOnline (wholeChunks_final final)
      · have open' : decide (sampleOffset + chunkLen ≥ buffLen - 1) = false := decide_eq_false last
        simp only [open', Bool.false_eq_true, if_false] at copied rest
        exact (Pushes.pushOnline (copyFrame_whole copied)).trans (inductionHypothesis rest)
    · cases flushed
      exact .none rfl rfl

theorem emitRest_pushes {start stop speechEndI : Int} {asrMode : AsrType}
    (emitted : audio.emitRest start stop speechEndI chunkLen asrMode = some audio') :
    Pushes chunkLen audio audio' := by
  simp only [emitRest] at emitted
  split at emitted
  · split at emitted
    · exact flush_pushes _ emitted
    · cases emitted
      exact .pushOnline (wholeChunks_final rfl)
  · cases emitted
    exact .none rfl rfl

/-- What an entry of an answer can do: a whole segment, the start of one, the end of one, where a
    lost start only changes `speech_start`, or nothing. -/
theorem splitSegment_cases {vadSegment : VadSegment} {asrMode : AsrType}
    (split' : audio.splitSegment vadSegment chunkLen asrMode = some audio') :
    (∃ start stop first last online offline,
      audio.emitOnline start stop first last asrMode = some online ∧
        online.emitOffline start stop first last asrMode = some offline ∧
          audio' = { offline with speechStart := -1, speechOfflineStart := -1 }) ∨
    (vadSegment.1 ≠ -1 ∧ audio.splitStart vadSegment.1 chunkLen asrMode = some audio') ∨
    (∃ begun start offlineStart stop first last offline rest,
      (begun = audio ∨ begun = { audio with speechStart := 0 }) ∧
        begun.emitOffline offlineStart stop first last asrMode = some offline ∧
          offline.emitRest start stop last chunkLen asrMode = some rest ∧
            audio' = { rest with speechStart := -1, speechOfflineStart := -1 }) ∨
    audio' = audio := by
  simp only [splitSegment] at split'
  split at split'
  · simp only [splitWhole, Option.bind_eq_bind, Option.bind_eq_some_iff] at split'
    obtain ⟨online, isOnline, offline, isOffline, same⟩ := split'
    exact .inl ⟨_, _, _, _, online, offline, isOnline, isOffline, (Option.some.inj same).symm⟩
  · split at split'
    · rename_i started
      exact .inr (.inl ⟨started, split'⟩)
    · split at split'
      · simp only [splitEnd, Option.bind_eq_bind, Option.bind_eq_some_iff] at split'
        obtain ⟨offline, isOffline, rest, isRest, same⟩ := split'
        refine .inr (.inr (.inl ⟨_, _, _, _, _, _, offline, rest, ?_, isOffline, isRest,
          (Option.some.inj same).symm⟩))
        split
        · exact .inr rfl
        · exact .inl rfl
      · exact .inr (.inr (.inr (Option.some.inj split').symm))

theorem splitSegment_pushes {vadSegment : VadSegment} {asrMode : AsrType}
    (split' : audio.splitSegment vadSegment chunkLen asrMode = some audio') :
    Pushes chunkLen audio audio' := by
  rcases splitSegment_cases split' with ⟨_, _, _, _, _, _, online, offline, rfl⟩ | ⟨-, start⟩ |
    ⟨_, _, _, _, _, _, _, _, begun, offline, rest, rfl⟩ | rfl
  · obtain ⟨rate, queue⟩ := (emitOnline_pushes online).trans (emitOffline_pushes offline)
    exact ⟨rate, queue⟩
  · obtain ⟨rate, queue⟩ := emitChunk_pushes start
    exact ⟨rate, queue⟩
  · obtain ⟨rate, queue⟩ := (emitOffline_pushes offline).trans (emitRest_pushes rest)
    rcases begun with rfl | rfl
    · exact ⟨rate, queue⟩
    · exact ⟨rate, queue⟩
  · exact .none rfl rfl

theorem splitSegments_pushes {vadSegments : List VadSegment} {asrMode : AsrType}
    (split' : audio.splitSegments chunkLen asrMode vadSegments = some audio') :
    Pushes chunkLen audio audio' := by
  induction vadSegments generalizing audio with
  | nil =>
    cases split'
    exact .none rfl rfl
  | cons vadSegment rest inductionHypothesis =>
    obtain ⟨middle, first, later⟩ := Option.bind_eq_some_iff.mp split'
    exact (splitSegment_pushes first).trans (inductionHypothesis later)

theorem eraseSamples_pushes (erased : audio.eraseSamples = some audio') :
    Pushes chunkLen audio audio' := by
  have front : ∀ {eraseNum : Int}, audio.eraseFront eraseNum = some audio' →
      Pushes chunkLen audio audio' := by
    intro eraseNum erased
    unfold eraseFront at erased
    split at erased
    · cases erased
      exact .none rfl rfl
    · cases erased
  simp only [eraseSamples] at erased
  split at erased
  · split at erased
    · exact front erased
    · cases erased
      exact .none rfl rfl
  · split at erased
    · exact front erased
    · cases erased
      exact .none rfl rfl

/-- What `Split` pushes for the online recognizer. -/
theorem split_pushes {vadSegments : List VadSegment} {asrMode : AsrType}
    (split' : audio.split vadSegments chunkLen asrMode = some audio') :
    Pushes chunkLen audio audio' := by
  unfold split at split'
  split at split'
  · cases split'
  · rename_i frame frameQueue _
    obtain ⟨answered, answer, erased⟩ := Option.bind_eq_some_iff.mp split'
    have pushed : Pushes chunkLen audio answered := by
      simp only [splitAnswer] at answer
      split at answer
      · split at answer
        · obtain ⟨rate, queue⟩ := emitChunk_pushes answer
          exact ⟨rate, queue⟩
        · cases answer
          exact .none rfl rfl
      · obtain ⟨rate, queue⟩ := splitSegments_pushes answer
        exact ⟨rate, queue⟩
    exact pushed.trans (eraseSamples_pushes erased)

end Audio

/-! ## A run -/

/-- Every call cuts chunks of `chunkMs`. -/
def Event.Chunked (chunkMs : Nat) : Event α → Prop
  | .feed call => call.chunkMs = chunkMs
  | .fetchChunck => True
  | .fetchTpass => True

section
variable {chunkMs hertz : Nat} {session next : Session α}

/-- The rate of the recording, and what `asr_online_queue` has received. -/
structure Session.Whole (chunkMs hertz : Nat) (session : Session α) : Prop where
  rate : session.audio.destSampleRate = hertz
  online : WholeChunks ((chunkMs : Int) * ((hertz / 1000 : Nat) : Int)) session.sentOnline

theorem Session.Whole.step (whole : session.Whole chunkMs hertz) {event : Event α}
    (chunked : event.Chunked chunkMs) (stepped : session.step event = some next) :
    next.Whole chunkMs hertz := by
  -- Only a call that feeds samples pushes frames; a fetch moves them from one list to another.
  cases event with
  | feed call =>
    obtain ⟨audio, split, same⟩ := Option.bind_eq_some_iff.mp stepped
    cases same
    have length : (call.chunkMs * (session.audio.loadPcmwavOnline call.samples).segSample : Int) =
        (chunkMs : Int) * ((hertz / 1000 : Nat) : Int) := by
      rw [show call.chunkMs = chunkMs from chunked, ← whole.rate]
      rfl
    rw [length] at split
    obtain ⟨rate, frames, queue, pushed⟩ := Audio.split_pushes split
    refine ⟨rate.trans whole.rate, ?_⟩
    rw [sentOnline, queue, ← List.append_assoc]
    intro frame member
    exact (List.mem_append.mp member).elim (whole.online frame) (pushed frame)
  | fetchChunck =>
    obtain ⟨rate, online⟩ := whole
    cases queue : session.audio.asrOnlineQueue with
    | nil =>
      simp only [Session.step, Audio.fetchChunck, queue, Option.some.injEq] at stepped
      subst stepped
      exact ⟨rate, by simpa [sentOnline, queue] using online⟩
    | cons frame rest =>
      simp only [Session.step, Audio.fetchChunck, queue, Option.some.injEq] at stepped
      subst stepped
      exact ⟨rate, by simpa [sentOnline, queue] using online⟩
  | fetchTpass =>
    obtain ⟨rate, online⟩ := whole
    cases queue : session.audio.asrOfflineQueue with
    | nil =>
      simp only [Session.step, Audio.fetchTpass, queue, Option.some.injEq] at stepped
      subst stepped
      exact ⟨rate, online⟩
    | cons frame rest =>
      simp only [Session.step, Audio.fetchTpass, queue, Option.some.injEq] at stepped
      subst stepped
      exact ⟨rate, online⟩

theorem Session.Whole.run (whole : session.Whole chunkMs hertz) {events : List (Event α)}
    (chunked : ∀ event ∈ events, event.Chunked chunkMs)
    (ran : Library.run Session.step session events = some next) : next.Whole chunkMs hertz := by
  induction events generalizing session with
  | nil =>
    cases ran
    exact whole
  | cons event rest inductionHypothesis =>
    obtain ⟨first, others⟩ := List.forall_mem_cons.mp chunked
    obtain ⟨middle, stepped, later⟩ := run_cons_eq_some.mp ran
    exact inductionHypothesis (whole.step first stepped) others later

/-- A frame that `Split` has pushed for the online recognizer, in a recording at `hertz` with chunks
    of `chunkMs`. -/
def PushedOnline (chunkMs hertz : Nat) (frame : AudioFrame α) : Prop :=
  ∃ (audio : Audio α) (events : List (Event α)) (session : Session α),
    audio.destSampleRate = hertz ∧ audio.asrOnlineQueue = [] ∧
    (∀ event ∈ events, event.Chunked chunkMs) ∧
    run Session.step { audio := audio.resetIndex } events = some session ∧
    frame ∈ session.sentOnline

/-- Such a frame has the samples of one chunk unless it is final. -/
theorem PushedOnline.whole {frame : AudioFrame α} (pushed : PushedOnline chunkMs hertz frame)
    (open' : frame.isFinal = false) :
    ∃ data, frame.data = some data ∧ data.length = chunkMs * (hertz / 1000) := by
  obtain ⟨audio, events, session, rate, empty, chunked, ran, member⟩ := pushed
  have initial : Session.Whole chunkMs hertz ({ audio := audio.resetIndex } : Session α) := by
    refine ⟨rate, ?_⟩
    rw [Session.sentOnline, Audio.resetIndex, empty]
    intro sent member
    cases member
  obtain ⟨data, some, length⟩ := (initial.run chunked ran).online frame member open'
  exact ⟨data, some, by exact_mod_cast length⟩

end

end Asr2Pass.TwoPass
