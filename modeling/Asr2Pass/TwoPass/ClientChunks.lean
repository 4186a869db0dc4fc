import Asr2Pass.TwoPass.OnlineChunks

/-! # Recordings at a chunk length of the client

`chunk_len` comes from the client's `chunk_size` and is any number here.  While it is a positive
number of milliseconds, every recording whose answers keep the protocol goes through `Split`.
-/

namespace Asr2Pass.TwoPass

open Library

variable {α : Type}

/-- A chunk of samples with the detector's answer to it, or the end of a recording. -/
inductive Feed (α : Type) where
  | split (samples : List α) (vadSegments : List VadSegment) (asrMode : AsrType)
  | resetIndex

def Feed.step (chunkLen : Int) (audio : Audio α) : Feed α → Option (Audio α)
  | .split samples vadSegments asrMode =>
    (audio.loadPcmwavOnline samples).split vadSegments chunkLen asrMode
  | .resetIndex => some audio.resetIndex

/-- The detector keeps its protocol in each recording, after `count` samples of the first one. -/
inductive Feed.Conform (seg destSampleRate : Nat) : Nat → VadState → List (Feed α) → Prop where
  | nil {count : Nat} {vad : VadState} : Conform seg destSampleRate count vad []
  | split {count : Nat} {vad vad' : VadState} {samples : List α} {vadSegments : List VadSegment}
      {asrMode : AsrType} {rest : List (Feed α)} :
      VadAnswer seg destSampleRate count (count + samples.length) vad vadSegments vad' →
      Conform seg destSampleRate (count + samples.length) vad' rest →
      Conform seg destSampleRate count vad (.split samples vadSegments asrMode :: rest)
  | resetIndex {count : Nat} {vad : VadState} {rest : List (Feed α)} :
      Conform seg destSampleRate 0 {} rest →
      Conform seg destSampleRate count vad (.resetIndex :: rest)

/-- Every copy of a positive number of milliseconds stays inside `all_samples`, and what is pushed
    before a final frame has that length. -/
theorem Feed.run_pushes {chunkMs : Nat} (positive : 0 < chunkMs) {feeds : List (Feed α)}
    {audio : Audio α} {stream : List α} {vad : VadState}
    (consistent : Consistent audio stream stream.length vad) (paired : audio.frameQueue = [])
    (conform : Conform audio.segSample audio.destSampleRate stream.length vad feeds) :
    ∃ after, run (Feed.step (chunkMs * audio.segSample)) audio feeds = some after ∧
      Pushes (chunkMs * audio.segSample) audio after := by
  induction feeds generalizing audio stream vad with
  | nil => exact ⟨audio, rfl, .none rfl rfl⟩
  | cons feed rest inductionHypothesis =>
    cases conform with
    | @split _ _ vad' samples vadSegments asrMode _ protocol conform =>
      obtain ⟨audio', split, consistent', advances⟩ := @Consistent.split _ _ _ _ consistent paired
        { samples, vadSegments, chunkMs, positive, asrMode } vad' protocol
      have seg : audio'.segSample = audio.segSample := by
        rw [Audio.segSample, advances.rate, Audio.segSample]
      rw [← List.length_append, ← seg, ← advances.rate] at conform
      obtain ⟨after, ran, pushes⟩ :=
        inductionHypothesis consistent' (advances.frameQueue.trans paired) conform
      rw [seg] at ran pushes
      refine ⟨after, run_cons_eq_some.mpr ⟨audio', split, ran⟩, ?_⟩
      have pushed : Pushes (chunkMs * audio.segSample) audio audio' := by
        obtain ⟨rate, queue⟩ := Audio.split_pushes split
        exact ⟨rate, queue⟩
      exact pushed.trans pushes
    | resetIndex conform =>
      obtain ⟨after, ran, pushes⟩ := inductionHypothesis (Consistent.initial audio) paired conform
      refine ⟨after, run_cons_eq_some.mpr ⟨audio.resetIndex, rfl, ran⟩, ?_⟩
      have reset : Pushes (chunkMs * audio.segSample) audio audio.resetIndex := .none rfl rfl
      exact reset.trans pushes

/-! ## Two short recordings -/

/-- An `Audio` at 16 kHz. -/
def audio16000 : Audio α where
  destSampleRate := 16000
  enough := enough_16000

/-- A recording that opens a segment with its first sample. -/
def openFeed [Zero α] (ms : Nat) : Feed α :=
  .split (List.replicate (16 * ms) 0) [(0, -1)] .asrOnline

theorem openFeed_conform [Zero α] (ms : Nat) :
    Feed.Conform 16 16000 0 {} [(openFeed ms : Feed α)] :=
  .split (.cons (.start rfl (by simp) (by simp) (by simp)) .nil) .nil

/-- A recording that is one segment. -/
def wholeFeed [Zero α] (ms : Nat) : Feed α :=
  .split (List.replicate (16 * ms) 0) [(0, ms)] .asrOnline

theorem wholeFeed_conform [Zero α] (ms : Nat) :
    Feed.Conform 16 16000 0 {} [(wholeFeed ms : Feed α)] := by
  refine .split (.cons (.whole rfl (by simp) (by simp) ?_ (by simp)) .nil) .nil
  rw [List.length_replicate]
  push_cast
  omega

section
variable [Zero α] (ms : Nat)

/-- A chunk of a negative length is copied as soon as a segment is open. -/
theorem openFeed_negative {chunkLen : Int} (negative : chunkLen < 0) :
    run (Feed.step chunkLen) (audio16000 : Audio α).resetIndex [openFeed 0] = none := by
  have reached : chunkLen ≤ 0 := by omega
  have outside : ¬ 0 ≤ chunkLen := by omega
  simp [Feed.step, openFeed, Audio.split, Audio.loadPcmwavOnline, Audio.resetIndex, audio16000,
    Audio.splitAnswer, Audio.splitSegments, Audio.splitSegment, Audio.splitStart, Audio.emitChunk,
    Audio.copyFrame, Audio.memcpy, Audio.segSample, reached, outside]

/-- A whole chunk of the segment is pushed at once. -/
theorem openFeed_pushes :
    ∃ after, run (Feed.step (16 * ms)) (audio16000 : Audio α).resetIndex [openFeed ms] =
        some after ∧
      after.asrOnlineQueue.map (fun frame => (frame.data.getD [], frame.isFinal)) =
        [(List.replicate (16 * ms) 0, false)] := by
  have length : ((ms : Int) * 16).toNat = ms * 16 := by omega
  simp [Feed.step, openFeed, Audio.split, Audio.loadPcmwavOnline, Audio.resetIndex, audio16000,
    Audio.splitAnswer, Audio.splitSegments, Audio.splitSegment, Audio.splitStart, Audio.emitChunk,
    Audio.copyFrame, Audio.memcpy, Audio.segSample, Audio.pushOnline, Audio.eraseSamples, mul_comm,
    length, slice]

omit [Zero α] in
/-- Nothing is erased in the first two seconds. -/
theorem Audio.eraseSamples_short {audio : Audio α} (closed : audio.speechOfflineStart = -1)
    (short : audio.allSamples.length ≤ audio.destSampleRate * 2) :
    audio.eraseSamples = some audio := by
  rw [eraseSamples, if_pos closed, if_neg (by omega)]

/-- A whole segment is pushed as a final frame, whatever the length of a chunk. -/
theorem wholeFeed_pushes (chunkLen : Int) (short : ms ≤ 2000) :
    ∃ after, run (Feed.step chunkLen) (audio16000 : Audio α).resetIndex [wholeFeed ms] =
        some after ∧
      after.asrOnlineQueue.map (fun frame => (frame.data.getD [], frame.isFinal)) =
        [(List.replicate (16 * ms) 0, true)] := by
  have length : ((ms : Int) * 16).toNat = 16 * ms := by omega
  have split : Feed.step chunkLen (audio16000 : Audio α).resetIndex (wholeFeed ms) =
      some { audio16000 with
        speechData := List.replicate (16 * ms) 0
        asrOnlineQueue := [{
          len := ms * 16
          isFinal := true
          globalEnd := ms
          data := some (List.replicate (16 * ms) 0) }]
        allSamples := List.replicate (16 * ms) 0
        speechEnd := ms } := by
    rw [wholeFeed, Feed.step, Audio.split_eq _ rfl, Option.bind_eq_some_iff]
    refine ⟨_, ?_, Audio.eraseSamples_short rfl ?_⟩
    · simp [Audio.counted, Audio.loadPcmwavOnline, Audio.resetIndex, audio16000, Audio.splitAnswer,
        Audio.splitSegments, Audio.splitSegment, Audio.splitWhole, Audio.emitOnline,
        Audio.emitOffline, Audio.copyFrame, Audio.memcpy, Audio.segSample, Audio.pushOnline, slice,
        length]
    · rw [List.length_replicate]
      change _ ≤ 16000 * 2
      omega
  exact ⟨_, run_cons_eq_some.mpr ⟨_, split, rfl⟩, rfl⟩

end

end Asr2Pass.TwoPass
