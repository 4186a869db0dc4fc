import Asr2Pass.Library.Roundings
import Asr2Pass.TwoPass.OnlineChunks

/-! # Recordings with any answers

What `Split` keeps whatever the detector answers and whatever `chunk_len` is, as long as no copy
leaves `all_samples`.  The clock `speech_end` rounds down every chunk, so it stays behind as soon as
the remainders make a whole millisecond.
-/

namespace Asr2Pass.TwoPass

open Library

variable {α : Type} {chunkLen : Int} {asrMode : AsrType} {audio audio' audio'' : Audio α}
  {chunks : List (List α)}

/-- The states of `Audio` after chunks since `ResetIndex`. -/
inductive Reached : Audio α → List (List α) → Prop where
  | start {audio : Audio α} : audio.frameQueue = [] → Reached audio.resetIndex []
  | split {audio audio' : Audio α} {chunks : List (List α)} {samples : List α}
      {vadSegments : List VadSegment} {chunkLen : Int} {asrMode : AsrType} :
      Reached audio chunks →
      (audio.loadPcmwavOnline samples).split vadSegments chunkLen asrMode = some audio' →
      Reached audio' (chunks ++ [samples])
  | fetchChunck {audio : Audio α} {chunks : List (List α)} :
      Reached audio chunks → Reached audio.fetchChunck.2 chunks
  | fetchTpass {audio : Audio α} {chunks : List (List α)} :
      Reached audio chunks → Reached audio.fetchTpass.2 chunks
  | resetIndex {audio : Audio α} {chunks : List (List α)} :
      Reached audio chunks → Reached audio.resetIndex []

/-! ## What the branches leave alone -/

/-- From `audio` to `audio'` only the queues and the positions of the segment have changed. -/
structure Leaves (audio audio' : Audio α) : Prop where
  rate : audio'.destSampleRate = audio.destSampleRate
  frameQueue : audio'.frameQueue = audio.frameQueue
  allSamples : audio'.allSamples = audio.allSamples
  offset : audio'.offset = audio.offset
  speechEnd : audio'.speechEnd = audio.speechEnd

theorem Leaves.refl (audio : Audio α) : Leaves audio audio := ⟨rfl, rfl, rfl, rfl, rfl⟩

theorem Leaves.trans (first : Leaves audio audio') (second : Leaves audio' audio'') :
    Leaves audio audio'' :=
  ⟨second.rate.trans first.rate, second.frameQueue.trans first.frameQueue,
    second.allSamples.trans first.allSamples, second.offset.trans first.offset,
    second.speechEnd.trans first.speechEnd⟩

namespace Audio

/-- A copy begins inside `all_samples` and has no negative length. -/
theorem copyFrame_inside {start len globalStart globalEnd : Int} {isFinal : Bool}
    {frame : AudioFrame α}
    (copied : audio.copyFrame start len isFinal globalStart globalEnd = some frame) :
    audio.offset ≤ start ∧ 0 ≤ len := by
  obtain ⟨data, read, -⟩ := Option.bind_eq_some_iff.mp copied
  unfold memcpy at read
  split at read
  · rename_i inside
    exact ⟨by omega, inside.2⟩
  · cases read

theorem emitChunk_leaves (emitted : audio.emitChunk chunkLen asrMode = some audio') :
    Leaves audio audio' ∧ audio'.speechOfflineStart = audio.speechOfflineStart ∧
      (0 ≤ audio.offset → audio.speechStart ≠ -1 → audio'.speechStart ≠ -1) := by
  simp only [emitChunk] at emitted
  split at emitted
  · obtain ⟨frame, copied, same⟩ := Option.bind_eq_some_iff.mp emitted
    cases same
    refine ⟨⟨rfl, rfl, rfl, rfl, rfl⟩, rfl, fun nonneg _ => ?_⟩
    -- What has been copied begins in the recording, so the position is not negative.
    obtain ⟨inside, length⟩ := copyFrame_inside copied
    have seg := audio.segSample_pos
    have start : 0 ≤ audio.speechStart := by
      by_contra negative
      have product : audio.speechStart * audio.segSample < 0 :=
        Int.mul_neg_of_neg_of_pos (by omega) (by omega)
      omega
    have step := Int.tdiv_nonneg length (show (0 : Int) ≤ audio.segSample by omega)
    simp only
    omega
  · cases emitted
    exact ⟨.refl _, rfl, fun _ => id⟩

theorem emitOnline_leaves {start stop globalStart globalEnd : Int}
    (emitted : audio.emitOnline start stop globalStart globalEnd asrMode = some audio') :
    Leaves audio audio' := by
  unfold emitOnline at emitted
  split at emitted
  · obtain ⟨frame, -, rfl⟩ := Option.map_eq_some_iff.mp emitted
    exact ⟨rfl, rfl, rfl, rfl, rfl⟩
  · cases emitted
    exact .refl _

theorem emitOffline_leaves {start stop globalStart globalEnd : Int}
    (emitted : audio.emitOffline start stop globalStart globalEnd asrMode = some audio') :
    Leaves audio audio' := by
  unfold emitOffline at emitted
  split at emitted
  · obtain ⟨frame, -, rfl⟩ := Option.map_eq_some_iff.mp emitted
    exact ⟨rfl, rfl, rfl, rfl, rfl⟩
  · cases emitted
    exact .refl _

theorem flush_leaves (count : Nat) {start buffLen sampleOffset step : Int}
    (flushed : audio.flush start buffLen sampleOffset step count = some audio') :
    Leaves audio audio' := by
  induction count generalizing audio sampleOffset step with
  | zero =>
    unfold flush at flushed
    split at flushed
    · cases flushed
    · cases flushed
      exact .refl _
  | succ count inductionHypothesis =>
    unfold flush at flushed
    split at flushed
    · obtain ⟨frame, -, rest⟩ := Option.bind_eq_some_iff.mp flushed
      have later := inductionHypothesis rest
      exact ⟨later.rate, later.frameQueue, later.allSamples, later.offset, later.speechEnd⟩
    · cases flushed
      exact .refl _

theorem emitRest_leaves {start stop speechEndI : Int}
    (emitted : audio.emitRest start stop speechEndI chunkLen asrMode = some audio') :
    Leaves audio audio' := by
  simp only [emitRest] at emitted
  split at emitted
  · split at emitted
    · exact flush_leaves _ emitted
    · cases emitted
      exact ⟨rfl, rfl, rfl, rfl, rfl⟩
  · cases emitted
    exact .refl _

/-- Without a start for the online recognizer there is none for the offline one. -/
def Idle (audio : Audio α) : Prop := audio.speechStart = -1 → audio.speechOfflineStart = -1

theorem splitSegment_leaves {vadSegment : VadSegment} (nonneg : 0 ≤ audio.offset) (idle : audio.Idle)
    (split' : audio.splitSegment vadSegment chunkLen asrMode = some audio') :
    Leaves audio audio' ∧ audio'.Idle := by
  rcases splitSegment_cases split' with ⟨_, _, _, _, _, _, online, offline, rfl⟩ | ⟨started, start⟩ |
    ⟨begun, _, _, _, _, _, _, _, isBegun, offline, rest, rfl⟩ | rfl
  · obtain ⟨rate, frameQueue, allSamples, offset, speechEnd⟩ :=
      (emitOnline_leaves online).trans (emitOffline_leaves offline)
    exact ⟨⟨rate, frameQueue, allSamples, offset, speechEnd⟩, fun _ => rfl⟩
  · obtain ⟨⟨rate, frameQueue, allSamples, offset, speechEnd⟩, -, begins⟩ := emitChunk_leaves start
    refine ⟨⟨rate, frameQueue, allSamples, offset, speechEnd⟩, fun none => ?_⟩
    exact absurd none (begins nonneg started)
  · have repaired : Leaves audio begun := by
      rcases isBegun with rfl | rfl
      · exact .refl _
      · exact ⟨rfl, rfl, rfl, rfl, rfl⟩
    obtain ⟨rate, frameQueue, allSamples, offset, speechEnd⟩ :=
      (repaired.trans (emitOffline_leaves offline)).trans (emitRest_leaves rest)
    exact ⟨⟨rate, frameQueue, allSamples, offset, speechEnd⟩, fun _ => rfl⟩
  · exact ⟨.refl _, idle⟩

theorem splitSegments_leaves {vadSegments : List VadSegment} (nonneg : 0 ≤ audio.offset)
    (idle : audio.Idle)
    (split' : audio.splitSegments chunkLen asrMode vadSegments = some audio') :
    Leaves audio audio' ∧ audio'.Idle := by
  induction vadSegments generalizing audio with
  | nil =>
    cases split'
    exact ⟨.refl _, idle⟩
  | cons vadSegment rest inductionHypothesis =>
    obtain ⟨middle, first, later⟩ := Option.bind_eq_some_iff.mp split'
    obtain ⟨leaves, idle'⟩ := splitSegment_leaves nonneg idle first
    obtain ⟨leaves', idle''⟩ := inductionHypothesis (by rwa [leaves.offset]) idle' later
    exact ⟨leaves.trans leaves', idle''⟩

theorem splitAnswer_leaves {vadSegments : List VadSegment} (nonneg : 0 ≤ audio.offset)
    (idle : audio.Idle) (answer : audio.splitAnswer vadSegments chunkLen asrMode = some audio') :
    Leaves audio audio' ∧ audio'.Idle := by
  simp only [splitAnswer] at answer
  split at answer
  · split at answer
    · rename_i started
      obtain ⟨leaves, -, start⟩ := emitChunk_leaves answer
      exact ⟨leaves, fun none => absurd none (start nonneg started)⟩
    · cases answer
      exact ⟨.refl _, idle⟩
  · exact splitSegments_leaves nonneg idle answer

end Audio

/-! ## What every call keeps -/

/-- `all_samples` ends with the last sample, the clock has added up the chunks, and no chunk waits. -/
structure Kept (audio : Audio α) (chunks : List (List α)) : Prop where
  holds : audio.Holds chunks.flatten
  paired : audio.frameQueue = []
  clock : audio.speechEnd = ((chunks.map List.length).map (· / audio.segSample)).sum
  idle : audio.Idle

theorem Leaves.kept (leaves : Leaves audio audio') (idle : audio'.Idle) (kept : Kept audio chunks) :
    Kept audio' chunks := by
  obtain ⟨rate, frameQueue, allSamples, offset, speechEnd⟩ := leaves
  obtain ⟨⟨held, nonneg, inside⟩, paired, clock, -⟩ := kept
  have seg : audio'.segSample = audio.segSample := by rw [Audio.segSample, rate, Audio.segSample]
  exact ⟨⟨by rw [allSamples, offset, held], by rwa [offset], by rwa [offset]⟩,
    frameQueue.trans paired, by rw [speechEnd, seg, clock], idle⟩

theorem Kept.counted (kept : Kept audio chunks) (samples : List α) :
    Kept (audio.counted samples) (chunks ++ [samples]) := by
  obtain ⟨⟨held, nonneg, inside⟩, paired, clock, idle⟩ := kept
  refine ⟨⟨?_, nonneg, ?_⟩, rfl, ?_, idle⟩
  · change audio.allSamples ++ samples = (chunks ++ [samples]).flatten.drop audio.offset.toNat
    rw [held, List.flatten_append, List.flatten_singleton, List.drop_append_of_le_length (by omega)]
  · change audio.offset ≤ _
    rw [List.flatten_append, List.length_append]
    omega
  · change audio.speechEnd + (samples.length : Int).tdiv audio.segSample =
      ((((chunks ++ [samples]).map List.length).map (· / audio.segSample)).sum : Nat)
    rw [clock, Int.tdiv_eq_ediv_of_nonneg (by omega), List.map_append, List.map_append,
      List.sum_append]
    simp

theorem Kept.eraseFront (kept : Kept audio chunks) {eraseNum : Int}
    (erased : audio.eraseFront eraseNum = some audio') : Kept audio' chunks := by
  unfold Audio.eraseFront at erased
  split at erased
  · rename_i inside
    have length : audio.allSamples.length = chunks.flatten.length - audio.offset.toNat := by
      rw [kept.holds.samples, List.length_drop]
    have within := kept.holds.inside
    have nonneg := kept.holds.nonneg
    obtain ⟨same, holds⟩ := @Audio.Holds.eraseFront _ _ _ kept.holds eraseNum inside.1 (by omega)
    cases erased
    exact ⟨holds, kept.paired, kept.clock, kept.idle⟩
  · cases erased

theorem Kept.eraseSamples (kept : Kept audio chunks) (erased : audio.eraseSamples = some audio') :
    Kept audio' chunks := by
  simp only [Audio.eraseSamples] at erased
  split at erased
  · split at erased
    · exact kept.eraseFront erased
    · cases erased
      exact kept
  · split at erased
    · exact kept.eraseFront erased
    · cases erased
      exact kept

theorem Kept.split (kept : Kept audio chunks) {samples : List α} {vadSegments : List VadSegment}
    (split : (audio.loadPcmwavOnline samples).split vadSegments chunkLen asrMode = some audio') :
    Kept audio' (chunks ++ [samples]) := by
  rw [audio.split_eq kept.paired] at split
  obtain ⟨answered, answer, erased⟩ := Option.bind_eq_some_iff.mp split
  have counted := kept.counted samples
  obtain ⟨leaves, idle⟩ := Audio.splitAnswer_leaves counted.holds.nonneg counted.idle answer
  exact (leaves.kept idle counted).eraseSamples erased

theorem Kept.initial (paired : audio.frameQueue = []) : Kept audio.resetIndex [] :=
  ⟨(Consistent.initial audio).holds, paired, rfl, fun _ => rfl⟩

theorem Reached.kept (reached : Reached audio chunks) : Kept audio chunks := by
  induction reached with
  | start paired => exact .initial paired
  | split _ split kept => exact kept.split split
  | @fetchChunck audio chunks _ kept =>
    obtain ⟨⟨held, nonneg, inside⟩, paired, clock, idle⟩ := kept
    unfold Audio.fetchChunck
    split
    · exact ⟨⟨held, nonneg, inside⟩, paired, clock, idle⟩
    · exact ⟨⟨held, nonneg, inside⟩, paired, clock, idle⟩
  | @fetchTpass audio chunks _ kept =>
    obtain ⟨⟨held, nonneg, inside⟩, paired, clock, idle⟩ := kept
    unfold Audio.fetchTpass
    split
    · exact ⟨⟨held, nonneg, inside⟩, paired, clock, idle⟩
    · exact ⟨⟨held, nonneg, inside⟩, paired, clock, idle⟩
  | resetIndex _ kept => exact .initial kept.paired

/-! ## The clock -/

/-- The clock is that of the samples received exactly while the remainders of the chunks do not make
    a millisecond. -/
theorem speechEnd_eq_iff (reached : Reached audio chunks) :
    audio.speechEnd = (chunks.flatten.length / audio.segSample : Nat) ↔
      ((chunks.map List.length).map (· % audio.segSample)).sum < audio.segSample := by
  rw [reached.kept.clock, List.length_flatten, ← sum_div_eq_iff audio.segSample_pos, Int.natCast_inj]

/-- Three milliseconds in one chunk. -/
theorem speechEnd_eq_iff_whole : ∃ audio : Audio Nat, Reached audio [List.range 48] ∧
    audio.speechEnd = ([List.range 48].flatten.length / audio.segSample : Nat) := by
  have split : (newAudio.resetIndex.loadPcmwavOnline (List.range 48)).split [] 32 .asrTwoPass =
      some { newAudio with
        speechData := List.range 48, allSamples := List.range 48, speechEnd := 3 } := rfl
  have reached : Reached _ [List.range 48] := .split (.start rfl) split
  exact ⟨_, reached, (speechEnd_eq_iff reached).mpr (by decide)⟩

/-- Three milliseconds in two chunks are two on the clock. -/
theorem not_speechEnd_eq_halves : ∃ audio : Audio Nat,
    Reached audio [List.range 24, List.range 24] ∧ audio.segSample = 16 ∧ audio.speechEnd = 2 ∧
      [List.range 24, List.range 24].flatten.length / 16 = 3 := by
  have first : (newAudio.resetIndex.loadPcmwavOnline (List.range 24)).split [] 32 .asrTwoPass =
      some { newAudio with
        speechData := List.range 24, allSamples := List.range 24, speechEnd := 1 } := rfl
  have second : (Audio.loadPcmwavOnline { newAudio with
        speechData := List.range 24, allSamples := List.range 24, speechEnd := 1 }
      (List.range 24)).split [] 32 .asrTwoPass =
      some { newAudio with
        speechData := List.range 24, allSamples := List.range 24 ++ List.range 24
        speechEnd := 2 } := rfl
  exact ⟨_, .split (.split (.start rfl) first) second, rfl, rfl, rfl⟩

end Asr2Pass.TwoPass
