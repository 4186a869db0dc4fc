import Asr2Pass.TwoPass.Groups

/-! # What a call of `Split` keeps

`Consistent` ties the four positions to the recording and to what the detector has said.  Each
branch of `Split` keeps it and sends the queues what `Emitted` asks for; `Advances` says both of a
piece of `Split`, and its pieces compose.
-/

namespace Asr2Pass.TwoPass

open Library

variable {α : Type}

/-- The state of `Audio` after the samples of `stream`, in or after a call before which there were
    `before` samples. -/
structure Consistent (audio : Audio α) (stream : List α) (before : Nat) (vad : VadState) :
    Prop where
  holds : audio.Holds stream
  behind : audio.offset ≤ (before - 2 * audio.destSampleRate : Nat)
  speechEnd_nonneg : 0 ≤ audio.speechEnd
  speechEnd_inside : audio.speechEnd * audio.segSample ≤ stream.length
  last_nonneg : 0 ≤ vad.last
  last_inside : vad.last * audio.segSample ≤ stream.length
  spans : SpansInside stream audio.segSample vad.closed
  idle : vad.opened = none → audio.speechStart = -1 ∧ audio.speechOfflineStart = -1
  speaking : ∀ first, vad.opened = some first → audio.speechOfflineStart = first ∧ 0 ≤ first ∧
    first ≤ audio.speechStart ∧ first ≤ vad.last ∧ audio.offset ≤ first * audio.segSample

/-- The queues do not count. -/
theorem Consistent.queues {audio : Audio α} {stream : List α} {before : Nat} {vad : VadState}
    (consistent : Consistent audio stream before vad) (online offline : List (AudioFrame α)) :
    Consistent { audio with asrOnlineQueue := online, asrOfflineQueue := offline } stream before
      vad :=
  ⟨⟨consistent.holds.samples, consistent.holds.nonneg, consistent.holds.inside⟩, consistent.behind,
    consistent.speechEnd_nonneg, consistent.speechEnd_inside, consistent.last_nonneg,
    consistent.last_inside, consistent.spans, consistent.idle, consistent.speaking⟩

/-- From `audio` to `audio'` the detector's state went from `vad` to `vad'`. -/
structure Advances (stream : List α) (before : Nat) (asrMode : AsrType) (audio : Audio α)
    (vad : VadState) (audio' : Audio α) (vad' : VadState) : Prop where
  consistent : Consistent audio' stream before vad'
  rate : audio'.destSampleRate = audio.destSampleRate
  frameQueue : audio'.frameQueue = audio.frameQueue
  pushed : ∃ online offline, audio'.asrOnlineQueue = audio.asrOnlineQueue ++ online ∧
    audio'.asrOfflineQueue = audio.asrOfflineQueue ++ offline ∧
    (asrMode = .asrTwoPass → ∀ sent sent',
      Emitted stream audio.segSample vad audio.speechStart sent sent' →
      Emitted stream audio.segSample vad' audio'.speechStart (sent ++ online) (sent' ++ offline))

theorem Advances.refl {stream : List α} {before : Nat} {asrMode : AsrType} {audio : Audio α}
    {vad : VadState} (consistent : Consistent audio stream before vad) :
    Advances stream before asrMode audio vad audio vad := by
  refine ⟨consistent, rfl, rfl, [], [], by simp, by simp, fun _ sent sent' emitted => ?_⟩
  rwa [List.append_nil, List.append_nil]

theorem Advances.trans {stream : List α} {before : Nat} {asrMode : AsrType}
    {audio audio' audio'' : Audio α} {vad vad' vad'' : VadState}
    (first : Advances stream before asrMode audio vad audio' vad')
    (second : Advances stream before asrMode audio' vad' audio'' vad'') :
    Advances stream before asrMode audio vad audio'' vad'' := by
  obtain ⟨-, rate, frameQueue, online, offline, onlineQueue, offlineQueue, emitted⟩ := first
  obtain ⟨consistent, rate', frameQueue', online', offline', onlineQueue', offlineQueue', emitted'⟩ :=
    second
  have seg : audio'.segSample = audio.segSample := by rw [Audio.segSample, rate, Audio.segSample]
  refine ⟨consistent, rate'.trans rate, frameQueue'.trans frameQueue, online ++ online',
    offline ++ offline', ?_, ?_, ?_⟩
  · rw [onlineQueue', onlineQueue, List.append_assoc]
  · rw [offlineQueue', offlineQueue, List.append_assoc]
  · intro twoPass sent sent' before'
    have later := emitted' twoPass _ _ (seg.symm ▸ emitted twoPass sent sent' before')
    rwa [seg, List.append_assoc, List.append_assoc] at later

section
variable {audio : Audio α} {stream : List α} {before : Nat} {vad : VadState}

/-! ## The branches -/

theorem Consistent.emitChunk (consistent : Consistent audio stream before vad) {first : Int}
    (opened : vad.opened = some first) (chunkMs : Nat) (asrMode : AsrType) :
    ∃ audio', audio.emitChunk (chunkMs * audio.segSample) asrMode = some audio' ∧
      Advances stream before asrMode audio vad audio' vad := by
  obtain ⟨holds, behind, endNonneg, endInside, lastNonneg, lastInside, spans, -, speaking⟩ :=
    consistent
  obtain ⟨offlineStart, nonneg, later, named, held⟩ := speaking first opened
  have reached : first * audio.segSample ≤ audio.speechStart * (audio.segSample : Int) :=
    mul_le_mul_of_nonneg_right later (by omega)
  obtain ⟨frames, moved, emitted, contiguous, notFinal⟩ :=
    holds.emitChunk (show audio.offset ≤ audio.speechStart * audio.segSample by omega) endInside
      chunkMs asrMode
  refine ⟨_, emitted, ?_, rfl, rfl, frames, [], rfl, (List.append_nil _).symm, ?_⟩
  · refine ⟨⟨holds.samples, holds.nonneg, holds.inside⟩, behind, endNonneg, endInside, lastNonneg,
      lastInside, spans, fun idle => ?_, fun first' same => ?_⟩
    · rw [opened] at idle
      cases idle
    · rw [opened] at same
      cases same
      exact ⟨offlineStart, nonneg, by simp only; omega, named, held⟩
  · intro _ sent sent' done
    rw [List.append_nil]
    exact done.chunk contiguous notFinal opened

/-- What the protocol says of a start, in samples that are held. -/
theorem Consistent.held (consistent : Consistent audio stream before vad) {first : Int}
    (later : vad.last ≤ first) (recent : before ≤ first * audio.segSample + 2 * audio.destSampleRate) :
    0 ≤ first ∧ audio.offset ≤ first * audio.segSample := by
  have nonneg : 0 ≤ first := le_trans consistent.last_nonneg later
  have product : 0 ≤ first * (audio.segSample : Int) := Int.mul_nonneg nonneg (by omega)
  have behind := consistent.behind
  omega

theorem Consistent.splitWhole (consistent : Consistent audio stream before vad) {first last : Int}
    (idle : vad.opened = none) (later : vad.last ≤ first) (ordered : first ≤ last)
    (inside : last * audio.segSample ≤ stream.length)
    (recent : before ≤ first * audio.segSample + 2 * audio.destSampleRate) (asrMode : AsrType) :
    ∃ audio', audio.splitWhole first last asrMode = some audio' ∧
      Advances stream before asrMode audio vad audio'
        { opened := none, last, closed := vad.closed ++ [(first, last)] } := by
  obtain ⟨nonneg, held⟩ := consistent.held later recent
  obtain ⟨online, offline, split, onlineFrames, offlineFrames⟩ :=
    consistent.holds.splitWhole held ordered inside asrMode
  refine ⟨_, split, ?_, rfl, rfl, online, offline, rfl, rfl, ?_⟩
  · refine ⟨⟨consistent.holds.samples, consistent.holds.nonneg, consistent.holds.inside⟩,
      consistent.behind, consistent.speechEnd_nonneg, consistent.speechEnd_inside,
      le_trans nonneg ordered, inside, ?_, fun _ => ⟨rfl, rfl⟩, by simp⟩
    exact consistent.spans.snoc nonneg ordered inside
  · rintro rfl sent sent' done
    rw [onlineFrames (by decide), offlineFrames (by decide)]
    exact done.whole idle nonneg ordered inside _

theorem Consistent.splitStart (consistent : Consistent audio stream before vad) {first : Int}
    (idle : vad.opened = none) (later : vad.last ≤ first)
    (inside : first * audio.segSample ≤ stream.length)
    (recent : before ≤ first * audio.segSample + 2 * audio.destSampleRate) (chunkMs : Nat)
    (asrMode : AsrType) :
    ∃ audio', audio.splitStart first (chunkMs * audio.segSample) asrMode = some audio' ∧
      Advances stream before asrMode audio vad audio'
        { opened := some first, last := first, closed := vad.closed } := by
  obtain ⟨nonneg, held⟩ := consistent.held later recent
  let started : Audio α := { audio with speechStart := first, speechOfflineStart := first }
  have opening : Advances stream before asrMode audio vad started
      { opened := some first, last := first, closed := vad.closed } := by
    refine ⟨⟨⟨consistent.holds.samples, consistent.holds.nonneg, consistent.holds.inside⟩,
      consistent.behind, consistent.speechEnd_nonneg, consistent.speechEnd_inside, nonneg, inside,
      consistent.spans, by simp, ?_⟩, rfl, rfl, [], [], by simp [started], by simp [started], ?_⟩
    · intro first' same
      cases same
      exact ⟨rfl, nonneg, le_refl _, le_refl _, held⟩
    · intro _ sent sent' done
      rw [List.append_nil, List.append_nil]
      exact done.start idle first first
  obtain ⟨audio', emitted, advances⟩ := opening.consistent.emitChunk rfl chunkMs asrMode
  exact ⟨audio', emitted, opening.trans advances⟩

theorem Consistent.splitEnd (consistent : Consistent audio stream before vad) {first last : Int}
    (opened : vad.opened = some first) (later : vad.last ≤ last)
    (inside : last * audio.segSample ≤ stream.length) {chunkLen : Int} (positive : 0 < chunkLen)
    (asrMode : AsrType) :
    ∃ audio', audio.splitEnd last chunkLen asrMode = some audio' ∧
      Advances stream before asrMode audio vad audio'
        { opened := none, last, closed := vad.closed ++ [(first, last)] } := by
  obtain ⟨rfl, nonneg, reached, named, held⟩ := consistent.speaking first opened
  have ordered : audio.speechOfflineStart ≤ last := le_trans named later
  obtain ⟨online, offline, split, onlineFrames, offlineFrames⟩ :=
    consistent.holds.splitEnd nonneg reached held ordered inside positive asrMode
  refine ⟨_, split, ?_, rfl, rfl, online, offline, rfl, rfl, ?_⟩
  · refine ⟨⟨consistent.holds.samples, consistent.holds.nonneg, consistent.holds.inside⟩,
      consistent.behind, consistent.speechEnd_nonneg, consistent.speechEnd_inside,
      le_trans nonneg ordered, inside, ?_, fun _ => ⟨rfl, rfl⟩, by simp⟩
    exact consistent.spans.snoc nonneg ordered inside
  · rintro rfl sent sent' done
    rw [offlineFrames (by decide)]
    exact done.stop opened (onlineFrames (by decide)) _

/-! ## An answer -/

theorem Consistent.splitSegment (consistent : Consistent audio stream before vad)
    {entry : VadSegment} {vad' : VadState}
    (protocol : VadEntry audio.segSample audio.destSampleRate before stream.length vad entry vad')
    {chunkMs : Nat} (positive : 0 < chunkMs) (asrMode : AsrType) :
    ∃ audio', audio.splitSegment entry (chunkMs * audio.segSample) asrMode = some audio' ∧
      Advances stream before asrMode audio vad audio' vad' := by
  have lastNonneg := consistent.last_nonneg
  have chunkLen : (0 : Int) < chunkMs * audio.segSample :=
    Int.mul_pos (by omega) (by exact_mod_cast audio.segSample_pos)
  cases protocol with
  | @whole first last idle later ordered inside recent =>
    obtain ⟨audio', split, advances⟩ :=
      consistent.splitWhole idle later ordered inside recent asrMode
    refine ⟨audio', ?_, advances⟩
    simp only [Audio.splitSegment]
    rwa [if_pos (by omega)]
  | @start first idle later inside recent =>
    obtain ⟨audio', split, advances⟩ :=
      consistent.splitStart idle later inside recent chunkMs asrMode
    refine ⟨audio', ?_, advances⟩
    simp only [Audio.splitSegment]
    rwa [if_neg (by omega), if_pos (by omega)]
  | @stop first last opened later inside =>
    obtain ⟨audio', split, advances⟩ := consistent.splitEnd opened later inside chunkLen asrMode
    refine ⟨audio', ?_, advances⟩
    simp only [Audio.splitSegment]
    rwa [if_neg (by omega), if_neg (by omega), if_pos (by omega)]

theorem Consistent.splitSegments {entries : List VadSegment} {vad' : VadState}
    (consistent : Consistent audio stream before vad)
    (protocol : VadAnswer audio.segSample audio.destSampleRate before stream.length vad entries vad')
    {chunkMs : Nat} (positive : 0 < chunkMs) (asrMode : AsrType) :
    ∃ audio', audio.splitSegments (chunkMs * audio.segSample) asrMode entries = some audio' ∧
      Advances stream before asrMode audio vad audio' vad' := by
  induction entries generalizing audio vad with
  | nil =>
    cases protocol
    exact ⟨audio, rfl, .refl consistent⟩
  | cons entry rest inductionHypothesis =>
    cases protocol with
    | @cons _ between _ _ _ head tail =>
      obtain ⟨audio', split, advances⟩ := consistent.splitSegment head positive asrMode
      have seg : audio'.segSample = audio.segSample := by
        rw [Audio.segSample, advances.rate, Audio.segSample]
      rw [← seg, ← advances.rate] at tail
      obtain ⟨audio'', split', advances'⟩ := inductionHypothesis advances.consistent tail
      refine ⟨audio'', ?_, advances.trans advances'⟩
      rw [seg] at split'
      rw [Audio.splitSegments, split]
      exact split'

end

end Asr2Pass.TwoPass
