import Asr2Pass.TwoPass.Split

/-! # The frames that `Split` pushes

While `all_samples` holds the recording from `offset` on, each branch of `Split` pushes frames
that are slices of the recording.  `Contiguous` is a run of such frames without a gap, `Closing`
one whose last frame alone is final.
-/

namespace Asr2Pass.TwoPass

open Library

variable {α : Type}

/-- The frame of `len` samples from `start`. -/
def frameOf (stream : List α) (start len : Int) (isFinal : Bool) (globalStart globalEnd : Int) :
    AudioFrame α where
  len := len
  isFinal := isFinal
  globalStart := globalStart
  globalEnd := globalEnd
  data := slice stream start.toNat (start + len).toNat

/-- The empty frame that closes a segment whose samples have all been emitted. -/
def emptyFrame (globalStart globalEnd : Int) : AudioFrame α where
  len := 0
  isFinal := true
  globalStart := globalStart
  globalEnd := globalEnd

/-- `frames` hold the samples from `first` up to `last`, one after the other. -/
inductive Contiguous (stream : List α) : Int → List (AudioFrame α) → Int → Prop where
  | nil {first : Int} : Contiguous stream first [] first
  | cons {first last : Int} {frame : AudioFrame α} {rest : List (AudioFrame α)} :
      0 ≤ frame.len → frame.data = slice stream first.toNat (first + frame.len).toNat →
      frame.data ≠ none → Contiguous stream (first + frame.len) rest last →
      Contiguous stream first (frame :: rest) last

/-- A run of frames that ends with the only final one. -/
structure Closing (stream : List α) (first : Int) (frames : List (AudioFrame α)) (last : Int) :
    Prop where
  contiguous : Contiguous stream first frames last
  final : ∃ body frame, frames = body ++ [frame] ∧ (∀ other ∈ body, other.isFinal = false) ∧
    frame.isFinal = true

theorem Contiguous.append {stream : List α} {first middle last : Int}
    {frames frames' : List (AudioFrame α)} (left : Contiguous stream first frames middle)
    (right : Contiguous stream middle frames' last) :
    Contiguous stream first (frames ++ frames') last := by
  induction left with
  | nil => exact right
  | cons nonneg data some _ inductionHypothesis =>
    exact .cons nonneg data some (inductionHypothesis right)

theorem Contiguous.le {stream : List α} {first last : Int} {frames : List (AudioFrame α)}
    (contiguous : Contiguous stream first frames last) : first ≤ last := by
  induction contiguous with
  | nil => exact le_refl _
  | cons nonneg _ _ _ inductionHypothesis => omega

/-- What is loaded later does not change the frames. -/
theorem Contiguous.grow {stream : List α} {first last : Int} {frames : List (AudioFrame α)}
    (contiguous : Contiguous stream first frames last) (more : List α) :
    Contiguous (stream ++ more) first frames last := by
  induction contiguous with
  | nil => exact .nil
  | cons nonneg data some _ inductionHypothesis =>
    refine .cons nonneg ?_ some inductionHypothesis
    rw [data]
    rw [data, slice] at some
    split at some
    · rename_i inside
      rw [slice_append inside.2]
    · exact absurd rfl some

theorem Closing.grow {stream : List α} {first last : Int} {frames : List (AudioFrame α)}
    (closing : Closing stream first frames last) (more : List α) :
    Closing (stream ++ more) first frames last :=
  ⟨closing.contiguous.grow more, closing.final⟩

theorem Contiguous.frameOf {stream : List α} {start len : Int} (nonneg : 0 ≤ start)
    (length : 0 ≤ len) (inside : start + len ≤ stream.length) (isFinal : Bool)
    (globalStart globalEnd : Int) :
    Contiguous stream start [TwoPass.frameOf stream start len isFinal globalStart globalEnd]
      (start + len) := by
  refine .cons length rfl ?_ .nil
  rw [TwoPass.frameOf, slice_eq (by omega) (by omega)]
  simp

/-! ## The branches of `Split` -/

namespace Audio

/-- `all_samples` is the recording from `offset` on. -/
structure Holds (audio : Audio α) (stream : List α) : Prop where
  samples : audio.allSamples = stream.drop audio.offset.toNat
  nonneg : 0 ≤ audio.offset
  inside : audio.offset ≤ stream.length

theorem segSample_pos (audio : Audio α) : 0 < audio.segSample := by
  have enough := audio.enough
  rw [segSample]
  omega

/-- A copy inside the samples that are held. -/
theorem Holds.copyFrame {audio : Audio α} {stream : List α} (holds : audio.Holds stream)
    {start len : Int} (held : audio.offset ≤ start) (length : 0 ≤ len)
    (inside : start + len ≤ stream.length) (isFinal : Bool) (globalStart globalEnd : Int) :
    audio.copyFrame start len isFinal globalStart globalEnd =
      some (frameOf stream start len isFinal globalStart globalEnd) := by
  have nonneg := holds.nonneg
  have first : (start - audio.offset).toNat = start.toNat - audio.offset.toNat := by omega
  have last : (start - audio.offset + len).toNat = (start + len).toNat - audio.offset.toNat := by
    omega
  have ordered : start.toNat ≤ (start + len).toNat := by omega
  have inside' : (start + len).toNat ≤ stream.length := by omega
  have sliced := slice_drop (show audio.offset.toNat ≤ start.toNat by omega) ordered inside'
  rw [slice_eq ordered inside'] at sliced
  simp only [Audio.copyFrame, memcpy, holds.samples, first, last, sliced, frameOf,
    slice_eq ordered inside']
  rw [if_pos ⟨by omega, length⟩]
  rfl

theorem Holds.pushOnline {audio : Audio α} {stream : List α} (holds : audio.Holds stream)
    (frame : AudioFrame α) : (audio.pushOnline frame).Holds stream :=
  ⟨holds.samples, holds.nonneg, holds.inside⟩

theorem flush_done (count : Nat) (audio : Audio α) {start buffLen sampleOffset step : Int}
    (done : buffLen ≤ sampleOffset) : audio.flush start buffLen sampleOffset step count = some audio := by
  cases count with
  | zero => rw [flush, if_neg (by omega)]
  | succ count => rw [flush, if_neg (by omega)]

theorem Closing.cons {stream : List α} {first middle last : Int} {frame : AudioFrame α}
    {frames : List (AudioFrame α)} (head : Contiguous stream first [frame] middle)
    (open' : frame.isFinal = false) (closing : Closing stream middle frames last) :
    Closing stream first (frame :: frames) last := by
  obtain ⟨contiguous, body, final, rfl, others, isFinal⟩ := closing
  refine ⟨head.append contiguous, frame :: body, final, rfl, ?_, isFinal⟩
  intro other member
  rcases List.mem_cons.mp member with rfl | old
  · exact open'
  · exact others other old

/-- The loop over the rest of a segment closes it. -/
theorem flush_eq (count : Nat) {audio : Audio α} {stream : List α} (holds : audio.Holds stream)
    {start buffLen sampleOffset step : Int} (held : audio.offset ≤ start)
    (inside : start + buffLen ≤ stream.length) (nonneg : 0 ≤ sampleOffset)
    (before : sampleOffset < buffLen) (positive : 0 < step)
    (enough : buffLen - sampleOffset ≤ count) :
    ∃ frames, audio.flush start buffLen sampleOffset step count =
        some { audio with asrOnlineQueue := audio.asrOnlineQueue ++ frames } ∧
      Closing stream (start + sampleOffset) frames (start + buffLen) := by
  have offset := holds.nonneg
  -- On the turns still allowed: each frame is a `step` long, and the last one takes the rest.
  induction count generalizing audio sampleOffset with
  | zero => omega
  | succ count inductionHypothesis =>
    by_cases final : sampleOffset + step ≥ buffLen - 1
    · have copied := @Holds.copyFrame _ _ _ holds (start + sampleOffset) (buffLen - sampleOffset)
        (by omega) (by omega) (by omega) true ((start + sampleOffset).tdiv audio.segSample)
        ((start + sampleOffset).tdiv audio.segSample + (buffLen - sampleOffset).tdiv audio.segSample)
      have ends : sampleOffset + min (buffLen - sampleOffset) (buffLen - sampleOffset) = buffLen := by
        omega
      refine ⟨[frameOf stream (start + sampleOffset) (buffLen - sampleOffset) true
        ((start + sampleOffset).tdiv audio.segSample)
        ((start + sampleOffset).tdiv audio.segSample +
          (buffLen - sampleOffset).tdiv audio.segSample)], ?_, ?_, [], _, rfl, by simp, rfl⟩
      · rw [flush, if_pos before]
        simp only [final, decide_true, if_true, copied, Option.bind_eq_bind, Option.bind_some, ends]
        exact flush_done count _ (le_refl _)
      · have framed := @Contiguous.frameOf _ stream (start + sampleOffset) (buffLen - sampleOffset)
          (by omega) (by omega) (by omega) true ((start + sampleOffset).tdiv audio.segSample)
          ((start + sampleOffset).tdiv audio.segSample +
            (buffLen - sampleOffset).tdiv audio.segSample)
        rwa [show start + sampleOffset + (buffLen - sampleOffset) = start + buffLen by omega] at framed
    · have copied := @Holds.copyFrame _ _ _ holds (start + sampleOffset) step (by omega) (by omega)
        (by omega) false ((start + sampleOffset).tdiv audio.segSample)
        ((start + sampleOffset).tdiv audio.segSample + step.tdiv audio.segSample)
      have framed := @Contiguous.frameOf _ stream (start + sampleOffset) step (by omega) (by omega)
        (by omega) false ((start + sampleOffset).tdiv audio.segSample)
        ((start + sampleOffset).tdiv audio.segSample + step.tdiv audio.segSample)
      have advance : sampleOffset + min step (buffLen - sampleOffset) = sampleOffset + step := by omega
      obtain ⟨frames, flushed, closing⟩ := inductionHypothesis (holds.pushOnline
          (frameOf stream (start + sampleOffset) step false
            ((start + sampleOffset).tdiv audio.segSample)
            ((start + sampleOffset).tdiv audio.segSample + step.tdiv audio.segSample)))
        held (show 0 ≤ sampleOffset + step by omega) (by omega) (by omega) offset
      rw [← add_assoc] at closing
      refine ⟨_ :: frames, ?_, Closing.cons framed rfl closing⟩
      rw [flush, if_pos before]
      simp only [final, decide_false, Bool.false_eq_true, if_false, copied, Option.bind_eq_bind,
        Option.bind_some, advance, flushed]
      simp [pushOnline]

/-- A chunk of the open segment, or nothing: `moved` ms of it. -/
theorem Holds.emitChunk {audio : Audio α} {stream : List α} (holds : audio.Holds stream)
    (held : audio.offset ≤ audio.speechStart * audio.segSample)
    (inside : audio.speechEnd * audio.segSample ≤ stream.length) (chunkMs : Nat) (asrMode : AsrType) :
    ∃ frames, ∃ moved : Nat, audio.emitChunk (chunkMs * audio.segSample) asrMode = some { audio with
        asrOnlineQueue := audio.asrOnlineQueue ++ frames
        speechStart := audio.speechStart + moved } ∧
      Contiguous stream (audio.speechStart * audio.segSample) frames
        ((audio.speechStart + moved) * audio.segSample) ∧
      ∀ frame ∈ frames, frame.isFinal = false := by
  have seg := audio.segSample_pos
  have offset := holds.nonneg
  have whole : ((chunkMs : Int) * audio.segSample).tdiv audio.segSample = chunkMs :=
    Int.mul_tdiv_cancel _ (by omega)
  have length : (0 : Int) ≤ chunkMs * audio.segSample := Int.mul_nonneg (by omega) (by omega)
  -- A whole chunk has arrived, or nothing is sent.
  by_cases arrived : asrMode ≠ .asrOffline ∧
      audio.speechEnd * audio.segSample - audio.speechStart * audio.segSample ≥
        (chunkMs : Int) * audio.segSample
  · have copied := holds.copyFrame held length (by omega) false audio.speechStart
      (audio.speechStart + chunkMs)
    have framed := @Contiguous.frameOf _ stream (audio.speechStart * audio.segSample)
      (chunkMs * audio.segSample) (by omega) length (by omega) false audio.speechStart
      (audio.speechStart + chunkMs)
    rw [← add_mul] at framed
    refine ⟨_, chunkMs, ?_, framed, by simp [frameOf]⟩
    simp only [Audio.emitChunk]
    rw [if_pos arrived]
    simp only [whole, copied, Option.bind_eq_bind, Option.bind_some]
    rfl
  · refine ⟨[], 0, ?_, ?_, by simp⟩
    · simp only [Audio.emitChunk, arrived, if_false]
      simp
    · rw [Int.natCast_zero, add_zero]
      exact .nil

/-- A frame for the online recogniser, unless it is off. -/
theorem Holds.emitOnline {audio : Audio α} {stream : List α} (holds : audio.Holds stream)
    {start stop : Int} (held : audio.offset ≤ start) (ordered : start ≤ stop)
    (inside : stop ≤ stream.length) (globalStart globalEnd : Int) (asrMode : AsrType) :
    ∃ online, audio.emitOnline start stop globalStart globalEnd asrMode =
        some { audio with asrOnlineQueue := audio.asrOnlineQueue ++ online } ∧
      (asrMode ≠ .asrOffline →
        online = [frameOf stream start (stop - start) true globalStart globalEnd]) := by
  have copied := holds.copyFrame held (show 0 ≤ stop - start by omega) (by omega) true globalStart
    globalEnd
  by_cases off : asrMode = .asrOffline
  · exact ⟨[], by simp [Audio.emitOnline, off], fun other => absurd off other⟩
  · refine ⟨_, ?_, fun _ => rfl⟩
    rw [Audio.emitOnline, if_pos off, copied]
    rfl

/-- A frame for the offline recogniser, unless it is off. -/
theorem Holds.emitOffline {audio : Audio α} {stream : List α} (holds : audio.Holds stream)
    {start stop : Int} (held : audio.offset ≤ start) (ordered : start ≤ stop)
    (inside : stop ≤ stream.length) (globalStart globalEnd : Int) (asrMode : AsrType) :
    ∃ offline, audio.emitOffline start stop globalStart globalEnd asrMode =
        some { audio with asrOfflineQueue := audio.asrOfflineQueue ++ offline } ∧
      (asrMode ≠ .asrOnline →
        offline = [frameOf stream start (stop - start) true globalStart globalEnd]) := by
  have copied := holds.copyFrame held (show 0 ≤ stop - start by omega) (by omega) true globalStart
    globalEnd
  by_cases off : asrMode = .asrOnline
  · exact ⟨[], by simp [Audio.emitOffline, off], fun other => absurd off other⟩
  · refine ⟨_, ?_, fun _ => rfl⟩
    rw [Audio.emitOffline, if_pos off, copied]
    rfl

theorem Holds.emitRest {audio : Audio α} {stream : List α} (holds : audio.Holds stream)
    {start stop : Int} (held : audio.offset ≤ start) (inside : stop ≤ stream.length)
    {chunkLen : Int} (positive : 0 < chunkLen) (speechEndI : Int) (asrMode : AsrType) :
    ∃ online, audio.emitRest start stop speechEndI chunkLen asrMode =
        some { audio with asrOnlineQueue := audio.asrOnlineQueue ++ online } ∧
      (asrMode ≠ .asrOffline → start < stop ∧ Closing stream start online stop ∨
        stop ≤ start ∧ online = [emptyFrame audio.speechStart speechEndI]) := by
  by_cases off : asrMode = .asrOffline
  · exact ⟨[], by simp [Audio.emitRest, off], fun other => absurd off other⟩
  · by_cases more : start < stop
    · obtain ⟨online, flushed, closing⟩ := flush_eq (stop - start).toNat holds held
        (show start + (stop - start) ≤ stream.length by omega) (le_refl 0) (by omega) positive
        (by omega)
      rw [add_zero, add_sub_cancel] at closing
      refine ⟨online, ?_, fun _ => .inl ⟨more, closing⟩⟩
      rw [Audio.emitRest, if_pos off, if_pos (by omega), flushed]
    · refine ⟨_, ?_, fun _ => .inr ⟨by omega, rfl⟩⟩
      rw [Audio.emitRest, if_pos off, if_neg (by omega)]
      rfl

/-- An entry with both ends. -/
theorem Holds.splitWhole {audio : Audio α} {stream : List α} (holds : audio.Holds stream)
    {first last : Int} (held : audio.offset ≤ first * audio.segSample) (ordered : first ≤ last)
    (inside : last * audio.segSample ≤ stream.length) (asrMode : AsrType) :
    ∃ online offline, audio.splitWhole first last asrMode = some { audio with
        asrOnlineQueue := audio.asrOnlineQueue ++ online
        asrOfflineQueue := audio.asrOfflineQueue ++ offline
        speechStart := -1
        speechOfflineStart := -1 } ∧
      (asrMode ≠ .asrOffline → online = [frameOf stream (first * audio.segSample)
        (last * audio.segSample - first * audio.segSample) true first last]) ∧
      (asrMode ≠ .asrOnline → offline = [frameOf stream (first * audio.segSample)
        (last * audio.segSample - first * audio.segSample) true first last]) := by
  have forward : first * audio.segSample ≤ last * (audio.segSample : Int) :=
    mul_le_mul_of_nonneg_right ordered (by omega)
  obtain ⟨online, emitted, onlineFrames⟩ := holds.emitOnline held forward inside first last asrMode
  have holds' : Holds { audio with asrOnlineQueue := audio.asrOnlineQueue ++ online } stream :=
    ⟨holds.samples, holds.nonneg, holds.inside⟩
  obtain ⟨offline, emitted', offlineFrames⟩ :=
    holds'.emitOffline held forward inside first last asrMode
  refine ⟨online, offline, ?_, onlineFrames, offlineFrames⟩
  simp only [Audio.splitWhole, emitted, emitted', Option.bind_eq_bind, Option.bind_some]
  rfl

/-- The end of the open segment. -/
theorem Holds.splitEnd {audio : Audio α} {stream : List α} (holds : audio.Holds stream) {last : Int}
    (started : 0 ≤ audio.speechOfflineStart) (later : audio.speechOfflineStart ≤ audio.speechStart)
    (held : audio.offset ≤ audio.speechOfflineStart * audio.segSample)
    (ordered : audio.speechOfflineStart ≤ last) (inside : last * audio.segSample ≤ stream.length)
    {chunkLen : Int} (positive : 0 < chunkLen) (asrMode : AsrType) :
    ∃ online offline, audio.splitEnd last chunkLen asrMode = some { audio with
        asrOnlineQueue := audio.asrOnlineQueue ++ online
        asrOfflineQueue := audio.asrOfflineQueue ++ offline
        speechStart := -1
        speechOfflineStart := -1 } ∧
      (asrMode ≠ .asrOffline →
        audio.speechStart * audio.segSample < last * audio.segSample ∧
            Closing stream (audio.speechStart * audio.segSample) online (last * audio.segSample) ∨
          last * audio.segSample ≤ audio.speechStart * audio.segSample ∧
            online = [emptyFrame audio.speechStart last]) ∧
      (asrMode ≠ .asrOnline → offline = [frameOf stream (audio.speechOfflineStart * audio.segSample)
        (last * audio.segSample - audio.speechOfflineStart * audio.segSample) true
        audio.speechOfflineStart last]) := by
  have forward : audio.speechOfflineStart * audio.segSample ≤ last * (audio.segSample : Int) :=
    mul_le_mul_of_nonneg_right ordered (by omega)
  have reached : audio.speechOfflineStart * audio.segSample ≤
      audio.speechStart * (audio.segSample : Int) := mul_le_mul_of_nonneg_right later (by omega)
  have valid : ¬ (audio.speechStart = -1 ∨ audio.speechOfflineStart = -1) := by omega
  obtain ⟨offline, emitted, offlineFrames⟩ :=
    holds.emitOffline held forward inside audio.speechOfflineStart last asrMode
  -- The offline frame goes out first and leaves the samples as they are.
  have holds' : Holds { audio with asrOfflineQueue := audio.asrOfflineQueue ++ offline } stream :=
    ⟨holds.samples, holds.nonneg, holds.inside⟩
  obtain ⟨online, emitted', onlineFrames⟩ :=
    @Holds.emitRest _ _ _ holds' (audio.speechStart * audio.segSample) (last * audio.segSample)
      (by simp only; omega) inside chunkLen positive last asrMode
  refine ⟨online, offline, ?_, onlineFrames, offlineFrames⟩
  simp only [Audio.splitEnd, if_neg valid, emitted, emitted', Option.bind_eq_bind, Option.bind_some]
  rfl

end Audio

end Asr2Pass.TwoPass
