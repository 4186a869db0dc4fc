import Asr2Pass.TwoPass.Reached

/-! # An end without a start

`Split` logs an end of a segment that has not been started and sets the start for the online
recognizer to 0.  The start for the offline recognizer stays -1, which is a millisecond before the
recording, and the samples from 0 on may have been erased.
-/

namespace Asr2Pass.TwoPass

open Library

variable {α : Type} {chunkLen : Int} {asrMode : AsrType} {audio audio' middle : Audio α}
  {chunks : List (List α)}

/-- The frames hold the samples from `first` up to `last`, one after the other. -/
structure Carries (stream : List α) (first last : Int) (frames : List (AudioFrame α)) : Prop where
  some : frames ≠ []
  nonneg : 0 ≤ first
  ordered : first ≤ last
  data : frames.flatMap (·.data.getD []) = (stream.take last.toNat).drop first.toNat

theorem Contiguous.data {stream : List α} {first last : Int} {frames : List (AudioFrame α)}
    (contiguous : Contiguous stream first frames last) (nonneg : 0 ≤ first) :
    frames.flatMap (·.data.getD []) = (stream.take last.toNat).drop first.toNat := by
  induction contiguous with
  | nil => simp
  | @cons first last frame rest length isSlice some later inductionHypothesis =>
    have inside : (first + frame.len).toNat ≤ stream.length := by
      rw [isSlice, slice] at some
      split at some
      · rename_i within
        exact within.2
      · exact absurd rfl some
    have ordered : first.toNat ≤ (first + frame.len).toNat := by omega
    have behind := later.le
    have whole : (stream.take last.toNat).take (first + frame.len).toNat =
        stream.take (first + frame.len).toNat := by
      rw [List.take_take, Nat.min_eq_left (by omega)]
    rw [List.flatMap_cons, inductionHypothesis (by omega), isSlice, slice_eq ordered inside,
      Option.getD_some, ← whole, List.drop_take,
      show (first + frame.len).toNat = first.toNat + ((first + frame.len).toNat - first.toNat) by omega,
      Nat.add_sub_cancel_left, List.drop_take_append_drop]

theorem Closing.carries {stream : List α} {first last : Int} {frames : List (AudioFrame α)}
    (closing : Closing stream first frames last) (nonneg : 0 ≤ first) :
    Carries stream first last frames := by
  obtain ⟨body, frame, rfl, -⟩ := closing.final
  exact ⟨by simp, nonneg, closing.contiguous.le, closing.contiguous.data nonneg⟩

namespace Audio

theorem splitSegments_append (vadSegments vadSegments' : List VadSegment) :
    audio.splitSegments chunkLen asrMode (vadSegments ++ vadSegments') =
      (audio.splitSegments chunkLen asrMode vadSegments).bind fun middle =>
        middle.splitSegments chunkLen asrMode vadSegments' := by
  induction vadSegments generalizing audio with
  | nil => rfl
  | cons vadSegment rest inductionHypothesis =>
    rw [List.cons_append, splitSegments, splitSegments]
    cases audio.splitSegment vadSegment chunkLen asrMode with
    | none => rfl
    | some next => exact inductionHypothesis

/-- Between segments there is always enough to erase. -/
theorem eraseSamples_idle (idle : audio.speechOfflineStart = -1) :
    ∃ audio', audio.eraseSamples = some audio' ∧ audio'.asrOnlineQueue = audio.asrOnlineQueue ∧
      audio'.asrOfflineQueue = audio.asrOfflineQueue := by
  simp only [eraseSamples, if_pos idle]
  split
  · rename_i long
    rw [eraseFront, if_pos (by omega)]
    exact ⟨_, rfl, rfl, rfl⟩
  · exact ⟨audio, rfl, rfl, rfl⟩

/-- A loop whose step goes nowhere does not end. -/
theorem flush_stuck (count : Nat) {start buffLen sampleOffset step : Int}
    (before : sampleOffset < buffLen) (still : step ≤ 0) (more : sampleOffset + step < buffLen - 1) :
    audio.flush start buffLen sampleOffset step count = none := by
  induction count generalizing audio with
  | zero => rw [flush, if_pos before]
  | succ count inductionHypothesis =>
    have open' : decide (sampleOffset + step ≥ buffLen - 1) = false := decide_eq_false (by omega)
    rw [flush, if_pos before]
    simp only [open', Bool.false_eq_true, if_false]
    cases copied : audio.copyFrame (start + sampleOffset) step false
      ((start + sampleOffset).tdiv audio.segSample)
      ((start + sampleOffset).tdiv audio.segSample + step.tdiv audio.segSample) with
    | none => rfl
    | some frame =>
      have length := (copyFrame_inside copied).2
      have same : sampleOffset + min step (buffLen - sampleOffset) = sampleOffset := by omega
      rw [Option.bind_eq_bind, Option.bind_some, same]
      exact inductionHypothesis

/-- A loop that begins before what is held. -/
theorem flush_erased {count : Nat} {start buffLen sampleOffset step : Int}
    (before : sampleOffset < buffLen) (erased : start + sampleOffset < audio.offset) :
    audio.flush start buffLen sampleOffset step count = none := by
  cases count with
  | zero => rw [flush, if_pos before]
  | succ count =>
    rw [flush, if_pos before]
    simp only [Option.bind_eq_bind, Option.bind_eq_none_iff]
    intro frame copied
    have inside := (copyFrame_inside copied).1
    omega

/-- A loop whose first frame is the last one. -/
theorem flush_once {stream : List α} (holds : audio.Holds stream) {count : Nat}
    {start buffLen step : Int} (held : audio.offset ≤ start) (inside : start + buffLen ≤ stream.length)
    (before : 0 < buffLen) (final : buffLen ≤ step + 1) (enough : 0 < count) :
    ∃ frame, audio.flush start buffLen 0 step count = some (audio.pushOnline frame) ∧
      Closing stream start [frame] (start + buffLen) := by
  obtain ⟨count, rfl⟩ : ∃ rest, count = rest + 1 := ⟨count - 1, by omega⟩
  have offset := holds.nonneg
  have isFinal : decide (step ≥ buffLen - 1) = true := decide_eq_true (by omega)
  have copied := holds.copyFrame held (show 0 ≤ buffLen by omega) inside true
    (start.tdiv audio.segSample) (start.tdiv audio.segSample + buffLen.tdiv audio.segSample)
  have framed := @Contiguous.frameOf _ stream start buffLen (by omega) (by omega) inside true
    (start.tdiv audio.segSample) (start.tdiv audio.segSample + buffLen.tdiv audio.segSample)
  refine ⟨_, ?_, framed, [], _, rfl, by simp, rfl⟩
  rw [flush, if_pos before]
  simp only [isFinal, if_true, add_zero, sub_zero, copied, Option.bind_eq_bind, Option.bind_some,
    min_self, zero_add]
  exact flush_done count _ (le_refl _)

/-- What the copies of the rest of a segment need. -/
def Readable (audio : Audio α) (last step : Int) : Prop :=
  last = 0 ∨ audio.offset = 0 ∧ (0 < step ∨ last ≤ step + 1)

theorem emitRest_returns {last speechEndI : Int} (nonneg : 0 ≤ last) (offset : 0 ≤ audio.offset)
    (served : asrMode ≠ .asrOffline)
    (emitted : audio.emitRest 0 last speechEndI chunkLen asrMode = some audio') :
    audio.Readable last chunkLen := by
  by_contra wrong
  obtain ⟨some, wrong⟩ := not_or.mp wrong
  rw [emitRest, if_pos served, sub_zero, if_pos (by omega)] at emitted
  have none : audio.flush 0 last 0 chunkLen last.toNat = none := by
    by_cases erased : audio.offset = 0
    · exact flush_stuck _ (by omega) (by omega) (by omega)
    · exact flush_erased (by omega) (by omega)
  rw [none] at emitted
  cases emitted

/-- The samples from the first one on go to the online recognizer. -/
theorem emitRest_carries {stream : List α} (holds : audio.Holds stream) {last speechEndI : Int}
    (nonneg : 0 ≤ last) (inside : last ≤ stream.length) (served : asrMode ≠ .asrOffline)
    (readable : audio.Readable last chunkLen) :
    ∃ online, audio.emitRest 0 last speechEndI chunkLen asrMode =
        some { audio with asrOnlineQueue := audio.asrOnlineQueue ++ online } ∧
      Carries stream 0 last online := by
  rw [emitRest, if_pos served, sub_zero]
  by_cases none : last = 0
  · rw [if_neg (by omega), none]
    exact ⟨_, rfl, List.cons_ne_nil _ _, le_refl 0, le_refl 0, by simp⟩
  · have positive : 0 < last := by omega
    obtain ⟨held, steps⟩ := readable.resolve_left none
    rw [if_pos positive]
    cases steps with
    | inl forward =>
      obtain ⟨frames, flushed, closing⟩ := flush_eq last.toNat holds
        (show audio.offset ≤ 0 by omega) (show 0 + last ≤ stream.length by omega) (le_refl 0) positive
        forward (by omega)
      rw [add_zero, zero_add] at closing
      exact ⟨frames, flushed, closing.carries (le_refl 0)⟩
    | inr final =>
      obtain ⟨frame, flushed, closing⟩ := flush_once holds (show audio.offset ≤ 0 by omega)
        (show 0 + last ≤ stream.length by omega) positive final (show 0 < last.toNat by omega)
      rw [zero_add] at closing
      exact ⟨[frame], flushed, closing.carries (le_refl 0)⟩

end Audio

/-! ## The answer -/

/-- `Split` returns on an answer that ends with `[-1, last]`, and each queue that the mode serves
    receives the samples of one range up to `last`.  `middle` is the state before that entry. -/
def EndsSafely (audio : Audio α) (stream samples : List α) (earlier : List VadSegment)
    (middle : Audio α) (last chunkLen : Int) (asrMode : AsrType) : Prop :=
  ∃ audio' first, (audio.loadPcmwavOnline samples).split (earlier ++ [(-1, last)]) chunkLen asrMode =
      some audio' ∧
    (asrMode ≠ .asrOffline → ∃ online, audio'.asrOnlineQueue = middle.asrOnlineQueue ++ online ∧
      Carries stream first (last * audio.segSample) online) ∧
    (asrMode ≠ .asrOnline → ∃ offline, audio'.asrOfflineQueue = middle.asrOfflineQueue ++ offline ∧
      Carries stream first (last * audio.segSample) offline)

/-- What `Split` makes of the state: the online recognizer's start is set. -/
def Audio.repaired (middle : Audio α) : Audio α := { middle with speechStart := 0 }

theorem Audio.splitEnd_repair (closed : middle.speechStart = -1 ∨ middle.speechOfflineStart = -1)
    (idle : middle.Idle) (last : Int) :
    middle.splitEnd last chunkLen asrMode =
      (middle.repaired.emitOffline (-middle.segSample) (last * middle.segSample) (-1) last
        asrMode).bind fun audio =>
          (audio.emitRest 0 (last * middle.segSample) last chunkLen asrMode).map fun audio =>
            { audio with speechStart := -1, speechOfflineStart := -1 } := by
  have repaired : (if middle.speechStart = -1 ∨ middle.speechOfflineStart = -1 then
      { middle with speechStart := 0 } else middle) = middle.repaired := if_pos closed
  have offline : middle.repaired.speechOfflineStart = -1 := closed.elim idle id
  have online : middle.repaired.speechStart = 0 := rfl
  simp only [Audio.splitEnd, repaired, offline, online, Int.neg_one_mul, Int.zero_mul,
    Option.bind_eq_bind, Option.map_eq_bind]
  rfl

/-- The offline recognizer's copy begins a millisecond before the recording. -/
theorem Audio.emitOffline_repair (nonneg : 0 ≤ middle.offset) (served : asrMode ≠ .asrOnline)
    (last : Int) :
    middle.repaired.emitOffline (-middle.segSample) (last * middle.segSample) (-1) last asrMode =
      none := by
  rw [Audio.emitOffline, if_pos served, Option.map_eq_none_iff, Option.eq_none_iff_forall_ne_some]
  intro frame copied
  have inside := (Audio.copyFrame_inside copied).1
  have seg := middle.segSample_pos
  rw [show middle.repaired.offset = middle.offset from rfl] at inside
  omega

/-- `Split` repairs an end without a start exactly where only the online recognizer is served, and
    there is nothing to copy or nothing has been erased yet (and the step of the loop goes on). -/
theorem endsSafely_iff (reached : Reached audio chunks) {samples : List α}
    {earlier : List VadSegment}
    (before : (audio.counted samples).splitSegments chunkLen asrMode earlier = some middle)
    (closed : middle.speechStart = -1 ∨ middle.speechOfflineStart = -1) {last : Int}
    (nonneg : 0 ≤ last)
    (inside : last * audio.segSample ≤ (chunks ++ [samples]).flatten.length) :
    EndsSafely audio (chunks ++ [samples]).flatten samples earlier middle last chunkLen asrMode ↔
      asrMode = .asrOnline ∧
        (last = 0 ∨
          audio.offset = 0 ∧ (0 < chunkLen ∨ last * audio.segSample ≤ chunkLen + 1)) := by
  have counted := reached.kept.counted samples
  obtain ⟨leaves, idle⟩ := Audio.splitSegments_leaves counted.holds.nonneg counted.idle before
  have kept := leaves.kept idle counted
  have seg : middle.segSample = audio.segSample := by
    rw [Audio.segSample, leaves.rate]
    rfl
  have offset : middle.offset = audio.offset := leaves.offset
  have split : (audio.loadPcmwavOnline samples).split (earlier ++ [(-1, last)]) chunkLen asrMode =
      (middle.splitEnd last chunkLen asrMode).bind Audio.eraseSamples := by
    have isEnd : middle.splitSegments chunkLen asrMode [(-1, last)] =
        middle.splitEnd last chunkLen asrMode := by
      simp [Audio.splitSegments, Audio.splitSegment, show last ≠ -1 by omega]
    have some : earlier ++ [((-1, last) : VadSegment)] ≠ [] := by simp
    rw [audio.split_eq reached.kept.paired, Audio.splitAnswer, if_neg some,
      Audio.splitSegments_append, before, Option.bind_some, isEnd]
  rw [middle.splitEnd_repair closed idle] at split
  by_cases served : asrMode = .asrOnline
  · have online : asrMode ≠ .asrOffline := by simp [served]
    have unsent : middle.repaired.emitOffline (-middle.segSample) (last * middle.segSample) (-1)
        last asrMode = some middle.repaired := by
      rw [Audio.emitOffline, if_neg (not_not_intro served)]
    rw [unsent, Option.bind_some, seg] at split
    have holds : middle.repaired.Holds (chunks ++ [samples]).flatten :=
      ⟨kept.holds.samples, kept.holds.nonneg, kept.holds.inside⟩
    have stop : 0 ≤ last * (audio.segSample : Int) := Int.mul_nonneg nonneg (by omega)
    have readable : middle.repaired.Readable (last * audio.segSample) chunkLen ↔ last = 0 ∨
        audio.offset = 0 ∧ (0 < chunkLen ∨ last * audio.segSample ≤ chunkLen + 1) := by
      have positive := audio.segSample_pos
      rw [Audio.Readable, Int.mul_eq_zero, or_iff_left (show ¬ (audio.segSample : Int) = 0 by omega)]
      rw [show middle.repaired.offset = middle.offset from rfl, offset]
    rw [and_iff_right served, ← readable]
    constructor
    · rintro ⟨audio', first, returns, -⟩
      rw [split] at returns
      obtain ⟨closing, rest, -⟩ := Option.bind_eq_some_iff.mp returns
      obtain ⟨emitted, rest, -⟩ := Option.map_eq_some_iff.mp rest
      exact Audio.emitRest_returns stop holds.nonneg online rest
    · intro reads
      obtain ⟨frames, rest, carries⟩ := @Audio.emitRest_carries _ chunkLen asrMode _ _ holds _ last stop
        inside online reads
      rw [rest, Option.map_some, Option.bind_some] at split
      obtain ⟨audio', erased, queue, -⟩ := @Audio.eraseSamples_idle _ {
        middle.repaired with
          asrOnlineQueue := middle.repaired.asrOnlineQueue ++ frames
          speechStart := -1
          speechOfflineStart := -1 } rfl
      exact ⟨audio', 0, split.trans erased, fun _ => ⟨frames, queue, carries⟩,
        fun offline => absurd served offline⟩
  · rw [Audio.emitOffline_repair kept.holds.nonneg served] at split
    constructor
    · rintro ⟨audio', first, returns, -⟩
      rw [split] at returns
      cases returns
    · exact fun both => absurd both.1 served

/-- Two milliseconds, from the start of a recording, for the online recognizer alone. -/
theorem endsSafely_iff_online : EndsSafely newAudio.resetIndex (List.range 32) (List.range 32) []
    (newAudio.resetIndex.counted (List.range 32)) 2 32 .asrOnline :=
  (@endsSafely_iff _ 32 .asrOnline newAudio.resetIndex _ [] (.start rfl) (List.range 32) [] rfl
    (.inl rfl) 2 (by decide) (by decide)).mpr ⟨rfl, .inr ⟨rfl, .inl (by decide)⟩⟩

/-- The same for both recognizers reads before the recording. -/
theorem not_endsSafely_twoPass :
    Reached newAudio.resetIndex [] ∧ newAudio.resetIndex.speechStart = -1 ∧
      (newAudio.resetIndex.loadPcmwavOnline (List.range 32)).split [(-1, 2)] 32 .asrTwoPass = none :=
  ⟨.start rfl, rfl, rfl⟩

end Asr2Pass.TwoPass
