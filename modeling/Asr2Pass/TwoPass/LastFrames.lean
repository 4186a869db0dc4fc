import Asr2Pass.TwoPass.OnlineChunks

/-! # The last frames of segments

The frame that ends a segment in `asr_online_queue` has at most one sample more than a chunk, unless
one answer names the whole segment.
-/

namespace Asr2Pass.TwoPass

open Library

variable {α : Type} {chunkLen : Int} {audio audio' audio'' : Audio α}

def AudioFrame.samples (frame : AudioFrame α) : List α := frame.data.getD []

/-- A final frame is no longer than a chunk and a sample, or has a segment that an entry names. -/
def ShortEnds (chunkLen : Int) (seg : Nat) (vadSegments : List VadSegment)
    (frames : List (AudioFrame α)) : Prop :=
  ∀ frame ∈ frames, frame.isFinal = true → (frame.samples.length : Int) ≤ chunkLen + 1 ∨
    ∃ entry ∈ vadSegments, entry.1 ≠ -1 ∧ entry.2 ≠ -1 ∧
      (frame.samples.length : Int) = (entry.2 - entry.1) * seg

/-- `audio'` comes from `audio` by pushing such frames for the online recognizer. -/
structure Closes (chunkLen : Int) (vadSegments : List VadSegment) (audio audio' : Audio α) : Prop where
  rate : audio'.destSampleRate = audio.destSampleRate
  queue : ∃ frames, audio'.asrOnlineQueue = audio.asrOnlineQueue ++ frames ∧
    ShortEnds chunkLen audio.segSample vadSegments frames

variable {vadSegments : List VadSegment}

namespace Closes

theorem none (rate : audio'.destSampleRate = audio.destSampleRate)
    (queue : audio'.asrOnlineQueue = audio.asrOnlineQueue) : Closes chunkLen vadSegments audio audio' :=
  ⟨rate, [], by rw [queue, List.append_nil], nofun⟩

theorem trans (first : Closes chunkLen vadSegments audio audio')
    (second : Closes chunkLen vadSegments audio' audio'') :
    Closes chunkLen vadSegments audio audio'' := by
  obtain ⟨frames, queue, ends⟩ := first.queue
  obtain ⟨frames', queue', ends'⟩ := second.queue
  have seg : audio'.segSample = audio.segSample := by
    rw [Audio.segSample, first.rate, Audio.segSample]
  rw [seg] at ends'
  refine ⟨second.rate.trans first.rate, frames ++ frames', ?_, ?_⟩
  · rw [queue', queue, List.append_assoc]
  · intro frame member
    exact (List.mem_append.mp member).elim (ends frame) (ends' frame)

theorem pushOnline {frame : AudioFrame α}
    (ends : ShortEnds chunkLen audio.segSample vadSegments [frame]) :
    Closes chunkLen vadSegments audio (audio.pushOnline frame) :=
  ⟨rfl, [frame], rfl, ends⟩

theorem mono {more : List VadSegment} (closes : Closes chunkLen vadSegments audio audio')
    (among : vadSegments ⊆ more) : Closes chunkLen more audio audio' := by
  obtain ⟨rate, frames, queue, ends⟩ := closes
  refine ⟨rate, frames, queue, fun frame member final => (ends frame member final).imp_right ?_⟩
  rintro ⟨entry, inside, whole⟩
  exact ⟨entry, among inside, whole⟩

end Closes

namespace Audio

variable {asrMode : AsrType}

theorem copyFrame_samples {start len globalStart globalEnd : Int} {isFinal : Bool}
    {frame : AudioFrame α}
    (copied : audio.copyFrame start len isFinal globalStart globalEnd = some frame) :
    (frame.samples.length : Int) = len := by
  obtain ⟨-, data, some, length⟩ := copyFrame_eq copied
  rw [AudioFrame.samples, some]
  exact length

theorem ends_open {seg : Nat} {frame : AudioFrame α} (open' : frame.isFinal = false) :
    ShortEnds chunkLen seg vadSegments [frame] := by
  intro other member final
  rw [List.mem_singleton.mp member, open'] at final
  cases final

theorem emitChunk_closes (emitted : audio.emitChunk chunkLen asrMode = some audio') :
    Closes chunkLen vadSegments audio audio' := by
  simp only [emitChunk] at emitted
  split at emitted
  · obtain ⟨frame, copied, same⟩ := Option.bind_eq_some_iff.mp emitted
    cases same
    have pushed : Closes chunkLen vadSegments audio (audio.pushOnline frame) :=
      .pushOnline (ends_open (copyFrame_eq copied).1)
    exact ⟨pushed.rate, pushed.queue⟩
  · cases emitted
    exact .none rfl rfl

theorem emitOffline_closes {start stop globalStart globalEnd : Int}
    (emitted : audio.emitOffline start stop globalStart globalEnd asrMode = some audio') :
    Closes chunkLen vadSegments audio audio' := by
  unfold emitOffline at emitted
  split at emitted
  · obtain ⟨frame, copied, rfl⟩ := Option.map_eq_some_iff.mp emitted
    exact .none rfl rfl
  · cases emitted
    exact .none rfl rfl

/-- The loop leaves a chunk and a sample at most for the last frame. -/
theorem flush_closes (count : Nat) {start buffLen sampleOffset : Int}
    (flushed : audio.flush start buffLen sampleOffset chunkLen count = some audio') :
    Closes chunkLen vadSegments audio audio' := by
  induction count generalizing audio sampleOffset with
  | zero =>
    unfold flush at flushed
    split at flushed
    · cases flushed
    · cases flushed
      exact .none rfl rfl
  | succ count inductionHypothesis =>
    unfold flush at flushed
    split at flushed
    · obtain ⟨frame, copied, rest⟩ := Option.bind_eq_some_iff.mp flushed
      by_cases last : sampleOffset + chunkLen ≥ buffLen - 1
      · simp only [last, decide_true, if_true] at copied rest
        rw [flush_done count _ (by omega)] at rest
        cases rest
        refine .pushOnline fun other member _ => .inl ?_
        rw [List.mem_singleton.mp member, copyFrame_samples copied]
        omega
      · have open' : decide (sampleOffset + chunkLen ≥ buffLen - 1) = false := decide_eq_false last
        simp only [open', Bool.false_eq_true, if_false] at copied rest
        exact (Closes.pushOnline (ends_open (copyFrame_eq copied).1)).trans (inductionHypothesis rest)
    · cases flushed
      exact .none rfl rfl

theorem emitRest_closes (nonneg : 0 ≤ chunkLen) {start stop speechEndI : Int}
    (emitted : audio.emitRest start stop speechEndI chunkLen asrMode = some audio') :
    Closes chunkLen vadSegments audio audio' := by
  simp only [emitRest] at emitted
  split at emitted
  · split at emitted
    · exact flush_closes _ emitted
    · cases emitted
      refine .pushOnline fun other member _ => .inl ?_
      rw [List.mem_singleton.mp member]
      change (0 : Int) ≤ _
      omega
  · cases emitted
    exact .none rfl rfl

/-- An entry with a start and an end makes one frame of the whole segment. -/
theorem splitWhole_closes {vadSegment : VadSegment} (first : vadSegment.1 ≠ -1)
    (last : vadSegment.2 ≠ -1)
    (whole : audio.splitWhole vadSegment.1 vadSegment.2 asrMode = some audio') :
    Closes chunkLen [vadSegment] audio audio' := by
  simp only [splitWhole, Option.bind_eq_bind, Option.bind_eq_some_iff] at whole
  obtain ⟨online, isOnline, offline, isOffline, same⟩ := whole
  cases same
  have pushed : Closes chunkLen [vadSegment] audio online := by
    unfold emitOnline at isOnline
    split at isOnline
    · obtain ⟨frame, copied, rfl⟩ := Option.map_eq_some_iff.mp isOnline
      refine .pushOnline fun other member _ => .inr ?_
      refine ⟨vadSegment, List.mem_singleton_self _, first, last, ?_⟩
      rw [List.mem_singleton.mp member, copyFrame_samples copied, Int.sub_mul]
    · cases isOnline
      exact .none rfl rfl
  obtain ⟨rate, queue⟩ := pushed.trans (emitOffline_closes isOffline)
  exact ⟨rate, queue⟩

theorem splitSegment_closes (nonneg : 0 ≤ chunkLen) {vadSegment : VadSegment}
    (split' : audio.splitSegment vadSegment chunkLen asrMode = some audio') :
    Closes chunkLen [vadSegment] audio audio' := by
  simp only [splitSegment] at split'
  split at split'
  case isTrue both => exact splitWhole_closes both.1 both.2 split'
  case isFalse =>
    split at split'
    case isTrue =>
      obtain ⟨rate, queue⟩ := emitChunk_closes split'
      exact ⟨rate, queue⟩
    case isFalse =>
      split at split'
      case isTrue =>
        simp only [splitEnd, Option.bind_eq_bind, Option.bind_eq_some_iff] at split'
        obtain ⟨offline, isOffline, rest, isRest, same⟩ := split'
        cases same
        have begun : Closes chunkLen [vadSegment] audio
            (if audio.speechStart = -1 ∨ audio.speechOfflineStart = -1 then
              { audio with speechStart := 0 } else audio) := by
          split
          · exact .none rfl rfl
          · exact .none rfl rfl
        obtain ⟨rate, queue⟩ :=
          (begun.trans (emitOffline_closes isOffline)).trans (emitRest_closes nonneg isRest)
        exact ⟨rate, queue⟩
      case isFalse =>
        cases split'
        exact .none rfl rfl

theorem splitSegments_closes (nonneg : 0 ≤ chunkLen)
    (split' : audio.splitSegments chunkLen asrMode vadSegments = some audio') :
    Closes chunkLen vadSegments audio audio' := by
  induction vadSegments generalizing audio with
  | nil =>
    cases split'
    exact .none rfl rfl
  | cons vadSegment rest inductionHypothesis =>
    obtain ⟨middle, first, later⟩ := Option.bind_eq_some_iff.mp split'
    have head := (splitSegment_closes nonneg first).mono
      (show [vadSegment] ⊆ vadSegment :: rest by simp)
    exact head.trans ((inductionHypothesis later).mono (List.subset_cons_self _ _))

theorem eraseSamples_queue (erased : audio.eraseSamples = some audio') :
    audio'.destSampleRate = audio.destSampleRate ∧
      audio'.asrOnlineQueue = audio.asrOnlineQueue := by
  have front : ∀ {eraseNum : Int}, audio.eraseFront eraseNum = some audio' →
      audio'.destSampleRate = audio.destSampleRate ∧
        audio'.asrOnlineQueue = audio.asrOnlineQueue := by
    intro eraseNum erased
    unfold eraseFront at erased
    split at erased
    · cases erased
      exact ⟨rfl, rfl⟩
    · cases erased
  simp only [eraseSamples] at erased
  split at erased <;> split at erased
  · exact front erased
  · cases erased
    exact ⟨rfl, rfl⟩
  · exact front erased
  · cases erased
    exact ⟨rfl, rfl⟩

/-- How `Split` ends segments for the online recognizer. -/
theorem split_closes (nonneg : 0 ≤ chunkLen)
    (split' : audio.split vadSegments chunkLen asrMode = some audio') :
    Closes chunkLen vadSegments audio audio' := by
  unfold split at split'
  split at split'
  case h_1 => cases split'
  case h_2 frame frameQueue _ =>
    obtain ⟨answered, answer, erased⟩ := Option.bind_eq_some_iff.mp split'
    have pushed : Closes chunkLen vadSegments audio answered := by
      simp only [splitAnswer] at answer
      split at answer
      · split at answer
        · obtain ⟨rate, queue⟩ := emitChunk_closes answer
          exact ⟨rate, queue⟩
        · cases answer
          exact .none rfl rfl
      · obtain ⟨rate, queue⟩ := splitSegments_closes nonneg answer
        exact ⟨rate, queue⟩
    obtain ⟨rate, queue⟩ := eraseSamples_queue erased
    exact pushed.trans (.none rate queue)

end Audio

end Asr2Pass.TwoPass
