import Asr2Pass.TwoPass.Frames
import Mathlib.Data.List.Forall2

/-! # The detector's protocol, and what each queue receives under it

`VadState` is what the answers have said so far.  `Emitted` is what the two queues have received
for it in two-pass mode: for every closed segment one frame offline and one group of frames
online, and for the open segment the chunks emitted so far.
-/

namespace Asr2Pass.TwoPass

open Library

variable {α : Type}

/-! ## The protocol -/

/-- The open start, the last time an answer named, and the closed segments. -/
structure VadState where
  opened : Option Int := none
  last : Int := 0
  closed : List VadSegment := []
deriving DecidableEq, Repr

/-- An entry of an answer to a chunk that began after `before` of the `received` samples: times do
    not decrease and are within the samples received, a start lies at most two seconds before the
    chunk. -/
inductive VadEntry (seg destSampleRate before received : Nat) :
    VadState → VadSegment → VadState → Prop where
  | whole {vad : VadState} {first last : Int} : vad.opened = none → vad.last ≤ first → first ≤ last →
      last * seg ≤ received → before ≤ first * seg + 2 * destSampleRate →
      VadEntry seg destSampleRate before received vad (first, last)
        { opened := none, last, closed := vad.closed ++ [(first, last)] }
  | start {vad : VadState} {first : Int} : vad.opened = none → vad.last ≤ first →
      first * seg ≤ received → before ≤ first * seg + 2 * destSampleRate →
      VadEntry seg destSampleRate before received vad (first, -1)
        { opened := some first, last := first, closed := vad.closed }
  | stop {vad : VadState} {first last : Int} : vad.opened = some first → vad.last ≤ last →
      last * seg ≤ received →
      VadEntry seg destSampleRate before received vad (-1, last)
        { opened := none, last, closed := vad.closed ++ [(first, last)] }

inductive VadAnswer (seg destSampleRate before received : Nat) :
    VadState → List VadSegment → VadState → Prop where
  | nil {vad : VadState} : VadAnswer seg destSampleRate before received vad [] vad
  | cons {vad vad' vad'' : VadState} {entry : VadSegment} {rest : List VadSegment} :
      VadEntry seg destSampleRate before received vad entry vad' →
      VadAnswer seg destSampleRate before received vad' rest vad'' →
      VadAnswer seg destSampleRate before received vad (entry :: rest) vad''

/-! ## What the queues receive -/

/-- The frame for a closed segment in `asr_offline_queue`. -/
def offlineFrame (stream : List α) (seg : Nat) (span : VadSegment) : AudioFrame α :=
  frameOf stream (span.1 * seg) (span.2 * seg - span.1 * seg) true span.1 span.2

/-- The frames for a closed segment in `asr_online_queue`: without a gap from its start on, the
    last one final and no other, up to its end, or past it with an empty final frame. -/
def OnlineGroup (stream : List α) (seg : Nat) (span : VadSegment) (group : List (AudioFrame α)) :
    Prop :=
  ∃ body final reached, group = body ++ [final] ∧ (∀ frame ∈ body, frame.isFinal = false) ∧
    final.isFinal = true ∧ Contiguous stream (span.1 * seg) body reached ∧
    (Contiguous stream reached [final] (span.2 * seg) ∨
      span.2 * seg ≤ reached ∧ final.len = 0 ∧ final.data = none)

theorem OnlineGroup.grow {stream : List α} {seg : Nat} {span : VadSegment}
    {group : List (AudioFrame α)} (onlineGroup : OnlineGroup stream seg span group)
    (more : List α) : OnlineGroup (stream ++ more) seg span group := by
  obtain ⟨body, final, reached, split, others, isFinal, contiguous, ends⟩ := onlineGroup
  exact ⟨body, final, reached, split, others, isFinal, contiguous.grow more,
    ends.imp_left fun framed => framed.grow more⟩

theorem Contiguous.split {stream : List α} {first last : Int} {frames frames' : List (AudioFrame α)}
    (contiguous : Contiguous stream first (frames ++ frames') last) :
    ∃ middle, Contiguous stream first frames middle ∧ Contiguous stream middle frames' last := by
  induction frames generalizing first with
  | nil => exact ⟨first, .nil, contiguous⟩
  | cons frame frames inductionHypothesis =>
    cases contiguous with
    | cons nonneg data some rest =>
      obtain ⟨middle, left, right⟩ := inductionHypothesis rest
      exact ⟨middle, .cons nonneg data some left, right⟩

/-- Chunks of an open segment and the run that closes it. -/
theorem Closing.onlineGroup {stream : List α} {seg : Nat} {span : VadSegment} {reached : Int}
    {pending frames : List (AudioFrame α)} (closing : Closing stream reached frames (span.2 * seg))
    (chunks : Contiguous stream (span.1 * seg) pending reached)
    (open' : ∀ frame ∈ pending, frame.isFinal = false) :
    OnlineGroup stream seg span (pending ++ frames) := by
  obtain ⟨contiguous, body, final, rfl, others, isFinal⟩ := closing
  obtain ⟨middle, left, right⟩ := contiguous.split
  refine ⟨pending ++ body, final, middle, (List.append_assoc _ _ _).symm, ?_, isFinal,
    chunks.append left, .inl right⟩
  intro frame member
  exact (List.mem_append.mp member).elim (open' frame) (others frame)

structure Emitted (stream : List α) (seg : Nat) (vad : VadState) (speechStart : Int)
    (online offline : List (AudioFrame α)) : Prop where
  offline : offline = vad.closed.map (offlineFrame stream seg)
  online : ∃ groups pending, online = groups.flatten ++ pending ∧
    List.Forall₂ (OnlineGroup stream seg) vad.closed groups ∧
    (vad.opened = none → pending = []) ∧
    ∀ first, vad.opened = some first →
      Contiguous stream (first * seg) pending (speechStart * seg) ∧
        ∀ frame ∈ pending, frame.isFinal = false

theorem offlineFrame_grow {stream : List α} {seg : Nat} {span : VadSegment}
    (inside : span.2 * seg ≤ stream.length) (more : List α) :
    offlineFrame (stream ++ more) seg span = offlineFrame stream seg span := by
  rw [offlineFrame, offlineFrame, frameOf, frameOf, slice_append]
  omega

/-- The segments an answer closed lie within the samples received. -/
def SpansInside (stream : List α) (seg : Nat) (closed : List VadSegment) : Prop :=
  ∀ span ∈ closed, 0 ≤ span.1 ∧ span.1 ≤ span.2 ∧ span.2 * seg ≤ stream.length

theorem SpansInside.snoc {stream : List α} {seg : Nat} {closed : List VadSegment}
    (spans : SpansInside stream seg closed) {first last : Int} (nonneg : 0 ≤ first)
    (ordered : first ≤ last) (inside : last * seg ≤ stream.length) :
    SpansInside stream seg (closed ++ [(first, last)]) := by
  intro span member
  cases List.mem_append.mp member with
  | inl old => exact spans span old
  | inr new =>
    obtain rfl := List.mem_singleton.mp new
    exact ⟨nonneg, ordered, inside⟩

theorem SpansInside.grow {stream : List α} {seg : Nat} {closed : List VadSegment}
    (spans : SpansInside stream seg closed) (more : List α) :
    SpansInside (stream ++ more) seg closed := by
  intro span member
  obtain ⟨nonneg, ordered, inside⟩ := spans span member
  refine ⟨nonneg, ordered, ?_⟩
  rw [List.length_append]
  omega

theorem SpansInside.offlineFrame_data {stream : List α} {seg : Nat} {closed : List VadSegment}
    (spans : SpansInside stream seg closed) {span : VadSegment} (member : span ∈ closed) :
    (offlineFrame stream seg span).data =
      some ((stream.drop (span.1 * seg).toNat).take
        ((span.2 * seg).toNat - (span.1 * seg).toNat)) := by
  obtain ⟨-, ordered, inside⟩ := spans span member
  have forward : span.1 * seg ≤ span.2 * (seg : Int) :=
    mul_le_mul_of_nonneg_right ordered (by omega)
  simp only [offlineFrame, frameOf, add_sub_cancel]
  rw [slice_eq (by omega) (by omega), List.drop_take]

theorem Emitted.grow {stream : List α} {seg : Nat} {vad : VadState} {speechStart : Int}
    {online offline : List (AudioFrame α)}
    (emitted : Emitted stream seg vad speechStart online offline)
    (spans : SpansInside stream seg vad.closed) (more : List α) :
    Emitted (stream ++ more) seg vad speechStart online offline := by
  obtain ⟨offlineFrames, groups, pending, onlineFrames, grouped, idle, speaking⟩ := emitted
  refine ⟨?_, groups, pending, onlineFrames, grouped.imp fun _ _ group => group.grow more, idle, ?_⟩
  · rw [offlineFrames]
    refine List.map_congr_left fun span member => ?_
    obtain ⟨-, -, inside⟩ := spans span member
    exact (offlineFrame_grow inside more).symm
  · intro first opened
    exact ⟨(speaking first opened).1.grow more, (speaking first opened).2⟩

section
variable {stream : List α} {seg : Nat} {vad : VadState} {speechStart : Int}
  {online offline : List (AudioFrame α)}

theorem Emitted.initial (stream : List α) (seg : Nat) (speechStart : Int) :
    Emitted stream seg {} speechStart [] [] :=
  ⟨rfl, [], [], rfl, .nil, fun _ => rfl, by simp⟩

theorem Emitted.chunk (emitted : Emitted stream seg vad speechStart online offline)
    {frames : List (AudioFrame α)} {speechStart' : Int}
    (frames_contiguous : Contiguous stream (speechStart * seg) frames (speechStart' * seg))
    (open' : ∀ frame ∈ frames, frame.isFinal = false) {first : Int}
    (opened : vad.opened = some first) :
    Emitted stream seg vad speechStart' (online ++ frames) offline := by
  obtain ⟨offlineFrames, groups, pending, rfl, grouped, -, speaking⟩ := emitted
  obtain ⟨chunks, notFinal⟩ := speaking first opened
  refine ⟨offlineFrames, groups, pending ++ frames, List.append_assoc _ _ _, grouped, ?_, ?_⟩
  · intro idle
    rw [opened] at idle
    cases idle
  · intro first' opened'
    rw [opened] at opened'
    cases opened'
    refine ⟨chunks.append frames_contiguous, fun frame member => ?_⟩
    exact (List.mem_append.mp member).elim (notFinal frame) (open' frame)

theorem Emitted.start (emitted : Emitted stream seg vad speechStart online offline)
    (idle : vad.opened = none) (first last : Int) :
    Emitted stream seg { opened := some first, last, closed := vad.closed } first online offline := by
  obtain ⟨offlineFrames, groups, pending, rfl, grouped, none, -⟩ := emitted
  obtain rfl := none idle
  refine ⟨offlineFrames, groups, [], rfl, grouped, by simp, ?_⟩
  intro first' same
  cases same
  exact ⟨.nil, by simp⟩

/-- A segment that is closed with the frames of `group`. -/
theorem Emitted.close {groups : List (List (AudioFrame α))} {group : List (AudioFrame α)}
    {span : VadSegment} (grouped : List.Forall₂ (OnlineGroup stream seg) vad.closed groups)
    (offlineFrames : offline = vad.closed.map (offlineFrame stream seg))
    (onlineGroup : OnlineGroup stream seg span group) (last speechStart' : Int) :
    Emitted stream seg { opened := none, last, closed := vad.closed ++ [span] } speechStart'
      (groups.flatten ++ group) (offline ++ [offlineFrame stream seg span]) := by
  refine ⟨by rw [offlineFrames, List.map_append]; rfl, groups ++ [group], [], by simp, ?_,
    fun _ => rfl, by simp⟩
  exact List.rel_append grouped (.cons onlineGroup .nil)

theorem Emitted.whole (emitted : Emitted stream seg vad speechStart online offline)
    (idle : vad.opened = none) {first last : Int} (nonneg : 0 ≤ first) (ordered : first ≤ last)
    (inside : last * seg ≤ stream.length) (speechStart' : Int) :
    Emitted stream seg { opened := none, last, closed := vad.closed ++ [(first, last)] } speechStart'
      (online ++ [offlineFrame stream seg (first, last)])
      (offline ++ [offlineFrame stream seg (first, last)]) := by
  obtain ⟨offlineFrames, groups, pending, rfl, grouped, none, -⟩ := emitted
  obtain rfl := none idle
  have forward : first * seg ≤ last * (seg : Int) := mul_le_mul_of_nonneg_right ordered (by omega)
  have framed := @Contiguous.frameOf _ stream (first * seg) (last * seg - first * seg)
    (Int.mul_nonneg nonneg (by omega)) (by omega) (by omega) true first last
  rw [add_sub_cancel] at framed
  rw [List.append_nil]
  exact Emitted.close grouped offlineFrames
    ⟨[], _, first * seg, rfl, by simp, rfl, .nil, .inl framed⟩ last speechStart'

theorem Emitted.stop (emitted : Emitted stream seg vad speechStart online offline) {first last : Int}
    (opened : vad.opened = some first) {frames : List (AudioFrame α)}
    (ends : speechStart * seg < last * seg ∧
        Closing stream (speechStart * seg) frames (last * seg) ∨
      last * seg ≤ speechStart * (seg : Int) ∧ frames = [emptyFrame speechStart last])
    (speechStart' : Int) :
    Emitted stream seg { opened := none, last, closed := vad.closed ++ [(first, last)] } speechStart'
      (online ++ frames) (offline ++ [offlineFrame stream seg (first, last)]) := by
  obtain ⟨offlineFrames, groups, pending, rfl, grouped, -, speaking⟩ := emitted
  obtain ⟨chunks, notFinal⟩ := speaking first opened
  rw [List.append_assoc]
  refine Emitted.close grouped offlineFrames ?_ last speechStart'
  rcases ends with ⟨-, closing⟩ | ⟨passed, rfl⟩
  · exact Closing.onlineGroup closing chunks notFinal
  · exact ⟨pending, _, speechStart * seg, rfl, notFinal, rfl, chunks, .inr ⟨passed, rfl, rfl⟩⟩

end

end Asr2Pass.TwoPass
