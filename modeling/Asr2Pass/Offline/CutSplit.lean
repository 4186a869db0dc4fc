import Asr2Pass.Library.Windows
import Asr2Pass.Library.FallibleMaps
import Asr2Pass.TwoPass.Split
import Mathlib.Data.List.Sort

/-! # `CutSplit`

The offline half of `Audio`.  `CutSplit` gives the recording to a voice activity detector second by
second, makes one frame of every segment that the answers name, and queues the frames by length.
The detector is an argument: its `Infer` takes a state, samples and `is_final`.
-/

namespace Asr2Pass.Offline

open Library
open TwoPass (VadSegment)

structure AudioFrame where
  start : Int := 0
  stop : Int := 0
  len : Int
deriving DecidableEq, Repr

namespace AudioFrame

def setStart (frame : AudioFrame) (val : Int) : AudioFrame :=
  { frame with start := if val < 0 then 0 else val }

/-- `SetEnd`. -/
def setStop (frame : AudioFrame) (val : Int) : AudioFrame :=
  { frame with stop := val, len := val - frame.start }

end AudioFrame

structure Audio (α : Type) where
  destSampleRate : Nat
  enough : 1000 ≤ destSampleRate
  speechData : List α
  frameQueue : List AudioFrame

/-- `std::sort` of indices, with what its specification says for a comparison by a key. -/
structure StdSort where
  sort : (Nat → Nat → Bool) → List Nat → List Nat
  perm : ∀ lt indices, (sort lt indices).Perm indices
  sorted : ∀ (key : Nat → Int) indices,
    (sort (fun a b => decide (key a < key b)) indices).Pairwise fun a b => key a ≤ key b

/-- `Infer` of a detector whose state is `ν`. -/
abbrev VadInfer (ν α : Type) := ν → List α → Bool → Option (List VadSegment × ν)

variable {ν α : Type}

namespace Audio

def segSample (audio : Audio α) : Nat := audio.destSampleRate / 1000

/-- What the loaders leave: the samples, and one frame for all of them. -/
def load (destSampleRate : Nat) (enough : 1000 ≤ destSampleRate) (speechData : List α) : Audio α where
  destSampleRate := destSampleRate
  enough := enough
  speechData := speechData
  frameQueue := [{ len := speechData.length }]

/-- The pieces that the loop over `sample_offset` cuts, with their `is_final`.  `count` bounds the
    rounds of the loop. -/
def pieces (step : Nat) (speechData : List α) (sampleOffset : Nat) :
    Nat → Option (List (List α × Bool))
  | 0 => if sampleOffset < speechData.length then none else some []
  | count + 1 =>
    if sampleOffset < speechData.length then
      -- The last piece also takes a sample that would be left alone.
      if speechData.length ≤ sampleOffset + step + 1 then do
        let pcmData ← slice speechData sampleOffset speechData.length
        let rest ← pieces (speechData.length - sampleOffset) speechData speechData.length count
        return (pcmData, true) :: rest
      else do
        let pcmData ← slice speechData sampleOffset (sampleOffset + step)
        let rest ← pieces step speechData (sampleOffset + step) count
        return (pcmData, false) :: rest
    else some []

/-- The answers to the pieces, one after the other. -/
def inferAll (infer : VadInfer ν α) (vad : ν) : List (List α × Bool) → Option (List VadSegment)
  | [] => some []
  | (pcmData, isFinal) :: rest => do
    let (cutSegments, vad') ← infer vad pcmData isFinal
    let later ← inferAll infer vad' rest
    return cutSegments ++ later

/-- The answers to a whole recording. -/
def vadSegments (audio : Audio α) (infer : VadInfer ν α) (vad : ν) : Option (List VadSegment) := do
  let cut ← pieces audio.destSampleRate audio.speechData 0 audio.speechData.length
  inferAll infer vad cut

/-- The frame of the samples from `start` to `stop`, both in ms. -/
def frame (audio : Audio α) (startI stopI : Int) : AudioFrame :=
  let start := startI * audio.segSample
  let stop := stopI * audio.segSample
  (({ len := stop - start } : AudioFrame).setStart start).setStop stop

/-- The frames of the segments that the answers name. -/
def vadFrames (audio : Audio α) (speechStartI speechEndI : Int) : List VadSegment → List AudioFrame
  | [] => []
  | (first, last) :: rest =>
    let startI := if first ≠ -1 then first else speechStartI
    let stopI := if last ≠ -1 then last else speechEndI
    if startI ≠ -1 ∧ stopI ≠ -1 then audio.frame startI stopI :: audio.vadFrames (-1) (-1) rest
    else audio.vadFrames startI stopI rest

/-- `index_vector`: the frames by length. -/
def indexVector (std : StdSort) (frames : List AudioFrame) : List Nat :=
  std.sort (fun a b => decide ((frames[a]?.elim 0 AudioFrame.len) < frames[b]?.elim 0 AudioFrame.len))
    (List.range frames.length)

def cutSplit (std : StdSort) (infer : VadInfer ν α) (vad : ν) (audio : Audio α) :
    Option (List Nat × Audio α) :=
  match audio.frameQueue with
  | [] => none
  | _ :: queue => do
    let answers ← audio.vadSegments infer vad
    let frames := audio.vadFrames (-1) (-1) answers
    let indices := indexVector std frames
    let sorted ← indices.mapM fun index => frames[index]?
    return (indices, { audio with frameQueue := queue ++ sorted })

end Audio

/-! ## The pieces -/

/-- The detector gets every sample once, and only the last piece is final. -/
structure FedOnce (speechData : List α) (cut : List (List α × Bool)) : Prop where
  samples : cut.flatMap Prod.fst = speechData
  final : ∃ body last, cut = body ++ [(last, true)] ∧ ∀ piece ∈ body, piece.2 = false

theorem FedOnce.cons {piece rest : List α} {cut : List (List α × Bool)} (fed : FedOnce rest cut) :
    FedOnce (piece ++ rest) ((piece, false) :: cut) := by
  obtain ⟨samples, body, last, rfl, others⟩ := fed
  refine ⟨by rw [List.flatMap_cons, samples], (piece, false) :: body, last, rfl, ?_⟩
  intro other member
  cases List.mem_cons.mp member with
  | inl same => rw [same]
  | inr inBody => exact others other inBody

namespace Audio

/-- No round is left for a recording that has been cut. -/
theorem pieces_done (step : Nat) (speechData : List α) (count : Nat) :
    pieces step speechData speechData.length count = some [] := by
  cases count with
  | zero => rw [pieces, if_neg (Nat.lt_irrefl _)]
  | succ count => rw [pieces, if_neg (Nat.lt_irrefl _)]

theorem pieces_eq {step : Nat} (positive : 0 < step) (speechData : List α) (count sampleOffset : Nat)
    (enough : speechData.length ≤ sampleOffset + count) (inside : sampleOffset < speechData.length) :
    ∃ cut, pieces step speechData sampleOffset count = some cut ∧
      FedOnce (speechData.drop sampleOffset) cut := by
  induction count generalizing sampleOffset with
  | zero => omega
  | succ count inductionHypothesis =>
    rw [pieces, if_pos inside]
    by_cases last : speechData.length ≤ sampleOffset + step + 1
    · refine ⟨[(speechData.drop sampleOffset, true)], ?_, by simp, [], _, rfl, by simp⟩
      rw [if_pos last, slice_eq inside.le le_rfl, pieces_done, List.take_length]
      rfl
    · obtain ⟨cut, eq, fed⟩ := inductionHypothesis (sampleOffset + step) (by omega) (by omega)
      have within : sampleOffset + step ≤ speechData.length := by omega
      rw [if_neg last, slice_eq (Nat.le_add_right _ _) within, eq]
      refine ⟨_, rfl, ?_⟩
      have split : speechData.drop sampleOffset =
          (speechData.take (sampleOffset + step)).drop sampleOffset ++
            speechData.drop (sampleOffset + step) := by
        rw [List.drop_take, Nat.add_sub_cancel_left, ← List.drop_drop, List.take_append_drop]
      rw [split]
      exact fed.cons

theorem pieces_fedOnce (audio : Audio α) (nonempty : audio.speechData ≠ []) :
    ∃ cut, pieces audio.destSampleRate audio.speechData 0 audio.speechData.length = some cut ∧
      FedOnce audio.speechData cut := by
  have enough := audio.enough
  have inside := List.length_pos_iff.mpr nonempty
  exact pieces_eq (by omega) audio.speechData audio.speechData.length 0 (by omega) inside

end Audio

/-! ## The frames -/

/-- The answers obey the protocol and name `segments`, none of which starts before `from'`: an
    entry names a segment or its start, which the next entry ends; a start may be left open. -/
inductive Names : Int → List VadSegment → List VadSegment → Prop where
  | nil {earliest : Int} : Names earliest [] []
  | whole {earliest first last : Int} {rest segments : List VadSegment} :
      earliest ≤ first → first ≤ last → Names last rest segments →
        Names earliest ((first, last) :: rest) ((first, last) :: segments)
  | split {earliest first last : Int} {rest segments : List VadSegment} :
      earliest ≤ first → first ≤ last → Names last rest segments →
        Names earliest ((first, -1) :: (-1, last) :: rest) ((first, last) :: segments)
  | opened {earliest first : Int} : earliest ≤ first → Names earliest [(first, -1)] []

theorem Names.nonneg {earliest : Int} {answers segments : List VadSegment}
    (names : Names earliest answers segments) (nonneg : 0 ≤ earliest) :
    ∀ segment ∈ segments, 0 ≤ segment.1 := by
  induction names with
  | nil => simp
  | whole after ordered _ inductionHypothesis | split after ordered _ inductionHypothesis =>
    exact List.forall_mem_cons.mpr ⟨nonneg.trans after, inductionHypothesis (by omega)⟩
  | opened => simp

namespace Audio

theorem vadFrames_whole (audio : Audio α) {first last : Int} (started : first ≠ -1)
    (stopped : last ≠ -1) (rest : List VadSegment) :
    audio.vadFrames (-1) (-1) ((first, last) :: rest) =
      audio.frame first last :: audio.vadFrames (-1) (-1) rest := by
  simp [vadFrames, started, stopped]

theorem vadFrames_opened (audio : Audio α) {first : Int} (started : first ≠ -1)
    (rest : List VadSegment) :
    audio.vadFrames (-1) (-1) ((first, -1) :: rest) = audio.vadFrames first (-1) rest := by
  simp [vadFrames, started]

theorem vadFrames_closed (audio : Audio α) {first last : Int} (started : first ≠ -1)
    (stopped : last ≠ -1) (rest : List VadSegment) :
    audio.vadFrames first (-1) ((-1, last) :: rest) =
      audio.frame first last :: audio.vadFrames (-1) (-1) rest := by
  simp [vadFrames, started, stopped]

theorem vadFrames_eq (audio : Audio α) {earliest : Int} {answers segments : List VadSegment}
    (names : Names earliest answers segments) (nonneg : 0 ≤ earliest) :
    audio.vadFrames (-1) (-1) answers = segments.map fun segment => audio.frame segment.1 segment.2 := by
  induction names with
  | nil => rfl
  | whole after ordered _ inductionHypothesis =>
    rw [vadFrames_whole audio (by omega) (by omega), inductionHypothesis (by omega), List.map_cons]
  | split after ordered _ inductionHypothesis =>
    rw [vadFrames_opened audio (by omega), vadFrames_closed audio (by omega) (by omega),
      inductionHypothesis (by omega), List.map_cons]
  | opened after => rw [vadFrames_opened audio (by omega), vadFrames, List.map_nil]

/-- A frame lies where its segment does. -/
theorem frame_eq (audio : Audio α) {first last : Int} (nonneg : 0 ≤ first) :
    audio.frame first last =
      ⟨first * audio.segSample, last * audio.segSample, (last - first) * audio.segSample⟩ := by
  have start : ¬ first * (audio.segSample : Int) < 0 :=
    not_lt.mpr (mul_nonneg nonneg (Int.natCast_nonneg _))
  simp [frame, AudioFrame.setStart, AudioFrame.setStop, start, sub_mul]

theorem indexVector_perm (std : StdSort) (frames : List AudioFrame) :
    (indexVector std frames).Perm (List.range frames.length) :=
  std.perm _ _

theorem mem_indexVector {std : StdSort} {frames : List AudioFrame} {index : Nat} :
    index ∈ indexVector std frames ↔ index < frames.length :=
  (indexVector_perm std frames).mem_iff.trans List.mem_range

/-- The queue after `CutSplit`: the frames in the order of `index_vector`. -/
theorem cutSplit_eq (std : StdSort) (infer : VadInfer ν α) (vad : ν) (audio : Audio α)
    {answers : List VadSegment} (loaded : audio.frameQueue.length = 1)
    (answered : audio.vadSegments infer vad = some answers) :
    ∃ sorted, (indexVector std (audio.vadFrames (-1) (-1) answers)).mapM
        (fun index => (audio.vadFrames (-1) (-1) answers)[index]?) = some sorted ∧
      audio.cutSplit std infer vad =
        some (indexVector std (audio.vadFrames (-1) (-1) answers), { audio with frameQueue := sorted }) := by
  obtain ⟨frame, whole⟩ := List.length_eq_one_iff.mp loaded
  have found : ((indexVector std (audio.vadFrames (-1) (-1) answers)).mapM
      (fun index => (audio.vadFrames (-1) (-1) answers)[index]?)).isSome := by
    rw [isSome_mapM_iff]
    intro index member
    rw [isSome_getElem?]
    exact mem_indexVector.mp member
  obtain ⟨sorted, mapped⟩ := Option.isSome_iff_exists.mp found
  refine ⟨sorted, mapped, ?_⟩
  rw [cutSplit, whole, answered]
  simp only [Option.bind_eq_bind, Option.bind_some, mapped, List.nil_append]
  rfl

end Audio

end Asr2Pass.Offline
