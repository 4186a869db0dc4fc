import Asr2Pass.TwoPass.Groups
import Asr2Pass.Vad.InferCalls

/-! # The detector keeps its protocol

`Split` relies on a protocol of its detector's answers.  The answers of `FsmnVadOnline` keep it:
`heard` is what they have said so far, in terms of the segmenter.
-/

namespace Asr2Pass.TwoPass

open Vad (FrameSpan Segmenter)
open Vad.VADXOptions (frameInMs)
open Vad.VadConfig (Answered)

/-- What the answers have said about the closed segments and the open one. -/
def heard (closed : List FrameSpan) : Option FrameSpan → VadState
  | none =>
    { last := closed.getLast?.elim 0 fun span => span.ms.2
      closed := closed.map FrameSpan.ms }
  | some span =>
    { opened := some span.ms.1
      last := span.ms.1
      closed := closed.map FrameSpan.ms }

theorem heard_snoc (closed : List FrameSpan) (span : FrameSpan) :
    heard (closed ++ [span]) none =
      { opened := none, last := span.ms.2, closed := closed.map FrameSpan.ms ++ [span.ms] } := by
  simp [heard]

section
variable {seg destSampleRate before received : Nat} {limit : Int}

/-- The times of a frame before `limit` are within the samples received. -/
theorem ms_inside {frame : Int} (below : frame < limit) (inside : limit * frameInMs * seg ≤ received) :
    (frame + 1) * frameInMs * seg ≤ received := by
  have order : (frame + 1) * frameInMs ≤ limit * frameInMs :=
    mul_le_mul_of_nonneg_right (by omega) (by decide)
  have scaled : (frame + 1) * frameInMs * seg ≤ limit * frameInMs * seg :=
    mul_le_mul_of_nonneg_right order (by omega)
  omega

/-- The last time named lies before a later segment. -/
theorem heard_last_le {closed rest : List FrameSpan} {span : FrameSpan}
    (ordered : Segmenter.Ordered (closed ++ span :: rest) limit) :
    (heard closed none).last ≤ span.ms.1 := by
  obtain ⟨bounds, apart⟩ := Segmenter.ordered_iff.mp ordered
  cases List.eq_nil_or_concat closed with
  | inl empty =>
    have nonneg := (bounds span (List.mem_append_right _ List.mem_cons_self)).1
    subst empty
    simp only [heard, List.getLast?_nil, Option.elim_none, FrameSpan.ms, frameInMs]
    omega
  | inr some =>
    obtain ⟨earlier, final, rfl⟩ := some
    have before := (List.pairwise_append.mp apart).2.2 final (by simp) span List.mem_cons_self
    rw [List.concat_eq_append, heard_snoc]
    simp only [FrameSpan.ms, frameInMs]
    omega

/-- Segments that an answer names from a moment on at which none is open. -/
theorem vadAnswer_added {closed added : List FrameSpan} {current : Option FrameSpan}
    (ordered : Segmenter.Ordered (closed ++ added ++ current.toList) limit)
    (inside : limit * frameInMs * seg ≤ received)
    (recent : ∀ span ∈ added ++ current.toList, before ≤ span.ms.1 * seg + 2 * destSampleRate) :
    VadAnswer seg destSampleRate before received (heard closed none)
      (added.map FrameSpan.ms ++ current.toList.map FrameSpan.startMs)
      (heard (closed ++ added) current) := by
  have bounds := (Segmenter.ordered_iff.mp ordered).1
  -- On the segments that are closed: each is named as a whole, the open one by its start.
  induction added generalizing closed with
  | nil =>
    rw [List.append_nil] at ordered bounds ⊢
    cases current with
    | none => exact .nil
    | some span =>
      obtain ⟨nonneg, longer, below⟩ := bounds span (by simp)
      have inside' := ms_inside (show span.1 - 1 < limit by omega) inside
      rw [sub_add_cancel] at inside'
      exact .cons (.start rfl (heard_last_le ordered) inside' (recent span (by simp))) .nil
  | cons span added inductionHypothesis =>
    obtain ⟨nonneg, longer, below⟩ := bounds span (by simp)
    have first := heard_last_le (show Segmenter.Ordered (closed ++ span :: (added ++ current.toList))
      limit by simpa using ordered)
    have entry := @VadEntry.whole seg destSampleRate before received (heard closed none) span.ms.1
      span.ms.2 rfl first (by simp only [FrameSpan.ms, frameInMs]; omega) (ms_inside below inside)
      (recent span (by simp))
    have rest := @inductionHypothesis (closed ++ [span]) (by simpa using ordered)
      (fun later member => recent later (List.mem_cons_of_mem _ member)) (by simpa using bounds)
    rw [heard_snoc, List.append_assoc] at rest
    exact .cons entry rest

/-- A segment behind those of an earlier state was opened after it. -/
theorem starts_behind {earlier later : List FrameSpan}
    (ordered : Segmenter.Ordered (earlier ++ later) limit) {span : FrameSpan} (member : span ∈ later) :
    ∀ old ∈ earlier, old.1 ≠ span.1 := by
  obtain ⟨bounds, apart⟩ := Segmenter.ordered_iff.mp ordered
  intro old known same
  have apart' := (List.pairwise_append.mp apart).2.2 old known span member
  have longer := bounds old (List.mem_append_left _ known)
  omega

/-- What an answer says: nothing, or the end of the segment that was open, if one was, and then
    segments that start not long before the call. -/
theorem answered_cases {answer : List VadSegment} {since judged : Nat}
    {segmenter segmenter' : Segmenter} (answered : Answered answer since judged segmenter segmenter')
    (ordered : Segmenter.Ordered segmenter'.spans limit) :
    (∃ start latest latest', segmenter.current = some (start, latest) ∧
      segmenter'.current = some (start, latest') ∧ segmenter'.closed = segmenter.closed ∧
      answer = []) ∨
    ∃ closing rest, (segmenter.current = none ∧ closing = [] ∨
        ∃ start latest last, segmenter.current = some (start, latest) ∧ closing = [(start, last)]) ∧
      segmenter'.closed = segmenter.closed ++ closing ++ rest ∧
      answer = closing.map FrameSpan.endMs ++
        (rest.map FrameSpan.ms ++ segmenter'.current.toList.map FrameSpan.startMs) ∧
      ∀ span ∈ rest ++ segmenter'.current.toList, (since : Int) ≤ span.1 + Segmenter.latency := by
  obtain ⟨⟨added, continues, rfl⟩, starts, -⟩ := answered
  rw [Segmenter.spans, continues.closed] at ordered
  -- A segment behind those that were known has been opened by the call.
  have recent : ∀ known later : List FrameSpan, segmenter'.spans = known ++ later →
      (∀ old ∈ segmenter.spans, ∃ span ∈ known, span.1 = old.1) →
      ∀ span ∈ later, (since : Int) ≤ span.1 + Segmenter.latency := by
    intro known later split covered span member
    refine (starts span ?_).resolve_left ?_
    · rw [split]
      exact List.mem_append_right _ member
    · rintro ⟨old, earlier, same⟩
      obtain ⟨span', inside, same'⟩ := covered old earlier
      rw [Segmenter.spans, continues.closed] at split
      rw [split] at ordered
      exact starts_behind ordered member span' inside (same'.trans same)
  cases current : segmenter.current with
  | none =>
    refine .inr ⟨[], added, .inl ⟨rfl, rfl⟩, ?_, rfl, recent segmenter.closed _ ?_ ?_⟩
    · rw [continues.closed, List.append_nil]
    · rw [Segmenter.spans, continues.closed, List.append_assoc]
    · intro old member
      rw [Segmenter.spans, current, Option.toList_none, List.append_nil] at member
      exact ⟨old, member, rfl⟩
  | some span =>
    obtain ⟨start, latest⟩ := span
    rcases continues.opened start latest current with ⟨rfl, latest', opened⟩ | ⟨last, rest, rfl⟩
    · exact .inl ⟨start, latest, latest', rfl, opened, by rw [continues.closed, List.append_nil], rfl⟩
    · have closed : segmenter'.closed = segmenter.closed ++ [(start, last)] ++ rest := by
        rw [continues.closed, List.append_assoc]
        rfl
      refine .inr ⟨[(start, last)], rest, .inr ⟨start, latest, last, rfl, rfl⟩, closed, rfl,
        recent (segmenter.closed ++ [(start, last)]) _ ?_ ?_⟩
      · rw [Segmenter.spans, closed, List.append_assoc]
      · intro old member
        rw [Segmenter.spans, current] at member
        cases List.mem_append.mp member with
        | inl known => exact ⟨old, List.mem_append_left _ known, rfl⟩
        | inr known =>
          obtain rfl := List.mem_singleton.mp known
          exact ⟨(start, last), List.mem_append_right _ (List.mem_singleton_self _), rfl⟩

/-- An answer of the detector keeps the protocol. -/
theorem vadAnswer {answer : List VadSegment} {since judged : Nat}
    {segmenter segmenter' : Segmenter} (answered : Answered answer since judged segmenter segmenter')
    (valid : segmenter'.Valid limit) (inside : limit * frameInMs * seg ≤ received)
    (recent : before ≤ ((since : Int) - Segmenter.latency) * frameInMs * seg + 2 * destSampleRate) :
    VadAnswer seg destSampleRate before received (heard segmenter.closed segmenter.current) answer
      (heard segmenter'.closed segmenter'.current) := by
  have ordered := valid.ordered
  have late : ∀ span : FrameSpan, (since : Int) ≤ span.1 + Segmenter.latency →
      before ≤ span.ms.1 * seg + 2 * (destSampleRate : Int) := by
    intro span opened
    have order : ((since : Int) - Segmenter.latency) * frameInMs ≤ span.1 * frameInMs :=
      mul_le_mul_of_nonneg_right (by omega) (by decide)
    have scaled := mul_le_mul_of_nonneg_right order (show (0 : Int) ≤ seg by omega)
    simp only [FrameSpan.ms]
    omega
  obtain ⟨start, latest, latest', current, opened, closed, rfl⟩ |
    ⟨closing, rest, waiting, closed, rfl, starts⟩ := answered_cases answered ordered
  · rw [current, opened, closed]
    exact .nil
  · rw [Segmenter.spans, closed] at ordered
    have named := vadAnswer_added ordered inside fun span member => late span (starts span member)
    obtain ⟨current, rfl⟩ | ⟨start, latest, last, current, rfl⟩ := waiting
    · rw [current, closed]
      rw [List.append_nil] at named ⊢
      exact named
    · -- The first entry completes the start.
      obtain ⟨nonneg, longer, below⟩ := (Segmenter.ordered_iff.mp ordered).1 (start, last) (by simp)
      have entry := @VadEntry.stop seg destSampleRate before received
        (heard segmenter.closed (some (start, latest))) (start * frameInMs) ((last + 1) * frameInMs)
        rfl (by simp only [heard, FrameSpan.ms, frameInMs] at longer ⊢; omega) (ms_inside below inside)
      have completed : heard (segmenter.closed ++ [(start, last)]) none =
          { opened := none
            last := (last + 1) * frameInMs
            closed := (heard segmenter.closed (some (start, latest))).closed ++
              [(start * frameInMs, (last + 1) * frameInMs)] } :=
        heard_snoc segmenter.closed (start, last)
      rw [current, closed]
      refine .cons entry ?_
      rw [← completed]
      exact named

/-- A segment that one answer names as a whole is not much longer than the call. -/
theorem answered_whole {answer : List VadSegment} {since judged : Nat}
    {segmenter segmenter' : Segmenter} (answered : Answered answer since judged segmenter segmenter')
    (valid : segmenter'.Valid limit) {entry : VadSegment} (member : entry ∈ answer) (first : entry.1 ≠ -1) (last : entry.2 ≠ -1) :
    entry.2 - entry.1 ≤ (limit - since + Segmenter.latency) * frameInMs := by
  have ordered := valid.ordered
  obtain ⟨-, -, -, -, -, -, rfl⟩ | ⟨closing, rest, -, closed, rfl, starts⟩ :=
    answered_cases answered ordered
  · cases member
  · rw [Segmenter.spans, closed] at ordered
    obtain ended | named | opened := by simpa only [List.mem_append] using member
    · obtain ⟨span, -, rfl⟩ := List.mem_map.mp ended
      exact absurd rfl first
    · obtain ⟨span, inside, rfl⟩ := List.mem_map.mp named
      have bounds := (Segmenter.ordered_iff.mp ordered).1 span (by simp [inside])
      have recent := starts span (List.mem_append_left _ inside)
      simp only [FrameSpan.ms, frameInMs] at bounds ⊢
      omega
    · obtain ⟨span, -, rfl⟩ := List.mem_map.mp opened
      exact absurd rfl last

end

end Asr2Pass.TwoPass
