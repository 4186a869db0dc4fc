import Asr2Pass.Offline.FetchDynamic

/-! # The batches of a queue

A batch is as long as its longest frame, once for each of its frames.  `FetchDynamic` looks at two
limits before it takes a frame, and at neither for the first one, so that no call leaves a queue as it
is.
-/

namespace Asr2Pass.Offline

variable {α : Type}

namespace Audio

/-- `max_len` of a batch. -/
def longest (maxLen : Int) (batch : List AudioFrame) : Int :=
  batch.foldl (fun maxLen frame => max maxLen frame.len) maxLen

/-- A single frame, or frames that are all below `max_sent` and together not above `max_acc`. -/
def IsFair (segSample : Nat) (batch : List AudioFrame) : Prop :=
  batch.length = 1 ∨
    longest 0 batch * batch.length ≤ 300 * 1000 * segSample ∧
      ∀ frame ∈ batch, frame.len < 60 * 1000 * segSample

/-- Calls until there is no batch any more. -/
inductive Fetches (maxBatch : MaxBatch) : Audio α → List (List AudioFrame) → Audio α → Prop where
  | done {audio : Audio α} : audio.fetchDynamic maxBatch = none → Fetches maxBatch audio [] audio
  | fetch {audio next last : Audio α} {batch : List AudioFrame} {batches : List (List AudioFrame)} :
      audio.fetchDynamic maxBatch = some (batch, next) → Fetches maxBatch next batches last →
      Fetches maxBatch audio (batch :: batches) last

/-! ## One batch -/

/-- Behind the first frame both limits hold. -/
theorem takeFrames_limits {segSample batched : Nat} {maxLen : Int} (left : Nat) (queue : List AudioFrame)
    (within : maxLen * batched ≤ 300 * 1000 * segSample) (some : batched ≠ 0) :
    let batch := (takeFrames segSample batched maxLen left queue).1
    longest maxLen batch * (batched + batch.length : Nat) ≤ 300 * 1000 * segSample ∧
      ∀ frame ∈ batch, frame.len < 60 * 1000 * segSample := by
  induction left generalizing batched maxLen queue with
  | zero => exact ⟨within, by simp [takeFrames]⟩
  | succ left inductionHypothesis =>
    cases queue with
    | nil => exact ⟨within, by simp [takeFrames]⟩
    | cons frame queue =>
      simp only [takeFrames]
      split
      · exact ⟨within, by simp⟩
      · rename_i short
        split
        · exact ⟨within, by simp⟩
        · rename_i room
          have later := @inductionHypothesis (batched + 1) (max maxLen frame.len) queue (by simpa using room)
            (Nat.succ_ne_zero _)
          simp only [longest, List.foldl_cons, List.length_cons] at later ⊢
          rw [Nat.add_right_comm] at later
          exact ⟨later.1, List.forall_mem_cons.mpr ⟨by omega, later.2⟩⟩

theorem takeFrames_isFair (segSample left : Nat) (frame : AudioFrame) (queue : List AudioFrame) :
    IsFair segSample (takeFrames segSample 0 0 (left + 1) (frame :: queue)).1 := by
  rw [takeFrames]
  by_cases long : frame.len ≥ 60 * 1000 * segSample
  · rw [if_pos long, if_pos rfl]
    exact .inl rfl
  · -- One frame below `max_sent` is below `max_acc`.
    have room : ¬ max 0 frame.len * ((0 : Nat) + 1 : Int) > 300 * 1000 * segSample := by omega
    have later := @takeFrames_limits segSample 1 (max 0 frame.len) left queue (by simpa using room)
      Nat.one_ne_zero
    rw [if_neg long]
    simp only [if_neg room]
    simp only [longest] at later
    rw [Nat.add_comm] at later
    exact .inr ⟨later.1, List.forall_mem_cons.mpr ⟨by omega, later.2⟩⟩

theorem fetchDynamic_isFair {audio next : Audio α} {maxBatch : MaxBatch} {batch : List AudioFrame}
    (fetched : audio.fetchDynamic maxBatch = some (batch, next)) :
    batch ≠ [] ∧ batch ++ next.frameQueue = audio.frameQueue ∧ IsFair audio.segSample batch ∧
      next.segSample = audio.segSample := by
  by_cases done : audio.frameQueue = []
  · rw [fetchDynamic_none done] at fetched
    cases fetched
  · obtain ⟨batch', queue, nonempty, frames, same⟩ := fetchDynamic_some maxBatch done
    obtain ⟨rfl, rfl⟩ := Prod.mk.inj (Option.some.inj (same.symm.trans fetched))
    obtain ⟨frame, others, isQueue⟩ := List.exists_cons_of_ne_nil done
    have positive := maxBatch.positive
    obtain ⟨left, size⟩ : ∃ left, min maxBatch.size audio.frameQueue.length = left + 1 :=
      ⟨min maxBatch.size audio.frameQueue.length - 1, by simp [isQueue]; omega⟩
    have fair := takeFrames_isFair audio.segSample left frame others
    rw [← size, ← isQueue] at fair
    have taken : (takeFrames audio.segSample 0 0 (min maxBatch.size audio.frameQueue.length)
        audio.frameQueue).1 = batch' := by
      simp only [fetchDynamic] at same
      split at same
      · cases same
      · exact (Prod.mk.inj (Option.some.inj same)).1
    exact ⟨nonempty, frames, taken ▸ fair, rfl⟩

/-! ## All batches -/

theorem Fetches.unique {audio last last' : Audio α} {maxBatch : MaxBatch}
    {batches batches' : List (List AudioFrame)} (fetches : Fetches maxBatch audio batches last)
    (fetches' : Fetches maxBatch audio batches' last') : batches = batches' ∧ last = last' := by
  induction fetches generalizing batches' with
  | done none =>
    cases fetches' with
    | done => exact ⟨rfl, rfl⟩
    | fetch some => simp [none] at some
  | fetch some _ inductionHypothesis =>
    cases fetches' with
    | done none => simp [none] at some
    | fetch some' later =>
      obtain ⟨rfl, rfl⟩ := Prod.mk.inj (Option.some.inj (some.symm.trans some'))
      simpa using inductionHypothesis later

theorem exists_fetches (maxBatch : MaxBatch) (count : Nat) (audio : Audio α)
    (enough : audio.frameQueue.length ≤ count) :
    ∃ batches last, Fetches maxBatch audio batches last ∧ batches.flatten = audio.frameQueue ∧
      last.frameQueue = [] ∧ ∀ batch ∈ batches, batch ≠ [] ∧ IsFair audio.segSample batch := by
  -- On a bound of the length: each batch has a frame, so that the queue gets shorter.
  induction count generalizing audio with
  | zero =>
    have done := List.length_eq_zero_iff.mp (Nat.le_zero.mp enough)
    exact ⟨[], audio, .done (fetchDynamic_none done), by simp [done], done, by simp⟩
  | succ count inductionHypothesis =>
    by_cases done : audio.frameQueue = []
    · exact ⟨[], audio, .done (fetchDynamic_none done), by simp [done], done, by simp⟩
    · obtain ⟨batch, queue, -, -, fetched⟩ := fetchDynamic_some maxBatch done
      obtain ⟨nonempty, frames, fair, -⟩ := fetchDynamic_isFair fetched
      have shorter := congrArg List.length frames
      have positive := List.length_pos_iff.mpr nonempty
      simp only [List.length_append] at shorter
      obtain ⟨batches, last, fetches, flat, isDone, fairs⟩ :=
        inductionHypothesis { audio with frameQueue := queue } (by simp only; omega)
      refine ⟨batch :: batches, last, .fetch fetched fetches, by simp [flat, ← frames], isDone, ?_⟩
      exact List.forall_mem_cons.mpr ⟨⟨nonempty, fair⟩, fairs⟩

/-- A call on a queue with frames takes a fair batch from its front, and the calls until the queue has
    no frames take each of them once. -/
theorem fetchDynamic_drains (audio : Audio α) (maxBatch : MaxBatch) :
    (audio.frameQueue = [] ∨ ∃ batch next, audio.fetchDynamic maxBatch = some (batch, next) ∧
      batch ≠ [] ∧ batch ++ next.frameQueue = audio.frameQueue ∧ IsFair audio.segSample batch) ∧
    ∃ batches last, Fetches maxBatch audio batches last ∧ batches.flatten = audio.frameQueue ∧
      last.frameQueue = [] ∧ (∀ batch ∈ batches, batch ≠ [] ∧ IsFair audio.segSample batch) ∧
      ∀ batches' last', Fetches maxBatch audio batches' last' → batches' = batches ∧ last' = last := by
  constructor
  · by_cases done : audio.frameQueue = []
    · exact .inl done
    · obtain ⟨batch, queue, -, -, fetched⟩ := fetchDynamic_some maxBatch done
      obtain ⟨nonempty, frames, fair, -⟩ := fetchDynamic_isFair fetched
      exact .inr ⟨batch, _, fetched, nonempty, frames, fair⟩
  · obtain ⟨batches, last, fetches, flat, isDone, fairs⟩ :=
      exists_fetches maxBatch _ audio (Nat.le_refl _)
    exact ⟨batches, last, fetches, flat, isDone, fairs, fun _ _ fetches' => fetches'.unique fetches⟩

end Audio

end Asr2Pass.Offline
