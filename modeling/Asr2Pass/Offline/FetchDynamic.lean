import Asr2Pass.Library.BinaryRounding
import Asr2Pass.Offline.CutSplit

/-! # `FetchDynamic` and the loop that recognises its batches

`FetchDynamic` takes frames off the queue until the batch is full or would be too long, and
`FunOfflineInferBuffer` writes each result back to the place that `index_vector` holds for it.
`Forward` is an argument; it has a state, and gives one result per item.
-/

namespace Asr2Pass.Offline

open Library
open TwoPass (VadSegment)

variable {ν α σ ρ : Type}

/-- `max_batch`: 1, or with `USE_GPU` the batch size of the model. -/
structure MaxBatch where
  size : Nat
  positive : 0 < size

/-- What `Forward` gets of a frame: its first sample in `speech_data`, and its length. -/
structure Item where
  start : Int
  len : Int
deriving DecidableEq, Repr

def AudioFrame.item (frame : AudioFrame) : Item := ⟨frame.start, frame.len⟩

structure Forward (σ ρ : Type) where
  run : σ → List Item → List ρ × σ
  length_run : ∀ decoder batch, (run decoder batch).1.length = batch.length

namespace Audio

/-- The loop over `idx`: the frames of the batch, and the queue that is left.  `batched` frames of
    at most `maxLen` samples are in the batch already. -/
def takeFrames (segSample : Nat) (batched : Nat) (maxLen : Int) :
    Nat → List AudioFrame → List AudioFrame × List AudioFrame
  | 0, queue => ([], queue)
  | _ + 1, [] => ([], [])
  | left + 1, frame :: queue =>
    -- A frame of a minute or more makes a batch of its own.
    if frame.len ≥ 60 * 1000 * segSample then
      if batched = 0 then ([frame], queue) else ([], frame :: queue)
    else
      -- A batch is as long as its longest frame, once for each of its frames.
      let maxLen' := max maxLen frame.len
      if maxLen' * (batched + 1) > 300 * 1000 * segSample then ([], frame :: queue)
      else
        let (batch, rest) := takeFrames segSample (batched + 1) maxLen' left queue
        (frame :: batch, rest)

/-- The frames of the next batch; `none` when there is no frame left. -/
def fetchDynamic (audio : Audio α) (maxBatch : MaxBatch) : Option (List AudioFrame × Audio α) :=
  let (batch, queue) :=
    takeFrames audio.segSample 0 0 (min maxBatch.size audio.frameQueue.length) audio.frameQueue
  if batch = [] then none else some (batch, { audio with frameQueue := queue })

/-- A `float` quotient. -/
def startTime (audio : Audio α) (frame : AudioFrame) : Rat :=
  Library.roundQuotient 24 frame.start audio.destSampleRate

end Audio

/-- `msgs`, `msg_stimes` and `msg_idx`. -/
structure Messages (ρ : Type) where
  msgs : List ρ
  msgStimes : List Rat
  msgIdx : Nat := 0
deriving DecidableEq, Repr

namespace Messages

variable (indexVector : List Nat)

/-- One result; one that no index is left for is only logged. -/
def store (messages : Messages ρ) (msg : ρ) (stime : Rat) : Option (Messages ρ) :=
  match indexVector[messages.msgIdx]? with
  | none => some messages
  | some index =>
    if index < messages.msgs.length ∧ index < messages.msgStimes.length then
      some {
        msgs := messages.msgs.set index msg
        msgStimes := messages.msgStimes.set index stime
        msgIdx := messages.msgIdx + 1 }
    else none

/-- The loop over `batch_in`: a result for each start time of the batch. -/
def storeBatch (messages : Messages ρ) : List ρ → List Rat → Option (Messages ρ)
  | _, [] => some messages
  | [], _ :: _ => none
  | msg :: msgBatch, stime :: startTimes => do
    let messages' ← messages.store indexVector msg stime
    messages'.storeBatch msgBatch startTimes

end Messages

/-- The loop over the batches; `count` bounds its rounds. -/
def recognise (maxBatch : MaxBatch) (forward : Forward σ ρ) (indexVector : List Nat)
    (audio : Audio α) (decoder : σ) (messages : Messages ρ) : Nat → Option (Messages ρ)
  | 0 => if (audio.fetchDynamic maxBatch).isSome then none else some messages
  | count + 1 =>
    match audio.fetchDynamic maxBatch with
    | none => some messages
    | some (batch, audio') => do
      let (msgBatch, decoder') := forward.run decoder (batch.map AudioFrame.item)
      let messages' ← messages.storeBatch indexVector msgBatch (batch.map audio.startTime)
      recognise maxBatch forward indexVector audio' decoder' messages' count

/-- `FunOfflineInferBuffer`, from the loaded audio to the end of the loop.  `empty` is what a
    message holds before it is written. -/
def inferMessages (std : StdSort) (infer : VadInfer ν α) (vad : ν) (maxBatch : MaxBatch)
    (forward : Forward σ ρ) (decoder : σ) (empty : ρ) (audio : Audio α) :
    Option (List Nat × Messages ρ) := do
  let (indexVector, audio') ← audio.cutSplit std infer vad
  let messages : Messages ρ := {
    msgs := List.replicate indexVector.length empty
    msgStimes := List.replicate indexVector.length 0 }
  let messages' ← recognise maxBatch forward indexVector audio' decoder messages
    audio'.frameQueue.length
  return (indexVector, messages')

/-! ## The batches -/

namespace Audio

theorem takeFrames_append (segSample : Nat) (left batched : Nat) (maxLen : Int)
    (queue : List AudioFrame) :
    (takeFrames segSample batched maxLen left queue).1 ++
      (takeFrames segSample batched maxLen left queue).2 = queue := by
  induction left generalizing batched maxLen queue with
  | zero => rfl
  | succ left inductionHypothesis =>
    cases queue with
    | nil => rfl
    | cons frame queue =>
      simp only [takeFrames]
      split
      · split <;> rfl
      · split
        · rfl
        · simp only [List.cons_append, inductionHypothesis]

/-- The first frame is always taken. -/
theorem takeFrames_first (segSample left : Nat) (frame : AudioFrame) (queue : List AudioFrame) :
    (takeFrames segSample 0 0 (left + 1) (frame :: queue)).1 ≠ [] := by
  rw [takeFrames]
  by_cases long : frame.len ≥ 60 * 1000 * segSample
  · rw [if_pos long, if_pos rfl]
    exact List.cons_ne_nil _ _
  · rw [if_neg long, if_neg (by omega)]
    exact List.cons_ne_nil _ _

theorem fetchDynamic_none {audio : Audio α} {maxBatch : MaxBatch} (done : audio.frameQueue = []) :
    audio.fetchDynamic maxBatch = none := by
  rw [fetchDynamic, done, List.length_nil, Nat.min_zero]
  rfl

theorem fetchDynamic_some {audio : Audio α} (maxBatch : MaxBatch) (waiting : audio.frameQueue ≠ []) :
    ∃ batch queue, batch ≠ [] ∧ batch ++ queue = audio.frameQueue ∧
      audio.fetchDynamic maxBatch = some (batch, { audio with frameQueue := queue }) := by
  obtain ⟨frame, queue, frames⟩ := List.exists_cons_of_ne_nil waiting
  have positive := maxBatch.positive
  obtain ⟨left, size⟩ : ∃ left, min maxBatch.size audio.frameQueue.length = left + 1 := by
    refine ⟨min maxBatch.size audio.frameQueue.length - 1, ?_⟩
    rw [frames, List.length_cons]
    omega
  have taken := takeFrames_first audio.segSample left frame queue
  rw [← size, ← frames] at taken
  refine ⟨_, _, taken, takeFrames_append audio.segSample _ 0 0 _, ?_⟩
  simp only [fetchDynamic, if_neg taken]

end Audio

/-! ## The results -/

/-- The results of the batches, one `Forward` after the other. -/
def Forward.runAll (forward : Forward σ ρ) (decoder : σ) : List (List Item) → List ρ
  | [] => []
  | batch :: rest =>
    (forward.run decoder batch).1 ++ forward.runAll (forward.run decoder batch).2 rest

theorem Forward.length_runAll (forward : Forward σ ρ) (decoder : σ) (batches : List (List Item)) :
    (forward.runAll decoder batches).length = batches.flatten.length := by
  induction batches generalizing decoder with
  | nil => rfl
  | cons batch rest inductionHypothesis =>
    rw [runAll, List.length_append, forward.length_run, inductionHypothesis, List.flatten_cons,
      List.length_append]

namespace Messages

/-- The results so far are where `index_vector` puts them. -/
structure Stored (messages : Messages ρ) (indexVector : List Nat) (results : List ρ)
    (times : List Rat) : Prop where
  msgIdx : messages.msgIdx = results.length
  timed : times.length = results.length
  inside : results.length ≤ indexVector.length
  msgs : messages.msgs.length = indexVector.length
  msgStimes : messages.msgStimes.length = indexVector.length
  stored : ∀ position index, position < results.length → indexVector[position]? = some index →
    messages.msgs[index]? = results[position]? ∧ messages.msgStimes[index]? = times[position]?

variable {indexVector : List Nat}

theorem Stored.new (empty : ρ) :
    Stored {
      msgs := List.replicate indexVector.length empty
      msgStimes := List.replicate indexVector.length 0 } indexVector [] [] where
  msgIdx := rfl
  timed := rfl
  inside := Nat.zero_le _
  msgs := List.length_replicate
  msgStimes := List.length_replicate
  stored _ _ before _ := absurd before (Nat.not_lt_zero _)

/-- One more result goes to a place of its own. -/
theorem Stored.store {results : List ρ} {times : List Rat} {messages : Messages ρ}
    (stored : messages.Stored indexVector results times) (distinct : indexVector.Nodup)
    (bounded : ∀ index ∈ indexVector, index < indexVector.length)
    (room : results.length < indexVector.length) (msg : ρ) (stime : Rat) :
    ∃ messages', messages.store indexVector msg stime = some messages' ∧
      messages'.Stored indexVector (results ++ [msg]) (times ++ [stime]) := by
  have place : indexVector[messages.msgIdx]? = some indexVector[results.length] := by
    rw [stored.msgIdx, List.getElem?_eq_getElem room]
  have inside := bounded _ (List.getElem_mem room)
  have writable : indexVector[results.length] < messages.msgs.length ∧
      indexVector[results.length] < messages.msgStimes.length := by
    rw [stored.msgs, stored.msgStimes]
    exact ⟨inside, inside⟩
  rw [Messages.store, place]
  refine ⟨_, if_pos writable, ?_⟩
  constructor
  · simp [stored.msgIdx]
  · simp [stored.timed]
  · rw [List.length_append, List.length_singleton]
    omega
  · simp [stored.msgs]
  · simp [stored.msgStimes]
  · intro position index before found
    rw [List.length_append, List.length_singleton] at before
    by_cases last : position = results.length
    · subst last
      rw [List.getElem?_eq_getElem room] at found
      cases found
      rw [List.getElem?_set_self writable.1, List.getElem?_set_self writable.2,
        List.getElem?_concat_length, ← stored.timed, List.getElem?_concat_length]
      exact ⟨rfl, rfl⟩
    · have earlier : position < results.length := by omega
      -- Two positions of `index_vector` never hold the same index.
      have other : indexVector[results.length] ≠ index := by
        intro same
        obtain ⟨within, found⟩ := List.getElem?_eq_some_iff.mp found
        rw [← found] at same
        exact last ((distinct.getElem_inj_iff).mp same).symm
      rw [List.getElem?_set_ne other, List.getElem?_set_ne other,
        List.getElem?_append_left earlier, List.getElem?_append_left (stored.timed ▸ earlier)]
      exact stored.stored position index earlier found

theorem Stored.storeBatch {results : List ρ} {times : List Rat} {messages : Messages ρ}
    (stored : messages.Stored indexVector results times) (distinct : indexVector.Nodup)
    (bounded : ∀ index ∈ indexVector, index < indexVector.length) {msgBatch : List ρ}
    {startTimes : List Rat} (paired : msgBatch.length = startTimes.length)
    (room : results.length + msgBatch.length ≤ indexVector.length) :
    ∃ messages', messages.storeBatch indexVector msgBatch startTimes = some messages' ∧
      messages'.Stored indexVector (results ++ msgBatch) (times ++ startTimes) := by
  induction msgBatch generalizing results times messages startTimes with
  | nil =>
    cases List.length_eq_zero_iff.mp paired.symm
    exact ⟨messages, rfl, by simpa using stored⟩
  | cons msg msgBatch inductionHypothesis =>
    cases startTimes with
    | nil => cases paired
    | cons stime startTimes =>
      rw [List.length_cons] at room
      obtain ⟨next, first, stored'⟩ := stored.store distinct bounded (by omega) msg stime
      obtain ⟨messages', rest, final⟩ := inductionHypothesis stored' (Nat.succ.inj paired) (by
        rw [List.length_append, List.length_singleton]
        omega)
      refine ⟨messages', ?_, by simpa using final⟩
      rw [Messages.storeBatch, first]
      exact rest

end Messages

/-- The frames of the queue are recognised batch by batch, each once. -/
theorem recognise_eq (maxBatch : MaxBatch) (forward : Forward σ ρ) {indexVector : List Nat}
    (distinct : indexVector.Nodup) (bounded : ∀ index ∈ indexVector, index < indexVector.length)
    (count : Nat) (audio : Audio α) (decoder : σ) {results : List ρ} {times : List Rat}
    {messages : Messages ρ} (stored : messages.Stored indexVector results times)
    (enough : audio.frameQueue.length ≤ count)
    (room : results.length + audio.frameQueue.length = indexVector.length) :
    ∃ batches messages', batches.flatten = audio.frameQueue.map AudioFrame.item ∧
      recognise maxBatch forward indexVector audio decoder messages count = some messages' ∧
      messages'.Stored indexVector (results ++ forward.runAll decoder batches)
        (times ++ audio.frameQueue.map audio.startTime) := by
  -- On the turns still allowed; a batch is never empty, so the queue gets shorter.
  induction count generalizing audio decoder results times messages with
  | zero =>
    have done := List.length_eq_zero_iff.mp (Nat.le_zero.mp enough)
    refine ⟨[], messages, by simp [done], ?_, by simpa [done, Forward.runAll] using stored⟩
    rw [recognise, Audio.fetchDynamic_none done]
    rfl
  | succ count inductionHypothesis =>
    by_cases done : audio.frameQueue = []
    · refine ⟨[], messages, by simp [done], ?_, by simpa [done, Forward.runAll] using stored⟩
      rw [recognise, Audio.fetchDynamic_none done]
    · obtain ⟨batch, queue, nonempty, frames, fetched⟩ := Audio.fetchDynamic_some maxBatch done
      have length := congrArg List.length frames
      have positive := List.length_pos_iff.mpr nonempty
      rw [List.length_append] at length
      have answered := forward.length_run decoder (batch.map AudioFrame.item)
      rw [List.length_map] at answered
      have paired : (forward.run decoder (batch.map AudioFrame.item)).1.length =
          (batch.map audio.startTime).length := by rw [answered, List.length_map]
      obtain ⟨next, first, stored'⟩ := stored.storeBatch distinct bounded paired (by omega)
      obtain ⟨batches, messages', flat, rest, final⟩ := inductionHypothesis
        { audio with frameQueue := queue } (forward.run decoder (batch.map AudioFrame.item)).2 stored'
        (by simp only; omega) (by simp only [List.length_append]; omega)
      refine ⟨batch.map AudioFrame.item :: batches, messages', ?_, ?_, ?_⟩
      · rw [List.flatten_cons, flat, ← frames, List.map_append]
      · rw [recognise, fetched]
        simp only [first, Option.bind_eq_bind, Option.bind_some]
        exact rest
      · rw [Forward.runAll, ← frames, List.map_append, ← List.append_assoc, ← List.append_assoc]
        exact final

/-! ## Reassembly -/

/-- A segment as `Forward` gets it. -/
def Audio.item (audio : Audio α) (segment : VadSegment) : Item where
  start := segment.1 * audio.segSample
  len := (segment.2 - segment.1) * audio.segSample

/-- The messages are those of the segments in order of time, each of which was an item of one
    batch.  `index_vector` tells where. -/
structure Reassembled (audio : Audio α) (segments : List VadSegment) (batches : List (List Item))
    (results : List ρ) (indexVector : List Nat) (messages : Messages ρ) : Prop where
  permutation : indexVector.Perm (List.range segments.length)
  once : batches.flatten.Perm (segments.map audio.item)
  msgs : messages.msgs.length = segments.length
  msgStimes : messages.msgStimes.length = segments.length
  placed : ∀ (index : Nat) (segment : VadSegment), segments[index]? = some segment →
    ∃ (position : Nat) (result : ρ), indexVector[position]? = some index ∧
      batches.flatten[position]? = some (audio.item segment) ∧ results[position]? = some result ∧
      messages.msgs[index]? = some result ∧
      messages.msgStimes[index]? =
        some (Library.roundQuotient 24 (segment.1 * audio.segSample) audio.destSampleRate)

/-- The lookups of `index_vector`, when the queue holds the frames in its order. -/
theorem Messages.Stored.reassembled {audio : Audio α} {segments : List VadSegment}
    {frames sorted : List AudioFrame} {indexVector : List Nat} {batches : List (List Item)}
    {results : List ρ} {messages : Messages ρ}
    (framed : frames = segments.map fun segment => audio.frame segment.1 segment.2)
    (nonneg : ∀ segment ∈ segments, 0 ≤ segment.1)
    (permutation : indexVector.Perm (List.range frames.length))
    (mapped : (indexVector.mapM fun index => frames[index]?) = some sorted)
    (flat : batches.flatten = sorted.map AudioFrame.item) (answered : results.length = sorted.length)
    (stored : messages.Stored indexVector results (sorted.map audio.startTime)) :
    Reassembled audio segments batches results indexVector messages := by
  have length : sorted.length = indexVector.length := length_of_mapM mapped
  have count : indexVector.length = frames.length := permutation.length_eq.trans List.length_range
  have segmentCount : frames.length = segments.length := by rw [framed, List.length_map]
  have frameOf : ∀ segment ∈ segments, audio.frame segment.1 segment.2 =
      ⟨segment.1 * audio.segSample, segment.2 * audio.segSample,
        (segment.2 - segment.1) * audio.segSample⟩ :=
    fun segment member => audio.frame_eq (nonneg segment member)
  constructor
  · rw [← segmentCount]
    exact permutation
  · have items : frames.map AudioFrame.item = segments.map audio.item := by
      rw [framed, List.map_map]
      exact List.map_congr_left fun segment member => congrArg AudioFrame.item (frameOf segment member)
    rw [flat, ← items]
    exact (mapM_getElem?_perm permutation mapped).map _
  · rw [stored.msgs, count, segmentCount]
  · rw [stored.msgStimes, count, segmentCount]
  -- A segment's frame is found where `index_vector` names it, and so is its result.
  · intro index segment found
    have inside := (List.getElem?_eq_some_iff.mp found).1
    have member : index ∈ indexVector :=
      permutation.mem_iff.mpr (List.mem_range.mpr (segmentCount ▸ inside))
    obtain ⟨position, place⟩ := List.mem_iff_getElem?.mp member
    have frameFound : sorted[position]? = some (audio.frame segment.1 segment.2) := by
      rw [getElem?_of_mapM mapped, place, Option.bind_some, framed, List.getElem?_map, found]
      rfl
    have before : position < results.length := by
      rw [answered, length]
      exact (List.getElem?_eq_some_iff.mp place).1
    obtain ⟨msg, stime⟩ := stored.stored position index before place
    refine ⟨position, results[position], place, ?_, List.getElem?_eq_getElem before,
      by rw [msg, List.getElem?_eq_getElem before], ?_⟩
    · rw [flat, List.getElem?_map, frameFound, frameOf segment (List.mem_of_getElem? found)]
      rfl
    · rw [stime, List.getElem?_map, frameFound, frameOf segment (List.mem_of_getElem? found)]
      rfl

/-- What an offline call does with its recording and with the answers to it. -/
structure Recognises (std : StdSort) (infer : VadInfer ν α) (vad : ν) (maxBatch : MaxBatch)
    (forward : Forward σ ρ) (decoder : σ) (empty : ρ) (audio : Audio α)
    (answers segments : List VadSegment) : Prop where
  fed : ∃ cut,
    Audio.pieces audio.destSampleRate audio.speechData 0 audio.speechData.length = some cut ∧
      FedOnce audio.speechData cut ∧ Audio.inferAll infer vad cut = some answers
  reassembled : ∃ batches indexVector messages,
    inferMessages std infer vad maxBatch forward decoder empty audio = some (indexVector, messages) ∧
      Reassembled audio segments batches (forward.runAll decoder batches) indexVector messages

/-- Every segment is recognised once, and its result and start time stand in its place. -/
theorem inferMessages_reassembled (std : StdSort) (infer : VadInfer ν α) (vad : ν)
    (maxBatch : MaxBatch) (forward : Forward σ ρ) (decoder : σ) (empty : ρ) {destSampleRate : Nat}
    (enough : 1000 ≤ destSampleRate) {speechData : List α} (nonempty : speechData ≠ [])
    {answers segments : List VadSegment}
    (answered : (Audio.load destSampleRate enough speechData).vadSegments infer vad = some answers)
    (names : Names 0 answers segments) :
    Recognises std infer vad maxBatch forward decoder empty
      (Audio.load destSampleRate enough speechData) answers segments := by
  generalize loaded : Audio.load destSampleRate enough speechData = audio at answered
  have one : audio.frameQueue.length = 1 := by rw [← loaded]; rfl
  have held : audio.speechData ≠ [] := by rw [← loaded]; exact nonempty
  obtain ⟨cut, cutUp, fed⟩ := audio.pieces_fedOnce held
  -- The detector is fed every sample once, and every segment it names is recognised once.
  constructor
  · refine ⟨cut, cutUp, fed, ?_⟩
    rw [← answered, Audio.vadSegments, cutUp]
    rfl
  · obtain ⟨sorted, mapped, split⟩ := audio.cutSplit_eq std infer vad one answered
    have framed := audio.vadFrames_eq names le_rfl
    generalize audio.vadFrames (-1) (-1) answers = frames at mapped split framed
    have permutation := Audio.indexVector_perm std frames
    generalize Audio.indexVector std frames = indexVector at mapped split permutation
    have length : sorted.length = indexVector.length := length_of_mapM mapped
    have bounded : ∀ index ∈ indexVector, index < indexVector.length := by
      intro index member
      have inside := List.mem_range.mp (permutation.mem_iff.mp member)
      rwa [permutation.length_eq, List.length_range]
    obtain ⟨batches, messages, flat, recognised, stored⟩ := recognise_eq maxBatch forward
      (permutation.nodup_iff.mpr List.nodup_range) bounded sorted.length
      { audio with frameQueue := sorted } decoder (Messages.Stored.new empty) le_rfl
      (by simpa using length)
    refine ⟨batches, indexVector, messages, ?_, ?_⟩
    · rw [inferMessages, split]
      simp only [Option.bind_eq_bind, Option.bind_some, recognised]
      rfl
    · have answeredAll : (forward.runAll decoder batches).length = sorted.length := by
        rw [forward.length_runAll, flat, List.length_map]
      exact Messages.Stored.reassembled framed (names.nonneg le_rfl) permutation mapped flat
        answeredAll stored

/-- A sort that `std::sort` may be. -/
def StdSort.insertion : StdSort where
  sort lt indices := indices.insertionSort fun a b => lt b a = false
  perm lt indices := List.perm_insertionSort _ indices
  sorted key indices := by
    have total : Std.Total fun a b => decide (key b < key a) = false :=
      ⟨fun a b => by simpa using le_total (key a) (key b)⟩
    have trans : IsTrans Nat fun a b => decide (key b < key a) = false :=
      ⟨fun a b c first second => by simp only [decide_eq_false_iff_not, not_lt] at *; omega⟩
    simpa using List.pairwise_insertionSort (fun a b => decide (key b < key a) = false) indices

/-- Two segments of three samples at 1 kHz, the second one longer. -/
def lastTwo : VadInfer Unit Unit :=
  fun vad _ isFinal => some (if isFinal then [(0, 1), (1, -1), (-1, 3)] else [], vad)

def echo : Forward Unit Int := ⟨fun decoder batch => (batch.map Item.len, decoder), by simp⟩

theorem inferMessages_reassembled_lastTwo :
    Recognises StdSort.insertion lastTwo () ⟨4, by decide⟩ echo () 0
      (Audio.load 1000 le_rfl [(), (), ()]) [(0, 1), (1, -1), (-1, 3)] [(0, 1), (1, 3)] :=
  inferMessages_reassembled _ _ _ _ _ _ _ _ (List.cons_ne_nil _ _) rfl
    (.whole (by decide) (by decide) (.split (by decide) (by decide) .nil))

end Asr2Pass.Offline
