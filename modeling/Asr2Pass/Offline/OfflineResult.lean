import Asr2Pass.Library.Intervals
import Asr2Pass.Offline.DetectedSegments
import Asr2Pass.Offline.FetchDynamic
import Asr2Pass.TwoPass.TpassInfer
import Mathlib.Data.Int.ConditionallyCompleteOrder

/-! # The result of an offline request

`FunOfflineInferBuffer` recognizes the segments in batches, the shorter ones first, and then puts
their texts and timestamps into one result.  The batches do not show in it: it is the result of
taking one segment after the other in order of time.
-/

namespace Asr2Pass.Offline

open Library Vad
open Text (CString bytes splitStr)
open Timestamps (Span Stamp IsSpan spanText vectorToString parseTimestamps timestampSmooth
  timestampSentence funOfflineInferBufferRead offlineSum readMessage readStamps)
open TwoPass (VadSegment toInt toInt_floor toMs)

/-- What is done with the text: whether `lang` is `en-bpe`, `AddPunc` where there is a model, and
    `Normalize` where both `UseITN()` and the argument ask for it. -/
structure TextModels where
  enBpe : Bool
  addPunc : Option (CString → CString)
  normalize : Option (CString → CString)

/-- `FUNASR_RECOG_RESULT`. -/
structure OfflineResult where
  snippetTime : ℚ
  msg : CString := []
  stamp : CString := []
  stampSents : CString := []

namespace TextModels

/-- `p_result->msg` with one more text. -/
def addText (models : TextModels) (msg text : CString) : CString :=
  (if models.enBpe && msg ≠ [] then msg ++ bytes " " else msg) ++ text

/-- A turn of the loop over `msgs`: `p_result->msg`, and `cur_stamp`. -/
def addMessage (models : TextModels) (result : CString × CString) (message : CString × ℚ) :
    Option (CString × CString) :=
  if splitStr message.1 (bytes " | ") = [] then some result
  else do
    let (text, pairs) ← funOfflineInferBufferRead message.2 message.1
    let spans ← pairs.mapM toMs
    return (models.addText result.1 text,
      result.2 ++ spans.flatMap fun span => spanText span ++ bytes ",")

def addMessages (models : TextModels) (result : CString × CString) :
    List (CString × ℚ) → Option (CString × CString)
  | [] => some result
  | message :: rest => do models.addMessages (← models.addMessage result message) rest

/-- The inverse text normalization, which also fits the timestamps to the new text. -/
def rewrite (models : TextModels) (msg stamp : CString) : Option (CString × CString) :=
  match models.normalize with
  | none => some (msg, stamp)
  | some normalize =>
    (if stamp = [] then some [] else timestampSmooth msg (normalize msg) stamp).map fun newStamp =>
      (normalize msg, if newStamp = [] then stamp else newStamp)

/-- From the messages to the result. -/
def assemble (models : TextModels) (snippetTime : ℚ) (messages : List (CString × ℚ)) :
    Option OfflineResult := do
  let (msg, curStamp) ← models.addMessages ([], bytes "[") messages
  let stamp := if curStamp = bytes "[" then [] else curStamp.dropLast ++ bytes "]"
  let punctuated := models.addPunc.elim msg fun addPunc => addPunc (msg.takeWhile (· ≠ 0))
  let (msg, stamp) ← models.rewrite punctuated stamp
  let stampSents ← if stamp = [] then some [] else timestampSentence msg stamp
  return { snippetTime, msg, stamp, stampSents }

end TextModels

variable {α β δ κ σ : Type}

/-- Samples in seconds, in `float`. -/
def seconds (sampleRate : Nat) (samples : Int) : ℚ := roundQuotient 24 samples sampleRate

def Audio.getTimeLen (audio : Audio α) : ℚ := seconds audio.destSampleRate audio.speechData.length

section
variable [Add β] [Mul β] [Field δ] [LinearOrder δ]

/-- The messages of the segments, or of the whole recording where no detector is used. -/
def offlineMessages (std : StdSort) (config : VadConfig α β δ κ) (useVad : Bool)
    (maxBatch : MaxBatch) (forward : Forward σ CString) (decoder : σ) (audio : Audio α) :
    Option (Messages CString) :=
  if useVad then
    (inferMessages std (onlineInfer config) config.newInt maxBatch forward decoder [] audio).map
      Prod.snd
  else
    recognise maxBatch forward [0] audio decoder { msgs := [[]], msgStimes := [0] }
      audio.frameQueue.length

/-- `FunOfflineInferBuffer` of a recording that is loaded. -/
def funOfflineInferBuffer (std : StdSort) (config : VadConfig α β δ κ) (useVad : Bool)
    (models : TextModels) (maxBatch : MaxBatch) (forward : Forward σ CString) (decoder : σ)
    (audio : Audio α) : Option OfflineResult :=
  if audio.getTimeLen = 0 then some { snippetTime := audio.getTimeLen }
  else do
    let messages ← offlineMessages std config useVad maxBatch forward decoder audio
    models.assemble audio.getTimeLen (messages.msgs.zip messages.msgStimes)

end

/-! ## The batches do not show -/

/-- Every result depends on its item only. -/
def Forward.PerItem (forward : Forward σ CString) (recognizer : Item → CString) : Prop :=
  ∀ decoder batch, (forward.run decoder batch).1 = batch.map recognizer

theorem Forward.PerItem.runAll {forward : Forward σ CString} {recognizer : Item → CString}
    (perItem : forward.PerItem recognizer) (decoder : σ) (batches : List (List Item)) :
    forward.runAll decoder batches = batches.flatten.map recognizer := by
  induction batches generalizing decoder with
  | nil => rfl
  | cons batch rest inductionHypothesis =>
    rw [Forward.runAll, perItem, inductionHypothesis, List.flatten_cons, List.map_append]

/-- The loop leaves the messages in the order of the frames that `index_vector` names. -/
theorem recognise_perItem {forward : Forward σ CString} {recognizer : Item → CString}
    (perItem : forward.PerItem recognizer) (maxBatch : MaxBatch) (audio : Audio α) (decoder : σ)
    {frames : List AudioFrame} {indexVector : List Nat}
    (permutation : indexVector.Perm (List.range frames.length))
    (queued : audio.frameQueue.map some = indexVector.map fun index => frames[index]?) :
    recognise maxBatch forward indexVector audio decoder
        { msgs := List.replicate indexVector.length []
          msgStimes := List.replicate indexVector.length 0 } audio.frameQueue.length =
      some {
        msgs := frames.map fun frame => recognizer frame.item
        msgStimes := frames.map audio.startTime
        msgIdx := frames.length } := by
  have size : indexVector.length = frames.length := by
    rw [permutation.length_eq, List.length_range]
  have waiting : audio.frameQueue.length = indexVector.length := by
    have lengths := congrArg List.length queued
    rwa [List.length_map, List.length_map] at lengths
  have bounded : ∀ index ∈ indexVector, index < indexVector.length := by
    intro index member
    rw [size]
    exact List.mem_range.mp (permutation.mem_iff.mp member)
  obtain ⟨batches, messages, flat, recognised, stored⟩ := recognise_eq maxBatch forward
    (permutation.nodup_iff.mpr List.nodup_range) bounded audio.frameQueue.length audio decoder
    (Messages.Stored.new []) le_rfl (by simpa using waiting)
  rw [recognised]
  rw [List.nil_append, List.nil_append, perItem.runAll, flat, List.map_map] at stored
  have msgIdx := stored.msgIdx
  rw [List.length_map, waiting, size] at msgIdx
  -- Every index of a frame is somewhere in `index_vector`.
  have placed : ∀ index < frames.length,
      messages.msgs[index]? = (frames[index]?).map (fun frame => recognizer frame.item) ∧
        messages.msgStimes[index]? = (frames[index]?).map audio.startTime := by
    intro index inside
    obtain ⟨position, place⟩ := List.mem_iff_getElem?.mp
      (permutation.mem_iff.mpr (List.mem_range.mpr inside))
    have before := (List.getElem?_eq_some_iff.mp place).1
    have frame := congrArg (fun list => list[position]?) queued
    simp only [List.getElem?_map, place, Option.map_some] at frame
    have found : audio.frameQueue[position]? = frames[index]? := by
      cases queue : audio.frameQueue[position]? with
      | none => rw [queue] at frame; cases frame
      | some here => rw [queue] at frame; exact Option.some.inj frame
    obtain ⟨msg, stime⟩ := stored.stored position index (by rw [List.length_map]; omega) place
    rw [msg, stime, List.getElem?_map, List.getElem?_map, found]
    exact ⟨rfl, rfl⟩
  have lengths := stored.msgs.trans size
  have lengths' := stored.msgStimes.trans size
  obtain ⟨msgs, msgStimes, count⟩ := messages
  simp only at msgIdx placed lengths lengths' ⊢
  subst msgIdx
  congr 2
  · refine List.ext_getElem? fun index => ?_
    by_cases inside : index < frames.length
    · rw [(placed index inside).1, List.getElem?_map]
    · rw [List.getElem?_eq_none (by omega), List.getElem?_eq_none (by rw [List.length_map]; omega)]
  · refine List.ext_getElem? fun index => ?_
    by_cases inside : index < frames.length
    · rw [(placed index inside).2, List.getElem?_map]
    · rw [List.getElem?_eq_none (by omega), List.getElem?_eq_none (by rw [List.length_map]; omega)]

/-- The frame of a segment. -/
def Audio.segmentFrame (audio : Audio α) (segment : VadSegment) : AudioFrame :=
  ⟨segment.1 * audio.segSample, segment.2 * audio.segSample,
    (segment.2 - segment.1) * audio.segSample⟩

section
variable [Add β] [Mul β] [Field δ] [LinearOrder δ]

/-- Frames of samples of the recording, one after the other: those of the segments that the detector
    names, or one of the whole recording. -/
structure Utterances (config : VadConfig α β δ κ) (useVad : Bool) (audio : Audio α)
    (frames : List AudioFrame) : Prop where
  inside : ∀ frame ∈ frames,
    0 ≤ frame.start ∧ 0 < frame.len ∧ frame.start + frame.len ≤ audio.speechData.length
  apart : frames.Pairwise fun earlier later => earlier.start + earlier.len ≤ later.start
  whole : useVad = false → frames = audio.frameQueue
  named : useVad = true → ∃ answers segments,
    audio.vadSegments (onlineInfer config) config.newInt = some answers ∧ Names 0 answers segments ∧
      frames = segments.map audio.segmentFrame

variable {config : VadConfig α β δ κ}

/-- The messages are those of the segments in order of time. -/
theorem offlineMessages_eq (scores : config.Scores) (enough : 1000 ≤ 1000 * config.khz)
    {speechData : List α} (nonempty : speechData ≠ []) {useVad : Bool}
    (some : useVad = true → config.Enough speechData)
    (few : useVad = true → cutPasses config speechData < 2 ^ 31) :
    ∃ frames, Utterances config useVad (Audio.load (1000 * config.khz) enough speechData) frames ∧
      ∀ (std : StdSort) (maxBatch : MaxBatch) (forward : Forward σ CString)
        (recognizer : Item → CString) (decoder : σ), forward.PerItem recognizer →
        offlineMessages std config useVad maxBatch forward decoder
            (Audio.load (1000 * config.khz) enough speechData) =
          Option.some {
            msgs := frames.map fun frame => recognizer frame.item
            msgStimes := frames.map (Audio.load (1000 * config.khz) enough speechData).startTime
            msgIdx := frames.length } := by
  have length := List.length_pos_iff.mpr nonempty
  cases useVad with
  | false =>
    refine ⟨[{ len := speechData.length }],
      ⟨?_, List.pairwise_singleton _ _, fun _ => rfl, nofun⟩, ?_⟩
    · intro frame member
      rw [List.mem_singleton.mp member]
      change 0 ≤ (0 : Int) ∧ (0 : Int) < (speechData.length : Int) ∧
        (0 : Int) + (speechData.length : Int) ≤ (speechData.length : Int)
      omega
    · intro std maxBatch forward recognizer decoder perItem
      exact recognise_perItem perItem maxBatch _ decoder (List.Perm.refl _) rfl
  | true =>
    obtain ⟨answers, segments, heard, names, inside, apart⟩ :=
      detected scores enough nonempty (some rfl) (few rfl)
    generalize loaded : Audio.load (1000 * config.khz) enough speechData = audio at *
    have held : audio.speechData = speechData := by rw [← loaded]; rfl
    have one : audio.frameQueue.length = 1 := by rw [← loaded]; rfl
    have rate : 0 < audio.segSample := Nat.div_pos audio.enough (by decide)
    refine ⟨segments.map audio.segmentFrame,
      ⟨?_, ?_, nofun, fun _ => ⟨answers, segments, heard, names, rfl⟩⟩, ?_⟩
    · intro frame member
      obtain ⟨segment, named, rfl⟩ := List.mem_map.mp member
      obtain ⟨nonneg, longer, within⟩ := inside segment named
      refine ⟨mul_nonneg nonneg (by omega), mul_pos (by omega) (by omega), ?_⟩
      rw [held]
      simp only [Audio.segmentFrame]
      linarith
    · rw [List.pairwise_map]
      refine apart.imp fun {earlier later} before => ?_
      have scaled := mul_le_mul_of_nonneg_right before (Int.natCast_nonneg audio.segSample)
      simp only [Audio.segmentFrame]
      linarith
    · intro std maxBatch forward recognizer decoder perItem
      obtain ⟨sorted, mapped, split⟩ := Audio.cutSplit_eq std _ _ _ one heard
      have cut := cutInto_of_names std names (held ▸ inside) apart mapped
      generalize Audio.indexVector std (audio.vadFrames (-1) (-1) answers) = indexVector at split cut
      have queued : sorted.map Option.some =
          indexVector.map fun index => (segments.map audio.segmentFrame)[index]? := by
        rw [cut.frames]
        refine List.map_congr_left fun index _ => ?_
        rw [List.getElem?_map]
        rfl
      have recognised := recognise_perItem perItem maxBatch { audio with frameQueue := sorted }
        decoder (by rw [List.length_map]; exact cut.permutation) queued
      simp only [offlineMessages, inferMessages, split, if_true, Option.bind_eq_bind,
        Option.bind_some, recognised]
      rfl

/-- A recording with samples has a result. -/
theorem funOfflineInferBuffer_messages {std : StdSort} (enough : 1000 ≤ 1000 * config.khz)
    {speechData : List α} (nonempty : speechData ≠ []) {useVad : Bool} (models : TextModels)
    {maxBatch : MaxBatch} {forward : Forward σ CString} {recognizer : Item → CString} {decoder : σ}
    {frames : List AudioFrame}
    (messages : offlineMessages std config useVad maxBatch forward decoder
        (Audio.load (1000 * config.khz) enough speechData) = some {
      msgs := frames.map fun frame => recognizer frame.item
      msgStimes := frames.map (Audio.load (1000 * config.khz) enough speechData).startTime
      msgIdx := frames.length }) :
    funOfflineInferBuffer std config useVad models maxBatch forward decoder
        (Audio.load (1000 * config.khz) enough speechData) =
      models.assemble (seconds (1000 * config.khz) speechData.length)
        (frames.map fun frame =>
          (recognizer frame.item, seconds (1000 * config.khz) frame.start)) := by
  have length := List.length_pos_iff.mpr nonempty
  have rate := config.pos
  have long : (Audio.load (1000 * config.khz) enough speechData).getTimeLen ≠ 0 := by
    have samples : (0 : Int) < speechData.length := Int.natCast_pos.mpr length
    have hertz : (0 : Int) < (1000 * config.khz : Nat) := Int.natCast_pos.mpr (by omega)
    exact (roundQuotient_pos (by decide) samples hertz).ne'
  rw [funOfflineInferBuffer, if_neg long, messages]
  simp only [Option.bind_eq_bind, Option.bind_some, List.zip_map']
  rfl

/-- The result of an offline request is that of one segment after the other, whatever the batches
    are and however `std::sort` orders segments of one length. -/
theorem funOfflineInferBuffer_eq (scores : config.Scores) (enough : 1000 ≤ 1000 * config.khz)
    {speechData : List α} (nonempty : speechData ≠ []) {useVad : Bool}
    (some : useVad = true → config.Enough speechData)
    (few : useVad = true → cutPasses config speechData < 2 ^ 31) (models : TextModels) :
    ∃ frames, Utterances config useVad (Audio.load (1000 * config.khz) enough speechData) frames ∧
      ∀ (std : StdSort) (maxBatch : MaxBatch) (forward : Forward σ CString)
        (recognizer : Item → CString) (decoder : σ), forward.PerItem recognizer →
        funOfflineInferBuffer std config useVad models maxBatch forward decoder
            (Audio.load (1000 * config.khz) enough speechData) =
          models.assemble (seconds (1000 * config.khz) speechData.length)
            (frames.map fun frame =>
              (recognizer frame.item, seconds (1000 * config.khz) frame.start)) := by
  obtain ⟨frames, utterances, messages⟩ :=
    @offlineMessages_eq _ _ _ _ σ _ _ _ _ _ scores enough _ nonempty _ some few
  exact ⟨frames, utterances, fun std maxBatch forward recognizer decoder perItem =>
    funOfflineInferBuffer_messages enough nonempty models
      (messages std maxBatch forward recognizer decoder perItem)⟩

/-- A recognizer that hears the same in every item. -/
def hears (message : CString) : Forward Unit CString where
  run decoder batch := (batch.map fun _ => message, decoder)
  length_run := by simp

theorem funOfflineInferBuffer_eq_hears : ∃ frames,
    Utterances speechConfig true (Audio.load 16000 (by decide) (List.replicate 20000 ())) frames ∧
      ∀ (std : StdSort) (maxBatch : MaxBatch) (forward : Forward Unit CString)
        (recognizer : Item → CString) (decoder : Unit), forward.PerItem recognizer →
        funOfflineInferBuffer std speechConfig true ⟨false, none, none⟩ maxBatch forward decoder
            (Audio.load 16000 (by decide) (List.replicate 20000 ())) =
          TextModels.assemble ⟨false, none, none⟩
            (seconds (1000 * speechConfig.khz) (List.replicate 20000 ()).length)
            (frames.map fun frame =>
              (recognizer frame.item, seconds (1000 * speechConfig.khz) frame.start)) :=
  funOfflineInferBuffer_eq speechConfig_scores (by decide) (by decide) (fun _ => enough_20000)
    (fun _ => cutPasses_20000) _

end

/-! ## The timestamps -/

/-- What is read of a part of the recording is in order, and lies in the part. -/
def Timed (sampleRate : Nat) (size : Int) (recognizer : Item → CString) : Prop :=
  ∀ frame : AudioFrame, 0 ≤ frame.start → 0 < frame.len → frame.start + frame.len ≤ size →
    ∃ text pairs, funOfflineInferBufferRead (seconds sampleRate frame.start)
        (recognizer frame.item) = some (text, pairs) ∧
      Fits (seconds sampleRate frame.start) (seconds sampleRate (frame.start + frame.len)) pairs

theorem seconds_mono (sampleRate : Nat) : Monotone (seconds sampleRate) := fun _ _ le =>
  roundQuotient_mono (by decide) le (Int.natCast_nonneg _)

theorem seconds_nonneg {sampleRate : Nat} {samples : Int} (nonneg : 0 ≤ samples) :
    0 ≤ seconds sampleRate samples :=
  roundQuotient_nonneg nonneg (Int.natCast_nonneg _)

/-- Milliseconds. -/
def wholeMs (time : ℚ) : Int := ⌊toFloat (1000 * time)⌋

theorem wholeMs_mono : Monotone wholeMs := fun _ _ le =>
  Int.floor_mono (monotone_toFloat (mul_le_mul_of_nonneg_left le (by norm_num)))

theorem mapM_toMs {lo hi : ℚ} {pairs : List Stamp} (fits : Fits lo hi pairs) (nonneg : 0 ≤ lo)
    (short : wholeMs hi < 2 ^ 31) : pairs.mapM toMs = some (pairs.map (Prod.map wholeMs wholeMs)) := by
  have within := (fits_iff_inOrder.mp fits).2.2
  have convert : ∀ x ∈ endpoints pairs, toInt (toFloat (1000 * x)) = some (wholeMs x) := by
    intro x member
    obtain ⟨low, high⟩ := within x member
    have less := (wholeMs_mono high).trans_lt short
    refine toInt_floor (roundBinary_nonneg (by linarith)) ?_
    have below := Int.floor_lt.mp less
    exact_mod_cast below
  clear fits within
  induction pairs with
  | nil => rfl
  | cons pair pairs inductionHypothesis =>
    have first := convert pair.1 (by simp [endpoints])
    have second := convert pair.2 (by simp [endpoints])
    have rest := inductionHypothesis fun x member =>
      convert x (List.mem_append_right _ member)
    simp only [List.mapM_cons, toMs, first, second, rest, Option.bind_eq_bind, Option.bind_some,
      Option.pure_def]
    rfl

section
variable (models : TextModels) {sampleRate : Nat} {recognizer : Item → CString} {size : Int}

/-- The message of one frame. -/
theorem addMessage_fits (timed : Timed sampleRate size recognizer) {frame : AudioFrame}
    (nonneg : 0 ≤ frame.start) (long : 0 < frame.len) (inside : frame.start + frame.len ≤ size)
    (short : wholeMs (seconds sampleRate size) < 2 ^ 31) (msg curStamp : CString) :
    ∃ text spans, models.addMessage (msg, curStamp)
        (recognizer frame.item, seconds sampleRate frame.start) =
          some (models.addText msg text,
            curStamp ++ spans.flatMap fun span => spanText span ++ bytes ",") ∧
      Fits (wholeMs (seconds sampleRate frame.start))
        (wholeMs (seconds sampleRate (frame.start + frame.len))) spans := by
  obtain ⟨text, pairs, read, fits⟩ := timed frame nonneg long inside
  have less := (wholeMs_mono (seconds_mono sampleRate inside)).trans_lt short
  refine ⟨text, _, ?_, fits.map wholeMs_mono⟩
  simp only [TextModels.addMessage, if_neg (Text.splitStr_ne_nil _ _), read,
    mapM_toMs fits (seconds_nonneg nonneg) less, Option.bind_eq_bind, Option.bind_some,
    Option.pure_def]

/-- The messages of frames that follow one another. -/
theorem addMessages_fits (timed : Timed sampleRate size recognizer)
    (short : wholeMs (seconds sampleRate size) < 2 ^ 31) {frames : List AudioFrame} {lo : Int}
    (nonneg : 0 ≤ lo) (bounds : lo ≤ size)
    (inside : ∀ frame ∈ frames, lo ≤ frame.start ∧ 0 < frame.len ∧ frame.start + frame.len ≤ size)
    (apart : frames.Pairwise fun earlier later => earlier.start + earlier.len ≤ later.start)
    (msg curStamp : CString) :
    ∃ msg' spans, models.addMessages (msg, curStamp)
        (frames.map fun frame => (recognizer frame.item, seconds sampleRate frame.start)) =
          some (msg', curStamp ++ spans.flatMap fun span => spanText span ++ bytes ",") ∧
      Fits (wholeMs (seconds sampleRate lo)) (wholeMs (seconds sampleRate size)) spans := by
  induction frames generalizing lo msg curStamp with
  | nil =>
    refine ⟨msg, [], by simp [TextModels.addMessages], ?_⟩
    rw [fits_iff_within]
    exact ⟨wholeMs_mono (seconds_mono sampleRate bounds), ⟨by simp, List.isChain_nil⟩, by simp⟩
  | cons frame frames inductionHypothesis =>
    obtain ⟨early, long, before⟩ := inside frame List.mem_cons_self
    obtain ⟨behind, apart'⟩ := List.pairwise_cons.mp apart
    obtain ⟨text, own, first, fits⟩ := addMessage_fits models timed (nonneg.trans early) long before
      short msg curStamp
    obtain ⟨msg', spans, later, fits'⟩ := @inductionHypothesis (frame.start + frame.len) (by omega)
      before (fun other member =>
        ⟨behind other member, (inside other (List.mem_cons_of_mem _ member)).2⟩)
      apart' (models.addText msg text)
      (curStamp ++ own.flatMap fun span => spanText span ++ bytes ",")
    refine ⟨msg', own ++ spans, ?_, ?_⟩
    · rw [List.map_cons, TextModels.addMessages, first, Option.bind_eq_bind, Option.bind_some, later,
        List.flatMap_append, List.append_assoc]
    · have begins : Fits (wholeMs (seconds sampleRate lo))
          (wholeMs (seconds sampleRate frame.start)) ([] : List Span) := by
        rw [fits_iff_within]
        exact ⟨wholeMs_mono (seconds_mono sampleRate early), ⟨by simp, List.isChain_nil⟩, by simp⟩
      exact (begins.append le_rfl fits).append le_rfl fits'

/-- What `FunOfflineInferBuffer` makes of `cur_stamp`. -/
theorem stamp_eq (spans : List Span) :
    (if bytes "[" ++ (spans.flatMap fun span => spanText span ++ bytes ",") = bytes "[" then []
      else (bytes "[" ++ spans.flatMap fun span => spanText span ++ bytes ",").dropLast ++ bytes "]") =
        vectorToString spans true := by
  cases spans with
  | nil => rfl
  | cons span spans =>
    have there : ((span :: spans).flatMap fun span => spanText span ++ bytes ",") ≠ [] := by
      rw [List.flatMap_cons, List.append_assoc]
      exact List.append_ne_nil_of_right_ne_nil _ (List.cons_ne_nil _ _)
    rw [if_neg fun wrong => there (List.append_cancel_left (wrong.trans (List.append_nil _).symm)),
      List.dropLast_append_of_ne_nil there,
      TwoPass.TpassResult.flatMap_dropLast (List.cons_ne_nil _ _), vectorToString,
      if_neg fun empty => absurd empty.1 (List.cons_ne_nil _ _)]

theorem assemble_fits (timed : Timed sampleRate size recognizer)
    (short : wholeMs (seconds sampleRate size) < 2 ^ 31) {frames : List AudioFrame} (bounds : 0 ≤ size)
    (inside : ∀ frame ∈ frames, 0 ≤ frame.start ∧ 0 < frame.len ∧ frame.start + frame.len ≤ size)
    (apart : frames.Pairwise fun earlier later => earlier.start + earlier.len ≤ later.start)
    (plain : models.normalize = none) (snippetTime : ℚ) :
    ∃ result spans, models.assemble snippetTime
        (frames.map fun frame => (recognizer frame.item, seconds sampleRate frame.start)) =
          some result ∧
      parseTimestamps result.stamp = some spans ∧ Fits 0 (wholeMs (seconds sampleRate size)) spans := by
  obtain ⟨msg, spans, added, fits⟩ := addMessages_fits models timed short le_rfl bounds inside apart []
    (bytes "[")
  have begins : wholeMs (seconds sampleRate 0) = 0 := by
    simp [wholeMs, toFloat, seconds, roundQuotient, roundBinary_zero]
  rw [begins] at fits
  have areSpans : ∀ span ∈ spans, IsSpan span := by
    intro span member
    obtain ⟨-, -, within⟩ := fits_iff_inOrder.mp fits
    have first := within span.1 (mem_endpoints.mpr ⟨span, member, .inl rfl⟩)
    have last := within span.2 (mem_endpoints.mpr ⟨span, member, .inr rfl⟩)
    unfold IsSpan Timestamps.IsInt
    omega
  have read := Timestamps.parseTimestamps_vectorToString areSpans true
  simp only [TextModels.assemble, added, Option.bind_eq_bind, Option.bind_some, stamp_eq,
    TextModels.rewrite, plain, Option.pure_def]
  by_cases empty : vectorToString spans true = []
  · rw [if_pos empty]
    exact ⟨_, spans, rfl, read, fits⟩
  · rw [if_neg empty, Timestamps.timestampSentence_eq read]
    exact ⟨_, spans, rfl, read, fits⟩

end

/-- The timestamps of the result are in order over all segments, and lie in the recording. -/
theorem funOfflineInferBuffer_inOrder [Add β] [Mul β] [Field δ] [LinearOrder δ]
    {config : VadConfig α β δ κ} (scores : config.Scores) (enough : 1000 ≤ 1000 * config.khz)
    {speechData : List α} (nonempty : speechData ≠ []) {useVad : Bool}
    (some : useVad = true → config.Enough speechData)
    (few : useVad = true → cutPasses config speechData < 2 ^ 31) {models : TextModels}
    (plain : models.normalize = none) {recognizer : Item → CString}
    (timed : Timed (1000 * config.khz) speechData.length recognizer)
    (short : wholeMs (seconds (1000 * config.khz) speechData.length) < 2 ^ 31) (std : StdSort)
    (maxBatch : MaxBatch) {forward : Forward σ CString} (perItem : forward.PerItem recognizer)
    (decoder : σ) :
    ∃ result spans, funOfflineInferBuffer std config useVad models maxBatch forward decoder
        (Audio.load (1000 * config.khz) enough speechData) = Option.some result ∧
      parseTimestamps result.stamp = Option.some spans ∧
      Fits 0 (wholeMs (seconds (1000 * config.khz) speechData.length)) spans := by
  obtain ⟨frames, utterances, messages⟩ :=
    @offlineMessages_eq _ _ _ _ σ _ _ _ _ _ scores enough _ nonempty _ some few
  obtain ⟨result, spans, assembled, read, fits⟩ := assemble_fits models timed short
    (Int.natCast_nonneg _) utterances.inside utterances.apart plain
    (seconds (1000 * config.khz) speechData.length)
  refine ⟨result, spans, ?_, read, fits⟩
  rw [funOfflineInferBuffer_messages enough nonempty models
    (messages std maxBatch forward recognizer decoder perItem)]
  exact assembled

/-- A time of zero in every segment. -/
theorem timed_hears (size : Int) : Timed 16000 size fun _ => bytes "hi | 0.0, 0.0" := by
  intro frame nonneg long inside
  have stamps : readStamps true (Text.split (bytes "0.0, 0.0") 44) = some [(0, 0)] := by
    decide +kernel
  have begins : offlineSum (seconds 16000 frame.start) 0 = seconds 16000 frame.start := by
    rw [offlineSum, toFloat, toFloat, roundBinary_zero, zero_add]
    exact roundBinary_roundBinary (by decide) _
  have read : funOfflineInferBufferRead (seconds 16000 frame.start) (bytes "hi | 0.0, 0.0") =
      some (bytes "hi", [(seconds 16000 frame.start, seconds 16000 frame.start)]) := by
    have pieces : splitStr (bytes "hi | 0.0, 0.0") (bytes " | ") = [bytes "hi", bytes "0.0, 0.0"] := by
      decide +kernel
    rw [funOfflineInferBufferRead, readMessage, pieces]
    simp only [stamps, Option.map_some, List.map_cons, List.map_nil, Prod.map, begins]
  refine ⟨_, _, read, ?_⟩
  have ends := seconds_mono 16000 (show frame.start ≤ frame.start + frame.len by omega)
  simpa [Fits, endpoints] using ends

theorem funOfflineInferBuffer_inOrder_hears : ∃ result spans,
    funOfflineInferBuffer StdSort.insertion speechConfig true ⟨false, none, none⟩ ⟨2, by decide⟩
        (hears (bytes "hi | 0.0, 0.0")) ()
        (Audio.load 16000 (by decide) (List.replicate 20000 ())) = some result ∧
      parseTimestamps result.stamp = some spans ∧
      Fits 0 (wholeMs (seconds (1000 * speechConfig.khz) (List.replicate 20000 ()).length)) spans :=
  funOfflineInferBuffer_inOrder speechConfig_scores (by decide) (by decide)
    (fun _ => enough_20000) (fun _ => cutPasses_20000) rfl (timed_hears _)
    (by rw [List.length_replicate]; decide +kernel) _ _ (fun _ _ => rfl) _

end Asr2Pass.Offline
