import Asr2Pass.Server.Recordings
import Asr2Pass.TwoPass.DetectedSession
import Asr2Pass.TwoPass.PcmLoading
import Mathlib.Algebra.Ring.PUnit

/-! # From the messages of a client to its segments

The calls that the server makes are those on which `FunTpassInferBuffer` works.  Since every piece
but the last one has 800 samples, a recording of 16 kHz meets what the detector needs of its calls
as soon as the recording as a whole does.
-/

namespace Asr2Pass.Server

open Library
open TwoPass (AsrType Audio Delivered PcmLoader Ready Recognized Serving TpassBuffer TpassOnlineStream
  VadSegment)
open Vad (Segmenter VadConfig speechConfig speechConfig_scores)

variable {α β δ κ : Type}

/-! ## The calls on a stream -/

/-- The stream is asked for PCM of its own rate. -/
def EngineCall.Plain : EngineCall → Prop
  | .inferBuffer _ _ _ args _ =>
    (args.wavFormat = "pcm" ∨ args.wavFormat = "PCM") ∧ args.audioFs = 16000
  | _ => False

def EngineCall.InTwoPass : EngineCall → Prop
  | .inferBuffer _ _ mode _ _ => mode = .asrTwoPass
  | _ => False

section
variable [Add β] [Mul β] [Field δ] [LinearOrder δ] [Zero α] [Add α] [Mul α]

/-- `FunTpassInferBuffer` up to the calls of the models; it returns a null pointer for another
    format.  `chunkMs` is the length of a chunk of the online model. -/
def funTpassInferBuffer (config : VadConfig α β δ κ) (loader : PcmLoader α) (chunkMs : Nat)
    (positive : 0 < chunkMs) (stream : TpassOnlineStream α β δ κ) :
    EngineCall → Option (Recognized α × TpassOnlineStream α β δ κ)
  | .inferBuffer szBuf inputFinished mode args _ =>
    if args.wavFormat = "pcm" ∨ args.wavFormat = "PCM" then do
      let samples ← loader.speechData args.audioFs.toNat stream.audio.destSampleRate szBuf
      let buffer := { samples, chunkMs, positive, mode, vadTailSil := args.vadTailSil
                      vadMaxLen := args.vadMaxLen }
      stream.inferBuffer config buffer inputFinished
    else some ({}, stream)
  | _ => some ({}, stream)

/-- One call after the other. -/
def inferEach (config : VadConfig α β δ κ) (loader : PcmLoader α) (chunkMs : Nat)
    (positive : 0 < chunkMs) (stream : TpassOnlineStream α β δ κ) :
    List EngineCall → Option (List (Recognized α) × TpassOnlineStream α β δ κ)
  | [] => some ([], stream)
  | call :: rest => do
    let (first, stream) ← funTpassInferBuffer config loader chunkMs positive stream call
    let (others, stream) ← inferEach config loader chunkMs positive stream rest
    return (first :: others, stream)

/-- One call after the other, with one result for each recording. -/
def hear (config : VadConfig α β δ κ) (loader : PcmLoader α) (chunkMs : Nat)
    (positive : 0 < chunkMs) (stream : TpassOnlineStream α β δ κ) (soFar : Recognized α) :
    List EngineCall → Option (List (Recognized α) × TpassOnlineStream α β δ κ)
  | [] => some ([], stream)
  | call :: rest => do
    let (more, stream) ← funTpassInferBuffer config loader chunkMs positive stream call
    if call.piece.2 then
      let (others, stream) ← hear config loader chunkMs positive stream {} rest
      return (soFar.append more :: others, stream)
    else hear config loader chunkMs positive stream (soFar.append more) rest

end

/-! ## The stream of a connection -/

/-- `chunk_len` for a stream of this `chunk_size`, in ms. -/
def chunkMs : List Int → Nat
  | [left, middle, right] =>
    if isInt : ∀ entry ∈ [left, middle, right], -2 ^ 31 ≤ entry ∧ entry < 2 ^ 31 then
      ((({ left, middle, right, isInt } : Online.ChunkSize).chunkLen 10 6 16000).getD 0).toNat / 16
    else 0
  | _ => 0

/-- It is 60 ms for each row of a chunk. -/
theorem chunkMs_eq {left middle right : Int} (feeds : Feeds [left, middle, right]) :
    chunkMs [left, middle, right] = 60 * middle.toNat := by
  obtain ⟨isInt, usable⟩ := feeds
  have positive := usable.positive
  have int := usable.int
  have len : ({ left, middle, right, isInt } : Online.ChunkSize).chunkLen 10 6 16000 =
      some (960 * middle) :=
    Online.chunkLen_eq_some_iff.mpr ⟨by omega, int, rfl⟩
  have samples : (960 * middle : Int) = 60 * middle.toNat * (16000 / 1000 : Nat) :=
    Online.chunkLen_eq (by rw [Int.toNat_of_nonneg positive.le]) len
  rw [chunkMs, dif_pos isInt, len, Option.getD_some]
  omega

theorem chunkMs_pos {chunkSize : List Int} (feeds : Feeds chunkSize) : 0 < chunkMs chunkSize := by
  match chunkSize, feeds with
  | [left, middle, right], feeds =>
    rw [chunkMs_eq feeds]
    obtain ⟨isInt, usable⟩ := feeds
    have positive := usable.positive
    simp only at positive
    omega

section
variable [Add β] [Mul β] [Field δ] [LinearOrder δ] [Zero α] [Add α] [Mul α]

/-- What the calls of a connection make of its stream, which is new and is cut in chunks of its
    `chunk_size`. -/
def Connection.heard (config : VadConfig α β δ κ) (loader : PcmLoader α) (audio : Audio α)
    (connection : Connection) : Option (List (Recognized α) × TpassOnlineStream α β δ κ) :=
  connection.tpassOnlineHandle.bind fun chunkSize =>
    if feeds : Feeds chunkSize then
      hear config loader (chunkMs chunkSize) (chunkMs_pos feeds)
        { vadOnlineHandle := config.newInt, audio := audio.resetIndex } {} connection.inferences
    else none

theorem heard_eq (config : VadConfig α β δ κ) (loader : PcmLoader α) (audio : Audio α)
    {connection : Connection} {chunkSize : List Int}
    (stream : connection.tpassOnlineHandle = some chunkSize) (feeds : Feeds chunkSize) :
    connection.heard config loader audio =
      hear config loader (chunkMs chunkSize) (chunkMs_pos feeds)
        { vadOnlineHandle := config.newInt, audio := audio.resetIndex } {} connection.inferences := by
  rw [Connection.heard, stream, Option.bind_some, dif_pos feeds]

end

/-! ## The samples of the pieces -/

theorem samples_append (loader : PcmLoader α) {first : List Byte} (even : 2 ∣ first.length)
    (second : List Byte) :
    loader.samples (first ++ second) = loader.samples first ++ loader.samples second := by
  fun_induction loader.samples first with
  | case1 low high rest inductionHypothesis =>
    rw [List.length_cons, List.length_cons] at even
    rw [List.cons_append, List.cons_append, PcmLoader.samples, inductionHypothesis (by omega),
      List.cons_append]
  | case2 rest short =>
    cases rest with
    | nil => rfl
    | cons low rest =>
      cases rest with
      | nil =>
        rw [List.length_singleton] at even
        omega
      | cons high rest => exact absurd rfl (short low high rest)

/-- Samples of 50 ms make three frames. -/
theorem enough_800 {config : VadConfig α β δ κ} (khz : config.khz = 16) {samples : List α}
    (long : 800 ≤ samples.length) : config.Enough samples := by
  obtain ⟨below, -⟩ :=
    Frontend.computeFrameNum_spec (Vad.framing config.khz config.pos) samples.length
  right
  rw [VadConfig.frames]
  simp only [Vad.framing, khz] at below ⊢
  omega

/-- As many samples as calls on these pieces may pass to the scorer. -/
def samplesPassed (config : VadConfig α β δ κ) (loader : PcmLoader α)
    (pieces : List (List Byte × Bool)) : Nat :=
  (pieces.map fun piece => config.passes (loader.samples piece.1)).sum

theorem samplesPassed_nil (config : VadConfig α β δ κ) (loader : PcmLoader α) :
    samplesPassed config loader [] = 0 := rfl

theorem samplesPassed_cons (config : VadConfig α β δ κ) (loader : PcmLoader α)
    (piece : List Byte × Bool) (pieces : List (List Byte × Bool)) :
    samplesPassed config loader (piece :: pieces) =
      config.passes (loader.samples piece.1) + samplesPassed config loader pieces := by
  rw [samplesPassed, List.map_cons, List.sum_cons]
  rfl

theorem samplesPassed_append (config : VadConfig α β δ κ) (loader : PcmLoader α)
    (pieces others : List (List Byte × Bool)) :
    samplesPassed config loader (pieces ++ others) =
      samplesPassed config loader pieces + samplesPassed config loader others := by
  rw [samplesPassed, List.map_append, List.sum_append]
  rfl

/-- The pieces of a recording pass on its samples, and 65 ms for each of them. -/
theorem samplesPassed_pieces (config : VadConfig α β δ κ) (loader : PcmLoader α) (bytes : List Byte) :
    samplesPassed config loader (pieces true bytes) =
      bytes.length / 2 + 65 * config.khz * (bytes.length / (800 * 2) + 1) := by
  induction bytes using pieces.induct true with
  | case1 bytes long inductionHypothesis =>
    have steps : bytes.length / (800 * 2) = (bytes.length - 800 * 2) / (800 * 2) + 1 := by omega
    rw [pieces_long long, samplesPassed_cons, inductionHypothesis, VadConfig.passes,
      loader.length_samples, List.length_take, List.length_drop, Nat.min_eq_left long, steps,
      Nat.mul_succ (65 * config.khz) (_ + 1)]
    omega
  | case2 bytes short final =>
    have few : bytes.length < 800 * 2 := by omega
    rw [pieces_short few, if_pos rfl, samplesPassed_cons, samplesPassed_nil, VadConfig.passes,
      loader.length_samples, Nat.div_eq_of_lt few, Nat.zero_add, Nat.mul_one, Nat.add_zero]
  | case3 bytes short more => exact absurd rfl more

theorem few_800 {config : VadConfig α β δ κ} (khz : config.khz = 16) {loader : PcmLoader α}
    {bytes : List Byte} (few : bytes.length ≤ 800 * 2) :
    (loader.samples bytes).length ≤ 5 * (10 * config.khz) := by
  rw [khz, loader.length_samples]
  omega

variable [Add β] [Mul β] [Field δ] [LinearOrder δ] [Zero α] [Add α] [Mul α]
  {config : VadConfig α β δ κ} {loader : PcmLoader α} {chunkMs : Nat} {positive : 0 < chunkMs}

theorem funTpassInferBuffer_plain {stream : TpassOnlineStream α β δ κ}
    (rate : stream.audio.destSampleRate = 16000) {call : EngineCall} (plain : call.Plain) :
    ∃ mode vadTailSil vadMaxLen, (call.InTwoPass → mode = .asrTwoPass) ∧
      funTpassInferBuffer config loader chunkMs positive stream call =
        stream.inferBuffer config
          { samples := loader.samples call.piece.1, chunkMs, positive, mode, vadTailSil, vadMaxLen }
          call.piece.2 := by
  cases call with
  | inferBuffer szBuf inputFinished mode args hotwordsEmbedding =>
    obtain ⟨format, audioFs⟩ := plain
    refine ⟨mode, args.vadTailSil, args.vadMaxLen, id, ?_⟩
    rw [funTpassInferBuffer, if_pos format, PcmLoader.speechData, audioFs, rate, if_neg (by decide)]
    rfl
  | _ => exact plain.elim

/-! ## A recording -/

/-- A recording that has come in pieces of 50 ms at most. -/
structure Served (khz chunkMs : Nat) (waveform : List α) (twoPass : Prop) (result : Recognized α) :
    Prop where
  delivered : Delivered khz waveform twoPass result
  sized : result.Sized (chunkMs * khz) (47 * (10 * khz))
  long : result.LongSegments

omit [Add β] [Mul β] [Field δ] [LinearOrder δ] [Zero α] [Add α] [Mul α] in
theorem delivered_imp {khz : Nat} {waveform : List α} {twoPass twoPass' : Prop}
    {result : Recognized α} (delivered : Delivered khz waveform twoPass result)
    (weaker : twoPass' → twoPass) : Delivered khz waveform twoPass' result := by
  obtain ⟨closed, opened, joined, inside, apart, handed⟩ := delivered.delivered
  exact ⟨closed, opened, joined, inside, apart, fun both => handed (weaker both)⟩

omit [Add β] [Mul β] [Field δ] [LinearOrder δ] [Zero α] [Add α] [Mul α] in
theorem Served.imp {khz : Nat} {waveform : List α} {twoPass twoPass' : Prop}
    {result : Recognized α} (served : Served khz chunkMs waveform twoPass result)
    (weaker : twoPass' → twoPass) : Served khz chunkMs waveform twoPass' result :=
  ⟨delivered_imp served.delivered weaker, served.sized, served.long⟩

omit [Add β] [Mul β] [Field δ] [LinearOrder δ] [Zero α] [Add α] [Mul α] in
theorem few_13 {bytes : List Byte} (few : (loader.samples bytes).length ≤ 5 * (10 * config.khz)) :
    (loader.samples bytes).length ≤ 13 * (10 * config.khz) :=
  few.trans (Nat.mul_le_mul_right _ (by decide))

/-- The rest of a recording, from where the stream is in it: no call queues two segments. -/
theorem inferEach_recording (khz : config.khz = 16) (scores : config.Scores) (bytes : List Byte)
    {stream : TpassOnlineStream α β δ κ} {samples : List α} {twoPass : Prop} {soFar : Recognized α}
    {segmenter : Segmenter} {rows ahead : Nat} {complete : List VadSegment}
    (serving : Serving config stream samples twoPass soFar segmenter rows complete
      (samplesPassed config loader (pieces true bytes) + ahead))
    (sized : soFar.Sized (chunkMs * config.khz) (47 * (10 * config.khz)))
    (enough : 800 ≤ samples.length ∨ config.Enough (samples ++ loader.samples bytes))
    {calls : List EngineCall} (passed : calls.map EngineCall.piece = pieces true bytes)
    (plain : ∀ call ∈ calls, call.Plain) :
    ∃ each stream', inferEach config loader chunkMs positive stream calls = some (each, stream') ∧
      Ready config stream' ahead ∧ Served config.khz chunkMs (samples ++ loader.samples bytes)
        (twoPass ∧ ∀ call ∈ calls, call.InTwoPass) (each.foldl Recognized.append soFar) ∧
      ((twoPass ∧ ∀ call ∈ calls, call.InTwoPass) → ∀ heard ∈ each, heard.offline.length ≤ 1) := by
  induction bytes using pieces.induct true generalizing stream samples twoPass soFar segmenter rows
    complete calls with
  | case1 bytes long inductionHypothesis =>
    rw [pieces_long long] at passed serving
    rw [samplesPassed_cons, Nat.add_assoc] at serving
    obtain ⟨call, others, rfl, first, later⟩ := List.map_eq_cons_iff.mp passed
    obtain ⟨here, there⟩ := List.forall_mem_cons.mp plain
    obtain ⟨mode, vadTailSil, vadMaxLen, both, called⟩ :=
      @funTpassInferBuffer_plain _ _ _ _ _ _ _ _ _ _ _ config loader chunkMs positive stream
        (by rw [serving.rate, khz]) call here
    rw [first] at called
    -- The piece has 800 samples, which are enough from here on.
    have whole : (bytes.take (800 * 2)).length = 800 * 2 := by
      rw [List.length_take, Nat.min_eq_left long]
    have count : 800 ≤ (samples ++ loader.samples (bytes.take (800 * 2))).length := by
      rw [List.length_append, loader.length_samples, whole]
      omega
    have split : loader.samples bytes =
        loader.samples (bytes.take (800 * 2)) ++ loader.samples (bytes.drop (800 * 2)) := by
      rw [← samples_append loader (by rw [whole]; decide), List.take_append_drop]
    obtain ⟨added, stream', segmenter', rows', complete', inferred, serving'⟩ :=
      serving.inferBuffer scores
        ⟨loader.samples (bytes.take (800 * 2)), chunkMs, positive, mode, vadTailSil, vadMaxLen⟩
        (enough_800 khz count)
    have few := @few_800 _ _ _ _ _ khz loader _ whole.le
    have sized' := serving.sized scores _ (enough_800 khz count) inferred few
    obtain ⟨each, stream'', returned, ready, served, single⟩ :=
      inductionHypothesis serving' (sized.append sized') (.inl count) later there
    have allOf : (twoPass ∧ ∀ other ∈ call :: others, other.InTwoPass) →
        (twoPass ∧ mode = .asrTwoPass) ∧ ∀ other ∈ others, other.InTwoPass := by
      rintro ⟨before, all⟩
      obtain ⟨one, rest⟩ := List.forall_mem_cons.mp all
      exact ⟨⟨before, both one⟩, rest⟩
    refine ⟨added :: each, stream'', ?_, ready, ?_, fun all => ?_⟩
    · simp only [inferEach, called, inferred, returned, Option.bind_eq_bind, Option.bind_some,
        Option.pure_def]
    · rw [split, ← List.append_assoc]
      exact served.imp allOf
    · refine List.forall_mem_cons.mpr ⟨?_, single (allOf all)⟩
      exact serving.single scores _ (enough_800 khz count) inferred (few_13 few) (allOf all).1
  | case2 bytes short final =>
    have few : bytes.length < 800 * 2 := by omega
    rw [pieces_short few, if_pos rfl] at passed serving
    rw [samplesPassed_cons, samplesPassed_nil, Nat.add_zero] at serving
    obtain ⟨call, rfl, first⟩ := List.map_eq_singleton_iff.mp passed
    have here := plain call (List.mem_singleton_self call)
    obtain ⟨mode, vadTailSil, vadMaxLen, both, called⟩ :=
      @funTpassInferBuffer_plain _ _ _ _ _ _ _ _ _ _ _ config loader chunkMs positive stream
        (by rw [serving.rate, khz]) call here
    rw [first] at called
    have all : config.Enough (samples ++ loader.samples bytes) := by
      obtain long | all := enough
      · exact enough_800 khz (by rw [List.length_append]; omega)
      · exact all
    obtain ⟨added, stream', inferred, delivered, long, ready⟩ := serving.inferBuffer_last scores
      ⟨loader.samples bytes, chunkMs, positive, mode, vadTailSil, vadMaxLen⟩ all
    have few' := @few_800 _ _ _ _ _ khz loader _ few.le
    have sized' := serving.sized scores _ all inferred few'
    have allOf : (twoPass ∧ ∀ other ∈ [call], other.InTwoPass) → twoPass ∧ mode = .asrTwoPass :=
      fun modes => ⟨modes.1, both (modes.2 call (List.mem_singleton_self call))⟩
    refine ⟨[added], stream', ?_, ready, ⟨?_, sized.append sized', long⟩, fun modes => ?_⟩
    · simp only [inferEach, called, inferred, Option.bind_eq_bind, Option.bind_some,
        Option.pure_def]
    · exact delivered_imp delivered allOf
    · intro heard member
      obtain rfl := List.mem_singleton.mp member
      exact serving.single scores _ all inferred (few_13 few') (allOf modes)
  | case3 bytes short more => exact absurd rfl more

theorem inferEach_cons {stream stream' : TpassOnlineStream α β δ κ} {call : EngineCall}
    {calls : List EngineCall} {each : List (Recognized α)}
    (inferred : inferEach config loader chunkMs positive stream (call :: calls) =
      some (each, stream')) :
    ∃ first middle others,
      funTpassInferBuffer config loader chunkMs positive stream call = some (first, middle) ∧
      inferEach config loader chunkMs positive middle calls = some (others, stream') ∧
      each = first :: others := by
  simp only [inferEach, Option.bind_eq_bind, Option.bind_eq_some_iff] at inferred
  obtain ⟨⟨first, middle⟩, called, ⟨others, last⟩, later, same⟩ := inferred
  cases same
  exact ⟨first, middle, others, called, later, rfl⟩

theorem inferEach_append {stream stream' : TpassOnlineStream α β δ κ} {calls : List EngineCall}
    {each : List (Recognized α)}
    (inferred : inferEach config loader chunkMs positive stream calls = some (each, stream'))
    (rest : List EngineCall) :
    inferEach config loader chunkMs positive stream (calls ++ rest) =
      (inferEach config loader chunkMs positive stream' rest).map fun (others, stream) =>
        (each ++ others, stream) := by
  induction calls generalizing stream each with
  | nil =>
    cases inferred
    exact Option.map_id'.symm
  | cons call calls inductionHypothesis =>
    obtain ⟨first, middle, others, called, later, rfl⟩ := inferEach_cons inferred
    simp only [List.cons_append, inferEach, called, inductionHypothesis later, Option.bind_eq_bind,
      Option.bind_some]
    cases inferEach config loader chunkMs positive stream' rest <;> rfl

theorem inferEach_length {stream stream' : TpassOnlineStream α β δ κ} {calls : List EngineCall}
    {each : List (Recognized α)}
    (inferred : inferEach config loader chunkMs positive stream calls = some (each, stream')) :
    each.length = calls.length := by
  induction calls generalizing stream each with
  | nil =>
    cases inferred
    rfl
  | cons call calls inductionHypothesis =>
    obtain ⟨first, middle, others, called, later, rfl⟩ := inferEach_cons inferred
    rw [List.length_cons, List.length_cons, inductionHypothesis later]

/-- The calls of a recording make one result. -/
theorem hear_recording (bytes : List Byte) {stream stream' : TpassOnlineStream α β δ κ}
    {calls : List EngineCall} (passed : calls.map EngineCall.piece = pieces true bytes)
    {each : List (Recognized α)}
    (inferred : inferEach config loader chunkMs positive stream calls = some (each, stream'))
    (soFar : Recognized α) (rest : List EngineCall) :
    hear config loader chunkMs positive stream soFar (calls ++ rest) =
      (hear config loader chunkMs positive stream' {} rest).map fun (others, stream) =>
        (each.foldl Recognized.append soFar :: others, stream) := by
  induction bytes using pieces.induct true generalizing stream soFar calls each with
  | case1 bytes long inductionHypothesis =>
    rw [pieces_long long] at passed
    obtain ⟨call, others, rfl, first, later⟩ := List.map_eq_cons_iff.mp passed
    obtain ⟨added, middle, more, called, returned, rfl⟩ := inferEach_cons inferred
    rw [List.cons_append, hear, called, Option.bind_eq_bind, Option.bind_some, first]
    exact inductionHypothesis later returned (soFar.append added)
  | case2 bytes short final =>
    rw [pieces_short (by omega), if_pos rfl] at passed
    obtain ⟨call, rfl, first⟩ := List.map_eq_singleton_iff.mp passed
    obtain ⟨added, middle, more, called, returned, rfl⟩ := inferEach_cons inferred
    cases returned
    rw [List.cons_append, List.nil_append, hear, called, Option.bind_eq_bind, Option.bind_some,
      first]
    simp only [if_true]
    cases hear config loader chunkMs positive stream' {} rest <;> rfl
  | case3 bytes short more => exact absurd rfl more

theorem inferEach_recordings (khz : config.khz = 16) (scores : config.Scores)
    {recordings : List (List Byte)} {stream : TpassOnlineStream α β δ κ} {ahead : Nat}
    (ready : Ready config stream
      (samplesPassed config loader (recordings.flatMap (pieces true)) + ahead))
    (enough : ∀ bytes ∈ recordings, config.Enough (loader.samples bytes)) {calls : List EngineCall}
    (passed : calls.map EngineCall.piece = recordings.flatMap (pieces true))
    (plain : ∀ call ∈ calls, call.Plain) :
    ∃ (recorded : List (List (Recognized α))) (stream' : _),
      inferEach config loader chunkMs positive stream calls = some (recorded.flatten, stream') ∧
      hear config loader chunkMs positive stream {} calls =
        some (recorded.map (List.foldl Recognized.append {}), stream') ∧
      List.Forall₂ (fun bytes each => each.length = (pieces true bytes).length ∧
        Served config.khz chunkMs (loader.samples bytes) (∀ call ∈ calls, call.InTwoPass)
          (each.foldl Recognized.append {})) recordings recorded ∧
      ((∀ call ∈ calls, call.InTwoPass) → ∀ heard ∈ recorded.flatten, heard.offline.length ≤ 1) := by
  induction recordings generalizing stream calls with
  | nil =>
    obtain rfl := List.map_eq_nil_iff.mp passed
    exact ⟨[], stream, rfl, rfl, .nil, nofun⟩
  | cons bytes recordings inductionHypothesis =>
    obtain ⟨first, others, rfl, here, there⟩ := List.map_eq_append_iff.mp passed
    have plainHere : ∀ call ∈ first, call.Plain := fun call member =>
      plain call (List.mem_append_left others member)
    rw [List.flatMap_cons, samplesPassed_append, Nat.add_assoc] at ready
    obtain ⟨each, stream', returned, ready', served, single⟩ :=
      @inferEach_recording _ _ _ _ _ _ _ _ _ _ _ config loader chunkMs positive khz scores bytes _ _ _
        _ _ _ _ _ ready nofun (.inr (enough bytes List.mem_cons_self)) first here plainHere
    obtain ⟨recorded, stream'', rest, heard, all, singles⟩ := inductionHypothesis ready'
      (fun bytes member => enough bytes (List.mem_cons_of_mem _ member)) there
      (fun call member => plain call (List.mem_append_right first member))
    have allOf : (∀ call ∈ first ++ others, call.InTwoPass) →
        True ∧ ∀ call ∈ first, call.InTwoPass := fun both =>
      ⟨trivial, fun call member => both call (List.mem_append_left others member)⟩
    refine ⟨each :: recorded, stream'', ?_, ?_, .cons ?_ ?_, fun both => ?_⟩
    · rw [inferEach_append returned, rest]
      rfl
    · rw [hear_recording bytes here returned, heard]
      rfl
    · rw [List.nil_append] at served
      refine ⟨?_, served.imp allOf⟩
      rw [inferEach_length returned, ← here, List.length_map]
    · exact all.imp fun bytes result served => ⟨served.1,
        served.2.imp fun both call member => both call (List.mem_append_right first member)⟩
    · rw [List.flatten_cons, List.forall_mem_append]
      exact ⟨single (allOf both),
        singles fun call member => both call (List.mem_append_right first member)⟩

theorem hear_recordings (khz : config.khz = 16) (scores : config.Scores)
    {recordings : List (List Byte)} {stream : TpassOnlineStream α β δ κ}
    (ready : Ready config stream (samplesPassed config loader (recordings.flatMap (pieces true))))
    (enough : ∀ bytes ∈ recordings, config.Enough (loader.samples bytes)) {calls : List EngineCall}
    (passed : calls.map EngineCall.piece = recordings.flatMap (pieces true))
    (plain : ∀ call ∈ calls, call.Plain) :
    ∃ results stream', hear config loader chunkMs positive stream {} calls = some (results, stream') ∧
      List.Forall₂ (fun bytes result => Served config.khz chunkMs (loader.samples bytes)
        (∀ call ∈ calls, call.InTwoPass) result) recordings results := by
  obtain ⟨recorded, stream', -, heard, all, -⟩ :=
    inferEach_recordings khz scores (show Ready config stream (_ + 0) from ready) enough passed plain
  exact ⟨_, stream', heard,
    List.forall₂_map_right_iff.mpr (all.imp fun bytes each served => served.2)⟩

/-! ## A run -/

/-- Whatever messages a client of 16 kHz sends and however the threads of the server take turns: the
    detector and `Split` accept every call that the server makes, and each recording is served as a
    whole, with the segments that the detector closes in it handed to the recognizers once.  Only
    the length of a whole recording counts; no protocol between the calls is left to assume. -/
theorem run_serves (khz : config.khz = 16) (scores : config.Scores) (audio : Audio α)
    (rate : audio.destSampleRate = 1000 * config.khz) (frameQueue : audio.frameQueue = [])
    (onlineQueue : audio.asrOnlineQueue = []) (offlineQueue : audio.asrOfflineQueue = [])
    {engine : Engine} {events : List Step} {connection : Connection}
    (ran : run (step engine) (onOpen engine) events = some connection)
    (meets : Meets (step engine) (fun connection event => OpenSession engine connection event ∧
      Returns event ∧ KeepsAudio connection event) (onOpen engine) events)
    (alive : connection.terminated = false) (idle : connection.pending = 0)
    (handled : connection.inflight = none) (ended : (recordings engine (messages events)).2 = [])
    {chunkSize : List Int} (stream : connection.tpassOnlineHandle = some chunkSize)
    (feeds : Feeds chunkSize) (plain : ∀ call ∈ connection.inferences, call.Plain)
    (enough : ∀ bytes ∈ (recordings engine (messages events)).1,
      config.Enough (loader.samples bytes))
    (few : samplesPassed config loader
      ((recordings engine (messages events)).1.flatMap (pieces true)) < 2 ^ 31) :
    ∃ results stream', connection.heard config loader audio = some (results, stream') ∧
      List.Forall₂ (fun bytes result => Delivered config.khz (loader.samples bytes)
        (∀ call ∈ connection.inferences, call.InTwoPass) result)
        (recordings engine (messages events)).1 results := by
  obtain ⟨frames, begun, posted, inTurn, cut⟩ := Connection.Cut.run ran meets alive
  obtain ⟨results, stream', heard, all⟩ := hear_recordings khz scores
    (.new config audio rate frameQueue onlineQueue offlineQueue few) enough
    (inTurn.passed cut idle handled ended) plain
  rw [heard_eq config loader audio stream feeds]
  exact ⟨results, stream', heard, all.imp fun bytes result served => served.delivered⟩

/-- Samples that are all the same. -/
def unitLoader : PcmLoader Unit where
  scaled _ := ()
  filter _ _ := { firstIndex := fun _ => 0, weights := fun _ => [], windowWidthTicks := 0
                  maxRemainderNeeded := 0 }

instance : (call : EngineCall) → Decidable (call.Plain ∧ call.InTwoPass)
  | .inferBuffer _ _ mode args _ =>
    inferInstanceAs (Decidable ((((args.wavFormat = "pcm" ∨ args.wavFormat = "PCM") ∧
      args.audioFs = 16000) ∧ mode = .asrTwoPass)))
  | .loadHwsRes _ | .onlineInit _ | .uninit => .isFalse fun both => both.1

theorem longEvents_plain {connection : Connection}
    (ran : run (step sessionEngine) (onOpen sessionEngine) longEvents = some connection) :
    connection.tpassOnlineHandle = some [5, 10, 5] ∧
      ∀ call ∈ connection.inferences, call.Plain ∧ call.InTwoPass := by
  have checked : (run (step sessionEngine) (onOpen sessionEngine) longEvents).all fun connection =>
      connection.tpassOnlineHandle = some [5, 10, 5] ∧
        ∀ call ∈ connection.inferences, call.Plain ∧ call.InTwoPass := by
    decide +kernel
  exact of_decide_eq_true ((Option.all_eq_true _ _).mp checked connection ran)

theorem longEvents_enough : ∀ bytes ∈ (recordings sessionEngine (messages longEvents)).1,
    speechConfig.Enough (unitLoader.samples bytes) := by
  rw [longEvents_recordings]
  intro bytes member
  obtain rfl | member := List.mem_cons.mp member
  · exact .inl speechConfig.frames_nil
  · rw [List.mem_singleton.mp member]
    refine enough_800 rfl ?_
    rw [unitLoader.length_samples, List.length_append, List.length_replicate, List.length_replicate]
    decide

theorem longEvents_few : samplesPassed speechConfig unitLoader
    ((recordings sessionEngine (messages longEvents)).1.flatMap (pieces true)) < 2 ^ 31 := by
  rw [longEvents_recordings, List.flatMap_cons, List.flatMap_singleton, samplesPassed_append,
    samplesPassed_pieces, samplesPassed_pieces, List.length_append, List.length_replicate,
    List.length_replicate]
  decide

theorem run_serves_longEvents : ∃ connection,
    run (step sessionEngine) (onOpen sessionEngine) longEvents = some connection ∧
    ∃ results stream', connection.heard speechConfig unitLoader TwoPass.sixteenKhz =
        some (results, stream') ∧
      List.Forall₂ (fun bytes result => Delivered speechConfig.khz (unitLoader.samples bytes)
        (∀ call ∈ connection.inferences, call.InTwoPass) result)
        (recordings sessionEngine (messages longEvents)).1 results := by
  obtain ⟨connection, ran, alive, idle, handled⟩ := longEvents_run
  obtain ⟨stream, plain⟩ := longEvents_plain ran
  exact ⟨connection, ran, run_serves rfl speechConfig_scores TwoPass.sixteenKhz rfl rfl rfl rfl ran
    longEvents_meets alive idle handled longEvents_ended stream (by decide)
    (fun call member => (plain call member).1) longEvents_enough longEvents_few⟩

end Asr2Pass.Server
