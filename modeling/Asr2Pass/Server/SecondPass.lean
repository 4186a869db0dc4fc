import Asr2Pass.Server.ServedSpeech
import Asr2Pass.TwoPass.TpassInfer

/-! # The second pass over the segments of a client

`FunTpassInferBuffer` keeps the text of the last segment of a call only, and of two segments with
timestamps it cannot return any.  The server passes 50 ms at most, in which one segment ends at most,
so that no text and no timestamp is lost.
-/

namespace Asr2Pass.Server

open Library
open Text (CString bytes)
open Timestamps (funTpassInferBufferRead readMessage readStamps tpassSum tpassSum_mono)
open TwoPass (Audio AudioFrame Delivered PcmLoader PuncModel Recognized TpassCall TpassOnlineStream
  TpassResult offlineFrame)
open Vad (VadConfig speechConfig speechConfig_scores)

variable {α β δ κ : Type}

/-- What `FunTpassInferBuffer` calls behind the detector: the models of the stream, and
    `asr_handle->Forward` for an utterance that the decoder has just started. -/
structure Recognizers (α : Type) where
  isPara : Bool
  useItn : Bool
  punc : PuncModel
  normalize : CString → CString
  forward : Args → HotwordsEmbedding → List α → List CString

namespace Recognizers

variable (recognizers : Recognizers α)

def tpassCall (args : Args) (inputFinished : Bool) : TpassCall where
  isPara := recognizers.isPara
  itn := recognizers.useItn && args.itn
  inputFinished := inputFinished
  punc := recognizers.punc
  normalize := recognizers.normalize

def segment (args : Args) (hotwordsEmbedding : HotwordsEmbedding) (frame : AudioFrame α) :
    TwoPass.Segment where
  globalStart := frame.globalStart
  msgs := recognizers.forward args hotwordsEmbedding frame.samples

/-- The loop over `FetchTpass`. -/
def recognize (cache : List CString) (frames : List (AudioFrame α)) : EngineCall → Option TpassResult
  | .inferBuffer _ inputFinished _ args hotwordsEmbedding =>
    run (recognizers.tpassCall args inputFinished).step { puncCache := cache }
      (frames.map (recognizers.segment args hotwordsEmbedding))
  | _ => some { puncCache := cache }

/-- What the recognizer answers for the frame can be read, and its timestamps go with its text. -/
def Legible (frame : AudioFrame α) : EngineCall → Prop
  | .inferBuffer _ inputFinished _ args hotwordsEmbedding => ∀ cache,
    (recognizers.tpassCall args inputFinished).OnlyLast cache
      [recognizers.segment args hotwordsEmbedding frame]
  | _ => True

end Recognizers

section
variable [Add β] [Mul β] [Field δ] [LinearOrder δ] [Zero α] [Add α] [Mul α]

/-- `FunTpassInferBuffer` call by call with what it hears and the result of the second pass; none
    where an exception leaves it.  `do_decoder` clears the cache behind the last call of a recording. -/
def secondPass (config : VadConfig α β δ κ) (loader : PcmLoader α) (chunkMs : Nat)
    (positive : 0 < chunkMs) (recognizers : Recognizers α) (stream : TpassOnlineStream α β δ κ)
    (cache : List CString) : List EngineCall → Option (List (Recognized α × TpassResult))
  | [] => some []
  | call :: rest => do
    let (heard, stream) ← funTpassInferBuffer config loader chunkMs positive stream call
    let result ← recognizers.recognize cache heard.offline call
    let others ← secondPass config loader chunkMs positive recognizers stream
      (if call.piece.2 then [] else result.puncCache) rest
    return (heard, result) :: others

/-- What the calls of a connection make of its stream, call by call. -/
def Connection.transcribed (config : VadConfig α β δ κ) (loader : PcmLoader α)
    (recognizers : Recognizers α) (audio : Audio α) (connection : Connection) :
    Option (List (Recognized α × TpassResult)) :=
  connection.tpassOnlineHandle.bind fun chunkSize =>
    if feeds : Feeds chunkSize then
      secondPass config loader (chunkMs chunkSize) (chunkMs_pos feeds) recognizers
        { vadOnlineHandle := config.newInt, audio := audio.resetIndex } [] connection.inferences
    else none

theorem transcribed_eq (config : VadConfig α β δ κ) (loader : PcmLoader α)
    (recognizers : Recognizers α) (audio : Audio α) {connection : Connection} {chunkSize : List Int}
    (stream : connection.tpassOnlineHandle = some chunkSize) (feeds : Feeds chunkSize) :
    connection.transcribed config loader recognizers audio =
      secondPass config loader (chunkMs chunkSize) (chunkMs_pos feeds) recognizers
        { vadOnlineHandle := config.newInt, audio := audio.resetIndex } [] connection.inferences := by
  rw [Connection.transcribed, stream, Option.bind_some, dif_pos feeds]

end

/-! ## One call -/

/-- The result of a call with one segment at most is the text of the segment and its timestamps. -/
structure Recognizes (call : TpassCall) (cache : List CString) (segments : List TwoPass.Segment)
    (result : TpassResult) : Prop where
  single : segments.length ≤ 1
  text : result.tpassMsg = (call.messages cache segments).flatten
  delivers : call.Delivers cache segments result
  puncCache : result.puncCache = call.cacheAfter cache segments

/-- Every call has recognized what it has queued, with the cache that the calls before it left. -/
inductive Transcribed (recognizers : Recognizers α) :
    List CString → List EngineCall → List (Recognized α × TpassResult) → Prop where
  | nil {cache : List CString} : Transcribed recognizers cache [] []
  | cons {cache : List CString} {szBuf : List Byte} {inputFinished : Bool} {mode : TwoPass.AsrType}
      {args : Args} {hotwordsEmbedding : HotwordsEmbedding} {calls : List EngineCall}
      {heard : Recognized α} {result : TpassResult} {others : List (Recognized α × TpassResult)} :
      Recognizes (recognizers.tpassCall args inputFinished) cache
        (heard.offline.map (recognizers.segment args hotwordsEmbedding)) result →
      Transcribed recognizers (if inputFinished then [] else result.puncCache) calls others →
      Transcribed recognizers cache
        (.inferBuffer szBuf inputFinished mode args hotwordsEmbedding :: calls)
        ((heard, result) :: others)

/-- The text and the cache that a turn leaves. -/
theorem step_message {call : TpassCall} {result next : TpassResult} {segment : TwoPass.Segment}
    (stepped : call.step result segment = some next) :
    next.tpassMsg = (call.deliver segment.text result.puncCache).1 ∧
      next.puncCache = (call.deliver segment.text result.puncCache).2 := by
  rw [TpassCall.step_eq] at stepped
  obtain ⟨spans, -, stepped⟩ := Option.bind_eq_some_iff.mp stepped
  obtain ⟨message, set, added⟩ := Option.bind_eq_some_iff.mp stepped
  rw [TpassCall.setMessage_eq] at set
  obtain ⟨stamp, -, rfl⟩ := Option.map_eq_some_iff.mp set
  have same : (result.addSpans spans).appendStamp.puncCache = result.puncCache := by
    unfold TpassResult.appendStamp
    split <;> rfl
  rw [same] at added
  unfold TpassResult.addSentences at added
  split at added
  · cases added
    exact ⟨rfl, rfl⟩
  · obtain ⟨stampSents, -, rfl⟩ := Option.map_eq_some_iff.mp added
    exact ⟨rfl, rfl⟩

theorem run_recognizes {call : TpassCall} {cache : List CString} {segments : List TwoPass.Segment}
    (single : segments.length ≤ 1) (legible : ∀ segment ∈ segments, call.OnlyLast cache [segment]) :
    ∃ result, run call.step { puncCache := cache } segments = some result ∧
      Recognizes call cache segments result := by
  cases segments with
  | nil => exact ⟨_, rfl, single, rfl, ⟨trivial, fun _ => rfl⟩, rfl⟩
  | cons segment others =>
    have none : others = [] := by
      rw [← List.length_eq_zero_iff]
      rw [List.length_cons] at single
      omega
    subst none
    obtain ⟨spans, quiet, empty, read, keeps⟩ := TpassCall.onlyLast_snoc.mp
      (show call.OnlyLast cache ([] ++ [segment]) from legible segment (List.mem_singleton_self _))
    obtain ⟨result, stepped, delivers⟩ :=
      (@TpassCall.deliversLast_iff spans call cache [] segment { puncCache := cache } quiet ⟨rfl, rfl⟩
        rfl read).mpr ⟨empty, keeps⟩
    obtain ⟨text, puncCache⟩ := step_message stepped
    refine ⟨result, ?_, single, ?_, delivers, puncCache⟩
    · rw [run_cons, stepped]
      rfl
    · rw [text]
      exact (List.append_nil _).symm

/-! ## The calls of a client -/

theorem foldl_append_offline (each : List (Recognized α)) (soFar : Recognized α) :
    (each.foldl Recognized.append soFar).offline = soFar.offline ++ each.flatMap Recognized.offline := by
  induction each generalizing soFar with
  | nil => exact (List.append_nil _).symm
  | cons heard each inductionHypothesis =>
    rw [List.foldl_cons, inductionHypothesis, List.flatMap_cons, Recognized.append, List.append_assoc]

/-- Results come in the groups in which what is heard does. -/
theorem exists_flatten_map {ε : Type} {results : List (ε × TpassResult)} {groups : List (List ε)}
    (same : results.map Prod.fst = groups.flatten) :
    ∃ recorded : List (List (ε × TpassResult)), results = recorded.flatten ∧
      recorded.map (List.map Prod.fst) = groups := by
  induction groups generalizing results with
  | nil => exact ⟨[], List.map_eq_nil_iff.mp same, rfl⟩
  | cons group groups inductionHypothesis =>
    obtain ⟨first, rest, rfl, rfl, later⟩ := List.map_eq_append_iff.mp same
    obtain ⟨recorded, rfl, rfl⟩ := inductionHypothesis later
    exact ⟨first :: recorded, rfl, rfl⟩

variable [Add β] [Mul β] [Field δ] [LinearOrder δ] [Zero α] [Add α] [Mul α]
  {config : VadConfig α β δ κ} {loader : PcmLoader α} {chunkMs : Nat} {positive : 0 < chunkMs}
  {recognizers : Recognizers α}

theorem secondPass_inferEach {calls : List EngineCall}
    {stream stream' : TpassOnlineStream α β δ κ} {each : List (Recognized α)}
    (inferred : inferEach config loader chunkMs positive stream calls = some (each, stream'))
    (plain : ∀ call ∈ calls, call.Plain) (single : ∀ heard ∈ each, heard.offline.length ≤ 1)
    (legible : ∀ heard ∈ each, ∀ frame ∈ heard.offline, ∀ call ∈ calls,
      recognizers.Legible frame call) (cache : List CString) :
    ∃ results, secondPass config loader chunkMs positive recognizers stream cache calls =
        some results ∧
      results.map Prod.fst = each ∧ Transcribed recognizers cache calls results := by
  induction calls generalizing stream each cache with
  | nil =>
    cases inferred
    exact ⟨[], rfl, rfl, .nil⟩
  | cons call calls inductionHypothesis =>
    obtain ⟨heard, middle, others, called, later, rfl⟩ := inferEach_cons inferred
    obtain ⟨here, there⟩ := List.forall_mem_cons.mp plain
    obtain ⟨one, ones⟩ := List.forall_mem_cons.mp single
    obtain ⟨read, reads⟩ := List.forall_mem_cons.mp legible
    cases call with
    | inferBuffer szBuf inputFinished mode args hotwordsEmbedding =>
      obtain ⟨result, recognized, recognizes⟩ :=
        @run_recognizes (recognizers.tpassCall args inputFinished) cache
          (heard.offline.map (recognizers.segment args hotwordsEmbedding))
          (by rw [List.length_map]; exact one) fun segment member => by
            obtain ⟨frame, inside, rfl⟩ := List.mem_map.mp member
            exact read frame inside _ List.mem_cons_self cache
      obtain ⟨results, returned, same, transcribed⟩ := inductionHypothesis later there ones
        (fun other member frame inside call among =>
          reads other member frame inside call (List.mem_cons_of_mem _ among))
        (if inputFinished then [] else result.puncCache)
      refine ⟨(heard, result) :: results, ?_, ?_, .cons recognizes transcribed⟩
      · rw [secondPass, called, Option.bind_eq_bind, Option.bind_some]
        change (run _ _ _ >>= fun result => _) = _
        rw [recognized, Option.bind_eq_bind, Option.bind_some]
        change (secondPass config loader chunkMs positive recognizers _
          (if inputFinished then [] else result.puncCache) calls >>= fun others => _) = _
        rw [returned]
        rfl
      · rw [List.map_cons, same]
    | _ => exact here.elim

omit [Add β] [Mul β] [Field δ] [LinearOrder δ] [Zero α] [Add α] [Mul α] in
/-- What is queued for the second pass are the segments of the recordings. -/
theorem legible_frames {khz : Nat} {twoPass : Prop} {recordings : List (List Byte)}
    {groups : List (List (Recognized α))}
    (delivered : List.Forall₂ (fun bytes each => Delivered khz (loader.samples bytes) twoPass
      (each.foldl Recognized.append {})) recordings groups) (both : twoPass) {calls : List EngineCall}
    (legible : ∀ bytes ∈ recordings, ∀ first last : Int, 0 ≤ first → first ≤ last →
      last * khz ≤ (loader.samples bytes).length → ∀ call ∈ calls,
        recognizers.Legible (offlineFrame (loader.samples bytes) khz (first, last)) call) :
    ∀ heard ∈ groups.flatten, ∀ frame ∈ heard.offline, ∀ call ∈ calls,
      recognizers.Legible frame call := by
  induction delivered with
  | nil => exact nofun
  | @cons bytes each recordings groups here there inductionHypothesis =>
    obtain ⟨first, others⟩ := List.forall_mem_cons.mp legible
    rw [List.flatten_cons, List.forall_mem_append]
    refine ⟨fun heard member frame inside => ?_, inductionHypothesis others⟩
    obtain ⟨closed, opened, -, spans, -, handed⟩ := here.delivered
    have among : frame ∈ closed.map (offlineFrame (loader.samples bytes) khz) := by
      rw [← (handed both).1, foldl_append_offline]
      exact List.mem_append_right _ (List.mem_flatMap.mpr ⟨heard, member, inside⟩)
    obtain ⟨span, named, rfl⟩ := List.mem_map.mp among
    obtain ⟨nonneg, ordered, within⟩ := spans span named
    exact first span.1 span.2 nonneg ordered within

theorem secondPass_recordings (khz : config.khz = 16) (scores : config.Scores)
    {recordings : List (List Byte)} {stream : TpassOnlineStream α β δ κ}
    (ready : TwoPass.Ready config stream
      (samplesPassed config loader (recordings.flatMap (pieces true))))
    (enough : ∀ bytes ∈ recordings, config.Enough (loader.samples bytes)) {calls : List EngineCall}
    (passed : calls.map EngineCall.piece = recordings.flatMap (pieces true))
    (plain : ∀ call ∈ calls, call.Plain ∧ call.InTwoPass)
    (legible : ∀ bytes ∈ recordings, ∀ first last : Int, 0 ≤ first → first ≤ last →
      last * config.khz ≤ (loader.samples bytes).length → ∀ call ∈ calls,
        recognizers.Legible (offlineFrame (loader.samples bytes) config.khz (first, last)) call) :
    ∃ recorded, secondPass config loader chunkMs positive recognizers stream [] calls =
        some recorded.flatten ∧
      Transcribed recognizers [] calls recorded.flatten ∧
      List.Forall₂ (fun bytes results => results.length = (pieces true bytes).length ∧
        Delivered config.khz (loader.samples bytes) True
          ((results.map Prod.fst).foldl Recognized.append {})) recordings recorded := by
  obtain ⟨groups, stream', returned, -, served, single⟩ :=
    @inferEach_recordings _ _ _ _ _ _ _ _ _ _ _ config loader chunkMs positive khz scores _ _ 0
      ready enough _ passed fun call member => (plain call member).1
  have both : ∀ call ∈ calls, call.InTwoPass := fun call member => (plain call member).2
  have read := legible_frames (served.imp fun bytes each served => served.2.delivered) both legible
  obtain ⟨results, passed, same, transcribed⟩ := secondPass_inferEach returned
    (fun call member => (plain call member).1) (single both) read []
  obtain ⟨recorded, rfl, rfl⟩ := exists_flatten_map same
  refine ⟨recorded, passed, transcribed, ?_⟩
  refine (List.forall₂_map_right_iff.mp served).imp fun bytes results served => ⟨?_, ?_⟩
  · rw [← served.1, List.length_map]
  · exact delivered_imp served.2.delivered fun _ => both

/-- Whatever messages a client sends in the two-pass mode and however the threads of the server take
    turns: every segment that the detector closes in a recording is recognized once, on its own samples,
    and its text and its timestamps are in the result of the call that has closed it.  No call loses
    the text of a segment for that of another one. -/
theorem run_secondPass (khz : config.khz = 16) (scores : config.Scores) (audio : Audio α)
    (rate : audio.destSampleRate = 1000 * config.khz) (frameQueue : audio.frameQueue = [])
    (onlineQueue : audio.asrOnlineQueue = []) (offlineQueue : audio.asrOfflineQueue = [])
    {engine : Engine} {events : List Step} {connection : Connection}
    (ran : run (step engine) (onOpen engine) events = some connection)
    (meets : Meets (step engine) (fun connection event => OpenSession engine connection event ∧
      Returns event ∧ KeepsAudio connection event) (onOpen engine) events)
    (alive : connection.terminated = false) (idle : connection.pending = 0)
    (handled : connection.inflight = none) (ended : (recordings engine (messages events)).2 = [])
    {chunkSize : List Int} (stream : connection.tpassOnlineHandle = some chunkSize)
    (feeds : Feeds chunkSize)
    (plain : ∀ call ∈ connection.inferences, call.Plain ∧ call.InTwoPass)
    (enough : ∀ bytes ∈ (recordings engine (messages events)).1,
      config.Enough (loader.samples bytes))
    (few : samplesPassed config loader
      ((recordings engine (messages events)).1.flatMap (pieces true)) < 2 ^ 31)
    (legible : ∀ bytes ∈ (recordings engine (messages events)).1, ∀ first last : Int, 0 ≤ first →
      first ≤ last → last * config.khz ≤ (loader.samples bytes).length →
      ∀ call ∈ connection.inferences,
        recognizers.Legible (offlineFrame (loader.samples bytes) config.khz (first, last)) call) :
    ∃ recorded, connection.transcribed config loader recognizers audio = some recorded.flatten ∧
      Transcribed recognizers [] connection.inferences recorded.flatten ∧
      List.Forall₂ (fun bytes results => Delivered config.khz (loader.samples bytes) True
        ((results.map Prod.fst).foldl Recognized.append {}))
        (recordings engine (messages events)).1 recorded := by
  obtain ⟨frames, begun, posted, inTurn, cut⟩ := Connection.Cut.run ran meets alive
  obtain ⟨recorded, passed, transcribed, delivered⟩ := secondPass_recordings khz scores
    (.new config audio rate frameQueue onlineQueue offlineQueue few) enough
    (inTurn.passed cut idle handled ended) plain legible
  rw [transcribed_eq config loader recognizers audio stream feeds]
  exact ⟨recorded, passed, transcribed, delivered.imp fun bytes results delivered => delivered.2⟩

/-- A recognizer that hears one word in every segment. -/
def wordRecognizers : Recognizers Unit where
  isPara := true
  useItn := false
  punc := ⟨false, fun text cache => (text, cache)⟩
  normalize := id
  forward := fun _ _ _ => [bytes "好 | 0.1,0.2"]

/-- Its timestamps can be read wherever a segment starts in the first 180 ms. -/
theorem wordRecognizers_spans {start : Int} (nonneg : 0 ≤ start) (early : start ≤ 180) :
    ∃ spans, (TwoPass.Segment.mk start [bytes "好 | 0.1,0.2"]).spans = some spans := by
  have pieces : Text.splitStr (bytes "好 | 0.1,0.2") (bytes " | ") =
      [bytes "好", bytes "0.1,0.2"] := by
    decide +kernel
  have stamps : readStamps false (Text.split (bytes "0.1,0.2") 44) = some [(1 / 10, 1 / 5)] := by
    decide +kernel
  -- The sums grow with the start, so the first and the last one tell that all are in range.
  have extremes : ∀ number ∈ [(1 / 10 : ℚ), 1 / 5], 0 ≤ toFloat (1000 * tpassSum 0 number) ∧
      toFloat (1000 * tpassSum 180 number) < 2 ^ 31 := by
    decide +kernel
  have converts : ∀ number ∈ [(1 / 10 : ℚ), 1 / 5],
      ∃ whole, TwoPass.toInt (toFloat (1000 * tpassSum start number)) = some whole := by
    intro number member
    obtain ⟨low, high⟩ := extremes number member
    have grows {first second : Int} (le : first ≤ second) :
        toFloat (1000 * tpassSum first number) ≤ toFloat (1000 * tpassSum second number) :=
      monotone_toFloat (mul_le_mul_of_nonneg_left (tpassSum_mono number le) (by norm_num))
    exact ⟨_, TwoPass.toInt_floor (low.trans (grows nonneg)) ((grows early).trans_lt high)⟩
  obtain ⟨first, begins⟩ := converts (1 / 10) (by simp)
  obtain ⟨last, ends⟩ := converts (1 / 5) (by simp)
  have read : funTpassInferBufferRead start (bytes "好 | 0.1,0.2") =
      some (bytes "好", [(tpassSum start (1 / 10), tpassSum start (1 / 5))]) := by
    rw [funTpassInferBufferRead, readMessage, pieces]
    simp only [stamps, Option.map_some, List.map_cons, List.map_nil, Prod.map]
  refine ⟨[(first, last)], ?_⟩
  simp only [TwoPass.Segment.spans, TwoPass.Segment.msg, List.headD_cons, read, Option.bind_eq_bind,
    Option.bind_some, List.mapM_cons, List.mapM_nil, TwoPass.toMs, begins, ends, Option.pure_def]

theorem wordRecognizers_legible {samples : List Unit} (few : samples.length ≤ 2880)
    {first last : Int} (nonneg : 0 ≤ first) (ordered : first ≤ last)
    (inside : last * speechConfig.khz ≤ samples.length) (call : EngineCall) :
    wordRecognizers.Legible (offlineFrame samples speechConfig.khz (first, last)) call := by
  cases call with
  | inferBuffer szBuf inputFinished mode args hotwordsEmbedding =>
    intro cache
    have khz : speechConfig.khz = 16 := rfl
    have early : first ≤ 180 := by
      rw [khz] at inside
      omega
    obtain ⟨spans, read⟩ := wordRecognizers_spans nonneg early
    exact .inr ⟨[], _, spans, rfl, nofun, nofun, read, nofun⟩
  | _ => trivial

theorem longEvents_short : ∀ bytes ∈ (recordings sessionEngine (messages longEvents)).1,
    (unitLoader.samples bytes).length ≤ 2880 := by
  rw [longEvents_recordings]
  intro bytes member
  rw [unitLoader.length_samples]
  obtain rfl | member := List.mem_cons.mp member
  · decide
  · rw [List.mem_singleton.mp member, List.length_append, List.length_replicate,
      List.length_replicate]

theorem run_secondPass_longEvents : ∃ connection,
    run (step sessionEngine) (onOpen sessionEngine) longEvents = some connection ∧
    ∃ recorded, connection.transcribed speechConfig unitLoader wordRecognizers TwoPass.sixteenKhz =
        some recorded.flatten ∧
      Transcribed wordRecognizers [] connection.inferences recorded.flatten ∧
      List.Forall₂ (fun bytes results => Delivered speechConfig.khz (unitLoader.samples bytes) True
        ((results.map Prod.fst).foldl Recognized.append {}))
        (recordings sessionEngine (messages longEvents)).1 recorded := by
  obtain ⟨connection, ran, alive, idle, handled⟩ := longEvents_run
  obtain ⟨stream, plain⟩ := longEvents_plain ran
  exact ⟨connection, ran, run_secondPass rfl speechConfig_scores TwoPass.sixteenKhz rfl rfl rfl rfl
    ran longEvents_meets alive idle handled longEvents_ended stream (by decide) plain
    longEvents_enough longEvents_few fun bytes member first last nonneg ordered inside call _ =>
      wordRecognizers_legible (longEvents_short bytes member) nonneg ordered inside call⟩

end Asr2Pass.Server
