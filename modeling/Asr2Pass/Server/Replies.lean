import Asr2Pass.Server.SecondPass

/-! # What a client is sent

`handle_result` makes an answer of every result, and `do_decoder` leaves out those without a text but
the last one of a recording.  So a client gets every text of the second pass with its timestamps,
once and in order, and the answer on which it closes the connection is the last one of a recording.
-/

namespace Asr2Pass.Server

open Library
open TwoPass (Audio Delivered PcmLoader Recognized TpassOnlineStream TpassResult offlineFrame)
open Text (CString)
open Vad (VadConfig speechConfig speechConfig_scores)

variable {α β δ κ : Type}

/-- The text of an answer from the second pass, with its timestamps. -/
def Json.offlineText (json : Json) : Option (String × String) :=
  if (json.member "mode").bind Json.toString = some "2pass-offline" then
    some (((json.member "text").bind Json.toString).getD "",
      ((json.member "timestamp").bind Json.toString).getD "")
  else none

/-- Where `on_message` of the client closes the connection. -/
def Json.isFinal (json : Json) : Bool :=
  (json.member "is_final").elim false (·.isBoolean true)

/-- A result as the server reads it, with the text `msg` of the first pass. -/
def recogResult (decode : CString → String) (msg : String) (result : TpassResult) : RecogResult where
  msg := msg
  tpassMsg := decode result.tpassMsg
  stamp := decode result.stamp
  stampSents := decode result.stampSents

/-- What the last of the calls returns that make `results`. -/
def lastResult (decode : CString → String) (msg : String) :
    Option (List (Recognized α × TpassResult)) → Option RecogResult
  | some results => results.getLast?.map fun heard => recogResult decode msg heard.2
  | none => none

/-- The text of a call with its timestamps, if it has one. -/
def transcript (decode : CString → String) (heard : Recognized α × TpassResult) :
    Option (String × String) :=
  if decode heard.2.tpassMsg ≠ "" then some (decode heard.2.tpassMsg, decode heard.2.stamp) else none

/-- The answers `sent` for the calls of a recording. -/
structure Told (decode : CString → String) (results : List (Recognized α × TpassResult))
    (sent : List Json) : Prop where
  texts : sent.filterMap Json.offlineText = results.filterMap (transcript decode)
  ends : ∃ before last, sent = before ++ [last] ∧ last.isFinal = true ∧
    ∀ json ∈ before, json.isFinal = false

/-- Of the calls after `past`, each one is answered with what it has recognized. -/
inductive Conveys (answer : List EngineCall → Option RecogResult) (decode : CString → String) :
    List EngineCall → List EngineCall → List (Recognized α × TpassResult) → Prop where
  | nil {past : List EngineCall} : Conveys answer decode past [] []
  | cons {past calls : List EngineCall} {call : EngineCall} {msg : String}
      {heard : Recognized α × TpassResult} {results : List (Recognized α × TpassResult)} :
      answer (past ++ [call]) = some (recogResult decode msg heard.2) →
      Conveys answer decode (past ++ [call]) calls results →
      Conveys answer decode past (call :: calls) (heard :: results)

/-! ## One call -/

theorem lookup_cons_ite (key key' : String) (value : Json) (others : List (String × Json)) :
    ((key', value) :: others).lookup key = if key = key' then some value else others.lookup key := by
  by_cases same : key = key'
  · rw [if_pos same, same, List.lookup_cons_self]
  · rw [if_neg same, List.lookup_cons, beq_false_of_ne same]

/-- A member that is there only if `set` holds. -/
theorem lookup_ite (set : Prop) [Decidable set] (key key' : String) (value : Json)
    (others : List (String × Json)) :
    ((if set then [(key', value)] else []) ++ others).lookup key =
      if key = key' ∧ set then some value else others.lookup key := by
  by_cases holds : set
  · rw [if_pos holds, List.singleton_append, lookup_cons_ite]
    simp only [holds, and_true]
  · rw [if_neg holds, List.nil_append, if_neg fun both => holds both.2]

section
variable {engine : Engine} {decode : CString → String} {heard : Recognized α × TpassResult}
  {call : EngineCall}

theorem member_answer (running : Running) (result : RecogResult) (isFinal : Bool) (key : String) :
    (running.answer (handleResult engine result) isFinal).member key =
      if key = "text" then
        some (.string (if result.tpassMsg ≠ "" then result.tpassMsg else result.msg))
      else if key = "mode" ∧ result.tpassMsg ≠ "" then some (.string "2pass-offline")
      else if key = "mode" ∧ result.msg ≠ "" then some (.string "2pass-online")
      else if key = "timestamp" ∧ result.stamp ≠ "" then some (.string result.stamp)
      else if key = "stamp_sents" ∧ result.stampSents ≠ "" then
        some ((engine.parse result.stampSents.toUTF8.toList).getD (.string ""))
      else if key = "wav_name" then some (.string running.args.wavName)
      else if key = "is_final" then some (.boolean isFinal)
      else none := by
  rw [Running.answer, handleResult, Json.member]
  simp only [List.cons_append, List.append_assoc, lookup_cons_ite]
  by_cases second : result.tpassMsg = ""
  · simp only [second, ne_eq, not_true_eq_false, if_false, and_false, lookup_ite, lookup_cons_ite,
      List.lookup_nil]
  · -- The text of the first pass gives no second mode.
    have once (value other : Option Json) : (if key = "mode" then value
        else if key = "mode" ∧ result.msg ≠ "" then some (Json.string "2pass-online") else other) =
        if key = "mode" then value else other := by
      by_cases mode : key = "mode" <;> simp [mode]
    simp only [second, ne_eq, not_false_eq_true, if_true, and_true, List.singleton_append, lookup_ite,
      lookup_cons_ite, List.lookup_nil]
    exact congrArg _ (once _ _).symm

theorem answer_offlineText (running : Running) (msg : String) (isFinal : Bool) :
    (running.answer (handleResult engine (recogResult decode msg heard.2)) isFinal).offlineText =
      transcript decode heard := by
  simp only [Json.offlineText, member_answer, recogResult, transcript]
  by_cases second : decode heard.2.tpassMsg = ""
  · by_cases first : msg = "" <;> simp [Json.toString, second, first]
  · by_cases stamped : decode heard.2.stamp = "" <;> simp [Json.toString, second, stamped]

theorem answer_isFinal (running : Running) (result : RecogResult) (isFinal : Bool) :
    (running.answer (handleResult engine result) isFinal).isFinal = isFinal := by
  simp [Json.isFinal, Json.isBoolean, member_answer]

/-- In the loop nothing is sent without a text, and then there is none of the second pass. -/
theorem replies_loop (plain : call.Plain) (more : call.piece.2 = false) (msg : String) :
    (call.replies engine (some (recogResult decode msg heard.2))).filterMap Json.offlineText =
        (transcript decode heard).toList ∧
      ∀ json ∈ call.replies engine (some (recogResult decode msg heard.2)), json.isFinal = false := by
  cases call with
  | inferBuffer szBuf inputFinished mode args hotwordsEmbedding =>
    obtain rfl : inputFinished = false := more
    rw [EngineCall.replies, if_neg Bool.false_ne_true, Running.replies]
    split
    · refine ⟨?_, fun json member => ?_⟩
      · rw [List.filterMap_cons, answer_offlineText]
        cases transcript decode heard <;> rfl
      · rw [List.mem_singleton.mp member, answer_isFinal]
    · rename_i silent
      refine ⟨?_, fun json member => absurd member List.not_mem_nil⟩
      have none : transcript decode heard = none := if_neg fun text => silent (.inr text)
      rw [none]
      rfl
  | _ => exact plain.elim

theorem replies_final (plain : call.Plain) (final : call.piece.2 = true) (msg : String) :
    ∃ json, call.replies engine (some (recogResult decode msg heard.2)) = [json] ∧
      json.offlineText = transcript decode heard ∧ json.isFinal = true := by
  cases call with
  | inferBuffer szBuf inputFinished mode args hotwordsEmbedding =>
    obtain rfl : inputFinished = true := final
    exact ⟨_, rfl, answer_offlineText _ msg true, answer_isFinal _ _ true⟩
  | _ => exact plain.elim

end

/-! ## The calls of a recording -/

section
variable {engine : Engine} {answer : List EngineCall → Option RecogResult}
  {decode : CString → String} {past calls : List EngineCall}
  {results : List (Recognized α × TpassResult)}

theorem Conveys.append {first second : List EngineCall}
    (conveys : Conveys answer decode past (first ++ second) results) :
    ∃ before after, results = before ++ after ∧ before.length = first.length ∧
      Conveys answer decode past first before ∧ Conveys answer decode (past ++ first) second after := by
  induction first generalizing past results with
  | nil => exact ⟨[], results, rfl, rfl, .nil, by rwa [List.append_nil]⟩
  | cons call first inductionHypothesis =>
    cases conveys with
    | cons answered conveys =>
      obtain ⟨before, after, rfl, same, here, there⟩ := inductionHypothesis conveys
      rw [List.append_assoc] at there
      exact ⟨_ :: before, after, rfl, congrArg (· + 1) same, .cons answered here, there⟩

theorem Conveys.told (bytes : List Byte) (conveys : Conveys answer decode past calls results)
    (passed : calls.map EngineCall.piece = pieces true bytes) (plain : ∀ call ∈ calls, call.Plain) :
    Told decode results (repliesFrom engine answer past calls) := by
  induction bytes using pieces.induct true generalizing past calls results with
  | case1 bytes long inductionHypothesis =>
    rw [pieces_long long] at passed
    obtain ⟨call, others, rfl, first, later⟩ := List.map_eq_cons_iff.mp passed
    obtain ⟨here, there⟩ := List.forall_mem_cons.mp plain
    cases conveys with
    | @cons _ _ _ msg heard results answered conveys =>
      obtain ⟨texts, goes⟩ := @replies_loop _ engine decode heard call here
        (congrArg Prod.snd first) msg
      obtain ⟨told, before, last, sent, final, quiet⟩ := inductionHypothesis conveys later there
      rw [repliesFrom, answered]
      refine ⟨?_, call.replies engine (some (recogResult decode msg heard.2)) ++ before, last, ?_,
        final, ?_⟩
      · rw [List.filterMap_append, texts, told, List.filterMap_cons]
        cases transcript decode heard <;> rfl
      · rw [sent, List.append_assoc]
      · exact List.forall_mem_append.mpr ⟨goes, quiet⟩
  | case2 bytes short final =>
    rw [pieces_short (by omega), if_pos rfl] at passed
    obtain ⟨call, rfl, first⟩ := List.map_eq_singleton_iff.mp passed
    have here := plain call (List.mem_singleton_self call)
    cases conveys with
    | @cons _ _ _ msg heard results answered conveys =>
      cases conveys
      obtain ⟨json, replied, text, final⟩ := @replies_final _ engine decode heard call here
        (congrArg Prod.snd first) msg
      rw [repliesFrom, answered, replied]
      refine ⟨?_, [], json, rfl, final, fun other member => absurd member List.not_mem_nil⟩
      rw [repliesFrom, List.append_nil, List.filterMap_cons, text, List.filterMap_cons]
      rfl
  | case3 bytes short more => exact absurd rfl more

theorem Conveys.told_recordings {recordings : List (List Byte)}
    {recorded : List (List (Recognized α × TpassResult))}
    (conveys : Conveys answer decode past calls recorded.flatten)
    (passed : calls.map EngineCall.piece = recordings.flatMap (pieces true))
    (plain : ∀ call ∈ calls, call.Plain)
    (grouped : List.Forall₂ (fun bytes results => results.length = (pieces true bytes).length)
      recordings recorded) :
    ∃ replies, repliesFrom engine answer past calls = replies.flatten ∧
      List.Forall₂ (Told decode) recorded replies := by
  induction grouped generalizing past calls with
  | nil =>
    obtain rfl := List.map_eq_nil_iff.mp passed
    exact ⟨[], rfl, .nil⟩
  | @cons bytes results recordings recorded counted grouped inductionHypothesis =>
    obtain ⟨first, others, rfl, here, there⟩ := List.map_eq_append_iff.mp passed
    obtain ⟨before, after, joined, same, conveysHere, conveysThere⟩ := conveys.append
    have count : results.length = before.length := by
      rw [counted, same, ← here, List.length_map]
    obtain ⟨rfl, rfl⟩ := List.append_inj joined count
    obtain ⟨replies, sent, told⟩ := inductionHypothesis conveysThere there
      fun call member => plain call (List.mem_append_right first member)
    refine ⟨repliesFrom engine answer past first :: replies, ?_, .cons ?_ told⟩
    · rw [repliesFrom_append, sent, List.flatten_cons]
    · exact conveysHere.told bytes here fun call member =>
        plain call (List.mem_append_left others member)

end

/-! ## A run -/

section
variable [Add β] [Mul β] [Field δ] [LinearOrder δ] [Zero α] [Add α] [Mul α]
  {config : VadConfig α β δ κ} {loader : PcmLoader α} {chunkMs : Nat} {positive : 0 < chunkMs}
  {recognizers : Recognizers α}

/-- The first calls make the first results. -/
theorem secondPass_append {first second : List EngineCall} {stream : TpassOnlineStream α β δ κ}
    {cache : List CString} {results : List (Recognized α × TpassResult)}
    (passed : secondPass config loader chunkMs positive recognizers stream cache (first ++ second) =
      some results) :
    ∃ before after, secondPass config loader chunkMs positive recognizers stream cache first =
        some before ∧ results = before ++ after ∧ before.length = first.length := by
  induction first generalizing stream cache results with
  | nil => exact ⟨[], results, rfl, rfl, rfl⟩
  | cons call first inductionHypothesis =>
    simp only [List.cons_append, secondPass, Option.bind_eq_bind, Option.bind_eq_some_iff] at passed
    obtain ⟨⟨heard, middle⟩, called, result, recognized, others, later, same⟩ := passed
    cases same
    obtain ⟨before, after, returned, rfl, count⟩ := inductionHypothesis later
    refine ⟨(heard, result) :: before, after, ?_, rfl, congrArg (· + 1) count⟩
    simp only [secondPass, called, recognized, returned, Option.bind_eq_bind, Option.bind_some,
      Option.pure_def]

theorem secondPass_length {calls : List EngineCall} {stream : TpassOnlineStream α β δ κ}
    {cache : List CString} {results : List (Recognized α × TpassResult)}
    (passed : secondPass config loader chunkMs positive recognizers stream cache calls =
      some results) : results.length = calls.length := by
  rw [← List.append_nil calls] at passed
  obtain ⟨before, after, returned, -, count⟩ := secondPass_append passed
  rw [List.append_nil, returned] at passed
  cases passed
  exact count

theorem secondPass_conveys {decode : CString → String} {said : List EngineCall → String}
    {stream : TpassOnlineStream α β δ κ} {past calls : List EngineCall}
    {before results : List (Recognized α × TpassResult)}
    (passed : secondPass config loader chunkMs positive recognizers stream [] (past ++ calls) =
      some (before ++ results))
    (counted : before.length = past.length) (count : results.length = calls.length) :
    Conveys (fun calls => lastResult decode (said calls)
      (secondPass config loader chunkMs positive recognizers stream [] calls))
      decode past calls results := by
  induction calls generalizing past before results with
  | nil =>
    obtain rfl := List.length_eq_zero_iff.mp count
    exact .nil
  | cons call calls inductionHypothesis =>
    cases results with
    | nil => cases count
    | cons heard results =>
      rw [List.append_cons past, List.append_cons before] at passed
      have counted' : (before ++ [heard]).length = (past ++ [call]).length := by
        rw [List.length_append, List.length_append, counted]
        rfl
      obtain ⟨first, after, returned, joined, same⟩ := secondPass_append passed
      obtain ⟨rfl, -⟩ := List.append_inj joined (counted'.trans same.symm)
      have answered : lastResult decode (said (past ++ [call]))
          (secondPass config loader chunkMs positive recognizers stream [] (past ++ [call])) =
            some (recogResult decode (said (past ++ [call])) heard.2) := by
        rw [returned, lastResult, List.getLast?_append]
        rfl
      exact .cons answered (inductionHypothesis passed counted' (Nat.succ.inj count))

/-- Whatever messages a client sends in the two-pass mode and however the threads of the server take
    turns: the answers are those of one recording after the other.  In the answers for a recording the
    text of every segment comes once and in order, with its timestamps, and the last of them and no
    other one is final. -/
theorem run_replies (khz : config.khz = 16) (scores : config.Scores) (audio : Audio α)
    (rate : audio.destSampleRate = 1000 * config.khz) (frameQueue : audio.frameQueue = [])
    (onlineQueue : audio.asrOnlineQueue = []) (offlineQueue : audio.asrOfflineQueue = [])
    {decode : CString → String} {said : List EngineCall → String} {chunkSize : List Int}
    (feeds : Feeds chunkSize) {engine : Engine} {events : List Step} {connection : Connection}
    (ran : run (step engine) (onOpen engine) events = some connection)
    (meets : Meets (step engine) (fun connection event => OpenSession engine connection event ∧
      Returns event ∧ KeepsAudio connection event ∧ Answers engine (fun calls =>
        lastResult decode (said calls) (secondPass config loader (Server.chunkMs chunkSize)
          (chunkMs_pos feeds) recognizers
          { vadOnlineHandle := config.newInt, audio := audio.resetIndex } [] calls)) connection event)
      (onOpen engine) events)
    (alive : connection.terminated = false) (idle : connection.pending = 0)
    (handled : connection.inflight = none) (ended : (recordings engine (messages events)).2 = [])
    (stream : connection.tpassOnlineHandle = some chunkSize)
    (plain : ∀ call ∈ connection.inferences, call.Plain ∧ call.InTwoPass)
    (enough : ∀ bytes ∈ (recordings engine (messages events)).1,
      config.Enough (loader.samples bytes))
    (few : samplesPassed config loader
      ((recordings engine (messages events)).1.flatMap (pieces true)) < 2 ^ 31)
    (legible : ∀ bytes ∈ (recordings engine (messages events)).1, ∀ first last : Int, 0 ≤ first →
      first ≤ last → last * config.khz ≤ (loader.samples bytes).length →
      ∀ call ∈ connection.inferences,
        recognizers.Legible (offlineFrame (loader.samples bytes) config.khz (first, last)) call) :
    ∃ recorded replies,
      connection.transcribed config loader recognizers audio = some recorded.flatten ∧
      Transcribed recognizers [] connection.inferences recorded.flatten ∧
      connection.sent = replies.flatten ∧
      List.Forall₂ (fun bytes results => Delivered config.khz (loader.samples bytes) True
        ((results.map Prod.fst).foldl Recognized.append {}))
        (recordings engine (messages events)).1 recorded ∧
      List.Forall₂ (Told decode) recorded replies := by
  have kept : Meets (step engine) (fun connection event => OpenSession engine connection event ∧
      Returns event ∧ KeepsAudio connection event) (onOpen engine) events :=
    meets.imp fun _ _ holds => ⟨holds.1, holds.2.1, holds.2.2.1⟩
  obtain ⟨frames, begun, posted, inTurn, cut⟩ := Connection.Cut.run ran kept alive
  have pieced := inTurn.passed cut idle handled ended
  obtain ⟨recorded, passed, transcribed, delivered⟩ := secondPass_recordings khz scores
    (.new config audio rate frameQueue onlineQueue offlineQueue few) enough pieced plain legible
  have replied := Connection.Replied.run ran
    (meets.imp fun _ _ holds => ⟨holds.1, holds.2.1, holds.2.2.2⟩) alive
  have counted := delivered.imp fun _ _ delivered => delivered.1
  have conveys := @secondPass_conveys _ _ _ _ _ _ _ _ _ _ _ config loader _ _ recognizers decode said
    _ [] _ [] _ passed rfl (secondPass_length passed)
  obtain ⟨replies, sent, told⟩ := conveys.told_recordings pieced
    (fun call member => (plain call member).1) counted
  rw [transcribed_eq config loader recognizers audio stream feeds]
  refine ⟨recorded, replies, passed, transcribed, ?_,
    delivered.imp fun _ _ delivered => delivered.2, told⟩
  rw [← sent]
  have owed := replied.sent
  rw [Connection.owed, (Connection.idle_iff.mp idle).2, Option.elim_none, List.append_nil] at owed
  exact owed

end

/-- The text of bytes that are valid, as all are that the server sends. -/
def decodeText (text : CString) : String :=
  (String.fromUTF8? ⟨text.toArray⟩).getD ""

/-- The results of the calls that close no segment, and of the last one. -/
def firstPassResult : RecogResult where
  msg := "好"
  tpassMsg := ""
  stamp := ""
  stampSents := ""

def segmentResult : RecogResult where
  msg := "好"
  tpassMsg := "好"
  stamp := "[[100,200]]"
  stampSents := "[\x7b\"text_seg\":\"好\",\"punc\":\"\",\"start\":100,\"end\":200,\"ts_list\":[[100,200]]\x7d]"

/-- A call that returns this result. -/
def answered (result : RecogResult) : Step → Step
  | .infer _ => .infer (.returned (some result))
  | event => event

def answeredEvents : List Step :=
  (longEvents.take 31).map (answered firstPassResult) ++
    (longEvents.drop 31).map (answered segmentResult)

/-- What the calls of the connection return. -/
def heardAnswer (calls : List EngineCall) : Option RecogResult :=
  lastResult decodeText "好" (secondPass speechConfig unitLoader (chunkMs [5, 10, 5])
    (chunkMs_pos (show Feeds [5, 10, 5] by decide)) wordRecognizers
    { vadOnlineHandle := speechConfig.newInt, audio := TwoPass.sixteenKhz.resetIndex } [] calls)

theorem answeredEvents_meets :
    Meets (step sessionEngine) (fun connection event => OpenSession sessionEngine connection event ∧
      Returns event ∧ KeepsAudio connection event ∧ Answers sessionEngine heardAnswer connection event)
      (onOpen sessionEngine) answeredEvents := by
  decide +kernel

theorem run_replies_answeredEvents : ∃ connection,
    run (step sessionEngine) (onOpen sessionEngine) answeredEvents = some connection ∧
    ∃ recorded replies,
      connection.transcribed speechConfig unitLoader wordRecognizers TwoPass.sixteenKhz =
        some recorded.flatten ∧
      Transcribed wordRecognizers [] connection.inferences recorded.flatten ∧
      connection.sent = replies.flatten ∧
      List.Forall₂ (fun bytes results => Delivered speechConfig.khz (unitLoader.samples bytes) True
        ((results.map Prod.fst).foldl Recognized.append {}))
        (recordings sessionEngine (messages answeredEvents)).1 recorded ∧
      List.Forall₂ (Told decodeText) recorded replies := by
  have finishes : (run (step sessionEngine) (onOpen sessionEngine) answeredEvents).any
      (fun connection => connection.terminated = false ∧ connection.pending = 0 ∧
        connection.inflight.isNone ∧ connection.tpassOnlineHandle = some [5, 10, 5] ∧
        ∀ call ∈ connection.inferences, call.Plain ∧ call.InTwoPass) := by
    decide +kernel
  obtain ⟨connection, ran, quiet⟩ := (Option.any_eq_true _ _).mp finishes
  obtain ⟨alive, idle, handled, stream, plain⟩ := of_decide_eq_true quiet
  refine ⟨connection, ran, run_replies rfl speechConfig_scores TwoPass.sixteenKhz rfl rfl rfl rfl
    (show Feeds [5, 10, 5] by decide) ran answeredEvents_meets alive idle
    (Option.isNone_iff_eq_none.mp handled) longEvents_ended stream plain longEvents_enough
    longEvents_few fun bytes member first last nonneg ordered inside call _ => ?_⟩
  exact wordRecognizers_legible (longEvents_short bytes member) nonneg ordered inside call

end Asr2Pass.Server
