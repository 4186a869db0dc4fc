import Asr2Pass.Server.Delivery

/-! # The server as one thread

Messages are handled while the tasks of earlier ones run.  `listen` handles messages one after the
other and takes no task; `Task.calls` is what a task passes to the model when nothing comes between.
A run makes these calls in this order, and sends the replies to them.
-/

namespace Asr2Pass.Server

open Library

/-! ## One thread -/

/-- The listening thread alone. -/
def listen (engine : Engine) (frames : List Frame) : Connection :=
  frames.foldl (fun connection frame => connection.handle engine frame) (onOpen engine)

theorem listen_snoc (engine : Engine) (frames : List Frame) (frame : Frame) :
    listen engine (frames ++ [frame]) = (listen engine frames).handle engine frame := by
  rw [listen, List.foldl_append, List.foldl_cons, List.foldl_nil, listen]

/-- A buffer in steps of 800 samples, and its rest when it ends the recording. -/
def pieces (isFinal : Bool) (buffer : List Byte) : List (List Byte × Bool) :=
  if 800 * 2 ≤ buffer.length then
    (buffer.take (800 * 2), false) :: pieces isFinal (buffer.drop (800 * 2))
  else if isFinal then [(buffer, true)]
  else []
termination_by buffer.length

/-- `FunTpassInferBuffer` for a piece. -/
def Args.call (args : Args) (hotwordsEmbedding : HotwordsEmbedding) (piece : List Byte × Bool) :
    EngineCall :=
  .inferBuffer piece.1 piece.2 (asrMode args.modetype) args hotwordsEmbedding

/-- The calls of `do_decoder`, when its arguments convert. -/
def Task.calls (task : Task) : List EngineCall :=
  task.fields.convert.elim [] fun args =>
    (pieces task.isFinal task.buffer).map (args.call task.hotwordsEmbedding)

/-- The calls for the messages. -/
def sequentialCalls (engine : Engine) (frames : List Frame) : List EngineCall :=
  (listen engine frames).strand.flatMap Task.calls

/-- What is sent for the result of a call. -/
def EngineCall.replies (engine : Engine) : EngineCall → Option RecogResult → List Json
  | .inferBuffer data inputFinished _ args hotwordsEmbedding, result =>
    let running : Running :=
      { buffer := data, hotwordsEmbedding, isFinal := inputFinished, args }
    if inputFinished then running.lastReplies engine result else running.replies engine result
  | _, _ => []

/-- What is sent for calls that come after `past`, when the models answer what they make of all
    calls. -/
def repliesFrom (engine : Engine) (answer : List EngineCall → Option RecogResult)
    (past : List EngineCall) : List EngineCall → List Json
  | [] => []
  | call :: rest =>
    call.replies engine (answer (past ++ [call])) ++ repliesFrom engine answer (past ++ [call]) rest

theorem repliesFrom_append (engine : Engine) (answer : List EngineCall → Option RecogResult)
    (past first second : List EngineCall) : repliesFrom engine answer past (first ++ second) =
      repliesFrom engine answer past first ++ repliesFrom engine answer (past ++ first) second := by
  induction first generalizing past with
  | nil => simp [repliesFrom]
  | cons call rest inductionHypothesis =>
    simp only [List.cons_append, repliesFrom, inductionHypothesis, List.append_assoc,
      List.nil_append]

theorem pieces_long {buffer : List Byte} (long : 800 * 2 ≤ buffer.length) (isFinal : Bool) :
    pieces isFinal buffer =
      (buffer.take (800 * 2), false) :: pieces isFinal (buffer.drop (800 * 2)) := by
  rw [pieces, if_pos long]

theorem pieces_short {buffer : List Byte} (short : buffer.length < 800 * 2) (isFinal : Bool) :
    pieces isFinal buffer = if isFinal then [(buffer, true)] else [] := by
  rw [pieces, if_neg (by omega)]

/-! ## What a run has still to do -/

instance : DecidablePred EngineCall.IsInference
  | .inferBuffer .. => .isTrue trivial
  | .loadHwsRes _ => .isFalse id
  | .onlineInit _ => .isFalse id
  | .uninit => .isFalse id

/-- The calls of `FunTpassInferBuffer` so far. -/
def Connection.inferences (connection : Connection) : List EngineCall :=
  connection.calls.filter (·.IsInference)

theorem filter_call (calls : List EngineCall) (args : Args)
    (hotwordsEmbedding : HotwordsEmbedding) (piece : List Byte × Bool) :
    (calls ++ [args.call hotwordsEmbedding piece]).filter (·.IsInference) =
      calls.filter (·.IsInference) ++ [args.call hotwordsEmbedding piece] :=
  List.filter_append ..

/-- What a running task has still to pass. -/
def Running.pieces (running : Running) : List (List Byte × Bool) :=
  match running.phase with
  | .loop => Server.pieces running.isFinal running.buffer
  | .infer subvector => (subvector, false) :: Server.pieces running.isFinal running.buffer
  | .reply _ => Server.pieces running.isFinal running.buffer
  | .final => if running.isFinal then [(running.buffer, true)] else []
  | .inferFinal => [(running.buffer, running.isFinal)]
  | .replyFinal _ => []
  | .leave _ => []

def Running.calls (running : Running) : List EngineCall :=
  running.pieces.map (running.args.call running.hotwordsEmbedding)

/-- What a running task has still to send. -/
def Running.owed (engine : Engine) (running : Running) : List Json :=
  match running.phase with
  | .reply result => running.replies engine result
  | .replyFinal result => running.lastReplies engine result
  | _ => []

/-- The phases behind the loop are those of a task that ends the recording. -/
def Running.Ends (running : Running) : Prop :=
  match running.phase with
  | .inferFinal => running.isFinal = true
  | .replyFinal _ => running.isFinal = true
  | _ => True

namespace Connection

def planned (connection : Connection) : List EngineCall :=
  connection.running.elim [] Running.calls

def owed (engine : Engine) (connection : Connection) : List Json :=
  connection.running.elim [] (Running.owed engine)

end Connection

/-! ## The conditions -/

/-- Nothing throws, and no call ends the process. -/
def Returns : Step → Prop
  | .infer .threw => False
  | .infer .ended => False
  | .deliverThrows => False
  | _ => True

/-- The models answer what they make of the calls so far. -/
def Answers (engine : Engine) (answer : List EngineCall → Option RecogResult)
    (connection : Connection) : Step → Prop
  | .infer (.returned result) => ∀ next,
      step engine connection (.infer (.returned result)) = some next →
        result = answer next.inferences
  | _ => True

instance : (event : Step) → Decidable (Returns event)
  | .infer .threw | .infer .ended | .deliverThrows => .isFalse id
  | .infer (.returned _) => .isTrue trivial
  | .receive _ | .handle | .onClose | .removeHdl | .begin | .test | .deliver | .decrement =>
    .isTrue trivial

instance (engine : Engine) (answer : List EngineCall → Option RecogResult)
    (connection : Connection) : (event : Step) → Decidable (Answers engine answer connection event)
  | .infer (.returned result) =>
    decidable_of_iff ((step engine connection (.infer (.returned result))).all fun next =>
        result = answer next.inferences) (by
      simp only [Option.all_eq_true, decide_eq_true_eq]
      rfl)
  | .infer .threw | .infer .ended | .deliverThrows => .isTrue trivial
  | .receive _ | .handle | .onClose | .removeHdl | .begin | .test | .deliver | .decrement =>
    .isTrue trivial

/-- The messages that have arrived. -/
def messages (events : List Step) : List Frame :=
  events.filterMap fun event =>
    match event with
    | .receive frame => some frame
    | _ => none

theorem messages_append (past events : List Step) :
    messages (past ++ events) = messages past ++ messages events := by
  rw [messages, List.filterMap_append, messages, messages]

/-! ## An open connection -/

namespace Connection

variable {engine : Engine} {connection next : Connection}

/-- Tasks are posted only when there is a stream. -/
structure Opened (connection : Connection) : Prop where
  open' : connection.isEof = false
  mapped : connection.mapped = true
  ready : connection.hotwordsEmbedding ≠ none → connection.tpassOnlineHandle ≠ none
  early : connection.hotwordsEmbedding = none → connection.pending = 0

theorem Opened.stream (opened : Opened connection) (used : 0 < connection.pending) :
    connection.tpassOnlineHandle ≠ none := by
  refine opened.ready fun missing => ?_
  have idle := opened.early missing
  omega

theorem pending_running {running : Running} (busy : connection.running = some running) :
    0 < connection.pending := by
  simp [pending, busy]

theorem idle_iff : connection.pending = 0 ↔ connection.strand = [] ∧ connection.running = none := by
  cases busy : connection.running with
  | none => simp [pending, busy]
  | some running => simp [pending, busy]

theorem Opened.removeHdl_eq (opened : Opened connection) : connection.removeHdl = connection := by
  rw [removeHdl, if_neg]
  rintro ⟨-, -, closed⟩
  rw [opened.open'] at closed
  cases closed

theorem Opened.text (opened : Opened connection) {payload : List Byte}
    (inflight : connection.inflight = some (.text payload))
    (session : OpenSession engine connection .handle) :
    Opened (connection.handle engine (.text payload)) := by
  obtain ⟨json, parsed, valid⟩ := session payload inflight
  have chunk : connection.tpassOnlineHandle = none → ValidChunk json := by
    intro missing
    refine valid ?_
    by_contra embedded
    exact opened.ready embedded missing
  cases ran : connection.onText engine json with
  | none =>
    simp only [Connection.handle, parsed, ran]
    exact ⟨opened.open', opened.mapped, opened.ready, opened.early⟩
  | some handled =>
    simp only [Connection.handle, parsed, ran]
    have stream := (onText_valid chunk ran).1
    obtain ⟨prepared, isPrepared, posted⟩ := onText_cases ran
    have embedded := isPrepared.embedding
    have same : prepared.isEof = false ∧ prepared.mapped = true := by
      rw [isPrepared.same]
      exact ⟨opened.open', opened.mapped⟩
    obtain rfl | ⟨-, embedding, -, rfl⟩ := posted
    · exact ⟨same.1, same.2, fun _ => stream, fun missing => absurd missing embedded⟩
    · exact ⟨same.1, same.2, fun _ => stream, fun missing => absurd missing embedded⟩

theorem Opened.binary (opened : Opened connection) (payload : List Byte) :
    Opened (connection.onBinary payload) := by
  obtain ⟨-, same⟩ | ⟨-, -, rest, same⟩ | ⟨-, -, embedding, subvector, rest, embedded, -, -, same⟩ :=
    onBinary_cases connection payload
  · rw [same]
    exact ⟨opened.open', opened.mapped, opened.ready, opened.early⟩
  · rw [same]
    exact ⟨opened.open', opened.mapped, opened.ready, opened.early⟩
  · rw [same]
    refine ⟨opened.open', opened.mapped, opened.ready, fun missing => ?_⟩
    change connection.hotwordsEmbedding = none at missing
    rw [embedded] at missing
    cases missing

theorem Opened.step (opened : Opened connection) {event : Step}
    (session : OpenSession engine connection event)
    (stepped : step engine connection event = some next) : Opened next := by
  obtain ⟨-, performed⟩ := step_eq_some.mp stepped
  have decoder (ofDecoder : event.OfDecoder) : Opened next := by
    obtain began | ⟨-, rfl⟩ | ⟨running, busy, ⟨running', calls, sent, -, -, rfl⟩ | ⟨exit, rfl⟩⟩ :=
      decoder_cases ofDecoder performed
    · obtain ⟨task, rest, idle, queue, ⟨-, rfl⟩ | ⟨args, -, rfl⟩⟩ := begin_cases began
      · exact ⟨opened.open', opened.mapped, opened.ready, opened.early⟩
      · refine ⟨opened.open', opened.mapped, opened.ready, fun missing => ?_⟩
        have queued := opened.early missing
        rw [pending, queue] at queued
        simp at queued
    · exact ⟨opened.open', opened.mapped, opened.ready, opened.early⟩
    · refine ⟨opened.open', opened.mapped, opened.ready, fun missing => ?_⟩
      have used := pending_running busy
      have idle := opened.early missing
      omega
    · refine ⟨opened.open', opened.mapped, opened.ready, fun missing => ?_⟩
      have used := pending_running busy
      have idle := opened.early missing
      omega
  cases event with
  | receive frame =>
    simp only [perform] at performed
    split at performed
    · cases performed
      rw [Connection.receive]
      split
      · exact ⟨opened.open', opened.mapped, opened.ready, opened.early⟩
      · exact opened
    · cases performed
  | handle =>
    obtain ⟨frame, inflight, rfl⟩ := Option.map_eq_some_iff.mp performed
    cases frame with
    | text payload => exact opened.text inflight session
    | binary payload =>
      obtain ⟨open', mapped, ready, early⟩ := opened.binary payload
      exact ⟨open', mapped, ready, early⟩
    | other => exact ⟨opened.open', opened.mapped, opened.ready, opened.early⟩
  | onClose => exact session.elim
  | removeHdl =>
    cases performed
    rw [opened.removeHdl_eq]
    exact opened
  | _ => exact decoder trivial

theorem Opened.onOpen (engine : Engine) : Opened (onOpen engine) :=
  ⟨rfl, rfl, fun some => absurd rfl some, fun _ => rfl⟩

/-! ## The listening thread -/

/-- What `on_message` reads and writes of a connection is as in `listener`, and the tasks that the
    strand no longer has are `begun`. -/
structure Follows (begun : List Task) (listener connection : Connection) : Prop where
  fields : listener.fields = connection.fields
  samples : listener.samples = connection.samples
  hotwordsEmbedding : listener.hotwordsEmbedding = connection.hotwordsEmbedding
  tpassOnlineHandle : listener.tpassOnlineHandle = connection.tpassOnlineHandle
  isEof : listener.isEof = connection.isEof
  strand : listener.strand = begun ++ connection.strand

section
variable {begun : List Task} {listener : Connection} {json : Json}

theorem Follows.storeNames (follows : Follows begun listener connection) (json : Json) :
    Follows begun (listener.storeNames json) (connection.storeNames json) := by
  obtain ⟨fields, samples, embedding, handle, isEof, strand⟩ := follows
  refine ⟨?_, samples, embedding, handle, isEof, strand⟩
  simp only [Connection.storeNames, fields]

theorem Follows.storeAudioFs (follows : Follows begun listener connection) (json : Json) :
    Follows begun (listener.storeAudioFs json) (connection.storeAudioFs json) := by
  obtain ⟨fields, samples, embedding, handle, isEof, strand⟩ := follows
  refine ⟨?_, samples, embedding, handle, isEof, strand⟩
  simp only [Connection.storeAudioFs, fields]

theorem Follows.storeOptions (follows : Follows begun listener connection) (json : Json) :
    Follows begun (listener.storeOptions json) (connection.storeOptions json) := by
  obtain ⟨fields, samples, embedding, handle, isEof, strand⟩ := follows
  refine ⟨?_, samples, embedding, handle, isEof, strand⟩
  simp only [Connection.storeOptions, fields]

theorem Follows.loadHotwords (follows : Follows begun listener connection)
    (ran : connection.loadHotwords engine json = some next) :
    ∃ listened, listener.loadHotwords engine json = some listened ∧ Follows begun listened next := by
  obtain ⟨fields, samples, embedding, handle, isEof, strand⟩ := follows
  cases embedded : connection.hotwordsEmbedding with
  | some words =>
    simp only [Connection.loadHotwords, embedded] at ran
    cases ran
    rw [embedded] at embedding
    exact ⟨listener, by simp only [Connection.loadHotwords, embedding],
      fields, samples, embedding.trans embedded.symm, handle, isEof, strand⟩
  | none =>
    simp only [Connection.loadHotwords, embedded, Option.map_eq_some_iff] at ran
    obtain ⟨⟨clientMap, clientWords⟩, read, rfl⟩ := ran
    rw [embedded] at embedding
    simp only [Connection.loadHotwords, embedding, read, Option.map_some]
    exact ⟨_, rfl, fields, samples, rfl, handle, isEof, strand⟩

theorem Follows.openStream (follows : Follows begun listener connection) {right : Bool}
    (ran : connection.openStream engine json = some (next, right)) :
    ∃ listened, listener.openStream engine json = some (listened, right) ∧ Follows begun listened next := by
  obtain ⟨fields, samples, embedding, handle, isEof, strand⟩ := follows
  simp only [Connection.openStream, handle] at ran ⊢
  split at ran
  · simp only [Option.bind_eq_bind, Option.bind_eq_some_iff] at ran
    obtain ⟨chunkSize, converted, ran⟩ := ran
    simp only [converted, Option.bind_eq_bind, Option.bind_some]
    split at ran
    · rename_i valid
      obtain ⟨opens, same⟩ := Option.ite_none_right_eq_some.mp ran
      cases same
      rw [if_pos valid, if_pos opens]
      exact ⟨_, rfl, fields, samples, embedding, rfl, isEof, strand⟩
    · cases ran
      rename_i wrong
      rw [if_neg wrong]
      exact ⟨_, rfl, fields, samples, embedding, handle, isEof, strand⟩
  · cases ran
    exact ⟨listener, rfl, fields, samples, embedding, handle, isEof, strand⟩

theorem Follows.post (follows : Follows begun listener connection) (buffer : List Byte)
    (embedding : HotwordsEmbedding) (isFinal : Bool) :
    Follows begun (listener.post buffer embedding isFinal)
      (connection.post buffer embedding isFinal) := by
  obtain ⟨fields, samples, embedded, handle, isEof, strand⟩ := follows
  refine ⟨fields, samples, embedded, handle, isEof, ?_⟩
  simp only [Connection.post, strand, fields, List.append_assoc]

/-- Other samples in both. -/
theorem Follows.rest (follows : Follows begun listener connection) (samples : List Byte) :
    Follows begun { listener with samples } { connection with samples } :=
  ⟨follows.fields, rfl, follows.hotwordsEmbedding, follows.tpassOnlineHandle, follows.isEof,
    follows.strand⟩

theorem Follows.postFinal (follows : Follows begun listener connection)
    (ran : connection.postFinal json = some next) :
    ∃ listened, listener.postFinal json = some listened ∧ Follows begun listened next := by
  simp only [Connection.postFinal, Option.bind_eq_bind, Option.bind_eq_some_iff] at ran
  obtain ⟨done, read, ran⟩ := ran
  simp only [Connection.postFinal, read, Option.bind_eq_bind, Option.bind_some,
    follows.hotwordsEmbedding, follows.isEof, follows.samples]
  split at ran
  · rename_i final
    rw [if_pos final]
    split at ran
    · cases ran
      exact ⟨_, rfl, (follows.post connection.samples _ true).rest []⟩
    · cases ran
      exact ⟨_, rfl, follows⟩
  · rename_i more
    cases ran
    rw [if_neg more]
    exact ⟨_, rfl, follows⟩

theorem Follows.onText (follows : Follows begun listener connection)
    (ran : connection.onText engine json = some next) :
    ∃ listened, listener.onText engine json = some listened ∧ Follows begun listened next := by
  simp only [Connection.onText, Option.bind_eq_bind, Option.bind_eq_some_iff, Prod.exists] at ran
  obtain ⟨loaded, load, opened, right, stream, ran⟩ := ran
  obtain ⟨loaded', load', follows⟩ := (follows.storeNames json).loadHotwords load
  obtain ⟨opened', stream', follows⟩ := (follows.storeAudioFs json).openStream stream
  simp only [Connection.onText, load', stream', Option.bind_eq_bind, Option.bind_some]
  cases right with
  | true => exact (follows.storeOptions json).postFinal ran
  | false =>
    cases ran
    exact ⟨opened', rfl, follows⟩

theorem Follows.postChunk (follows : Follows begun listener connection) (subvector : List Byte) :
    Follows begun (listener.postChunk subvector) (connection.postChunk subvector) := by
  simp only [Connection.postChunk, follows.isEof, follows.hotwordsEmbedding]
  split
  · exact follows.post _ _ _
  · exact follows

theorem Follows.onBinary (follows : Follows begun listener connection) (payload : List Byte) :
    Follows begun (listener.onBinary payload) (connection.onBinary payload) := by
  simp only [Connection.onBinary, follows.samples]
  split
  · exact (follows.rest _).postChunk _
  · exact follows.rest _

/-- A message that is handled without an exception. -/
theorem Follows.handle (follows : Follows begun listener connection)
    {frame : Frame} (alive : (connection.handle engine frame).terminated = false) :
    Follows begun (listener.handle engine frame) (connection.handle engine frame) := by
  have same {listened handled : Connection} (follows : Follows begun listened handled) :
      Follows begun { listened with inflight := none } { handled with inflight := none } :=
    ⟨follows.fields, follows.samples, follows.hotwordsEmbedding, follows.tpassOnlineHandle,
      follows.isEof, follows.strand⟩
  cases frame with
  | text payload =>
    cases parsed : engine.parse payload with
    | none =>
      simp only [Connection.handle, parsed]
      exact ⟨follows.fields, follows.samples, follows.hotwordsEmbedding, follows.tpassOnlineHandle,
        rfl, follows.strand⟩
    | some json =>
      cases ran : connection.onText engine json with
      | none => simp [Connection.handle, parsed, ran] at alive
      | some handled =>
        obtain ⟨listened, ran', follows⟩ := follows.onText ran
        simp only [Connection.handle, parsed, ran, ran']
        exact same follows
  | binary payload => exact same (follows.onBinary payload)
  | other => exact same follows

end

/-! ## The tasks -/

/-- The messages `handled` have been handled, the tasks `begun` have been taken from the strand, and
    the model has been called for them as far as the running one has come. -/
structure InTurn (engine : Engine) (past : List Step) (handled : List Frame) (begun : List Task)
    (connection : Connection) : Prop where
  opened : Opened connection
  arrived : messages past = handled ++ connection.inflight.toList
  follows : Follows begun (listen engine handled) connection
  made : connection.inferences ++ connection.planned = begun.flatMap Task.calls
  converted : ∀ task ∈ begun, (task.fields.convert).isSome

variable {past : List Step} {handled : List Frame} {begun : List Task} {running running' : Running}

/-- A step of a task that moves calls from what is planned to what has been made. -/
theorem InTurn.working (inTurn : InTurn engine past handled begun connection) {event : Step}
    (silent : messages [event] = []) (busy : connection.running = some running)
    {calls : List EngineCall} (sent : List Json)
    (moved : calls.filter (·.IsInference) ++ running'.calls =
      connection.inferences ++ running.calls)
    (opened : Opened { connection with running := some running', calls, sent }) :
    InTurn engine (past ++ [event]) handled begun
      { connection with running := some running', calls, sent } := by
  obtain ⟨-, arrived, follows, made, converted⟩ := inTurn
  refine ⟨opened, ?_, ?_, ?_, converted⟩
  · rw [messages_append, silent, List.append_nil]
    exact arrived
  · exact ⟨follows.fields, follows.samples, follows.hotwordsEmbedding, follows.tpassOnlineHandle,
      follows.isEof, follows.strand⟩
  · rw [planned, busy] at made
    exact moved.trans made

theorem InTurn.test (inTurn : InTurn engine past handled begun connection)
    (busy : connection.running = some running)
    (tested : connection.test running = some running')
    (opened : Opened { connection with running := some running' }) :
    InTurn engine (past ++ [.test]) handled begun { connection with running := some running' } := by
  have open' := inTurn.opened.open'
  refine inTurn.working rfl busy connection.sent ?_ opened
  rw [inferences]
  congr 1
  rcases phase : running.phase with _ | _ | _ | _ | _ | _ | _
  case loop =>
    simp only [Connection.test, phase, open'] at tested
    split at tested
    · rename_i long
      cases tested
      simp only [Running.calls, Running.pieces, phase, pieces_long long.1]
    · rename_i short
      cases tested
      have few : running.buffer.length < 800 * 2 := by
        simp only [and_true] at short
        omega
      simp only [Running.calls, Running.pieces, phase, pieces_short few]
  case final =>
    simp only [Connection.test, phase, open'] at tested
    split at tested
    · rename_i final
      cases tested
      simp only [Running.calls, Running.pieces, phase, final.1, if_true]
    · rename_i more
      cases tested
      simp only [and_true, Bool.not_eq_true] at more
      simp only [Running.calls, Running.pieces, phase, more, Bool.false_eq_true, if_false]
  all_goals simp [Connection.test, phase] at tested

theorem InTurn.infer (inTurn : InTurn engine past handled begun connection)
    (busy : connection.running = some running) {outcome : Outcome} (returns : Returns (.infer outcome))
    (called : connection.infer running outcome = some next) (opened : Opened next) :
    InTurn engine (past ++ [.infer outcome]) handled begun next := by
  have stream := inTurn.opened.stream (pending_running busy)
  cases outcome with
  | threw => exact returns.elim
  | ended => exact returns.elim
  | returned result =>
    rcases phase : running.phase with _ | subvector | _ | _ | _ | _ | _
    case infer =>
      simp only [Connection.infer, phase, stream, if_false] at called
      cases called
      refine inTurn.working rfl busy connection.sent ?_ opened
      simp only [Running.calls, Running.pieces, phase, List.map_cons]
      rw [List.append_cons, inferences, ← filter_call]
      rfl
    case inferFinal =>
      simp only [Connection.infer, phase, stream, if_false] at called
      cases called
      refine inTurn.working rfl busy connection.sent ?_ opened
      simp only [Running.calls, Running.pieces, phase, List.map_cons]
      rw [List.append_cons, inferences, ← filter_call]
      rfl
    all_goals simp [Connection.infer, phase] at called

theorem InTurn.deliver (inTurn : InTurn engine past handled begun connection)
    (busy : connection.running = some running)
    (delivered : connection.deliver engine running = some next) (opened : Opened next) :
    InTurn engine (past ++ [.deliver]) handled begun next := by
  rcases phase : running.phase with _ | _ | result | _ | _ | result | _
  case reply =>
    simp only [Connection.deliver, phase] at delivered
    cases delivered
    refine inTurn.working rfl busy _ ?_ opened
    simp only [Running.calls, Running.pieces, phase, inferences]
  case replyFinal =>
    simp only [Connection.deliver, phase] at delivered
    cases delivered
    refine inTurn.working rfl busy _ ?_ opened
    simp only [Running.calls, Running.pieces, phase, inferences]
  all_goals simp [Connection.deliver, phase] at delivered

theorem InTurn.decrement (inTurn : InTurn engine past handled begun connection)
    (busy : connection.running = some running)
    (left : connection.decrement running = some next) (opened : Opened next) :
    InTurn engine (past ++ [.decrement]) handled begun next := by
  obtain ⟨-, arrived, follows, made, converted⟩ := inTurn
  rcases phase : running.phase with _ | _ | _ | _ | _ | _ | exit
  case leave =>
    simp only [Connection.decrement, phase] at left
    cases left
    refine ⟨opened, ?_, ?_, ?_, converted⟩
    · rw [messages_append, arrived]
      simp [messages]
    · exact ⟨follows.fields, follows.samples, follows.hotwordsEmbedding, follows.tpassOnlineHandle,
        follows.isEof, follows.strand⟩
    · rw [← made, planned, planned, busy, Option.elim_none, Option.elim_some, Running.calls,
        Running.pieces, phase, List.map_nil, inferences, inferences]
  all_goals simp [Connection.decrement, phase] at left

theorem InTurn.begin (inTurn : InTurn engine past handled begun connection)
    (began : connection.begin = some next) (alive : next.terminated = false) (opened : Opened next) :
    ∃ task, InTurn engine (past ++ [.begin]) handled (begun ++ [task]) next := by
  have stream : 0 < connection.pending → connection.tpassOnlineHandle ≠ none := inTurn.opened.stream
  obtain ⟨-, arrived, follows, made, converted⟩ := inTurn
  obtain ⟨task, rest, idle, queue, ⟨-, rfl⟩ | ⟨args, converts, rfl⟩⟩ := begin_cases began
  · cases alive
  · have handle := stream (by simp [pending, queue])
    refine ⟨task, opened, ?_, ?_, ?_, ?_⟩
    · rw [messages_append, arrived]
      simp [messages]
    · refine ⟨follows.fields, follows.samples, follows.hotwordsEmbedding, follows.tpassOnlineHandle,
        follows.isEof, ?_⟩
      rw [follows.strand, queue, List.append_assoc]
      rfl
    · rw [planned, idle, Option.elim_none, List.append_nil] at made
      rw [List.flatMap_append, ← made, List.flatMap_singleton]
      simp only [planned, Option.elim_some, if_neg handle, Running.calls, Running.pieces, Task.calls,
        converts, inferences]
    · intro other member
      cases List.mem_append.mp member with
      | inl old => exact converted other old
      | inr new =>
        obtain rfl := List.mem_singleton.mp new
        exact Option.isSome_iff_exists.mpr ⟨args, converts⟩

theorem Prepared.inferences {opened : Connection} (prepared : Prepared connection opened) :
    opened.inferences = connection.inferences := by
  obtain ⟨more, calls, kinds⟩ := prepared.calls
  rw [Connection.inferences, calls, List.filter_append, Connection.inferences]
  refine (List.append_right_eq_self).mpr (List.filter_eq_nil_iff.mpr fun call member => ?_)
  obtain ⟨hotwords, rfl⟩ | ⟨chunk, rfl⟩ := kinds call member <;> exact of_decide_eq_false rfl

/-- A handler does not touch what the decoder threads do. -/
theorem handle_same {frame : Frame} (alive : (connection.handle engine frame).terminated = false) :
    (connection.handle engine frame).inflight = none ∧
      (connection.handle engine frame).running = connection.running ∧
      (connection.handle engine frame).inferences = connection.inferences ∧
      (connection.handle engine frame).sent = connection.sent := by
  cases frame with
  | text payload =>
    cases parsed : engine.parse payload with
    | none =>
      have failed : connection.handle engine (.text payload) =
          { connection with isEof := true, inflight := none } := by
        simp only [Connection.handle, parsed]
      rw [failed]
      exact ⟨rfl, rfl, rfl, rfl⟩
    | some json =>
      cases ran : connection.onText engine json with
      | none => simp [Connection.handle, parsed, ran] at alive
      | some handled =>
        have done : connection.handle engine (.text payload) =
            { handled with inflight := none } := by
          simp only [Connection.handle, parsed, ran]
        rw [done]
        obtain ⟨prepared, isPrepared, posted⟩ := onText_cases ran
        have inferences := isPrepared.inferences
        have same : prepared.running = connection.running ∧ prepared.sent = connection.sent := by
          rw [isPrepared.same]
          exact ⟨rfl, rfl⟩
        obtain rfl | ⟨-, embedding, -, rfl⟩ := posted
        · exact ⟨rfl, same.1, inferences, same.2⟩
        · exact ⟨rfl, same.1, inferences, same.2⟩
  | binary payload =>
    refine ⟨rfl, ?_⟩
    change (connection.onBinary payload).running = _ ∧ (connection.onBinary payload).inferences = _ ∧
      (connection.onBinary payload).sent = _
    obtain ⟨-, same⟩ | ⟨-, -, rest, same⟩ | ⟨-, -, embedding, subvector, rest, -, -, -, same⟩ :=
      onBinary_cases connection payload
    · rw [same]
      exact ⟨rfl, rfl, rfl⟩
    · rw [same]
      exact ⟨rfl, rfl, rfl⟩
    · rw [same]
      exact ⟨rfl, rfl, rfl⟩
  | other => exact ⟨rfl, rfl, rfl, rfl⟩

theorem InTurn.receive (inTurn : InTurn engine past handled begun connection) {frame : Frame}
    (idle : connection.inflight = none) (opened : Opened (connection.receive frame)) :
    InTurn engine (past ++ [.receive frame]) handled begun (connection.receive frame) := by
  have both : connection.mapped = true ∧ connection.isEof = false :=
    ⟨inTurn.opened.mapped, inTurn.opened.open'⟩
  rw [Connection.receive, if_pos both] at opened ⊢
  obtain ⟨-, arrived, follows, made, converted⟩ := inTurn
  refine ⟨opened, ?_, ?_, made, converted⟩
  · rw [messages_append, arrived, idle, Option.toList_none, List.append_nil]
    rfl
  · exact ⟨follows.fields, follows.samples, follows.hotwordsEmbedding, follows.tpassOnlineHandle,
      follows.isEof, follows.strand⟩

theorem InTurn.handle (inTurn : InTurn engine past handled begun connection) {frame : Frame}
    (inflight : connection.inflight = some frame)
    (alive : (connection.handle engine frame).terminated = false)
    (opened : Opened (connection.handle engine frame)) :
    InTurn engine (past ++ [.handle]) (handled ++ [frame]) begun (connection.handle engine frame) := by
  obtain ⟨-, arrived, follows, made, converted⟩ := inTurn
  obtain ⟨idle, running, inferences, -⟩ := handle_same alive
  refine ⟨opened, ?_, ?_, ?_, converted⟩
  · rw [messages_append, arrived, inflight, idle]
    simp [messages]
  · rw [listen_snoc]
    exact follows.handle alive
  · rw [inferences, planned, running]
    exact made

/-- The message that a step handles. -/
def finished (connection : Connection) : Step → List Frame
  | .handle => connection.inflight.toList
  | _ => []

theorem InTurn.step (inTurn : InTurn engine past handled begun connection) {event : Step}
    (session : OpenSession engine connection event) (returns : Returns event)
    (stepped : Server.step engine connection event = some next) (alive : next.terminated = false) :
    ∃ handled' begun', handled' = handled ++ connection.finished event ∧
      InTurn engine (past ++ [event]) handled' begun' next := by
  have opened := inTurn.opened.step session stepped
  obtain ⟨-, performed⟩ := step_eq_some.mp stepped
  have same : handled = handled ++ [] := (List.append_nil _).symm
  cases event with
  | handle =>
    obtain ⟨frame, inflight, rfl⟩ := Option.map_eq_some_iff.mp performed
    rw [finished, inflight]
    exact ⟨_, begun, rfl, inTurn.handle inflight alive opened⟩
  | receive frame =>
    simp only [perform] at performed
    split at performed
    · rename_i idle
      cases performed
      exact ⟨handled, begun, same, inTurn.receive (Option.isNone_iff_eq_none.mp idle) opened⟩
    · cases performed
  | onClose => exact session.elim
  | removeHdl =>
    cases performed
    rw [inTurn.opened.removeHdl_eq]
    refine ⟨handled, begun, same, inTurn.opened, ?_, inTurn.follows, inTurn.made, inTurn.converted⟩
    rw [messages_append, inTurn.arrived]
    exact List.append_nil _
  | begin =>
    obtain ⟨task, inTurn⟩ := inTurn.begin performed alive opened
    exact ⟨handled, _, same, inTurn⟩
  | test =>
    obtain ⟨running, busy, tested⟩ := Option.bind_eq_some_iff.mp performed
    obtain ⟨running', moved, rfl⟩ := Option.map_eq_some_iff.mp tested
    exact ⟨handled, begun, same, inTurn.test busy moved opened⟩
  | infer outcome =>
    obtain ⟨running, busy, -, called⟩ := infer_performed performed
    exact ⟨handled, begun, same, inTurn.infer busy returns called opened⟩
  | deliver =>
    obtain ⟨running, busy, delivered⟩ := Option.bind_eq_some_iff.mp performed
    exact ⟨handled, begun, same, inTurn.deliver busy delivered opened⟩
  | deliverThrows => exact returns.elim
  | decrement =>
    obtain ⟨running, busy, left⟩ := Option.bind_eq_some_iff.mp performed
    exact ⟨handled, begun, same, inTurn.decrement busy left opened⟩

theorem InTurn.onOpen (engine : Engine) : InTurn engine [] [] [] (onOpen engine) :=
  ⟨.onOpen engine, rfl, ⟨rfl, rfl, rfl, rfl, rfl, rfl⟩, rfl, by simp⟩

theorem InTurn.run {events : List Step}
    (ran : run (Server.step engine) (Server.onOpen engine) events = some connection)
    (meets : Meets (Server.step engine) (fun connection event =>
      OpenSession engine connection event ∧ Returns event) (Server.onOpen engine) events)
    (alive : connection.terminated = false) :
    ∃ handled begun, InTurn engine events handled begun connection := by
  have kept := @run_meets _ _ (Server.step engine) _
    (fun past connection => connection.terminated = false →
      ∃ handled begun, InTurn engine past handled begun connection)
    (fun {past connection event next} holds condition stepped alive => by
      obtain ⟨handled, begun, inTurn⟩ := holds (step_eq_some.mp stepped).1
      obtain ⟨handled', begun', -, inTurn'⟩ :=
        inTurn.step condition.1 condition.2 stepped alive
      exact ⟨handled', begun', inTurn'⟩)
    [] events _ connection (fun _ => ⟨[], [], .onOpen engine⟩) meets ran
  exact kept alive

/-- When nothing is left to do, all tasks have been taken and their calls have been made. -/
theorem InTurn.done (inTurn : InTurn engine past handled begun connection)
    (idle : connection.pending = 0) : (listen engine handled).strand = begun ∧
      connection.inferences = sequentialCalls engine handled := by
  obtain ⟨queue, free⟩ := idle_iff.mp idle
  have strand := inTurn.follows.strand
  have made := inTurn.made
  rw [queue, List.append_nil] at strand
  rw [planned, free, Option.elim_none, List.append_nil] at made
  exact ⟨strand, by rw [made, sequentialCalls, strand]⟩

/-! ## The replies -/

variable {answer : List EngineCall → Option RecogResult}

/-- The calls that have returned have been answered, up to what the running task has still to
    send. -/
structure Replied (engine : Engine) (answer : List EngineCall → Option RecogResult)
    (connection : Connection) : Prop where
  sent : connection.sent ++ connection.owed engine =
    repliesFrom engine answer [] connection.inferences
  ends : ∀ running, connection.running = some running → running.Ends

theorem Replied.working (replied : Replied engine answer connection)
    (busy : connection.running = some running) {sent : List Json}
    (same : sent ++ running'.owed engine = connection.sent ++ running.owed engine)
    (ends : running'.Ends) :
    Replied engine answer { connection with running := some running', sent } := by
  have before := replied.sent
  rw [owed, busy] at before
  refine ⟨same.trans before, fun other is => ?_⟩
  cases is
  exact ends

theorem Replied.test (replied : Replied engine answer connection)
    (busy : connection.running = some running) (tested : connection.test running = some running') :
    Replied engine answer { connection with running := some running' } := by
  rcases phase : running.phase with _ | _ | _ | _ | _ | _ | _
  case loop =>
    simp only [Connection.test, phase] at tested
    split at tested
    · cases tested
      exact replied.working busy (by simp only [Running.owed, phase]) trivial
    · cases tested
      exact replied.working busy (by simp only [Running.owed, phase]) trivial
  case final =>
    simp only [Connection.test, phase] at tested
    split at tested
    · rename_i final
      cases tested
      exact replied.working busy (by simp only [Running.owed, phase]) final.1
    · cases tested
      exact replied.working busy (by simp only [Running.owed, phase]) trivial
  all_goals simp [Connection.test, phase] at tested

/-- A call that has been answered owes the replies to it. -/
theorem Replied.called (replied : Replied engine answer connection)
    (busy : connection.running = some running) (nothing : running.owed engine = [])
    {piece : List Byte × Bool} {calls : List EngineCall} (inferred : calls.filter (·.IsInference) =
      connection.inferences ++ [running.args.call running.hotwordsEmbedding piece])
    (owes : running'.owed engine =
      (running.args.call running.hotwordsEmbedding piece).replies engine
        (answer (calls.filter (·.IsInference))))
    (ends : running'.Ends) :
    Replied engine answer { connection with running := some running', calls } := by
  have before := replied.sent
  rw [owed, busy, Option.elim_some, nothing, List.append_nil] at before
  refine ⟨?_, fun other is => ?_⟩
  · simp only [owed, Option.elim_some, inferences] at inferred ⊢
    rw [before, owes, inferred, repliesFrom_append, List.nil_append]
    simp only [repliesFrom, List.append_nil, inferences]
  · cases is
    exact ends

theorem Replied.infer (replied : Replied engine answer connection) (opened : Opened connection)
    (busy : connection.running = some running) {outcome : Outcome} (returns : Returns (.infer outcome))
    (answers : ∀ result, outcome = .returned result → result = answer next.inferences)
    (called : connection.infer running outcome = some next) : Replied engine answer next := by
  have stream := opened.stream (pending_running busy)
  have ends := replied.ends running busy
  cases outcome with
  | threw => exact returns.elim
  | ended => exact returns.elim
  | returned result =>
    have result_eq := answers result rfl
    rcases phase : running.phase with _ | subvector | _ | _ | _ | _ | _
    case infer =>
      simp only [Connection.infer, phase, stream, if_false] at called
      cases called
      refine replied.called busy (by simp only [Running.owed, phase])
        (filter_call connection.calls running.args running.hotwordsEmbedding (subvector, false)) ?_
        trivial
      rw [Running.owed, result_eq]
      rfl
    case inferFinal =>
      simp only [Running.Ends, phase] at ends
      simp only [Connection.infer, phase, stream, if_false] at called
      cases called
      refine replied.called busy (by simp only [Running.owed, phase])
        (filter_call connection.calls running.args running.hotwordsEmbedding
          (running.buffer, running.isFinal)) ?_ ends
      rw [Running.owed, result_eq, Args.call, EngineCall.replies, if_pos ends]
      rfl
    all_goals simp [Connection.infer, phase] at called

theorem Replied.deliver (replied : Replied engine answer connection)
    (busy : connection.running = some running)
    (delivered : connection.deliver engine running = some next) : Replied engine answer next := by
  rcases phase : running.phase with _ | _ | result | _ | _ | result | _
  case reply =>
    simp only [Connection.deliver, phase] at delivered
    cases delivered
    exact replied.working busy (by simp only [Running.owed, phase, List.append_nil]) trivial
  case replyFinal =>
    simp only [Connection.deliver, phase] at delivered
    cases delivered
    exact replied.working busy (by simp only [Running.owed, phase, List.append_nil]) trivial
  all_goals simp [Connection.deliver, phase] at delivered

theorem Replied.decrement (replied : Replied engine answer connection)
    (busy : connection.running = some running)
    (left : connection.decrement running = some next) : Replied engine answer next := by
  have before := replied.sent
  rcases phase : running.phase with _ | _ | _ | _ | _ | _ | exit
  case leave =>
    simp only [Connection.decrement, phase] at left
    cases left
    rw [owed, busy, Option.elim_some, Running.owed, phase] at before
    refine ⟨before, fun other is => ?_⟩
    cases is
  all_goals simp [Connection.decrement, phase] at left

theorem Replied.begin (replied : Replied engine answer connection) (opened : Opened connection)
    (began : connection.begin = some next) : Replied engine answer next := by
  have before := replied.sent
  obtain ⟨task, rest, idle, queue, ⟨-, rfl⟩ | ⟨args, converted, rfl⟩⟩ := begin_cases began
  · exact ⟨before, replied.ends⟩
  · have handle := opened.stream (by simp [pending, queue])
    rw [owed, idle] at before
    simp only [if_neg handle]
    refine ⟨before, fun running is => ?_⟩
    cases is
    trivial

theorem Replied.handle (replied : Replied engine answer connection) {frame : Frame}
    (alive : (connection.handle engine frame).terminated = false) :
    Replied engine answer (connection.handle engine frame) := by
  obtain ⟨-, running, inferences, sent⟩ := handle_same alive
  refine ⟨?_, fun other busy => replied.ends other (running ▸ busy)⟩
  rw [owed, running, inferences, sent]
  exact replied.sent

theorem Replied.step (replied : Replied engine answer connection) (opened : Opened connection)
    {event : Step} (session : OpenSession engine connection event) (returns : Returns event)
    (answers : Answers engine answer connection event)
    (stepped : Server.step engine connection event = some next) (alive : next.terminated = false) :
    Replied engine answer next := by
  obtain ⟨-, performed⟩ := step_eq_some.mp stepped
  cases event with
  | receive frame =>
    simp only [perform] at performed
    split at performed
    · cases performed
      rw [Connection.receive]
      split
      · exact ⟨replied.sent, replied.ends⟩
      · exact replied
    · cases performed
  | handle =>
    obtain ⟨frame, inflight, rfl⟩ := Option.map_eq_some_iff.mp performed
    exact replied.handle alive
  | onClose => exact session.elim
  | removeHdl =>
    cases performed
    rw [opened.removeHdl_eq]
    exact replied
  | begin => exact replied.begin opened performed
  | test =>
    obtain ⟨running, busy, tested⟩ := Option.bind_eq_some_iff.mp performed
    obtain ⟨running', moved, rfl⟩ := Option.map_eq_some_iff.mp tested
    exact replied.test busy moved
  | infer outcome =>
    obtain ⟨running, busy, -, called⟩ := infer_performed performed
    refine replied.infer opened busy returns (fun result is => ?_) called
    subst is
    exact answers next stepped
  | deliver =>
    obtain ⟨running, busy, delivered⟩ := Option.bind_eq_some_iff.mp performed
    exact replied.deliver busy delivered
  | deliverThrows => exact returns.elim
  | decrement =>
    obtain ⟨running, busy, left⟩ := Option.bind_eq_some_iff.mp performed
    exact replied.decrement busy left

theorem Replied.onOpen (engine : Engine) (answer : List EngineCall → Option RecogResult) :
    Replied engine answer (onOpen engine) :=
  ⟨rfl, nofun⟩

end Connection

/-! ## The schedule does not show -/

variable {engine : Engine} {answer : List EngineCall → Option RecogResult} {connection : Connection}
  {events : List Step}

theorem Connection.Replied.run
    (ran : run (Server.step engine) (Server.onOpen engine) events = some connection)
    (meets : Meets (Server.step engine) (fun connection event => OpenSession engine connection event ∧
      Returns event ∧ Answers engine answer connection event) (Server.onOpen engine) events)
    (alive : connection.terminated = false) : Replied engine answer connection := by
  have kept := @run_meets _ _ (Server.step engine) _
    (fun _ connection => Opened connection ∧
      (connection.terminated = false → Replied engine answer connection))
    (fun {past connection event next} holds condition stepped =>
      ⟨holds.1.step condition.1 stepped, fun alive =>
        (holds.2 (step_eq_some.mp stepped).1).step holds.1 condition.1 condition.2.1 condition.2.2
          stepped alive⟩)
    [] events _ connection ⟨.onOpen engine, fun _ => .onOpen engine answer⟩ meets ran
  exact kept.2 alive

theorem repliesFrom_isPrefix {past first calls : List EngineCall} (isPrefix : first <+: calls) :
    repliesFrom engine answer past first <+: repliesFrom engine answer past calls := by
  obtain ⟨rest, rfl⟩ := isPrefix
  exact ⟨_, (repliesFrom_append engine answer past first rest).symm⟩

/-- On an open connection on which nothing throws, the calls of the model and what is sent do not
    depend on how the steps of the listening thread and of the decoder threads mix: they are those
    of one thread that takes the messages one after the other, as far as the tasks have come. -/
theorem run_sequential
    (ran : run (step engine) (onOpen engine) events = some connection)
    (meets : Meets (step engine) (fun connection event => OpenSession engine connection event ∧
      Returns event ∧ Answers engine answer connection event) (onOpen engine) events)
    (alive : connection.terminated = false) :
    ∃ handled, messages events = handled ++ connection.inflight.toList ∧
      connection.inferences <+: sequentialCalls engine handled ∧
      connection.sent <+: repliesFrom engine answer [] (sequentialCalls engine handled) ∧
      (connection.pending = 0 → connection.inferences = sequentialCalls engine handled ∧
        connection.sent = repliesFrom engine answer [] (sequentialCalls engine handled)) := by
  obtain ⟨handled, begun, inTurn⟩ :=
    Connection.InTurn.run ran (meets.imp fun _ _ holds => ⟨holds.1, holds.2.1⟩) alive
  have replied := Connection.Replied.run ran meets alive
  have calls : sequentialCalls engine handled = connection.inferences ++ (connection.planned ++
      connection.strand.flatMap Task.calls) := by
    rw [sequentialCalls, inTurn.follows.strand, List.flatMap_append, ← inTurn.made,
      List.append_assoc]
  have made : connection.inferences <+: sequentialCalls engine handled := ⟨_, calls.symm⟩
  refine ⟨handled, inTurn.arrived, made, ?_, fun idle => ?_⟩
  · exact List.IsPrefix.trans ⟨_, replied.sent⟩ (repliesFrom_isPrefix made)
  · obtain ⟨-, same⟩ := inTurn.done idle
    refine ⟨same, ?_⟩
    rw [← same, ← replied.sent, Connection.owed, (Connection.idle_iff.mp idle).2]
    simp

/-- A result that the models give to every call. -/
def heardResult : RecogResult where
  msg := ""
  tpassMsg := "hi"
  stamp := ""
  stampSents := ""

/-- One byte, then the message that ends the recording; the next byte comes while the task runs. -/
def overlappingEvents : List Step :=
  [.receive (.binary [0]), .handle, .receive (.text sessionPayload), .handle,
    .receive (.binary [1]), .begin, .test, .handle, .test, .infer (.returned (some heardResult)),
    .deliver, .decrement]

theorem overlappingEvents_meets :
    Meets (step sessionEngine) (fun connection event => OpenSession sessionEngine connection event ∧
      Returns event ∧ Answers sessionEngine (fun _ => some heardResult) connection event)
      (onOpen sessionEngine) overlappingEvents := by
  decide +kernel

theorem run_sequential_overlapping : ∃ connection,
    run (step sessionEngine) (onOpen sessionEngine) overlappingEvents = some connection ∧
    ∃ handled, messages overlappingEvents = handled ++ connection.inflight.toList ∧
      connection.inferences <+: sequentialCalls sessionEngine handled ∧
      connection.sent <+: repliesFrom sessionEngine (fun _ => some heardResult) []
        (sequentialCalls sessionEngine handled) ∧
      (connection.pending = 0 → connection.inferences = sequentialCalls sessionEngine handled ∧
        connection.sent = repliesFrom sessionEngine (fun _ => some heardResult) []
          (sequentialCalls sessionEngine handled)) := by
  obtain ⟨connection, ran, alive⟩ : ∃ connection,
      run (step sessionEngine) (onOpen sessionEngine) overlappingEvents = some connection ∧
        connection.terminated = false := ⟨_, rfl, rfl⟩
  exact ⟨connection, ran, run_sequential ran overlappingEvents_meets alive⟩

end Asr2Pass.Server
