import Asr2Pass.Server.AccessNum

/-! # Audio from the client to the model

While a connection is open, every byte that has arrived is in one place: passed to
`FunTpassInferBuffer`, with a task, in `samples` or in the message whose handler runs.  A cut that
comes before the first text message loses what it cuts off, and so does an exception in a task that
has more to pass.
-/

namespace Asr2Pass.Server

open Library

/-! ## Where the bytes are -/

def Frame.bytes : Frame → List Byte
  | .binary payload => payload
  | _ => []

/-- What a running task has still to pass. -/
def Running.bytes (running : Running) : List Byte :=
  match running.phase with
  | .infer subvector => subvector ++ running.buffer
  | .replyFinal _ => []
  | .leave _ => []
  | _ => running.buffer

namespace Connection

def inTask (connection : Connection) : List Byte :=
  connection.running.elim [] Running.bytes

/-- What the tasks have still to pass. -/
def waiting (connection : Connection) : List Byte :=
  connection.inTask ++ connection.strand.flatMap Task.buffer

theorem waiting_of_idle (connection : Connection) (idle : connection.pending = 0) :
    connection.waiting = [] := by
  cases busy : connection.running with
  | none =>
    cases queue : connection.strand with
    | nil => simp [waiting, inTask, busy, queue]
    | cons task rest => simp [pending, queue] at idle
  | some running => simp [pending, busy] at idle

def arriving (connection : Connection) : List Byte :=
  connection.inflight.elim [] Frame.bytes

end Connection

def Step.bytes : Step → List Byte
  | .receive frame => frame.bytes
  | _ => []

/-- The audio that has arrived. -/
def received (events : List Step) : List Byte := events.flatMap Step.bytes

/-! ## The conditions -/

/-- A `chunk_size` that opens a stream. -/
def ValidChunk (json : Json) : Prop :=
  ∃ chunkSize, (json.member "chunk_size").bind Json.toInts = some chunkSize ∧
    chunkSize.length = 3 ∧ chunkSize[1]? ≠ some 0

/-- The connection stays open: text messages are JSON, and the first carries a valid
    `chunk_size`. -/
def OpenSession (engine : Engine) (connection : Connection) : Step → Prop
  | .handle => ∀ payload, connection.inflight = some (.text payload) →
      ∃ json, engine.parse payload = some json ∧
        (connection.hotwordsEmbedding = none → ValidChunk json)
  | .onClose => False
  | _ => True

/-- No cut while there are no hotwords, and no exception in a task that has more to pass. -/
def KeepsAudio (connection : Connection) : Step → Prop
  | .handle => ∀ payload, connection.inflight = some (.binary payload) →
      connection.hotwordsEmbedding = none → (connection.samples ++ payload).length ≤ 800 * 2
  | .infer .threw => ∀ running subvector, connection.running = some running →
      running.phase = .infer subvector → running.buffer = []
  | .deliverThrows => ∀ running result, connection.running = some running →
      running.phase = .reply result → running.buffer = []
  | _ => True

/-! Whether they hold can be computed. -/

instance (json : Json) : Decidable (ValidChunk json) :=
  decidable_of_iff (((json.member "chunk_size").bind Json.toInts).any fun chunkSize =>
      chunkSize.length = 3 ∧ chunkSize[1]? ≠ some 0) (by
    simp only [Option.any_eq_true, decide_eq_true_eq]
    rfl)

/-- A condition on the text message in its handler. -/
instance decidableText (condition : List Byte → Prop) [∀ payload, Decidable (condition payload)] :
    (inflight : Option Frame) → Decidable (∀ payload, inflight = some (.text payload) →
      condition payload)
  | some (.text payload) => decidable_of_iff (condition payload)
      ⟨fun holds _ same => by cases same; exact holds, fun all => all payload rfl⟩
  | some (.binary _) => .isTrue nofun
  | some .other => .isTrue nofun
  | none => .isTrue nofun

instance decidableBinary (condition : List Byte → Prop)
    [∀ payload, Decidable (condition payload)] :
    (inflight : Option Frame) → Decidable (∀ payload, inflight = some (.binary payload) →
      condition payload)
  | some (.binary payload) => decidable_of_iff (condition payload)
      ⟨fun holds _ same => by cases same; exact holds, fun all => all payload rfl⟩
  | some (.text _) => .isTrue nofun
  | some .other => .isTrue nofun
  | none => .isTrue nofun

instance (engine : Engine) (connection : Connection) :
    (event : Step) → Decidable (OpenSession engine connection event)
  | .handle =>
    have (payload : List Byte) : Decidable (∃ json, engine.parse payload = some json ∧
        (connection.hotwordsEmbedding = none → ValidChunk json)) :=
      decidable_of_iff ((engine.parse payload).any fun json =>
          connection.hotwordsEmbedding = none → ValidChunk json) (by
        simp only [Option.any_eq_true, decide_eq_true_eq])
    decidableText _ connection.inflight
  | .onClose => .isFalse id
  | .receive _ | .removeHdl | .begin | .test | .infer _ | .deliver | .deliverThrows | .decrement =>
    .isTrue trivial

/-- A condition on the phase of the task that runs. -/
instance decidableRunning (condition : Running → Prop)
    [∀ running, Decidable (condition running)] :
    (busy : Option Running) → Decidable (∀ running, busy = some running → condition running)
  | some running => decidable_of_iff (condition running)
      ⟨fun holds _ same => by cases same; exact holds, fun all => all running rfl⟩
  | none => .isTrue nofun

instance (connection : Connection) :
    (event : Step) → Decidable (KeepsAudio connection event)
  | .handle => decidableBinary (fun payload => connection.hotwordsEmbedding = none →
      (connection.samples ++ payload).length ≤ 800 * 2) connection.inflight
  | .infer .threw =>
    have (running : Running) : Decidable (∀ subvector, running.phase = .infer subvector →
        running.buffer = []) :=
      decidable_of_iff (running.phase matches .infer _ → running.buffer = []) (by
        cases running.phase <;> simp)
    decidable_of_iff (∀ running, connection.running = some running → ∀ subvector,
      running.phase = .infer subvector → running.buffer = [])
      ⟨fun all running subvector busy => all running busy subvector,
        fun all running busy subvector => all running subvector busy⟩
  | .deliverThrows =>
    have (running : Running) : Decidable (∀ result, running.phase = .reply result →
        running.buffer = []) :=
      decidable_of_iff (running.phase matches .reply _ → running.buffer = []) (by
        cases running.phase <;> simp)
    decidable_of_iff (∀ running, connection.running = some running → ∀ result,
      running.phase = .reply result → running.buffer = [])
      ⟨fun all running result busy => all running busy result,
        fun all running busy result => all running result busy⟩
  | .infer (.returned _) | .infer .ended => .isTrue trivial
  | .receive _ | .onClose | .removeHdl | .begin | .test | .deliver | .decrement => .isTrue trivial

/-! ## The invariant -/

/-- A task that is not final has whole steps only, so that the loop passes all of it. -/
def Running.Whole (running : Running) : Prop :=
  match running.phase with
  | .loop => running.isFinal = true ∨ 800 * 2 ∣ running.buffer.length
  | .infer _ => running.isFinal = true ∨ 800 * 2 ∣ running.buffer.length
  | .reply _ => running.isFinal = true ∨ 800 * 2 ∣ running.buffer.length
  | .final => running.isFinal = true ∨ running.buffer = []
  | _ => True

namespace Connection

structure Conserved (past : List Step) (connection : Connection) : Prop where
  bytes : connection.delivered ++ connection.waiting ++ connection.samples ++ connection.arriving =
    received past
  open' : connection.isEof = false
  mapped : connection.mapped = true
  ready : connection.hotwordsEmbedding ≠ none → connection.tpassOnlineHandle ≠ none
  early : connection.hotwordsEmbedding = none →
    connection.strand = [] ∧ connection.running = none ∧ connection.tpassOnlineHandle = none
  tasks : ∀ task ∈ connection.strand, task.isFinal = true ∨ 800 * 2 ∣ task.buffer.length
  working : ∀ running, connection.running = some running → running.Whole

variable {engine : Engine} {connection : Connection} {past : List Step}

theorem received_snoc (past : List Step) (event : Step) :
    received (past ++ [event]) = received past ++ event.bytes := by
  simp [received]

/-- A task runs only while there is a stream. -/
theorem Conserved.stream (conserved : Conserved past connection) {running : Running}
    (busy : connection.running = some running) : connection.tpassOnlineHandle ≠ none := by
  refine conserved.ready fun none => ?_
  have idle := (conserved.early none).2.1
  rw [busy] at idle
  cases idle

/-- A step of a task that moves bytes from the task to the model. -/
theorem Conserved.moved (conserved : Conserved past connection) {event : Step}
    (silent : event.bytes = []) {running running' : Running}
    (busy : connection.running = some running) {calls : List EngineCall} (sent : List Json)
    (moved : calls.flatMap EngineCall.data ++ running'.bytes =
      connection.delivered ++ running.bytes)
    (whole : running'.Whole) :
    Conserved (past ++ [event]) { connection with running := some running', calls, sent } := by
  refine ⟨?_, conserved.open', conserved.mapped, conserved.ready, fun none => ?_, conserved.tasks, ?_⟩
  · rw [received_snoc, silent, List.append_nil, ← conserved.bytes]
    simp only [delivered, waiting, inTask, busy, Option.elim_some, arriving] at moved ⊢
    rw [← List.append_assoc, ← List.append_assoc, moved]
  · have idle := (conserved.early none).2.1
    rw [busy] at idle
    cases idle
  · intro running'' same
    cases same
    exact whole

theorem Conserved.test (conserved : Conserved past connection) {running running' : Running}
    (busy : connection.running = some running)
    (tested : connection.test running = some running') :
    Conserved (past ++ [.test]) { connection with running := some running' } := by
  have whole := conserved.working running busy
  have open' := conserved.open'
  -- Only the two phases that test something can take this step.
  rcases phase : running.phase with _ | _ | _ | _ | _ | _ | _
  case loop =>
    simp only [Running.Whole, phase] at whole
    simp only [Connection.test, phase, open'] at tested
    split at tested
    · rename_i long
      cases tested
      refine conserved.moved rfl busy connection.sent ?_ ?_
      · simp [Running.bytes, phase, delivered]
      · rcases whole with final | ⟨count, steps⟩
        · exact .inl final
        · right
          refine ⟨count - 1, ?_⟩
          rw [List.length_drop]
          omega
    · rename_i short
      cases tested
      refine conserved.moved rfl busy connection.sent ?_ ?_
      · simp [Running.bytes, phase, delivered]
      · rcases whole with final | ⟨count, steps⟩
        · exact .inl final
        · right
          simp only [and_true] at short
          refine List.eq_nil_of_length_eq_zero ?_
          change running.buffer.length = 0
          omega
  case final =>
    simp only [Running.Whole, phase] at whole
    simp only [Connection.test, phase, open'] at tested
    split at tested
    · cases tested
      refine conserved.moved rfl busy connection.sent ?_ trivial
      simp [Running.bytes, phase, delivered]
    · rename_i last
      cases tested
      refine conserved.moved rfl busy connection.sent ?_ trivial
      have empty : running.buffer = [] := by
        cases whole with
        | inl final => exact absurd ⟨final, trivial⟩ last
        | inr empty => exact empty
      simp [Running.bytes, phase, delivered, empty]
  all_goals simp [Connection.test, phase] at tested

/-- A call that does not come back leaves its bytes with the task. -/
theorem Conserved.inferEnds (conserved : Conserved past connection) (outcome : Outcome) :
    Conserved (past ++ [.infer outcome]) { connection with terminated := true } := by
  refine ⟨?_, conserved.open', conserved.mapped, conserved.ready, conserved.early, conserved.tasks,
    conserved.working⟩
  rw [received_snoc, ← conserved.bytes]
  exact (List.append_nil _).symm

theorem Conserved.infer (conserved : Conserved past connection) {running : Running}
    (busy : connection.running = some running) {outcome : Outcome}
    (keeps : KeepsAudio connection (.infer outcome)) {next : Connection}
    (called : connection.infer running outcome = some next) :
    Conserved (past ++ [.infer outcome]) next := by
  have whole := conserved.working running busy
  have stream := conserved.stream busy
  rcases phase : running.phase with _ | subvector | _ | _ | _ | _ | _
  case infer =>
    simp only [Running.Whole, phase] at whole
    simp only [Connection.infer, phase, stream, if_false] at called
    cases outcome with
    | returned result =>
      cases called
      refine conserved.moved rfl busy connection.sent ?_ whole
      simp [Running.bytes, phase, delivered, inferBuffer, EngineCall.data]
    | threw =>
      cases called
      refine conserved.moved rfl busy connection.sent ?_ trivial
      simp [Running.bytes, phase, delivered, inferBuffer, EngineCall.data,
        keeps running subvector busy phase]
    | ended =>
      cases called
      exact conserved.inferEnds _
  case inferFinal =>
    simp only [Connection.infer, phase, stream, if_false] at called
    cases outcome with
    | returned result =>
      cases called
      refine conserved.moved rfl busy connection.sent ?_ trivial
      simp [Running.bytes, phase, delivered, inferBuffer, EngineCall.data]
    | threw =>
      cases called
      refine conserved.moved rfl busy connection.sent ?_ trivial
      simp [Running.bytes, phase, delivered, inferBuffer, EngineCall.data]
    | ended =>
      cases called
      exact conserved.inferEnds _
  all_goals simp [Connection.infer, phase] at called

theorem Conserved.deliver (conserved : Conserved past connection) {running : Running}
    (busy : connection.running = some running) {next : Connection}
    (sent : connection.deliver engine running = some next) :
    Conserved (past ++ [.deliver]) next := by
  have whole := conserved.working running busy
  rcases phase : running.phase with _ | _ | result | _ | _ | result | _
  case reply =>
    simp only [Running.Whole, phase] at whole
    simp only [Connection.deliver, phase] at sent
    cases sent
    refine conserved.moved rfl busy _ ?_ whole
    simp [Running.bytes, phase, delivered]
  case replyFinal =>
    simp only [Connection.deliver, phase] at sent
    cases sent
    refine conserved.moved rfl busy _ ?_ trivial
    simp [Running.bytes, phase, delivered]
  all_goals simp [Connection.deliver, phase] at sent

theorem Conserved.deliverThrows (conserved : Conserved past connection) {running : Running}
    (busy : connection.running = some running) (keeps : KeepsAudio connection .deliverThrows)
    {next : Connection} (threw : connection.deliverThrows running = some next) :
    Conserved (past ++ [.deliverThrows]) next := by
  simp only [Connection.deliverThrows] at threw
  split at threw
  · rename_i result phase
    cases threw
    refine conserved.moved rfl busy connection.sent ?_ trivial
    simp [Running.bytes, phase, delivered, keeps running _ busy phase]
  · rename_i result phase
    cases threw
    refine conserved.moved rfl busy connection.sent ?_ trivial
    simp [Running.bytes, phase, delivered]
  · cases threw

theorem Conserved.decrement (conserved : Conserved past connection) {running : Running}
    (busy : connection.running = some running) {next : Connection}
    (left : connection.decrement running = some next) :
    Conserved (past ++ [.decrement]) next := by
  rcases phase : running.phase with _ | _ | _ | _ | _ | _ | exit
  case leave =>
    simp only [Connection.decrement, phase] at left
    cases left
    refine ⟨?_, conserved.open', conserved.mapped, conserved.ready, fun none => ?_, conserved.tasks,
      by simp⟩
    · rw [received_snoc, ← conserved.bytes]
      simp [delivered, waiting, inTask, arriving, busy, Running.bytes, phase, Step.bytes]
    · obtain ⟨empty, -, null⟩ := conserved.early none
      exact ⟨empty, rfl, null⟩
  all_goals simp [Connection.decrement, phase] at left

theorem Conserved.begin (conserved : Conserved past connection) {next : Connection}
    (began : connection.begin = some next) : Conserved (past ++ [.begin]) next := by
  obtain ⟨task, rest, idle, queue, began⟩ := begin_cases began
  have embedded : connection.hotwordsEmbedding ≠ none := by
    intro none
    have empty := (conserved.early none).1
    rw [queue] at empty
    cases empty
  have tasks := conserved.tasks
  rw [queue] at tasks
  obtain ⟨-, rfl⟩ | ⟨args, -, rfl⟩ := began
  · refine ⟨?_, conserved.open', conserved.mapped, conserved.ready,
      fun none => absurd none embedded, conserved.tasks, by simp [idle]⟩
    rw [received_snoc, ← conserved.bytes]
    simp [delivered, waiting, inTask, arriving, idle, Step.bytes]
  · -- there is a stream, so the task starts with its loop
    simp only [conserved.ready embedded, if_false]
    refine ⟨?_, conserved.open', conserved.mapped, conserved.ready,
      fun none => absurd none embedded,
      fun other member => tasks other (List.mem_cons_of_mem _ member), fun running same => ?_⟩
    · rw [received_snoc, ← conserved.bytes]
      simp [delivered, waiting, inTask, arriving, idle, queue, Step.bytes, Running.bytes]
    · cases same
      exact tasks task List.mem_cons_self

/-! ## The handlers -/

theorem Prepared.delivered {opened : Connection} (prepared : Prepared connection opened) :
    opened.delivered = connection.delivered := by
  obtain ⟨more, calls, kinds⟩ := prepared.calls
  rw [Connection.delivered, calls, List.flatMap_append, Connection.delivered]
  refine (List.append_right_eq_self).mpr (List.flatMap_eq_nil_iff.mpr fun call member => ?_)
  rcases kinds call member with ⟨hotwords, rfl⟩ | ⟨chunk, rfl⟩ <;> rfl

theorem openStream_valid {json : Json} {opened : Connection} {right : Bool}
    (valid : connection.tpassOnlineHandle = none → ValidChunk json)
    (ran : connection.openStream engine json = some (opened, right)) :
    right = true ∧ opened.tpassOnlineHandle ≠ none := by
  cases handle : connection.tpassOnlineHandle with
  | none =>
    obtain ⟨chunkSize, converted, length, middle⟩ := valid handle
    obtain ⟨value, chunk, ints⟩ := Option.bind_eq_some_iff.mp converted
    simp only [openStream, chunk, handle, ints, Option.bind_eq_bind, Option.bind_some] at ran
    rw [if_pos ⟨length, middle⟩] at ran
    obtain ⟨-, opens⟩ := Option.ite_none_right_eq_some.mp ran
    cases opens
    exact ⟨rfl, by simp⟩
  | some stream =>
    have same : opened = connection ∧ right = true := by
      cases chunk : json.member "chunk_size" with
      | none =>
        simp only [openStream, chunk] at ran
        cases ran
        exact ⟨rfl, rfl⟩
      | some value =>
        simp only [openStream, chunk, handle] at ran
        cases ran
        exact ⟨rfl, rfl⟩
    rw [same.1, handle]
    exact ⟨same.2, by simp⟩

theorem postFinal_done {json : Json} {handled : Connection} (done : clientDone json = some true)
    (open' : connection.isEof = false) (embedded : connection.hotwordsEmbedding ≠ none)
    (ran : connection.postFinal json = some handled) : handled.samples = [] := by
  cases embedding : connection.hotwordsEmbedding with
  | none => exact absurd embedding embedded
  | some embedding =>
    simp only [postFinal, done, open', embedding, Option.bind_eq_bind, Option.bind_some] at ran
    cases ran
    rfl

/-- With a valid `chunk_size` a text message leaves a stream, and its end of the recording takes all
    the samples. -/
theorem onText_valid {json : Json} {handled : Connection}
    (valid : connection.tpassOnlineHandle = none → ValidChunk json)
    (ran : connection.onText engine json = some handled) :
    handled.tpassOnlineHandle ≠ none ∧
      (clientDone json = some true → connection.isEof = false → handled.samples = []) := by
  simp only [onText, Option.bind_eq_bind, Option.bind_eq_some_iff, Prod.exists] at ran
  obtain ⟨loaded, load, opened, right, stream, ran⟩ := ran
  have handle : loaded.tpassOnlineHandle = connection.tpassOnlineHandle := by
    rcases loadHotwords_cases load with ⟨-, rfl⟩ | ⟨-, hotwords, embedding, rfl⟩ <;> rfl
  have isEof : loaded.isEof = connection.isEof := by
    rcases loadHotwords_cases load with ⟨-, rfl⟩ | ⟨-, hotwords, embedding, rfl⟩ <;> rfl
  have embedded : loaded.hotwordsEmbedding ≠ none := by
    rcases loadHotwords_cases load with ⟨some, rfl⟩ | ⟨-, hotwords, embedding, rfl⟩
    · exact some
    · simp
  obtain ⟨rfl, streams⟩ := @openStream_valid engine (loaded.storeAudioFs json) json opened right
    (by rw [← handle] at valid; exact valid) stream
  have same : opened.isEof = loaded.isEof ∧ opened.hotwordsEmbedding = loaded.hotwordsEmbedding := by
    rcases openStream_cases stream with rfl | ⟨-, -, chunkSize, rfl⟩ <;> exact ⟨rfl, rfl⟩
  rw [if_pos rfl] at ran
  refine ⟨?_, fun done open' => ?_⟩
  · rcases postFinal_cases ran with rfl | ⟨-, embedding, -, rfl⟩ <;> exact streams
  · refine postFinal_done done ?_ ?_ ran
    · exact (same.1.trans isEof).trans open'
    · change opened.hotwordsEmbedding ≠ none
      rw [same.2]
      exact embedded

theorem Conserved.text (conserved : Conserved past connection) {payload : List Byte}
    (inflight : connection.inflight = some (.text payload)) {json : Json}
    (parsed : engine.parse payload = some json)
    (valid : connection.hotwordsEmbedding = none → ValidChunk json) :
    Conserved (past ++ [.handle]) (connection.handle engine (.text payload)) := by
  have chunk : connection.tpassOnlineHandle = none → ValidChunk json := by
    intro none
    refine valid ?_
    by_contra embedded
    exact conserved.ready embedded none
  have before := conserved.bytes
  simp only [arriving, inflight, Option.elim_some, Frame.bytes, List.append_nil] at before
  cases ran : connection.onText engine json with
  | none =>
    simp only [Connection.handle, parsed, ran]
    refine ⟨?_, conserved.open', conserved.mapped, conserved.ready, conserved.early, conserved.tasks,
      conserved.working⟩
    rw [received_snoc, ← conserved.bytes]
    simp [Step.bytes, delivered, waiting, inTask, arriving]
  | some handled =>
    simp only [Connection.handle, parsed, ran]
    have stream := (onText_valid chunk ran).1
    obtain ⟨opened, prepared, posted⟩ := onText_cases ran
    have same := prepared.same
    have passed := prepared.delivered
    have embedded := prepared.embedding
    -- Either no task is posted, or the one that ends the recording.
    rcases posted with rfl | ⟨open', embedding, some, rfl⟩
    · refine ⟨?_, ?_, ?_, fun _ => stream, fun none => absurd none embedded, ?_, ?_⟩
      · rw [received_snoc, ← before, ← passed, same]
        simp [Step.bytes, Connection.delivered, waiting, inTask, arriving]
      · rw [same]
        exact conserved.open'
      · rw [same]
        exact conserved.mapped
      · rw [same]
        exact conserved.tasks
      · rw [same]
        exact conserved.working
    · refine ⟨?_, ?_, ?_, fun _ => stream, fun none => absurd none embedded, ?_, ?_⟩
      · rw [received_snoc, ← before, ← passed, same]
        simp [Step.bytes, Connection.delivered, waiting, inTask, arriving, post]
      · rw [same]
        exact conserved.open'
      · rw [same]
        exact conserved.mapped
      · rw [same]
        intro task member
        cases List.mem_append.mp member with
        | inl old => exact conserved.tasks task old
        | inr new =>
          obtain rfl := List.mem_singleton.mp new
          exact .inl rfl
      · rw [same]
        exact conserved.working

theorem Conserved.binary (conserved : Conserved past connection) {payload : List Byte}
    (inflight : connection.inflight = some (.binary payload))
    (keeps : connection.hotwordsEmbedding = none →
      (connection.samples ++ payload).length ≤ 800 * 2) :
    Conserved (past ++ [.handle]) (connection.handle engine (.binary payload)) := by
  have before := conserved.bytes
  simp only [arriving, inflight, Option.elim_some, Frame.bytes] at before
  simp only [Connection.handle]
  -- The bytes are kept, are dropped on a closed connection, or make a task.
  rcases onBinary_cases connection payload with ⟨-, same⟩ | ⟨long, lost, -⟩ |
    ⟨-, -, embedding, subvector, rest, embedded, split, ⟨-, whole⟩, same⟩
  · rw [same]
    refine ⟨?_, conserved.open', conserved.mapped, conserved.ready, conserved.early, conserved.tasks,
      conserved.working⟩
    rw [received_snoc, ← before]
    simp [Step.bytes, delivered, waiting, inTask, arriving]
  · cases lost with
    | inl closed =>
      have open' := conserved.open'
      rw [closed] at open'
      cases open'
    | inr none =>
      have short := keeps none
      omega
  · rw [same]
    refine ⟨?_, conserved.open', conserved.mapped, conserved.ready, fun missing => ?_, ?_,
      conserved.working⟩
    · rw [List.append_assoc, ← split] at before
      rw [received_snoc, ← before]
      simp [Step.bytes, delivered, waiting, inTask, arriving, post]
    · change connection.hotwordsEmbedding = none at missing
      rw [embedded] at missing
      cases missing
    · intro task member
      cases List.mem_append.mp member with
      | inl old => exact conserved.tasks task old
      | inr new =>
        obtain rfl := List.mem_singleton.mp new
        exact .inr whole

theorem Conserved.step (conserved : Conserved past connection) {event : Step}
    (session : OpenSession engine connection event) (keeps : KeepsAudio connection event)
    {next : Connection} (stepped : step engine connection event = some next) :
    Conserved (past ++ [event]) next := by
  obtain ⟨-, performed⟩ := step_eq_some.mp stepped
  -- Most events have a lemma of their own; the others move no byte.
  cases event with
  | receive frame =>
    cases idle : connection.inflight with
    | none =>
      simp only [perform, idle, Option.isNone_none, if_true, Connection.receive, conserved.mapped,
        conserved.open', and_self] at performed
      cases performed
      refine ⟨?_, rfl, rfl, conserved.ready, conserved.early, conserved.tasks, conserved.working⟩
      have before := conserved.bytes
      simp only [arriving, idle, Option.elim_none, List.append_nil] at before
      rw [received_snoc, ← before]
      simp [Step.bytes, delivered, waiting, inTask, arriving]
    | some handled => simp [perform, idle] at performed
  | handle =>
    obtain ⟨frame, inflight, rfl⟩ := Option.map_eq_some_iff.mp performed
    cases frame with
    | text payload =>
      obtain ⟨json, parsed, valid⟩ := session payload inflight
      exact conserved.text inflight parsed valid
    | binary payload => exact conserved.binary inflight (keeps payload inflight)
    | other =>
      refine ⟨?_, conserved.open', conserved.mapped, conserved.ready, conserved.early,
        conserved.tasks, conserved.working⟩
      rw [received_snoc, ← conserved.bytes]
      simp [Step.bytes, Connection.handle, delivered, waiting, inTask, arriving, inflight, Frame.bytes]
  | onClose => exact session.elim
  | removeHdl =>
    cases performed
    have same : connection.removeHdl = connection := by
      rw [removeHdl, if_neg]
      rintro ⟨-, -, closed⟩
      rw [conserved.open'] at closed
      cases closed
    rw [same]
    refine ⟨?_, conserved.open', conserved.mapped, conserved.ready, conserved.early, conserved.tasks,
      conserved.working⟩
    rw [received_snoc, conserved.bytes]
    exact (List.append_nil _).symm
  | begin => exact conserved.begin performed
  | test =>
    obtain ⟨running, busy, tested⟩ := Option.bind_eq_some_iff.mp performed
    obtain ⟨running', moved, rfl⟩ := Option.map_eq_some_iff.mp tested
    exact conserved.test busy moved
  | infer outcome =>
    obtain ⟨running, busy, -, called⟩ := infer_performed performed
    exact conserved.infer busy keeps called
  | deliver =>
    obtain ⟨running, busy, sent⟩ := Option.bind_eq_some_iff.mp performed
    exact conserved.deliver busy sent
  | deliverThrows =>
    obtain ⟨running, busy, threw⟩ := Option.bind_eq_some_iff.mp performed
    exact conserved.deliverThrows busy keeps threw
  | decrement =>
    obtain ⟨running, busy, left⟩ := Option.bind_eq_some_iff.mp performed
    exact conserved.decrement busy left

theorem Conserved.onOpen (engine : Engine) : Conserved [] (onOpen engine) :=
  ⟨rfl, rfl, rfl, fun some => absurd rfl some, fun _ => ⟨rfl, rfl, rfl⟩, by simp [Server.onOpen],
    by simp [Server.onOpen]⟩

end Connection

/-! ## The end of a recording -/

section
variable {engine : Engine} {connection : Connection}

theorem quiet_run {events : List Step} (quiet : ∀ event ∈ events, ¬ event.OfMessage)
    {final : Connection} (ran : run (step engine) connection events = some final) :
    final.samples = connection.samples ∧ final.inflight = connection.inflight := by
  induction events generalizing connection with
  | nil =>
    cases ran
    exact ⟨rfl, rfl⟩
  | cons event rest inductionHypothesis =>
    obtain ⟨next, stepped, ran⟩ := run_cons_eq_some.mp ran
    obtain ⟨first, others⟩ := List.forall_mem_cons.mp quiet
    have one := quiet_step first stepped
    have more := inductionHypothesis others ran
    exact ⟨more.1.trans one.1, more.2.trans one.2⟩

end

/-- An exception that escapes is the end of a run. -/
theorem terminated_run {engine : Engine} {connection final : Connection} {events : List Step}
    (dead : connection.terminated = true)
    (ran : run (step engine) connection events = some final) : final = connection := by
  cases events with
  | nil =>
    cases ran
    rfl
  | cons event rest =>
    obtain ⟨next, stepped, -⟩ := run_cons_eq_some.mp ran
    have alive := (step_eq_some.mp stepped).1
    rw [dead] at alive
    cases alive

/-- The last message of the run is a text message that ends the recording. -/
def EndsRecording (engine : Engine) (events : List Step) : Prop :=
  ∃ before later connection payload json, events = before ++ .handle :: later ∧
    (∀ event ∈ later, ¬ event.OfMessage) ∧
    run (step engine) (onOpen engine) before = some connection ∧
    connection.inflight = some (.text payload) ∧ engine.parse payload = some json ∧
    clientDone json = some true

/-- A text message that ends the recording of an open session takes all the samples with it. -/
theorem Connection.Conserved.ended {engine : Engine} {past : List Step} {connection : Connection}
    (conserved : connection.Conserved past) {payload : List Byte} {json : Json}
    (inflight : connection.inflight = some (.text payload))
    (parsed : engine.parse payload = some json) (done : clientDone json = some true)
    (session : OpenSession engine connection .handle) :
    (connection.handle engine (.text payload)).terminated = true ∨
      (connection.handle engine (.text payload)).samples = [] ∧
        (connection.handle engine (.text payload)).inflight = none := by
  obtain ⟨json', parsed', valid⟩ := session payload inflight
  rw [parsed] at parsed'
  cases parsed'
  cases ran : connection.onText engine json with
  | none =>
    left
    simp only [Connection.handle, parsed, ran]
  | some handled =>
    right
    simp only [Connection.handle, parsed, ran, and_true]
    refine (onText_valid (fun missing => valid ?_) ran).2 done conserved.open'
    by_contra embedded
    exact conserved.ready embedded missing

/-- In every run of an open session in which no cut comes before the first text message and no task
    with more to pass ends by an exception, the audio that has arrived is what has been passed to
    the model, then what the tasks have, then `samples`, then the message in its handler; and once
    the recording has been ended and its tasks have run, all of it has been passed. -/
theorem run_delivers {engine : Engine} {events : List Step} {connection : Connection}
    (ran : run (step engine) (onOpen engine) events = some connection)
    (meets : Meets (step engine) (fun connection event =>
      OpenSession engine connection event ∧ KeepsAudio connection event) (onOpen engine) events) :
    connection.delivered ++ connection.waiting ++ connection.samples ++ connection.arriving =
        received events ∧
      (EndsRecording engine events → connection.terminated = false → connection.pending = 0 →
        connection.delivered = received events) := by
  have kept {past : List Step} {state final : Connection} {more : List Step}
      (conserved : state.Conserved past)
      (meets : Meets (step engine) (fun connection event =>
        OpenSession engine connection event ∧ KeepsAudio connection event) state more)
      (ran : run (step engine) state more = some final) : final.Conserved (past ++ more) :=
    run_meets (fun conserved condition stepped => conserved.step condition.1 condition.2 stepped)
      conserved meets ran
  have conserved := kept (Connection.Conserved.onOpen engine) meets ran
  refine ⟨conserved.bytes, fun ends alive idle => ?_⟩
  obtain ⟨before, later, middle, payload, json, rfl, quiet, reached, inflight, parsed, done⟩ := ends
  obtain ⟨meets, rest⟩ := meets_append.mp meets
  have session := (rest middle reached).1.1
  have early := kept (Connection.Conserved.onOpen engine) meets reached
  rw [run_append, reached, Option.bind_some, run_cons_eq_some] at ran
  obtain ⟨next, handled, ran⟩ := ran
  obtain ⟨-, performed⟩ := step_eq_some.mp handled
  simp only [perform, inflight, Option.map_some, Option.some.injEq] at performed
  subst performed
  rcases early.ended inflight parsed done session with dead | ⟨samples, arriving⟩
  · rw [terminated_run dead ran, dead] at alive
    cases alive
  · -- nothing is left in `samples` or in a handler, and no task is left to pass anything
    obtain ⟨samples', arriving'⟩ := quiet_run quiet ran
    have bytes := conserved.bytes
    have waiting : connection.waiting = [] := connection.waiting_of_idle idle
    rwa [Connection.arriving, arriving', arriving, samples', samples, waiting, Option.elim_none,
      List.append_nil, List.append_nil, List.append_nil] at bytes

/-- The bytes of `{"chunk_size":[5,10,5],"is_speaking":false}`. -/
def sessionPayload : List Byte :=
  [0x7b, 0x22, 0x63, 0x68, 0x75, 0x6e, 0x6b, 0x5f, 0x73, 0x69, 0x7a, 0x65, 0x22, 0x3a, 0x5b, 0x35,
    0x2c, 0x31, 0x30, 0x2c, 0x35, 0x5d, 0x2c, 0x22, 0x69, 0x73, 0x5f, 0x73, 0x70, 0x65, 0x61, 0x6b,
    0x69, 0x6e, 0x67, 0x22, 0x3a, 0x66, 0x61, 0x6c, 0x73, 0x65, 0x7d]

def sessionJson : Json :=
  .object [("chunk_size", .array [.integer 5, .integer 10, .integer 5]),
    ("is_speaking", .boolean false)]

/-- An engine for a client that sends `sessionPayload`. -/
def sessionEngine : Engine where
  parse payload := if payload = sessionPayload then some sessionJson else none
  hwsMap := []
  compileHotwordEmbedding _ := []
  wfstDecoderInit := true

/-- The text message arrives, and its task runs. -/
def sessionEnd : List Step :=
  [.receive (.text sessionPayload), .handle, .begin, .test, .test, .infer (.returned none), .deliver,
    .decrement]

/-- A binary message that comes before it. -/
def sessionEvents (audio : List Byte) : List Step :=
  [.receive (.binary audio), .handle] ++ sessionEnd

/-- The connection when one byte is left of the binary message. -/
def early : Connection := { onOpen sessionEngine with samples := [0] }

theorem early_run : ∃ connection, run (step sessionEngine) early sessionEnd = some connection ∧
    connection.terminated = false ∧ connection.pending = 0 ∧ connection.delivered = [0] :=
  ⟨_, rfl, rfl, rfl, rfl⟩

theorem early_meets : Meets (step sessionEngine) (fun connection event =>
    OpenSession sessionEngine connection event ∧ KeepsAudio connection event) early sessionEnd := by
  decide +kernel

/-- The message arrives when `audio` leaves `early`. -/
theorem sessionEvents_ends {audio : List Byte}
    (left : run (step sessionEngine) (onOpen sessionEngine) [.receive (.binary audio), .handle] =
      some early) : EndsRecording sessionEngine (sessionEvents audio) := by
  refine ⟨[.receive (.binary audio), .handle, .receive (.text sessionPayload)], _,
    early.receive (.text sessionPayload), sessionPayload, sessionJson, rfl,
    by simp [Step.OfMessage], ?_, rfl, rfl, rfl⟩
  rw [show [Step.receive (.binary audio), .handle, .receive (.text sessionPayload)] =
    [.receive (.binary audio), .handle] ++ [.receive (.text sessionPayload)] from rfl, run_append, left]
  rfl

/-- The steps of a task for a piece of 1600 bytes, and of a task for the last piece. -/
def pieceSteps : List Step := [.test, .infer (.returned none), .deliver]

def lastSteps : List Step :=
  [.begin, .test, .test, .infer (.returned none), .deliver, .decrement]

/-- A recording without samples, which opens the stream, and one of 180 ms whose messages come between
    the steps of the tasks. -/
def longEvents : List Step :=
  [.receive (.text sessionPayload), .handle, .receive (.binary (List.replicate 3760 0))] ++
  lastSteps ++ [.handle, .begin] ++ pieceSteps ++ [.receive (.binary (List.replicate 2000 0))] ++
  pieceSteps ++ [.handle, .receive (.text sessionPayload), .test, .test, .handle, .decrement,
    .begin] ++
  pieceSteps ++ [.test, .test, .decrement] ++ lastSteps

theorem longEvents_ends : EndsRecording sessionEngine longEvents := by
  have reached : (run (step sessionEngine) (onOpen sessionEngine) (longEvents.take 22)).any
      (fun connection => ¬ ∀ payload, connection.inflight = some (.text payload) →
        payload ≠ sessionPayload) := by
    decide +kernel
  obtain ⟨connection, ran, text⟩ := (Option.any_eq_true _ _).mp reached
  have inflight : connection.inflight = some (.text sessionPayload) := by
    obtain ⟨payload, both⟩ := not_forall.mp (of_decide_eq_true text)
    obtain ⟨inflight, same⟩ := Classical.not_imp.mp both
    rw [inflight, not_not.mp same]
  refine ⟨longEvents.take 22, longEvents.drop 23, connection, sessionPayload, sessionJson, rfl, ?_,
    ran, inflight, rfl, rfl⟩
  simp [longEvents, pieceSteps, lastSteps, Step.OfMessage, -List.reduceReplicate]

theorem run_delivers_session :
    ∃ connection, run (step sessionEngine) (onOpen sessionEngine) longEvents = some connection ∧
      connection.delivered ++ connection.waiting ++ connection.samples ++ connection.arriving =
        received longEvents ∧
      connection.delivered = received longEvents := by
  have finishes : (run (step sessionEngine) (onOpen sessionEngine) longEvents).any
      (fun connection => connection.terminated = false ∧ connection.pending = 0) := by
    decide +kernel
  obtain ⟨connection, ran, quiet⟩ := (Option.any_eq_true _ _).mp finishes
  obtain ⟨alive, idle⟩ := of_decide_eq_true quiet
  obtain ⟨bytes, delivered⟩ := run_delivers ran (by decide +kernel)
  exact ⟨connection, ran, bytes, delivered longEvents_ends alive idle⟩

theorem receive_early : run (step sessionEngine) (onOpen sessionEngine)
    [.receive (.binary (List.replicate 1601 0)), .handle] = some early := by
  simp [run, step, perform, Connection.receive, onOpen, Connection.handle, Connection.onBinary,
    Connection.postChunk, early, -List.reduceReplicate]

/-- 1601 bytes before the first text message: all but the last are lost. -/
theorem run_delivers_early :
    ∃ connection, run (step sessionEngine) (onOpen sessionEngine)
        (sessionEvents (List.replicate 1601 0)) = some connection ∧
      Meets (step sessionEngine) (OpenSession sessionEngine) (onOpen sessionEngine)
        (sessionEvents (List.replicate 1601 0)) ∧
      EndsRecording sessionEngine (sessionEvents (List.replicate 1601 0)) ∧
      connection.terminated = false ∧ connection.pending = 0 ∧
      connection.delivered ≠ received (sessionEvents (List.replicate 1601 0)) := by
  obtain ⟨connection, ran, alive, idle, delivered⟩ := early_run
  refine ⟨connection, ?_, ?_, sessionEvents_ends receive_early, alive, idle, ?_⟩
  · rw [sessionEvents, run_append, receive_early]
    exact ran
  · refine meets_append.mpr ⟨?_, fun middle reached => ?_⟩
    · refine ⟨trivial, fun next stepped => ⟨?_, fun _ _ => trivial⟩⟩
      obtain rfl : _ = next := Option.some.inj stepped
      exact nofun
    · rw [receive_early] at reached
      cases reached
      exact early_meets.imp fun _ _ both => both.1
  · intro same
    have length := congrArg List.length same
    simp [delivered, received, sessionEvents, sessionEnd, Step.bytes, Frame.bytes,
      -List.reduceReplicate] at length

end Asr2Pass.Server
