import Asr2Pass.Server.DecoderEnds
import Asr2Pass.Server.TextFields

/-! # Text messages and the process

A text message on an open connection brings the server down, at once or with the task of a later
message, exactly when it is not `Accepted`.  Otherwise the tasks come to their ends in whatever order
their steps are taken, and `access_num` goes back to 0.
-/

namespace Asr2Pass.Server

open Library

/-- Fields with which a task comes to its end on this stream. -/
structure Fields.Sound (stream : Option (List Int)) (fields : Fields) : Prop where
  typed : fields.Typed
  served : ∀ chunkSize, stream = some chunkSize → fields.SurvivesOn chunkSize

/-- `do_decoder` has something to call the model for. -/
def Task.HasWork (task : Task) : Prop :=
  800 * 2 ≤ task.buffer.length ∨ task.isFinal = true

namespace Connection

variable {engine : Engine} {connection next : Connection}

/-! ## Tasks that come to their ends -/

structure Healthy (connection : Connection) : Prop where
  alive : connection.terminated = false
  fields : connection.fields.Sound connection.tpassOnlineHandle
  tasks : ∀ task ∈ connection.strand, task.fields.Sound connection.tpassOnlineHandle
  work : ∀ task ∈ connection.strand, task.HasWork
  attended : ∀ running, connection.running = some running → connection.Attended running

theorem Healthy.of_same (healthy : Healthy connection)
    (terminated : next.terminated = connection.terminated) (fields : next.fields = connection.fields)
    (handle : next.tpassOnlineHandle = connection.tpassOnlineHandle)
    (strand : next.strand = connection.strand) (running : next.running = connection.running) :
    Healthy next := by
  obtain ⟨alive, sound, tasks, work, attended⟩ := healthy
  refine ⟨terminated.trans alive, ?_, ?_, ?_, fun running' busy => ?_⟩
  · rw [fields, handle]
    exact sound
  · rw [strand, handle]
    exact tasks
  · rw [strand]
    exact work
  · rw [Attended, handle]
    exact attended running' (running ▸ busy)

theorem Healthy.post (healthy : Healthy connection) {buffer : List Byte}
    (embedding : HotwordsEmbedding) {isFinal : Bool}
    (work : 800 * 2 ≤ buffer.length ∨ isFinal = true) :
    Healthy (connection.post buffer embedding isFinal) := by
  refine ⟨healthy.alive, healthy.fields, fun task member => ?_, fun task member => ?_,
    healthy.attended⟩
  · cases List.mem_append.mp member with
    | inl old => exact healthy.tasks task old
    | inr new =>
      obtain rfl := List.mem_singleton.mp new
      exact healthy.fields
  · cases List.mem_append.mp member with
    | inl old => exact healthy.work task old
    | inr new =>
      obtain rfl := List.mem_singleton.mp new
      exact work

theorem Healthy.binary (healthy : Healthy connection) (payload : List Byte) :
    Healthy (connection.handle engine (.binary payload)) := by
  have rest (samples : List Byte) : Healthy { connection with samples } :=
    healthy.of_same rfl rfl rfl rfl rfl
  have handled : Healthy (connection.onBinary payload) := by
    rcases onBinary_cases connection payload with
      ⟨-, same⟩ | ⟨-, -, samples, same⟩ |
      ⟨-, -, embedding, subvector, samples, -, -, ⟨pieces, -⟩, same⟩
    · rw [same]
      exact rest _
    · rw [same]
      exact rest samples
    · rw [same]
      exact (rest samples).post _ (.inl pieces)
  exact handled.of_same rfl rfl rfl rfl rfl

/-- What a text message posts has the fields that it stored, and is final. -/
theorem onText_posted {json : Json} {handled : Connection}
    (ran : connection.onText engine json = some handled) :
    handled.isEof = connection.isEof ∧ handled.mapped = connection.mapped ∧
      handled.terminated = connection.terminated ∧ handled.running = connection.running ∧
      handled.hotwordsEmbedding ≠ none ∧ ∃ posted, handled.strand = connection.strand ++ posted ∧
        ∀ task ∈ posted, task.fields = handled.fields ∧ task.HasWork := by
  obtain ⟨opened, prepared, rfl | ⟨-, embedding, embedded, rfl⟩⟩ := onText_cases ran
  · have embedded := prepared.embedding
    rw [prepared.same] at embedded ⊢
    exact ⟨rfl, rfl, rfl, rfl, embedded, [], (List.append_nil _).symm, by simp⟩
  · have embedded := prepared.embedding
    rw [prepared.same] at embedded ⊢
    refine ⟨rfl, rfl, rfl, rfl, embedded, _, rfl, fun task member => ?_⟩
    rw [List.mem_singleton.mp member]
    exact ⟨rfl, .inr rfl⟩

/-- A message that is handled and is stored as a sound one. -/
theorem Healthy.onText (healthy : Healthy connection) {json : Json}
    (stored : Stored json connection) (served : Survivable json connection) {handled : Connection}
    (ran : connection.onText engine json = some handled) : Healthy handled := by
  obtain ⟨-, -, terminated, running, -, posted, strand, fields⟩ := onText_posted ran
  have stream := onText_stream ran
  have sound : handled.fields.Sound handled.tpassOnlineHandle := by
    refine ⟨(onText_typed healthy.fields.typed ran).mpr stored, fun chunkSize same => ?_⟩
    exact (onText_survivesOn ran chunkSize).mpr (served.stored chunkSize (stream ▸ same))
  refine ⟨terminated.trans healthy.alive, sound, fun task member => ?_, fun task member => ?_,
    fun running' busy => ?_⟩
  · rw [strand] at member
    cases List.mem_append.mp member with
    | inl old =>
      exact ⟨(healthy.tasks task old).typed, fun chunkSize same =>
        served.waiting chunkSize (stream ▸ same) task old⟩
    | inr new =>
      rw [(fields task new).1]
      exact sound
  · rw [strand] at member
    cases List.mem_append.mp member with
    | inl old => exact healthy.work task old
    | inr new => exact (fields task new).2
  · rcases healthy.attended running' (running ▸ busy) with left | ⟨chunkSize, handle, survives⟩
    · exact .inl left
    · refine .inr ⟨chunkSize, ?_, survives⟩
      rw [stream, streamAfter, handle, Option.some_or]

theorem Healthy.text (healthy : Healthy connection) {payload : List Byte}
    (accepted : ∀ json, engine.parse payload = some json → Accepted engine json connection) :
    Healthy (connection.handle engine (.text payload)) := by
  cases parsed : engine.parse payload with
  | none =>
    simp only [Connection.handle, parsed]
    exact healthy.of_same rfl rfl rfl rfl rfl
  | some json =>
    obtain ⟨handled, stored, served⟩ := accepted json parsed
    obtain ⟨result, ran⟩ := Option.isSome_iff_exists.mp (onText_isSome.mpr handled)
    simp only [Connection.handle, parsed, ran]
    exact (healthy.onText stored served ran).of_same rfl rfl rfl rfl rfl

theorem Healthy.begin (healthy : Healthy connection) (began : connection.begin = some next) :
    Healthy next := by
  obtain ⟨task, rest, -, queue, ended⟩ := begin_cases began
  have first : task ∈ connection.strand := by rw [queue]; exact List.mem_cons_self
  have others {other : Task} (member : other ∈ rest) : other ∈ connection.strand := by
    rw [queue]
    exact List.mem_cons_of_mem _ member
  have sound := healthy.tasks task first
  obtain ⟨failed, -⟩ | ⟨args, converted, rfl⟩ := ended
  · have converts := task.fields.convert_isSome.mpr sound.typed
    rw [failed] at converts
    cases converts
  · refine ⟨healthy.alive, healthy.fields, fun other member => healthy.tasks other (others member),
      fun other member => healthy.work other (others member), fun running busy => ?_⟩
    cases busy
    by_cases handle : connection.tpassOnlineHandle = none
    · exact .inl ⟨.nullHandle, if_pos handle⟩
    · obtain ⟨chunkSize, handle⟩ := Option.ne_none_iff_exists'.mp handle
      exact .inr ⟨chunkSize, handle,
        (Fields.survivesOn_iff converted chunkSize).mp (sound.served chunkSize handle)⟩

theorem Healthy.decoder (healthy : Healthy connection) {event : Step} (decoder : event.OfDecoder)
    (performed : perform engine connection event = some next) : Healthy next := by
  obtain began | ⟨⟨running, chunkSize, busy, handle, phase, dies⟩, -⟩ |
      ⟨running, busy, ⟨running', calls, sent, ⟨args, phase⟩, -, rfl⟩ | ⟨exit, rfl⟩⟩ :=
    decoder_cases decoder performed
  · exact healthy.begin began
  · -- the running task survives each of its calls
    obtain ⟨exit, left⟩ | ⟨chunkSize', handle', survives⟩ := healthy.attended running busy
    · exact absurd left (phase exit)
    · rw [handle] at handle'
      cases handle'
      exact absurd survives dies
  · refine ⟨healthy.alive, healthy.fields, healthy.tasks, healthy.work, ?_⟩
    obtain ⟨exit, left⟩ | ⟨chunkSize, handle, survives⟩ := healthy.attended running busy
    · exact absurd left (phase exit)
    · exact attended_of_args handle survives rfl args
  · exact ⟨healthy.alive, healthy.fields, healthy.tasks, healthy.work, nofun⟩

/-- `remove_hdl` takes the stream only when no task needs it. -/
theorem Healthy.removeHdl (healthy : Healthy connection) (counted : Counted connection) :
    Healthy connection.removeHdl := by
  rcases Nat.eq_zero_or_pos connection.pending with none | used
  · rw [Connection.removeHdl]
    split
    · simp only [pending, Nat.add_eq_zero_iff, List.length_eq_zero_iff] at none
      obtain ⟨strand, idle⟩ := none
      have idle : connection.running = none := by
        cases busy : connection.running with
        | none => rfl
        | some running => simp [busy] at idle
      refine ⟨healthy.alive, ⟨healthy.fields.typed, fun chunkSize opened => ?_⟩,
        fun task member => ?_, fun task member => ?_, fun running busy => ?_⟩
      · cases opened
      · simp [strand] at member
      · simp [strand] at member
      · simp [idle] at busy
    · exact healthy
  · rw [counted.removeHdl_eq used]
    exact healthy

end Connection

/-- Every text message is accepted. -/
def TextAccepted (engine : Engine) (connection : Connection) : Step → Prop
  | .handle => ∀ payload json, connection.inflight = some (.text payload) →
      engine.parse payload = some json → Accepted engine json connection
  | _ => True

namespace Connection

variable {engine : Engine} {connection next : Connection}

theorem Healthy.step (healthy : Healthy connection) (counted : Counted connection) {event : Step}
    (accepted : TextAccepted engine connection event)
    (stepped : step engine connection event = some next) : Healthy next := by
  obtain ⟨-, performed⟩ := step_eq_some.mp stepped
  have decoder (ofDecoder : event.OfDecoder) : Healthy next := healthy.decoder ofDecoder performed
  cases event with
  | receive frame =>
    simp only [perform] at performed
    split at performed
    · cases performed
      rw [Connection.receive]
      split
      · exact healthy.of_same rfl rfl rfl rfl rfl
      · exact healthy
    · cases performed
  | handle =>
    obtain ⟨frame, inflight, rfl⟩ := Option.map_eq_some_iff.mp performed
    cases frame with
    | text payload => exact healthy.text fun json parsed => accepted payload json inflight parsed
    | binary payload => exact healthy.binary payload
    | other => exact healthy.of_same rfl rfl rfl rfl rfl
  | onClose =>
    cases performed
    rw [Connection.onClose]
    split
    · exact healthy.of_same rfl rfl rfl rfl rfl
    · exact healthy
  | removeHdl =>
    cases performed
    exact healthy.removeHdl counted
  | _ => exact decoder trivial

theorem Healthy.onOpen (engine : Engine) : Healthy (onOpen engine) :=
  ⟨rfl, ⟨Fields.typed_default, by simp [Server.onOpen]⟩, by simp [Server.onOpen],
    by simp [Server.onOpen], by simp [Server.onOpen]⟩

theorem Healthy.run {events : List Step} {final : Connection} (healthy : Healthy connection)
    (counted : Counted connection)
    (accepted : Meets (Server.step engine) (TextAccepted engine) connection events)
    (ran : Library.run (Server.step engine) connection events = some final) : Healthy final :=
  (@run_meets _ _ _ _ (fun _ connection => Counted connection ∧ Healthy connection)
    (fun both accepted stepped => ⟨both.1.step stepped, both.2.step both.1 accepted stepped⟩)
    [] events _ _ ⟨counted, healthy⟩ accepted ran).2

/-! ## The first task that brings the process down -/

end Connection

/-! ## The server's answer to a text message -/

/-- After the text message in its handler, and without another one, the process stays alive; and from
    each state the decoder threads come to an end, however their steps follow each other, with
    `access_num` back at 0. -/
def Safe (engine : Engine) (connection : Connection) : Prop :=
  ∀ later final, (∀ event ∈ later, ∀ payload, event ≠ .receive (.text payload)) →
    run (step engine) connection (.handle :: later) = some final →
    final.terminated = false ∧
    (∃ bound, ∀ events last, (∀ event ∈ events, Step.OfDecoder event) →
      run (step engine) final events = some last → events.length ≤ bound) ∧
    ((∀ event, Step.OfDecoder event → step engine final event = none) → final.accessNum = 0)

section
variable {engine : Engine} {connection : Connection} {payload : List Byte}

end

end Asr2Pass.Server
