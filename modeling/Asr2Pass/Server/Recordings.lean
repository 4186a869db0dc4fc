import Asr2Pass.Server.Sequential

/-! # The recordings of a client

A client sends a recording in binary messages of any length and ends it with a text message.  What
the model is passed depends on the bytes of the recording alone: steps of 800 samples, and the rest
as the last piece.
-/

namespace Asr2Pass.Server

open Library

/-! ## What the messages say -/

/-- Whether a text message ends the recording. -/
def isDone (engine : Engine) (payload : List Byte) : Bool :=
  (engine.parse payload).bind clientDone = some true

/-- The recordings that have ended, and the bytes of the next one. -/
def record (engine : Engine) (recorded : List (List Byte) × List Byte) :
    Frame → List (List Byte) × List Byte
  | .binary payload => (recorded.1, recorded.2 ++ payload)
  | .text payload =>
    if isDone engine payload then (recorded.1 ++ [recorded.2], []) else recorded
  | .other => recorded

def recordings (engine : Engine) (frames : List Frame) : List (List Byte) × List Byte :=
  frames.foldl (record engine) ([], [])

theorem recordings_snoc (engine : Engine) (frames : List Frame) (frame : Frame) :
    recordings engine (frames ++ [frame]) = record engine (recordings engine frames) frame := by
  rw [recordings, List.foldl_append, List.foldl_cons, List.foldl_nil, recordings]

def Task.pieces (task : Task) : List (List Byte × Bool) :=
  Server.pieces task.isFinal task.buffer

/-- What a call passes, and whether it is the last one of the recording. -/
def EngineCall.piece : EngineCall → List Byte × Bool
  | .inferBuffer data inputFinished .. => (data, inputFinished)
  | _ => ([], false)

theorem map_piece_calls {task : Task} (converted : task.fields.convert.isSome) :
    task.calls.map EngineCall.piece = task.pieces := by
  obtain ⟨args, converts⟩ := Option.isSome_iff_exists.mp converted
  rw [Task.calls, converts, Option.elim_some, List.map_map, Task.pieces]
  exact List.map_id _

/-- Whole steps, and what comes after them. -/
theorem pieces_append {first : List Byte} (whole : 800 * 2 ∣ first.length) (second : List Byte)
    (isFinal : Bool) :
    pieces isFinal (first ++ second) = pieces false first ++ pieces isFinal second := by
  obtain ⟨count, length⟩ := whole
  induction count generalizing first with
  | zero =>
    obtain rfl := List.eq_nil_of_length_eq_zero length
    rw [@pieces_short [] (by simp)]
    rfl
  | succ count inductionHypothesis =>
    have long : 800 * 2 ≤ first.length := by omega
    have rest : (first.drop (800 * 2)).length = 800 * 2 * count := by
      rw [List.length_drop]
      omega
    rw [pieces_long long, pieces_long (by rw [List.length_append]; omega),
      List.take_append_of_le_length long, List.drop_append_of_le_length long,
      inductionHypothesis rest, List.cons_append]

/-! ## The messages in tasks -/

namespace Connection

variable {engine : Engine} {connection : Connection} {recorded : List (List Byte) × List Byte}
  {posted : List Byte}

/-- The tasks that have been posted pass the recordings that have ended, and the whole steps `posted`
    of the next one. -/
structure Cut (recorded : List (List Byte) × List Byte) (posted : List Byte)
    (connection : Connection) : Prop where
  current : posted ++ connection.samples = recorded.2
  whole : 800 * 2 ∣ posted.length
  tasks : connection.strand.flatMap Task.pieces =
    recorded.1.flatMap (pieces true) ++ pieces false posted

theorem postFinal_strand {json : Json} {handled : Connection} (open' : connection.isEof = false)
    (embedded : connection.hotwordsEmbedding ≠ none) (ran : connection.postFinal json = some handled) :
    ∃ done, clientDone json = some done ∧
      handled.strand.length = connection.strand.length + if done then 1 else 0 := by
  obtain ⟨embedding, some⟩ := Option.ne_none_iff_exists'.mp embedded
  simp only [postFinal, some, open', Option.bind_eq_bind, Option.bind_eq_some_iff] at ran
  obtain ⟨done, read, ran⟩ := ran
  refine ⟨done, read, ?_⟩
  cases done with
  | true =>
    cases ran
    simp [post]
  | false =>
    cases ran
    rfl

/-- A text message of an open session posts a task when it ends the recording, and only then. -/
theorem onText_strand {json : Json} {handled : Connection}
    (valid : connection.tpassOnlineHandle = none → ValidChunk json)
    (open' : connection.isEof = false) (ran : connection.onText engine json = some handled) :
    ∃ done, clientDone json = some done ∧
      handled.strand.length = connection.strand.length + if done then 1 else 0 := by
  simp only [onText, Option.bind_eq_bind, Option.bind_eq_some_iff, Prod.exists] at ran
  obtain ⟨loaded, load, opened, right, stream, ran⟩ := ran
  have loading : loaded.tpassOnlineHandle = connection.tpassOnlineHandle ∧
      loaded.isEof = connection.isEof ∧ loaded.strand = connection.strand ∧
      loaded.hotwordsEmbedding ≠ none := by
    obtain ⟨some, rfl⟩ | ⟨-, hotwords, embedding, rfl⟩ := loadHotwords_cases load
    · exact ⟨rfl, rfl, rfl, some⟩
    · exact ⟨rfl, rfl, rfl, Option.some_ne_none _⟩
  obtain ⟨handle, isEof, strand, embedded⟩ := loading
  obtain ⟨rfl, -⟩ := @openStream_valid _ (loaded.storeAudioFs json) json opened right
    (by rw [← handle] at valid; exact valid) stream
  have opening : opened.isEof = loaded.isEof ∧ opened.strand = loaded.strand ∧
      opened.hotwordsEmbedding = loaded.hotwordsEmbedding := by
    obtain rfl | ⟨-, -, chunkSize, rfl⟩ := openStream_cases stream <;> exact ⟨rfl, rfl, rfl⟩
  rw [if_pos rfl] at ran
  rw [← strand, ← opening.2.1]
  refine @postFinal_strand (opened.storeOptions json) json handled ?_ ?_ ran
  · exact (opening.1.trans isEof).trans open'
  · change opened.hotwordsEmbedding ≠ none
    rw [opening.2.2]
    exact embedded

theorem Cut.text (cut : Cut recorded posted connection) {payload : List Byte}
    {json : Json} (parsed : engine.parse payload = some json)
    (valid : connection.tpassOnlineHandle = none → ValidChunk json)
    (open' : connection.isEof = false) {handled : Connection}
    (ran : connection.onText engine json = some handled) :
    ∃ posted', Cut (record engine recorded (.text payload)) posted'
      (connection.handle engine (.text payload)) := by
  obtain ⟨current, whole, tasks⟩ := cut
  have result : connection.handle engine (.text payload) = { handled with inflight := none } := by
    simp only [Connection.handle, parsed, ran]
  obtain ⟨done, read, count⟩ := onText_strand valid open' ran
  have isDone_eq : isDone engine payload = done := by
    simp [isDone, parsed, read]
  obtain ⟨opened, prepared, posts⟩ := onText_cases ran
  have same : opened.samples = connection.samples ∧ opened.strand = connection.strand := by
    rw [prepared.same]
    exact ⟨rfl, rfl⟩
  rw [result, record, isDone_eq]
  -- The number of tasks tells which of the two cases it is.
  obtain rfl | ⟨-, embedding, -, rfl⟩ := posts
  · rw [same.2] at count
    have more : done = false := by
      cases done with
      | true => simp at count
      | false => rfl
    rw [more]
    refine ⟨posted, ?_, whole, ?_⟩
    · exact same.1 ▸ current
    · exact same.2 ▸ tasks
  · have ended : done = true := by
      cases done with
      | true => rfl
      | false => simp [post, same.2] at count
    rw [ended, if_pos rfl]
    refine ⟨[], rfl, by simp, ?_⟩
    change (opened.strand ++ [_]).flatMap Task.pieces = _
    rw [List.flatMap_append, same.2, tasks, List.flatMap_append, List.flatMap_singleton,
      List.flatMap_singleton, @pieces_short [] (by simp), if_neg Bool.false_ne_true,
      List.append_nil, List.append_assoc, ← current, pieces_append whole, ← same.1]
    rfl

theorem Cut.binary (cut : Cut recorded posted connection) (payload : List Byte)
    (open' : connection.isEof = false) (keeps : connection.hotwordsEmbedding = none →
      (connection.samples ++ payload).length ≤ 800 * 2) :
    ∃ posted', Cut (record engine recorded (.binary payload)) posted'
      (connection.handle engine (.binary payload)) := by
  obtain ⟨current, whole, tasks⟩ := cut
  simp only [Connection.handle, record]
  obtain ⟨-, same⟩ | ⟨long, lost, -⟩ | ⟨-, -, embedding, subvector, rest, -, split, ⟨-, steps⟩, same⟩ :=
    onBinary_cases connection payload
  · rw [same]
    refine ⟨posted, ?_, whole, tasks⟩
    rw [← current, List.append_assoc]
  · cases lost with
    | inl closed =>
      rw [closed] at open'
      cases open'
    | inr missing =>
      have short := keeps missing
      omega
  · rw [same]
    refine ⟨posted ++ subvector, ?_, ?_, ?_⟩
    · change (posted ++ subvector) ++ rest = _
      rw [List.append_assoc, split, ← current, List.append_assoc]
    · rw [List.length_append]
      exact Nat.dvd_add whole steps
    · change (connection.strand ++ [_]).flatMap Task.pieces = _
      rw [List.flatMap_append, tasks, List.flatMap_singleton, pieces_append whole,
        List.append_assoc]
      rfl

theorem Cut.handle {listener : Connection} (cut : Cut recorded posted listener) {begun : List Task}
    (follows : Follows begun listener connection) (opened : Opened connection) {frame : Frame}
    (inflight : connection.inflight = some frame)
    (session : OpenSession engine connection .handle) (keeps : KeepsAudio connection .handle)
    (alive : (connection.handle engine frame).terminated = false) :
    ∃ posted', Cut (record engine recorded frame) posted' (listener.handle engine frame) := by
  have open' : listener.isEof = false := follows.isEof.trans opened.open'
  cases frame with
  | text payload =>
    obtain ⟨json, parsed, valid⟩ := session payload inflight
    cases ran : connection.onText engine json with
    | none => simp [Connection.handle, parsed, ran] at alive
    | some handled =>
      obtain ⟨listened, ran', -⟩ := follows.onText ran
      refine cut.text parsed (fun missing => valid ?_) open' ran'
      by_contra embedded
      exact opened.ready embedded (follows.tpassOnlineHandle ▸ missing)
  | binary payload =>
    refine cut.binary payload open' fun missing => ?_
    rw [follows.hotwordsEmbedding] at missing
    rw [follows.samples]
    exact keeps payload inflight missing
  | other => exact ⟨posted, cut.current, cut.whole, cut.tasks⟩

theorem Cut.step {past : List Step} {handled : List Frame} {begun : List Task} {next : Connection}
    (inTurn : InTurn engine past handled begun connection)
    (cut : Cut (recordings engine handled) posted (listen engine handled)) {event : Step}
    (session : OpenSession engine connection event) (keeps : KeepsAudio connection event)
    (stepped : Server.step engine connection event = some next) (alive : next.terminated = false) :
    ∃ posted', Cut (recordings engine (handled ++ connection.finished event)) posted'
      (listen engine (handled ++ connection.finished event)) := by
  obtain ⟨-, performed⟩ := step_eq_some.mp stepped
  cases event with
  | handle =>
    obtain ⟨frame, inflight, rfl⟩ := Option.map_eq_some_iff.mp performed
    rw [finished, inflight, Option.toList_some, recordings_snoc, listen_snoc]
    exact cut.handle inTurn.follows inTurn.opened inflight session keeps alive
  | _ => exact ⟨posted, by simpa only [finished, List.append_nil] using cut⟩

theorem Cut.onOpen (engine : Engine) : Cut (recordings engine []) [] (listen engine []) where
  current := rfl
  whole := Nat.dvd_zero _
  tasks := by
    rw [@pieces_short [] (by simp)]
    rfl

theorem Cut.run {events : List Step}
    (ran : run (Server.step engine) (Server.onOpen engine) events = some connection)
    (meets : Meets (Server.step engine) (fun connection event => OpenSession engine connection event ∧
      Returns event ∧ KeepsAudio connection event) (Server.onOpen engine) events)
    (alive : connection.terminated = false) :
    ∃ handled begun posted, InTurn engine events handled begun connection ∧
      Cut (recordings engine handled) posted (listen engine handled) := by
  have kept := @run_meets _ _ (Server.step engine) _
    (fun past connection => connection.terminated = false → ∃ handled begun posted,
      InTurn engine past handled begun connection ∧
        Cut (recordings engine handled) posted (listen engine handled))
    (fun {past connection event next} holds condition stepped alive => by
      obtain ⟨handled, begun, posted, inTurn, cut⟩ := holds (step_eq_some.mp stepped).1
      obtain ⟨session, returns, keeps⟩ := condition
      obtain ⟨posted', cut'⟩ := Cut.step inTurn cut session keeps stepped alive
      obtain ⟨handled', begun', rfl, inTurn'⟩ := inTurn.step session returns stepped alive
      exact ⟨_, begun', posted', inTurn', cut'⟩)
    [] events _ connection (fun _ => ⟨[], [], [], .onOpen engine, .onOpen engine⟩) meets ran
  exact kept alive

end Connection

/-! ## A run -/

variable {engine : Engine} {connection : Connection} {events : List Step}

/-- When nothing is left to do, the model has been passed the pieces of the recordings. -/
theorem Connection.InTurn.passed {frames : List Frame} {begun : List Task} {posted : List Byte}
    (inTurn : InTurn engine events frames begun connection)
    (cut : Cut (recordings engine frames) posted (listen engine frames))
    (idle : connection.pending = 0) (handled : connection.inflight = none)
    (ended : (recordings engine (messages events)).2 = []) :
    connection.inferences.map EngineCall.piece =
      (recordings engine (messages events)).1.flatMap (pieces true) := by
  obtain ⟨current, -, tasks⟩ := cut
  have arrived := inTurn.arrived
  rw [handled, Option.toList_none, List.append_nil] at arrived
  rw [arrived] at ended ⊢
  obtain ⟨strand, made⟩ := inTurn.done idle
  -- Nothing of a next recording has come.
  have none : posted = [] := by
    rw [ended] at current
    exact (List.append_eq_nil_iff.mp current).1
  rw [none, @pieces_short [] (by simp), if_neg Bool.false_ne_true, List.append_nil] at tasks
  rw [made, sequentialCalls, ← tasks, List.map_flatMap]
  refine List.flatMap_congr fun task member => ?_
  exact map_piece_calls (inTurn.converted task (strand ▸ member))

/-- What the model is passed for the recordings of an open connection does not depend on how they
    are cut into messages: every recording comes in steps of 800 samples, and what is left is the
    last piece and marked as such.  Nothing is cut off before the first text message. -/
theorem run_recordings
    (ran : run (step engine) (onOpen engine) events = some connection)
    (meets : Meets (step engine) (fun connection event => OpenSession engine connection event ∧
      Returns event ∧ KeepsAudio connection event) (onOpen engine) events)
    (alive : connection.terminated = false) (idle : connection.pending = 0)
    (handled : connection.inflight = none) (ended : (recordings engine (messages events)).2 = []) :
    connection.inferences.map EngineCall.piece =
      (recordings engine (messages events)).1.flatMap (pieces true) := by
  obtain ⟨frames, begun, posted, inTurn, cut⟩ := Connection.Cut.run ran meets alive
  exact inTurn.passed cut idle handled ended

theorem longEvents_meets :
    Meets (step sessionEngine) (fun connection event => OpenSession sessionEngine connection event ∧
      Returns event ∧ KeepsAudio connection event) (onOpen sessionEngine) longEvents := by
  decide +kernel

theorem longEvents_recordings : recordings sessionEngine (messages longEvents) =
    ([[], List.replicate 3760 0 ++ List.replicate 2000 0], []) := rfl

theorem longEvents_ended : (recordings sessionEngine (messages longEvents)).2 = [] := by
  rw [longEvents_recordings]

theorem longEvents_run : ∃ connection,
    run (step sessionEngine) (onOpen sessionEngine) longEvents = some connection ∧
      connection.terminated = false ∧ connection.pending = 0 ∧ connection.inflight = none := by
  have finishes : (run (step sessionEngine) (onOpen sessionEngine) longEvents).any
      (fun connection => connection.terminated = false ∧ connection.pending = 0 ∧
        connection.inflight.isNone) := by
    decide +kernel
  obtain ⟨connection, ran, quiet⟩ := (Option.any_eq_true _ _).mp finishes
  obtain ⟨alive, idle, handled⟩ := of_decide_eq_true quiet
  exact ⟨connection, ran, alive, idle, Option.isNone_iff_eq_none.mp handled⟩

theorem run_recordings_longEvents : ∃ connection,
    run (step sessionEngine) (onOpen sessionEngine) longEvents = some connection ∧
      connection.inferences.map EngineCall.piece =
        (recordings sessionEngine (messages longEvents)).1.flatMap (pieces true) := by
  obtain ⟨connection, ran, alive, idle, handled⟩ := longEvents_run
  exact ⟨connection, ran, run_recordings ran longEvents_meets alive idle handled longEvents_ended⟩

end Asr2Pass.Server
