import Asr2Pass.Server.DoDecoder

/-! # `access_num`

`access_num` is the number of tasks that have been posted and have not decremented it: each post
increments it, each way out of `do_decoder` decrements it once.  So `remove_hdl` does nothing while
a task is pending.
-/

namespace Asr2Pass.Server

open Library

namespace Connection

/-! ## What a text message does -/

/-- A text message up to the post: the connection apart from its fields, its hotwords and its
    stream is the same. -/
structure Prepared (connection opened : Connection) : Prop where
  same : opened = { connection with
    fields := opened.fields
    calls := opened.calls
    hotwordsEmbedding := opened.hotwordsEmbedding
    tpassOnlineHandle := opened.tpassOnlineHandle }
  calls : ∃ more, opened.calls = connection.calls ++ more ∧
    ∀ call ∈ more, (∃ hotwords, call = .loadHwsRes hotwords) ∨ ∃ chunk, call = .onlineInit chunk
  embedding : opened.hotwordsEmbedding ≠ none
  handle : connection.tpassOnlineHandle ≠ none →
    opened.tpassOnlineHandle = connection.tpassOnlineHandle

theorem loadHotwords_cases {engine : Engine} {json : Json} {connection loaded : Connection}
    (ran : connection.loadHotwords engine json = some loaded) :
    connection.hotwordsEmbedding ≠ none ∧ loaded = connection ∨
    connection.hotwordsEmbedding = none ∧ ∃ hotwords embedding, loaded = { connection with
      calls := connection.calls ++ [.loadHwsRes hotwords], hotwordsEmbedding := some embedding } := by
  cases embedded : connection.hotwordsEmbedding with
  | none =>
    right
    simp only [loadHotwords, embedded, Option.map_eq_some_iff] at ran
    obtain ⟨⟨clientMap, clientWords⟩, -, rfl⟩ := ran
    exact ⟨rfl, _, _, rfl⟩
  | some embedding =>
    left
    simp only [loadHotwords, embedded] at ran
    cases ran
    exact ⟨by simp, rfl⟩

theorem openStream_cases {engine : Engine} {json : Json} {connection opened : Connection}
    {right : Bool}
    (ran : connection.openStream engine json = some (opened, right)) :
    opened = connection ∨
    connection.tpassOnlineHandle = none ∧ right = true ∧ ∃ chunkSize, opened = { connection with
      calls := connection.calls ++ [.onlineInit chunkSize], tpassOnlineHandle := some chunkSize } := by
  cases chunk : json.member "chunk_size" with
  | none =>
    simp only [openStream, chunk] at ran
    cases ran
    exact .inl rfl
  | some value =>
    cases handle : connection.tpassOnlineHandle with
    | none =>
      simp only [openStream, chunk, handle, Option.bind_eq_bind, Option.bind_eq_some_iff] at ran
      obtain ⟨chunkSize, -, ran⟩ := ran
      split at ran
      · obtain ⟨-, opens⟩ := Option.ite_none_right_eq_some.mp ran
        cases opens
        exact .inr ⟨rfl, rfl, chunkSize, rfl⟩
      · cases ran
        exact .inl rfl
    | some stream =>
      simp only [openStream, chunk, handle] at ran
      cases ran
      exact .inl rfl

theorem postFinal_cases {json : Json} {connection handled : Connection}
    (ran : connection.postFinal json = some handled) :
    handled = connection ∨
    connection.isEof = false ∧ ∃ embedding, connection.hotwordsEmbedding = some embedding ∧
      handled = { connection.post connection.samples embedding true with samples := [] } := by
  simp only [postFinal, Option.bind_eq_bind, Option.bind_eq_some_iff] at ran
  obtain ⟨done, -, ran⟩ := ran
  split at ran
  · rename_i final
    cases embedded : connection.hotwordsEmbedding with
    | none =>
      rw [embedded] at ran
      cases ran
      exact .inl rfl
    | some embedding =>
      rw [embedded] at ran
      cases ran
      exact .inr ⟨by simpa using final.2, embedding, rfl, rfl⟩
  · cases ran
    exact .inl rfl

theorem onText_cases {engine : Engine} {json : Json} {connection handled : Connection}
    (ran : connection.onText engine json = some handled) :
    ∃ opened, Prepared connection opened ∧ (handled = opened ∨
      connection.isEof = false ∧ ∃ embedding, opened.hotwordsEmbedding = some embedding ∧
        handled = { opened.post opened.samples embedding true with samples := [] }) := by
  simp only [onText, Option.bind_eq_bind, Option.bind_eq_some_iff, Prod.exists] at ran
  obtain ⟨loaded, load, opened, right, stream, ran⟩ := ran
  -- What is prepared survives the three parts of the handler in their order.
  have loading : Prepared connection (loaded.storeAudioFs json) := by
    rcases loadHotwords_cases load with ⟨embedded, rfl⟩ | ⟨none, hotwords, embedding, rfl⟩
    · exact ⟨rfl, ⟨[], by simp [storeAudioFs, storeNames], by simp⟩, embedded, fun _ => rfl⟩
    · exact ⟨rfl, ⟨[.loadHwsRes hotwords], rfl, by simp⟩, by simp [storeAudioFs], fun _ => rfl⟩
  have opening : Prepared connection opened := by
    rcases openStream_cases stream with same | ⟨null, -, chunkSize, rfl⟩
    · rw [same]
      exact loading
    · obtain ⟨same, ⟨more, calls, kinds⟩, embedding, handle⟩ := loading
      refine ⟨?_, ⟨more ++ [.onlineInit chunkSize], ?_, ?_⟩, embedding, ?_⟩
      · rw [same]
      · simp [calls]
      · intro call member
        cases List.mem_append.mp member with
        | inl old => exact kinds call old
        | inr new => exact .inr ⟨chunkSize, List.mem_singleton.mp new⟩
      · intro present
        rw [handle present] at null
        exact absurd null present
  have options : Prepared connection (opened.storeOptions json) := by
    obtain ⟨same, calls, embedding, handle⟩ := opening
    refine ⟨?_, calls, embedding, handle⟩
    rw [same]
    rfl
  split at ran
  · refine ⟨opened.storeOptions json, options, ?_⟩
    rcases postFinal_cases ran with rfl | ⟨alive, embedding, embedded, rfl⟩
    · exact .inl rfl
    · refine .inr ⟨?_, embedding, embedded, rfl⟩
      rw [options.same] at alive
      exact alive
  · cases ran
    exact ⟨_, opening, .inl rfl⟩

theorem postChunk_cases (connection : Connection) (subvector : List Byte) :
    connection.postChunk subvector = connection ∧
      (connection.isEof = true ∨ connection.hotwordsEmbedding = none) ∨
    connection.isEof = false ∧ ∃ embedding, connection.hotwordsEmbedding = some embedding ∧
      connection.postChunk subvector = connection.post subvector embedding false := by
  rw [postChunk]
  split
  · rename_i embedding open' embedded
    exact .inr ⟨open', embedding, embedded, rfl⟩
  · rename_i closed
    left
    refine ⟨rfl, ?_⟩
    cases open' : connection.isEof with
    | false =>
      cases embedded : connection.hotwordsEmbedding with
      | none => exact .inr rfl
      | some embedding => exact absurd embedded (closed embedding open')
    | true => exact .inl rfl

/-- A binary message stays in `samples`, loses what it cuts off, or has it posted. -/
theorem onBinary_cases (connection : Connection) (payload : List Byte) :
    (connection.samples ++ payload).length ≤ 800 * 2 ∧
      connection.onBinary payload = { connection with samples := connection.samples ++ payload } ∨
    800 * 2 < (connection.samples ++ payload).length ∧
      (connection.isEof = true ∨ connection.hotwordsEmbedding = none) ∧
      (∃ rest, connection.onBinary payload = { connection with samples := rest }) ∨
    800 * 2 < (connection.samples ++ payload).length ∧ connection.isEof = false ∧
      ∃ embedding subvector rest, connection.hotwordsEmbedding = some embedding ∧
        subvector ++ rest = connection.samples ++ payload ∧
        (800 * 2 ≤ subvector.length ∧ 800 * 2 ∣ subvector.length) ∧
        connection.onBinary payload =
          { connection with samples := rest }.post subvector embedding false := by
  by_cases long : (connection.samples ++ payload).length > 800 * 2
  · right
    simp only [onBinary, if_pos long]
    have inside := Nat.div_mul_le_self (connection.samples ++ payload).length (800 * 2)
    have some : 1 ≤ (connection.samples ++ payload).length / (800 * 2) :=
      (Nat.one_le_div_iff (by decide)).mpr (Nat.le_of_lt long)
    generalize (connection.samples ++ payload).length / (800 * 2) = chunksize at inside some ⊢
    rcases postChunk_cases
        { connection with samples := (connection.samples ++ payload).drop (chunksize * (800 * 2)) }
        ((connection.samples ++ payload).take (chunksize * (800 * 2))) with
      ⟨same, lost⟩ | ⟨open', embedding, embedded, same⟩
    · exact .inl ⟨long, lost, _, same⟩
    · refine .inr ⟨long, open', embedding, _, _, embedded, List.take_append_drop _ _, ?_, same⟩
      rw [List.length_take, Nat.min_eq_left inside]
      exact ⟨Nat.le_mul_of_pos_left _ some, Nat.dvd_mul_left _ _⟩
  · exact .inl ⟨by omega, if_neg long⟩

/-! ## The invariant -/

structure Counted (connection : Connection) : Prop where
  accessNum : connection.accessNum = connection.pending
  posted : connection.posted = connection.exits.length + connection.pending
  closed : connection.mapped = false → connection.isEof = true ∧ connection.pending = 0
  held : connection.mapped = true → .uninit ∉ connection.calls

variable {engine : Engine} {connection : Connection}

theorem Counted.prepared {opened : Connection} (counted : Counted connection)
    (prepared : Prepared connection opened) : Counted opened := by
  obtain ⟨same, ⟨more, calls, kinds⟩, -, -⟩ := prepared
  obtain ⟨accessNum, posted, closed, held⟩ := counted
  rw [same]
  refine ⟨accessNum, posted, closed, fun mapped member => ?_⟩
  rw [calls] at member
  cases List.mem_append.mp member with
  | inl old => exact held mapped old
  | inr new => rcases kinds _ new with ⟨hotwords, same⟩ | ⟨chunk, same⟩ <;> cases same

theorem Counted.post (counted : Counted connection) (open' : connection.isEof = false)
    (buffer : List Byte) (embedding : HotwordsEmbedding) (isFinal : Bool) :
    Counted (connection.post buffer embedding isFinal) := by
  obtain ⟨accessNum, posted, closed, held⟩ := counted
  have more : (connection.post buffer embedding isFinal).pending = connection.pending + 1 := by
    change (connection.strand ++ [_]).length + (if connection.running.isSome then 1 else 0) = _
    rw [List.length_append, List.length_singleton, pending]
    omega
  refine ⟨?_, ?_, fun unmapped => ?_, held⟩
  · rw [more]
    change connection.accessNum + 1 = _
    omega
  · rw [more]
    change connection.posted + 1 = connection.exits.length + (connection.pending + 1)
    omega
  · have contra := (closed unmapped).1
    rw [open'] at contra
    cases contra

/-- Changes that the counts do not see. -/
theorem Counted.of_same {connection' : Connection} (counted : Counted connection)
    (accessNum : connection'.accessNum = connection.accessNum)
    (posted : connection'.posted = connection.posted) (exits : connection'.exits = connection.exits)
    (pending : connection'.pending = connection.pending) (mapped : connection'.mapped = connection.mapped)
    (isEof : connection.isEof = true → connection'.isEof = true)
    (held : .uninit ∉ connection.calls → .uninit ∉ connection'.calls) : Counted connection' := by
  refine ⟨?_, ?_, fun unmapped => ?_, fun open' => held (counted.held (mapped ▸ open'))⟩
  · rw [accessNum, pending, counted.accessNum]
  · rw [posted, exits, pending, counted.posted]
  · rw [mapped] at unmapped
    rw [pending]
    exact ⟨isEof (counted.closed unmapped).1, (counted.closed unmapped).2⟩

theorem Counted.onBinary (counted : Counted connection) (payload : List Byte) :
    Counted (connection.onBinary payload) := by
  have rest (samples : List Byte) : Counted { connection with samples } :=
    counted.of_same rfl rfl rfl rfl rfl id id
  rcases onBinary_cases connection payload with
    ⟨-, same⟩ | ⟨-, -, samples, same⟩ | ⟨-, open', embedding, subvector, samples, -, -, -, same⟩
  · rw [same]
    exact rest _
  · rw [same]
    exact rest samples
  · rw [same]
    exact (rest samples).post open' _ _ _

theorem Counted.handle (counted : Counted connection) (frame : Frame) :
    Counted (connection.handle engine frame) := by
  cases frame with
  | text payload =>
    cases parsed : engine.parse payload with
    | none =>
      simp only [Connection.handle, parsed]
      exact counted.of_same rfl rfl rfl rfl rfl (fun _ => rfl) id
    | some json =>
      cases ran : connection.onText engine json with
      | none =>
        simp only [Connection.handle, parsed, ran]
        exact counted.of_same rfl rfl rfl rfl rfl id id
      | some handled =>
        simp only [Connection.handle, parsed, ran]
        obtain ⟨opened, prepared, rfl | ⟨alive, embedding, -, rfl⟩⟩ := onText_cases ran
        · exact (counted.prepared prepared).of_same rfl rfl rfl rfl rfl id id
        · have open' : opened.isEof = false := by
            rw [prepared.same]
            exact alive
          exact ((counted.prepared prepared).post open' opened.samples embedding true).of_same rfl rfl
            rfl rfl rfl id id
  | binary payload => exact (counted.onBinary payload).of_same rfl rfl rfl rfl rfl id id
  | other => exact counted.of_same rfl rfl rfl rfl rfl id id

/-- The invariant says that nothing is freed under a posted task. -/
theorem Counted.removeHdl_eq (counted : Counted connection) (used : 0 < connection.pending) :
    connection.removeHdl = connection := by
  have accessNum := counted.accessNum
  rw [removeHdl, if_neg]
  rintro ⟨-, none, -⟩
  omega

theorem Counted.removeHdl (counted : Counted connection) : Counted connection.removeHdl := by
  rw [Connection.removeHdl]
  split
  · rename_i removed
    have accessNum := counted.accessNum
    refine ⟨counted.accessNum, counted.posted, fun _ => ⟨removed.2.2, ?_⟩,
      fun open' => absurd open' Bool.false_ne_true⟩
    change connection.pending = 0
    omega
  · exact counted

theorem Counted.begin (counted : Counted connection) {next : Connection}
    (began : connection.begin = some next) : Counted next := by
  obtain ⟨task, rest, idle, queue, ⟨-, rfl⟩ | ⟨args, -, rfl⟩⟩ := begin_cases began
  · exact counted.of_same rfl rfl rfl rfl rfl id id
  · exact counted.of_same rfl rfl rfl (by simp [pending, idle, queue]) rfl id id

/-- A step inside `do_decoder` that keeps the task. -/
theorem Counted.working (counted : Counted connection) {running running' : Running}
    (busy : connection.running = some running) (calls : List EngineCall) (sent : List Json)
    (held : .uninit ∉ connection.calls → .uninit ∉ calls) :
    Counted { connection with running := some running', calls, sent } :=
  counted.of_same rfl rfl rfl (by simp [pending, busy]) rfl id held

/-- The end of a task gives back what its post has taken. -/
theorem Counted.leave (counted : Counted connection) {running : Running}
    (busy : connection.running = some running) (exit : Exit) :
    Counted { connection with
      accessNum := connection.accessNum - 1
      running := none
      exits := connection.exits ++ [exit] } := by
  obtain ⟨accessNum, posted, closed, held⟩ := counted
  have one : connection.pending = connection.strand.length + 1 := by simp [pending, busy]
  refine ⟨?_, ?_, fun unmapped => ?_, held⟩
  · change connection.accessNum - 1 = ((connection.strand.length + 0 : Nat) : Int)
    omega
  · change connection.posted = (connection.exits ++ [exit]).length + (connection.strand.length + 0)
    rw [List.length_append, List.length_singleton]
    omega
  · -- a connection that is no longer mapped has no task left
    have none := (closed unmapped).2
    omega

theorem Counted.step (counted : Counted connection) {event : Step} {next : Connection}
    (stepped : step engine connection event = some next) : Counted next := by
  obtain ⟨-, performed⟩ := step_eq_some.mp stepped
  -- The steps of the decoder threads are counted together.
  have decoder (ofDecoder : event.OfDecoder) : Counted next := by
    obtain began | ⟨-, rfl⟩ | ⟨running, busy, ⟨running', calls, sent, -, ⟨more, same, inferences⟩,
        rfl⟩ | ⟨exit, rfl⟩⟩ := decoder_cases ofDecoder performed
    · exact counted.begin began
    · exact counted.of_same rfl rfl rfl rfl rfl id id
    · refine counted.working busy calls sent fun held member => ?_
      rw [same] at member
      cases List.mem_append.mp member with
      | inl old => exact held old
      | inr new => exact inferences _ new
    · exact counted.leave busy exit
  cases event with
  | receive frame =>
    simp only [perform] at performed
    split at performed
    · cases performed
      rw [Connection.receive]
      split
      · exact counted.of_same rfl rfl rfl rfl rfl id id
      · exact counted
    · cases performed
  | handle =>
    obtain ⟨frame, -, rfl⟩ := Option.map_eq_some_iff.mp performed
    exact counted.handle frame
  | onClose =>
    cases performed
    rw [Connection.onClose]
    split
    · exact counted.of_same rfl rfl rfl rfl rfl (fun _ => rfl) id
    · exact counted
  | removeHdl =>
    cases performed
    exact counted.removeHdl
  | _ => exact decoder trivial

theorem Counted.onOpen (engine : Engine) : Counted (onOpen engine) :=
  ⟨rfl, rfl, nofun, fun _ => nofun⟩

theorem Counted.run {events : List Step} {final : Connection}
    (ran : run (Server.step engine) (Server.onOpen engine) events = some final) : Counted final :=
  run_invariant (fun counted stepped => Counted.step counted stepped) (Counted.onOpen engine) ran

end Connection

variable {engine : Engine}

/-- After any steps, `access_num` counts the tasks that have not decremented it, and while there is
    one `remove_hdl` does nothing. -/
theorem run_accessNum {events : List Step} {connection : Connection}
    (ran : run (step engine) (onOpen engine) events = some connection) :
    connection.accessNum = connection.pending ∧
      connection.posted = connection.exits.length + connection.pending ∧
      (0 < connection.pending → connection.removeHdl = connection ∧ connection.mapped = true ∧
        .uninit ∉ connection.calls) := by
  have counted := Connection.Counted.run ran
  refine ⟨counted.accessNum, counted.posted, fun used => ?_⟩
  have mapped : connection.mapped = true := by
    cases removed : connection.mapped with
    | false =>
      have none := (counted.closed removed).2
      omega
    | true => rfl
  exact ⟨counted.removeHdl_eq used, mapped, counted.held mapped⟩

/-- The bytes of `{"is_speaking":false}`. -/
def donePayload : List Byte :=
  [0x7b, 0x22, 0x69, 0x73, 0x5f, 0x73, 0x70, 0x65, 0x61, 0x6b, 0x69, 0x6e, 0x67, 0x22, 0x3a, 0x66,
    0x61, 0x6c, 0x73, 0x65, 0x7d]

/-- An engine for a client that sends `{"is_speaking":false}`. -/
def doneEngine : Engine where
  parse payload :=
    if payload = donePayload then some (.object [("is_speaking", .boolean false)]) else none
  hwsMap := []
  compileHotwordEmbedding _ := []
  wfstDecoderInit := true

/-- The client is done and goes; the cleaning thread comes before and after the task. -/
def doneEvents : List Step :=
  [.receive (.text donePayload), .handle, .onClose, .begin, .removeHdl, .decrement, .removeHdl]

theorem run_accessNum_done :
    ∃ connection, run (step doneEngine) (onOpen doneEngine) doneEvents = some connection ∧
      connection.accessNum = connection.pending ∧
      connection.posted = connection.exits.length + connection.pending ∧
      (0 < connection.pending → connection.removeHdl = connection ∧ connection.mapped = true ∧
        .uninit ∉ connection.calls) := by
  obtain ⟨connection, ran⟩ : ∃ connection,
    run (step doneEngine) (onOpen doneEngine) doneEvents = some connection := ⟨_, rfl⟩
  exact ⟨connection, ran, run_accessNum ran⟩

end Asr2Pass.Server
