import Asr2Pass.Server.AccessNum

/-! # Hotwords are loaded before decoding

`hotwords_embedding` is null until the hotwords have been loaded, and no place posts a task while it
is null.  So the decoder that the tasks share is not given hotwords under a task.
-/

namespace Asr2Pass.Server

open Library

/-- Whether it is `FunWfstDecoderLoadHwsRes`. -/
def EngineCall.isLoad : EngineCall → Bool
  | .loadHwsRes _ => true
  | _ => false

namespace Connection

/-- How often hotwords have been loaded into the decoder. -/
def loads (connection : Connection) : Nat := connection.calls.countP EngineCall.isLoad

variable {engine : Engine} {connection next : Connection}

theorem countP_isLoad_append {calls more : List EngineCall}
    (others : ∀ call ∈ more, call.isLoad = false) :
    (calls ++ more).countP EngineCall.isLoad = calls.countP EngineCall.isLoad := by
  have none' : more.countP EngineCall.isLoad = 0 :=
    List.countP_eq_zero.mpr fun call member => by simp [others call member]
  rw [List.countP_append, none', Nat.add_zero]

theorem isLoad_of_isInference {call : EngineCall} (inference : call.IsInference) :
    call.isLoad = false := by
  cases call with
  | inferBuffer => rfl
  | loadHwsRes => exact inference.elim
  | onlineInit => rfl
  | uninit => rfl

/-! ## One step -/

/-- What a step does about the hotwords: nothing, posts apart, or it loads them for the first time
    and leaves them embedded. -/
inductive HotwordsStep (connection next : Connection) : Prop where
  | kept (loads : next.loads = connection.loads)
      (embedding : next.hotwordsEmbedding = connection.hotwordsEmbedding)
      (posted : connection.hotwordsEmbedding = none → next.posted = connection.posted)
  | loaded (first : connection.hotwordsEmbedding = none) (loads : next.loads = connection.loads + 1)
      (embedding : next.hotwordsEmbedding ≠ none)

theorem HotwordsStep.of_same (calls : next.calls = connection.calls)
    (embedding : next.hotwordsEmbedding = connection.hotwordsEmbedding)
    (posted : next.posted = connection.posted) : HotwordsStep connection next :=
  .kept (by rw [loads, calls, loads]) embedding fun _ => posted

theorem loadHotwords_step {json : Json} {loaded : Connection}
    (ran : connection.loadHotwords engine json = some loaded) :
    HotwordsStep connection loaded ∧ loaded.hotwordsEmbedding ≠ none ∧
      loaded.posted = connection.posted := by
  rcases loadHotwords_cases ran with ⟨embedded, rfl⟩ | ⟨first, hotwords, embedding, rfl⟩
  · exact ⟨.of_same rfl rfl rfl, embedded, rfl⟩
  · refine ⟨.loaded first ?_ (by simp), by simp, rfl⟩
    simp [loads, EngineCall.isLoad]

theorem openStream_loads {json : Json} {opened : Connection} {right : Bool}
    (ran : connection.openStream engine json = some (opened, right)) :
    opened.loads = connection.loads ∧ opened.hotwordsEmbedding = connection.hotwordsEmbedding := by
  rcases openStream_cases ran with rfl | ⟨-, -, chunkSize, rfl⟩
  · exact ⟨rfl, rfl⟩
  · exact ⟨countP_isLoad_append (by simp [EngineCall.isLoad]), rfl⟩

theorem postFinal_kept {json : Json} {handled : Connection}
    (ran : connection.postFinal json = some handled) :
    handled.loads = connection.loads ∧
      handled.hotwordsEmbedding = connection.hotwordsEmbedding := by
  rcases postFinal_cases ran with rfl | ⟨-, embedding, -, rfl⟩
  · exact ⟨rfl, rfl⟩
  · exact ⟨rfl, rfl⟩

/-- A text message loads hotwords exactly when there are none. -/
theorem onText_step {json : Json} {handled : Connection}
    (ran : connection.onText engine json = some handled) : HotwordsStep connection handled := by
  simp only [onText, Option.bind_eq_bind, Option.bind_eq_some_iff, Prod.exists] at ran
  obtain ⟨loaded, load, opened, right, stream, ran⟩ := ran
  obtain ⟨loading, embedded, -⟩ := loadHotwords_step load
  obtain ⟨openLoads, openEmbedding⟩ := openStream_loads stream
  obtain ⟨sameLoads, sameEmbedding⟩ :
      handled.loads = opened.loads ∧ handled.hotwordsEmbedding = opened.hotwordsEmbedding := by
    split at ran
    · obtain ⟨loads, embedding⟩ := postFinal_kept ran
      exact ⟨loads, embedding⟩
    · cases ran
      exact ⟨rfl, rfl⟩
  have behind : handled.loads = loaded.loads ∧
      handled.hotwordsEmbedding = loaded.hotwordsEmbedding :=
    ⟨sameLoads.trans openLoads, sameEmbedding.trans openEmbedding⟩
  cases loading with
  | kept loads embedding posted =>
    refine .kept (behind.1.trans loads) (behind.2.trans embedding) fun none => ?_
    exact absurd (embedding.trans none) embedded
  | loaded first loads embedding =>
    exact .loaded first (behind.1.trans loads) (by rw [behind.2]; exact embedding)

theorem onBinary_step (payload : List Byte) :
    HotwordsStep connection (connection.onBinary payload) := by
  rcases onBinary_cases connection payload with
    ⟨-, same⟩ | ⟨-, -, samples, same⟩ | ⟨-, -, embedding, subvector, samples, embedded, -, -, same⟩
  · rw [same]
    exact .of_same rfl rfl rfl
  · rw [same]
    exact .of_same rfl rfl rfl
  · rw [same]
    exact .kept rfl rfl fun none => by rw [embedded] at none; cases none

theorem handle_step (frame : Frame) : HotwordsStep connection (connection.handle engine frame) := by
  cases frame with
  | text payload =>
    cases parsed : engine.parse payload with
    | none =>
      simp only [Connection.handle, parsed]
      exact .of_same rfl rfl rfl
    | some json =>
      cases ran : connection.onText engine json with
      | none =>
        simp only [Connection.handle, parsed, ran]
        exact .of_same rfl rfl rfl
      | some handled =>
        simp only [Connection.handle, parsed, ran]
        cases onText_step ran with
        | kept loads embedding posted => exact .kept loads embedding posted
        | loaded first loads embedding => exact .loaded first loads embedding
  | binary payload =>
    cases onBinary_step payload with
    | kept loads embedding posted => exact .kept loads embedding posted
    | loaded first loads embedding => exact .loaded first loads embedding
  | other => exact .of_same rfl rfl rfl

theorem hotwordsStep_of_step {event : Step} (stepped : step engine connection event = some next) :
    HotwordsStep connection next := by
  obtain ⟨-, performed⟩ := step_eq_some.mp stepped
  -- The decoder threads call engines, but never load hotwords.
  have decoder (ofDecoder : event.OfDecoder) : HotwordsStep connection next := by
    obtain began | ⟨-, rfl⟩ | ⟨running, -, ⟨running', calls, sent, -, ⟨more, same, inferences⟩,
        rfl⟩ | ⟨exit, rfl⟩⟩ := decoder_cases ofDecoder performed
    · obtain ⟨task, rest, -, -, ⟨-, rfl⟩ | ⟨args, -, rfl⟩⟩ := begin_cases began
      · exact .of_same rfl rfl rfl
      · exact .of_same rfl rfl rfl
    · exact .of_same rfl rfl rfl
    · refine .kept ?_ rfl fun _ => rfl
      change calls.countP EngineCall.isLoad = _
      rw [same]
      exact countP_isLoad_append fun call member => isLoad_of_isInference (inferences call member)
    · exact .of_same rfl rfl rfl
  cases event with
  | receive frame =>
    simp only [perform] at performed
    split at performed
    · cases performed
      rw [Connection.receive]
      split
      · exact .of_same rfl rfl rfl
      · exact .of_same rfl rfl rfl
    · cases performed
  | handle =>
    obtain ⟨frame, -, rfl⟩ := Option.map_eq_some_iff.mp performed
    exact handle_step frame
  | onClose =>
    cases performed
    rw [Connection.onClose]
    split
    · exact .of_same rfl rfl rfl
    · exact .of_same rfl rfl rfl
  | removeHdl =>
    cases performed
    rw [Connection.removeHdl]
    split
    · exact .kept (countP_isLoad_append (by simp [EngineCall.isLoad])) rfl fun _ => rfl
    · exact .of_same rfl rfl rfl
  | _ => exact decoder trivial

/-! ## The invariant -/

/-- Hotwords have been loaded exactly when they are embedded, and until then nothing is posted. -/
structure LoadedFirst (connection : Connection) : Prop where
  before : connection.hotwordsEmbedding = none → connection.loads = 0 ∧ connection.posted = 0
  after : connection.hotwordsEmbedding ≠ none → connection.loads = 1

theorem LoadedFirst.step (loadedFirst : LoadedFirst connection)
    (taken : HotwordsStep connection next) : LoadedFirst next := by
  obtain ⟨before, after⟩ := loadedFirst
  cases taken with
  | kept loads embedding posted =>
    refine ⟨fun none => ?_, fun embedded => ?_⟩
    · rw [embedding] at none
      rw [loads, posted none]
      exact before none
    · rw [embedding] at embedded
      rw [loads]
      exact after embedded
  | loaded first loads embedding =>
    refine ⟨fun none => absurd none embedding, fun _ => ?_⟩
    rw [loads, (before first).1]

theorem LoadedFirst.run {events : List Step} {final : Connection}
    (loadedFirst : LoadedFirst connection)
    (ran : run (Server.step engine) connection events = some final) : LoadedFirst final :=
  run_invariant (fun loadedFirst stepped => loadedFirst.step (hotwordsStep_of_step stepped))
    loadedFirst ran

theorem LoadedFirst.onOpen (engine : Engine) : LoadedFirst (onOpen engine) :=
  ⟨fun _ => ⟨rfl, rfl⟩, fun embedded => absurd rfl embedded⟩

theorem embedded_run {events : List Step} {final : Connection}
    (embedded : connection.hotwordsEmbedding ≠ none)
    (ran : run (step engine) connection events = some final) : final.hotwordsEmbedding ≠ none := by
  have kept : ∀ {connection : Connection} {event : Step} {next : Connection},
      connection.hotwordsEmbedding ≠ none → step engine connection event = some next →
        next.hotwordsEmbedding ≠ none := by
    intro connection event next embedded stepped
    cases hotwordsStep_of_step stepped with
    | kept loads embedding posted =>
      rw [embedding]
      exact embedded
    | loaded first loads embedding => exact embedding
  exact @run_invariant _ _ _ (fun connection => connection.hotwordsEmbedding ≠ none) kept _ _ _
    embedded ran

/-- Once a task has been posted the hotwords are embedded, and stay so. -/
theorem LoadedFirst.posted {events : List Step} {final : Connection}
    (loadedFirst : LoadedFirst connection) (posted : 0 < connection.posted)
    (ran : Library.run (Server.step engine) connection events = some final) :
    final.loads = connection.loads := by
  have embedded : connection.hotwordsEmbedding ≠ none := fun none => by
    have := (loadedFirst.before none).2
    omega
  rw [(loadedFirst.run ran).after (embedded_run embedded ran), loadedFirst.after embedded]

end Connection

variable {engine : Engine}

/-- In every run hotwords are loaded once at most, only while nothing has been posted, and no more
    after a task has been posted. -/
theorem run_loadedFirst {events : List Step} {connection : Connection}
    (ran : run (step engine) (onOpen engine) events = some connection) :
    connection.loads ≤ 1 ∧
      (∀ json loaded, (connection.storeNames json).loadHotwords engine json = some loaded →
        loaded.loads ≠ connection.loads → loaded.posted = 0) ∧
      (0 < connection.posted → ∀ later final, run (step engine) connection later = some final →
        final.loads = connection.loads) := by
  have loadedFirst := (Connection.LoadedFirst.onOpen engine).run ran
  refine ⟨?_, fun json loaded load more => ?_, fun posted later final again =>
    loadedFirst.posted posted again⟩
  · by_cases none : connection.hotwordsEmbedding = none
    · rw [(loadedFirst.before none).1]
      exact Nat.zero_le 1
    · exact Nat.le_of_eq (loadedFirst.after none)
  · obtain ⟨taken, -, posted⟩ := Connection.loadHotwords_step load
    cases taken with
    | kept loads _ _ => exact absurd loads more
    | loaded first _ _ => exact posted.trans (loadedFirst.before first).2

/-- A client that is done after its first message. -/
theorem run_loadedFirst_done :
    ∃ connection, run (step doneEngine) (onOpen doneEngine) doneEvents = some connection ∧
      connection.posted = 1 ∧ connection.loads ≤ 1 ∧
      (∀ json loaded, (connection.storeNames json).loadHotwords doneEngine json = some loaded →
        loaded.loads ≠ connection.loads → loaded.posted = 0) ∧
      (0 < connection.posted → ∀ later final, run (step doneEngine) connection later = some final →
        final.loads = connection.loads) := by
  obtain ⟨connection, ran, posted⟩ : ∃ connection,
      run (step doneEngine) (onOpen doneEngine) doneEvents = some connection ∧
        connection.posted = 1 := ⟨_, rfl, rfl⟩
  exact ⟨connection, ran, posted, run_loadedFirst ran⟩

end Asr2Pass.Server
