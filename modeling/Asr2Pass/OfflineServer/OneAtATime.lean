import Asr2Pass.OfflineServer.DecoderThreads
import Asr2Pass.Server.AccessNum
import Mathlib.Data.List.Pairwise

/-! # One decoding at a time

Nothing orders the tasks of a connection but the client: while it ends no recording under a task of
its own, there is one task at most, and the answers come in the order of the tasks.
-/

namespace Asr2Pass.OfflineServer

open Library
open Server (Byte Json Frame Engine RecogResult Outcome)

variable {Hdl : Type}

/-! ## What one connection sees of a step -/

structure View (Hdl : Type) where
  connection : Option Connection
  queued : List (Task Hdl)
  running : List (Running Hdl)
  sent : List (Reply Hdl)

namespace View

def accessNum (view : View Hdl) : Int := (view.connection.map (·.accessNum)).getD 0

def posted (view : View Hdl) : Nat := (view.connection.map (·.posted)).getD 0

end View

/-- Whether the answer is still to be sent. -/
def Running.unsent (running : Running Hdl) : Bool :=
  match running.phase with
  | .leave => false
  | _ => true

inductive ViewStep (view next : View Hdl) : Prop where
  | quiet (queued : next.queued = view.queued) (running : next.running = view.running)
      (sent : next.sent = view.sent) (accessNum : next.accessNum = view.accessNum)
      (posted : next.posted = view.posted)
  | post (task : Task Hdl) (alone : view.accessNum = 0) (turn : task.turn = view.posted)
      (queued : next.queued = view.queued ++ [task]) (running : next.running = view.running)
      (sent : next.sent = view.sent) (accessNum : next.accessNum = view.accessNum + 1)
      (posted : next.posted = view.posted + 1)
  | start (task : Task Hdl) (rest : List (Task Hdl)) (started : Running Hdl)
      (turn : started.turn = task.turn) (unsent : started.unsent = true)
      (queue : view.queued = task :: rest) (queued : next.queued = rest)
      (running : next.running = view.running ++ [started]) (sent : next.sent = view.sent)
      (accessNum : next.accessNum = view.accessNum) (posted : next.posted = view.posted)
  | infer (before after : List (Running Hdl)) (old new : Running Hdl) (turn : new.turn = old.turn)
      (unsent : old.unsent = true) (unsent' : new.unsent = true)
      (busy : view.running = before ++ old :: after) (queued : next.queued = view.queued)
      (running : next.running = before ++ new :: after) (sent : next.sent = view.sent)
      (accessNum : next.accessNum = view.accessNum) (posted : next.posted = view.posted)
  | send (before after : List (Running Hdl)) (old new : Running Hdl) (replies : List (Reply Hdl))
      (unsent : old.unsent = true) (unsent' : new.unsent = false)
      (reply : replies = [] ∨ ∃ reply, replies = [reply] ∧ reply.turn = old.turn)
      (busy : view.running = before ++ old :: after) (queued : next.queued = view.queued)
      (running : next.running = before ++ new :: after) (sent : next.sent = view.sent ++ replies)
      (accessNum : next.accessNum = view.accessNum) (posted : next.posted = view.posted)
  | leave (before after : List (Running Hdl)) (old : Running Hdl) (unsent : old.unsent = false)
      (busy : view.running = before ++ old :: after) (queued : next.queued = view.queued)
      (running : next.running = before ++ after) (sent : next.sent = view.sent)
      (accessNum : next.accessNum = view.accessNum - 1) (posted : next.posted = view.posted)

/-! ## The invariant -/

/-- The turns of a connection that have been answered, and those that are to be. -/
def View.turns (view : View Hdl) : List Nat :=
  view.sent.map (·.turn) ++ ((view.running.filter (·.unsent)).map (·.turn) ++
    view.queued.map (·.turn))

structure Alone (view : View Hdl) : Prop where
  accessNum : view.accessNum = (view.running.length + view.queued.length : Nat)
  one : view.running.length + view.queued.length ≤ 1
  ordered : view.turns.Pairwise (· < ·)
  below : ∀ turn ∈ view.turns, turn < view.posted

theorem Alone.step {view next : View Hdl} (alone : Alone view) (taken : ViewStep view next) :
    Alone next := by
  obtain ⟨counted, one, ordered, below⟩ := alone
  cases taken with
  | quiet queued running sent accessNum posted =>
    have turns : next.turns = view.turns := by rw [View.turns, queued, running, sent, View.turns]
    exact ⟨by rw [accessNum, counted, queued, running], by rw [queued, running]; exact one,
      by rw [turns]; exact ordered, by rw [turns, posted]; exact below⟩
  | post task alone turn queued running sent accessNum posted =>
    have turns : next.turns = view.turns ++ [view.posted] := by
      rw [View.turns, queued, running, sent, View.turns, ← turn]
      simp
    refine ⟨?_, ?_, ?_, ?_⟩
    · rw [accessNum, counted, queued, running, List.length_append, List.length_singleton]
      omega
    · rw [queued, running, List.length_append, List.length_singleton]
      omega
    · rw [turns, List.pairwise_append]
      refine ⟨ordered, List.pairwise_singleton _ _, fun old member last isLast => ?_⟩
      rw [List.mem_singleton.mp isLast]
      exact below old member
    · rw [turns, posted]
      intro some member
      rcases List.mem_append.mp member with old | new
      · exact Nat.lt_succ_of_lt (below some old)
      · rw [List.mem_singleton.mp new]
        exact Nat.lt_succ_self _
  | start task rest started turn unsent queue queued running sent accessNum posted =>
    have turns : next.turns = view.turns := by
      rw [View.turns, queued, running, sent, View.turns, queue]
      simp [unsent, turn]
    rw [queue, List.length_cons] at counted one
    refine ⟨?_, ?_, by rw [turns]; exact ordered, by rw [turns, posted]; exact below⟩
    · rw [accessNum, counted, queued, running, List.length_append, List.length_singleton]
      omega
    · rw [queued, running, List.length_append, List.length_singleton]
      omega
  | infer before after old new turn unsent unsent' busy queued running sent accessNum posted =>
    have turns : next.turns = view.turns := by
      rw [View.turns, queued, running, sent, View.turns, busy]
      simp [unsent, unsent', turn]
    rw [busy, List.length_append, List.length_cons] at counted one
    refine ⟨?_, ?_, by rw [turns]; exact ordered, by rw [turns, posted]; exact below⟩
    · rw [accessNum, counted, queued, running, List.length_append, List.length_cons]
    · rw [queued, running, List.length_append, List.length_cons]
      exact one
  | send before after old new replies unsent unsent' reply busy queued running sent accessNum posted =>
    rw [busy, List.length_append, List.length_cons] at counted one
    -- the task is the only one, so its turn is the last
    obtain rfl : before = [] := List.length_eq_zero_iff.mp (by omega)
    obtain rfl : after = [] := List.length_eq_zero_iff.mp (by omega)
    have idle : view.queued = [] := List.length_eq_zero_iff.mp (by omega)
    have turns : next.turns.Sublist view.turns := by
      rw [View.turns, queued, running, sent, View.turns, busy, idle]
      rcases reply with rfl | ⟨reply, rfl, turn⟩
      · simp [unsent, unsent']
      · simp [unsent, unsent', turn]
    refine ⟨?_, ?_, ordered.sublist turns, fun turn member => ?_⟩
    · rw [accessNum, counted, queued, running]
      simp
    · rw [queued, running, idle]
      simp
    · rw [posted]
      exact below turn (turns.subset member)
  | leave before after old unsent busy queued running sent accessNum posted =>
    have turns : next.turns = view.turns := by
      rw [View.turns, queued, running, sent, View.turns, busy]
      simp [unsent]
    rw [busy, List.length_append, List.length_cons] at counted one
    refine ⟨?_, ?_, by rw [turns]; exact ordered, by rw [turns, posted]; exact below⟩
    · rw [accessNum, counted, queued, running, List.length_append]
      omega
    · rw [queued, running, List.length_append]
      omega

variable [DecidableEq Hdl]

/-! ## The properties -/

/-- No two tasks of a connection are between start and end. -/
def OneAtATime (server : WebSocketServer Hdl) : Prop :=
  ∀ hdl, (server.running.filter (·.hdl = hdl)).length ≤ 1

/-- The answers to each client come in the order of the messages that posted the tasks. -/
def InOrder (server : WebSocketServer Hdl) : Prop :=
  ∀ hdl, ((server.sent.filter (·.hdl = hdl)).map (·.turn)).Pairwise (· < ·)

/-- The message whose handler runs is for the client's "done". -/
def EndsRecording (engine : Engine) (connection : Connection) : Prop :=
  connection.isEof = false ∧ ∃ payload json, connection.inflight = some (.text payload) ∧
    engine.parse payload = some json ∧ Server.clientDone json = some true

/-- A client is done with a recording only when no earlier task of it is left. -/
def EndsAlone (engine : Engine) (server : WebSocketServer Hdl) : Step Hdl → Prop
  | .handle hdl => ∀ connection, server.dataMap hdl = some connection →
      EndsRecording engine connection → connection.accessNum = 0
  | _ => True

/-! ## The steps -/

def WebSocketServer.view (server : WebSocketServer Hdl) (hdl : Hdl) : View Hdl where
  connection := server.dataMap hdl
  queued := server.ioDecoder.filter (·.hdl = hdl)
  running := server.running.filter (·.hdl = hdl)
  sent := server.sent.filter (·.hdl = hdl)

omit [DecidableEq Hdl] in
theorem exists_split {running : List (Running Hdl)} {place : Nat} {old : Running Hdl}
    (present : running[place]? = some old) :
    ∃ before after, running = before ++ old :: after ∧
      (∀ new, running.set place new = before ++ new :: after) ∧
      running.eraseIdx place = before ++ after := by
  obtain ⟨inside, rfl⟩ := List.getElem?_eq_some_iff.mp present
  refine ⟨running.take place, running.drop (place + 1), ?_, fun new => ?_, ?_⟩
  · rw [List.getElem_cons_drop, List.take_append_drop]
  · rw [List.set_eq_take_append_cons_drop, if_pos inside]
  · rw [List.eraseIdx_eq_take_drop_succ]

variable {engine : Engine} {decoderThreads : Nat} {server next : WebSocketServer Hdl}

/-- A new entry with the same counts. -/
theorem viewStep_store {hdl : Hdl} {connection connection' : Connection}
    (entry : server.dataMap hdl = some connection)
    (accessNum : connection'.accessNum = connection.accessNum)
    (posted : connection'.posted = connection.posted) (other : Hdl) :
    ViewStep (server.view other) ((server.store hdl connection').view other) := by
  refine .quiet rfl rfl rfl ?_ ?_
  · by_cases same : other = hdl
    · subst same
      simp [View.accessNum, WebSocketServer.view, WebSocketServer.store, entry, accessNum]
    · simp [View.accessNum, WebSocketServer.view, WebSocketServer.store, same]
  · by_cases same : other = hdl
    · subst same
      simp [View.posted, WebSocketServer.view, WebSocketServer.store, entry, posted]
    · simp [View.posted, WebSocketServer.view, WebSocketServer.store, same]

/-! ### `on_message` -/

omit [DecidableEq Hdl] in
/-- A handler leaves the counts, or posts one task for a client that is done. -/
theorem handle_cases {hdl : Hdl} {frame : Frame} {connection handled : Connection}
    {tasks : List (Task Hdl)} (inflight : connection.inflight = some frame)
    (ran : connection.handle engine hdl frame = some (handled, tasks)) :
    tasks = [] ∧ handled.accessNum = connection.accessNum ∧ handled.posted = connection.posted ∨
    EndsRecording engine connection ∧ ∃ task, tasks = [task] ∧ task.hdl = hdl ∧
      task.turn = connection.posted ∧ handled.accessNum = connection.accessNum + 1 ∧
      handled.posted = connection.posted + 1 := by
  -- Only a text that ends the recording posts a task; everything else leaves the counts.
  cases frame with
  | text payload =>
    cases parsed : engine.parse payload with
    | none =>
      simp only [Connection.handle, parsed] at ran
      cases ran
      exact .inl ⟨rfl, rfl, rfl⟩
    | some json =>
      simp only [Connection.handle, parsed, Connection.onText, Option.bind_eq_bind,
        Option.bind_eq_some_iff] at ran
      obtain ⟨named, name, loaded, load, done, isDone, ran⟩ := ran
      have named : named.accessNum = connection.accessNum ∧ named.posted = connection.posted ∧
          named.isEof = connection.isEof := by
        simp only [Connection.storeNames, Option.bind_eq_bind, Option.bind_eq_some_iff] at name
        obtain ⟨wavName, -, wavFormat, -, same⟩ := name
        cases same
        exact ⟨rfl, rfl, rfl⟩
      have loaded : loaded.accessNum = connection.accessNum ∧ loaded.posted = connection.posted ∧
          loaded.isEof = connection.isEof := by
        rw [Connection.loadHotwords] at load
        split at load
        · cases load
          exact named
        · obtain ⟨⟨clientMap, clientWords⟩, -, rfl⟩ := Option.map_eq_some_iff.mp load
          exact named
      obtain ⟨accessNum, posted, isEof⟩ := loaded
      split at ran
      next final =>
        split at ran
        next embedding embedded =>
          cases ran
          refine .inr ⟨⟨?_, payload, json, inflight, parsed, ?_⟩, _, rfl, rfl, posted, ?_, ?_⟩
          · rw [← isEof]
            exact Bool.eq_false_iff.mpr final.2
          · rw [isDone, final.1]
          · change loaded.accessNum + 1 = _
            rw [accessNum]
          · change loaded.posted + 1 = _
            rw [posted]
        next =>
          cases ran
          exact .inl ⟨rfl, accessNum, posted⟩
      next =>
        cases ran
        exact .inl ⟨rfl, accessNum, posted⟩
  | binary payload =>
    cases ran
    exact .inl ⟨rfl, rfl, rfl⟩
  | other =>
    cases ran
    exact .inl ⟨rfl, rfl, rfl⟩

theorem viewStep_handle {hdl : Hdl} (meets : EndsAlone engine server (.handle hdl))
    (ran : server.handle engine hdl = some next) (other : Hdl) :
    ViewStep (server.view other) (next.view other) := by
  simp only [WebSocketServer.handle, Option.bind_eq_bind, Option.bind_eq_some_iff] at ran
  obtain ⟨connection, entry, frame, inflight, ran⟩ := ran
  cases handled : connection.handle engine hdl frame with
  | none =>
    simp only [handled] at ran
    cases ran
    exact .quiet rfl rfl rfl rfl rfl
  | some result =>
    obtain ⟨after, tasks⟩ := result
    simp only [handled] at ran
    cases ran
    rcases handle_cases inflight handled with
      ⟨rfl, accessNum, posted⟩ | ⟨ends, task, rfl, own, turn, accessNum, posted⟩
    · rw [List.append_nil]
      exact @viewStep_store _ _ _ _ _ { after with inflight := none } entry accessNum posted other
    -- The client is done, so its connection had no task before this one.
    · have alone := meets connection entry ends
      by_cases same : other = hdl
      · subst same
        refine .post task ?_ ?_ ?_ rfl rfl ?_ ?_
        · simp [View.accessNum, WebSocketServer.view, entry, alone]
        · simp [View.posted, WebSocketServer.view, entry, turn]
        · simp [WebSocketServer.view, own]
        · simp [View.accessNum, WebSocketServer.view, WebSocketServer.store, entry, accessNum]
        · simp [View.posted, WebSocketServer.view, WebSocketServer.store, entry, posted]
      · have foreign : ¬ task.hdl = other := fun eq => same (eq.symm.trans own)
        refine .quiet ?_ rfl rfl ?_ ?_
        · simp [WebSocketServer.view, foreign]
        · simp [View.accessNum, WebSocketServer.view, WebSocketServer.store, same]
        · simp [View.posted, WebSocketServer.view, WebSocketServer.store, same]

/-! ### `do_decoder` -/

theorem viewStep_start (ran : server.start decoderThreads = some next) (other : Hdl) :
    ViewStep (server.view other) (next.view other) := by
  rw [WebSocketServer.start] at ran
  split at ran
  · cases ran
  next task rest queue =>
    split at ran
    · split at ran
      · cases ran
        exact .quiet rfl rfl rfl rfl rfl
      next args converted =>
        cases ran
        by_cases own : task.hdl = other
        · refine .start task (rest.filter (·.hdl = other)) (Running.start task args) rfl ?_ ?_ rfl ?_
            rfl rfl rfl
          · simp only [Running.unsent, Running.start]
            by_cases data : Running.HasData task.buffer task.hotwordsEmbedding
            · simp [data]
            · simp [data]
          · simp [WebSocketServer.view, queue, own]
          · simp [WebSocketServer.view, Running.start, own]
        · refine .quiet ?_ ?_ rfl rfl rfl
          · simp [WebSocketServer.view, queue, own]
          · simp [WebSocketServer.view, Running.start, own]
    · cases ran

/-- The tasks that a connection sees when one task gets further, or ends. -/
theorem filter_set {place : Nat} {running : List (Running Hdl)} {old : Running Hdl}
    (present : running[place]? = some old) (phase : Phase) (other : Hdl) :
    old.hdl ≠ other ∧
      (running.set place { old with phase }).filter (·.hdl = other) =
        running.filter (·.hdl = other) ∧
      (running.eraseIdx place).filter (·.hdl = other) = running.filter (·.hdl = other) ∨
    old.hdl = other ∧ ∃ before after, running.filter (·.hdl = other) = before ++ old :: after ∧
      (running.set place { old with phase }).filter (·.hdl = other) =
        before ++ { old with phase } :: after ∧
      (running.eraseIdx place).filter (·.hdl = other) = before ++ after := by
  obtain ⟨before, after, split, set, erase⟩ := exists_split present
  by_cases same : old.hdl = other
  · refine .inr ⟨same, before.filter (·.hdl = other), after.filter (·.hdl = other), ?_, ?_, ?_⟩
    · rw [split]
      simp [same]
    · rw [set]
      simp [same]
    · rw [erase, List.filter_append]
  · refine .inl ⟨same, ?_, ?_⟩
    · rw [set, split]
      simp [same]
    · rw [erase, split]
      simp [same]

theorem viewStep_infer {place : Nat} {outcome : Outcome}
    (ran : server.infer outcome place = some next) (other : Hdl) :
    ViewStep (server.view other) (next.view other) := by
  simp only [WebSocketServer.infer, Option.bind_eq_bind, Option.bind_eq_some_iff] at ran
  obtain ⟨running, present, result, -, ran⟩ := ran
  split at ran
  next phase =>
    cases ran
    rcases filter_set present (.send result) other with
      ⟨-, same, -⟩ | ⟨-, before, after, busy, set, -⟩
    · exact .quiet rfl same rfl rfl rfl
    · exact .infer before after running
        { running with phase := .send result } rfl
        (by simp [Running.unsent, phase])
        (by simp [Running.unsent]) busy rfl set rfl rfl rfl
  · cases ran

theorem viewStep_send {place : Nat} (ran : server.send engine place = some next) (other : Hdl) :
    ViewStep (server.view other) (next.view other) := by
  simp only [WebSocketServer.send, Option.bind_eq_bind, Option.bind_eq_some_iff] at ran
  obtain ⟨running, present, ran⟩ := ran
  split at ran
  next result phase =>
    cases ran
    rcases filter_set present .leave other with
      ⟨foreign, same, -⟩ | ⟨own, before, after, busy, set, -⟩
    · exact .quiet rfl same (by simp [WebSocketServer.view, foreign]) rfl rfl
    · have sent : (server.sent ++ [(⟨running.hdl, running.turn, running.answer engine result⟩ :
          Reply Hdl)]).filter (·.hdl = other) = server.sent.filter (·.hdl = other) ++
            [⟨running.hdl, running.turn, running.answer engine result⟩] := by
        simp [own]
      exact .send before after running { running with phase := .leave } _
        (by simp [Running.unsent, phase])
        (by simp [Running.unsent]) (.inr ⟨_, rfl, rfl⟩) busy rfl set sent rfl rfl
  · cases ran

theorem viewStep_sendThrows {place : Nat} (ran : server.sendThrows place = some next) (other : Hdl) :
    ViewStep (server.view other) (next.view other) := by
  simp only [WebSocketServer.sendThrows, Option.bind_eq_bind, Option.bind_eq_some_iff] at ran
  obtain ⟨running, present, ran⟩ := ran
  split at ran
  next result phase =>
    cases ran
    rcases filter_set present .leave other with
      ⟨-, same, -⟩ | ⟨-, before, after, busy, set, -⟩
    · exact .quiet rfl same rfl rfl rfl
    · exact .send before after running { running with phase := .leave } []
        (by simp [Running.unsent, phase])
        (by simp [Running.unsent]) (.inl rfl) busy rfl set (List.append_nil _).symm rfl rfl
  · cases ran

theorem viewStep_leave {place : Nat} (ran : server.leave place = some next) (other : Hdl) :
    ViewStep (server.view other) (next.view other) := by
  simp only [WebSocketServer.leave, Option.bind_eq_bind, Option.bind_eq_some_iff] at ran
  obtain ⟨running, present, ran⟩ := ran
  split at ran
  next phase =>
    obtain ⟨connection, entry, ran⟩ := Option.bind_eq_some_iff.mp ran
    cases ran
    rcases filter_set present .leave other with
      ⟨foreign, -, same⟩ | ⟨own, before, after, busy, -, erase⟩
    · refine .quiet rfl same rfl ?_ ?_
      · simp [View.accessNum, WebSocketServer.view, WebSocketServer.store, Ne.symm foreign]
      · simp [View.posted, WebSocketServer.view, WebSocketServer.store, Ne.symm foreign]
    · subst own
      refine .leave before after running (by simp [Running.unsent, phase]) busy rfl erase rfl ?_ ?_
      · simp [View.accessNum, WebSocketServer.view, WebSocketServer.store, entry]
      · simp [View.posted, WebSocketServer.view, WebSocketServer.store, entry]
  · cases ran

/-! ### Every step -/

/-- What a step is for any of the connections, when no client is done too early. -/
theorem viewStep_of_step {event : Step Hdl} (meets : EndsAlone engine server event)
    (stepped : step engine decoderThreads server event = some next) (other : Hdl) :
    ViewStep (server.view other) (next.view other) := by
  obtain ⟨-, performed⟩ := step_eq_some.mp stepped
  -- One connection moves at a time; for the others nothing is seen.
  cases event with
  | onOpen hdl =>
    simp only [perform, WebSocketServer.open'] at performed
    split at performed
    next absent =>
      cases performed
      refine .quiet rfl rfl rfl ?_ ?_
      · by_cases same : other = hdl
        · subst same
          simp [View.accessNum, WebSocketServer.view, WebSocketServer.store, absent, onOpen]
        · simp [View.accessNum, WebSocketServer.view, WebSocketServer.store, same]
      · by_cases same : other = hdl
        · subst same
          simp [View.posted, WebSocketServer.view, WebSocketServer.store, absent, onOpen]
        · simp [View.posted, WebSocketServer.view, WebSocketServer.store, same]
    next => cases performed
  | receive hdl frame =>
    obtain ⟨connection, entry, performed⟩ := Option.bind_eq_some_iff.mp performed
    split at performed
    · cases performed
      rw [Connection.receive]
      split
      · exact @viewStep_store _ _ _ _ _ { connection with inflight := some frame } entry rfl rfl other
      · exact viewStep_store entry rfl rfl other
    · cases performed
  | handle hdl => exact viewStep_handle meets performed other
  | onClose hdl =>
    obtain ⟨connection, entry, rfl⟩ := Option.map_eq_some_iff.mp performed
    rw [Connection.onClose]
    split
    · exact @viewStep_store _ _ _ _ _ { connection with isEof := true } entry rfl rfl other
    · exact viewStep_store entry rfl rfl other
  | removeHdl hdl =>
    obtain ⟨connection, entry, rfl⟩ := Option.map_eq_some_iff.mp performed
    rw [Connection.removeHdl]
    split
    · exact @viewStep_store _ _ _ _ _ { connection with decoderHandle := false, mapped := false }
        entry rfl rfl other
    · exact viewStep_store entry rfl rfl other
  | start => exact viewStep_start performed other
  | infer place outcome => exact viewStep_infer performed other
  | send place => exact viewStep_send performed other
  | sendThrows place => exact viewStep_sendThrows performed other
  | leave place => exact viewStep_leave performed other

/-! ## Runs -/

theorem alone_nil (hdl : Hdl) : Alone (({} : WebSocketServer Hdl).view hdl) :=
  ⟨rfl, Nat.zero_le 1, .nil, by simp [View.turns, WebSocketServer.view]⟩

theorem Alone.oneAtATime (alone : ∀ hdl, Alone (server.view hdl)) : OneAtATime server := by
  intro hdl
  have one := (alone hdl).one
  change (server.running.filter (·.hdl = hdl)).length + _ ≤ 1 at one
  omega

theorem Alone.inOrder (alone : ∀ hdl, Alone (server.view hdl)) : InOrder server :=
  fun hdl => (List.pairwise_append.mp (alone hdl).ordered).1

/-- In a run in which every client waits for its last task before it is done again, the tasks of a
    connection run one at a time and are answered in their order. -/
theorem run_oneAtATime {events : List (Step Hdl)}
    (meets : Meets (step engine decoderThreads) (EndsAlone engine) {} events)
    (ran : run (step engine decoderThreads) {} events = some server) :
    OneAtATime server ∧ InOrder server := by
  have alone : ∀ hdl, Alone (server.view hdl) :=
    @run_meets _ _ (step engine decoderThreads) (EndsAlone engine)
      (fun _ server => ∀ hdl, Alone (server.view hdl))
      (fun alone meets stepped hdl => (alone hdl).step (viewStep_of_step meets stepped hdl))
      [] events {} server alone_nil meets ran
  exact ⟨Alone.oneAtATime alone, Alone.inOrder alone⟩

/-! ## A client with two recordings -/

/-- An engine for a client that sends `{"is_speaking":false}`. -/
def offlineEngine : Engine where
  parse payload :=
    if payload = Server.donePayload then some (.object [("is_speaking", .boolean false)]) else none
  hwsMap := []
  compileHotwordEmbedding _ := [[]]
  wfstDecoderInit := true

/-- A recording of one byte. -/
def recording : List (Step Unit) :=
  [.receive () (.binary [0]), .handle (), .receive () (.text Server.donePayload), .handle ()]

/-- How one task is decoded and answered. -/
def decoding : List (Step Unit) := [.start, .infer 0 (.returned none), .send 0, .leave 0]

/-- The second recording is done before the first is decoded, and its answer is the first. -/
def overlapping : List (Step Unit) :=
  [.onOpen ()] ++ recording ++ recording ++
    [.start, .start, .infer 0 (.returned none), .infer 1 (.returned none), .send 1, .send 0]

theorem overlapping_run : ∃ server : WebSocketServer Unit,
    run (step offlineEngine 2) {} overlapping = some server ∧ server.running.length = 2 ∧
      server.sent.map (·.turn) = [1, 0] := ⟨_, rfl, rfl, rfl⟩

theorem not_oneAtATime_overlapping : ∃ server : WebSocketServer Unit,
    run (step offlineEngine 2) {} overlapping = some server ∧ ¬ OneAtATime server ∧
      ¬ InOrder server := by
  obtain ⟨server, ran, two, reversed⟩ := overlapping_run
  refine ⟨server, ran, fun oneAtATime => ?_, fun inOrder => ?_⟩
  · have one := oneAtATime ()
    simp at one
    omega
  · have ordered := inOrder ()
    simp [reversed] at ordered

/-- No task is left when a handler runs. -/
def Waits (server : WebSocketServer Hdl) : Step Hdl → Bool
  | .handle hdl => (server.view hdl).accessNum = 0
  | _ => true

theorem Waits.endsAlone {event : Step Hdl} (waits : Waits server event = true) :
    EndsAlone engine server event := by
  cases event with
  | handle hdl =>
    intro connection entry ends
    simpa [Waits, View.accessNum, WebSocketServer.view, entry] using waits
  | _ => trivial

/-- The client waits for the first answer. -/
theorem run_oneAtATime_waiting : ∃ server : WebSocketServer Unit,
    run (step offlineEngine 2) {} ([.onOpen ()] ++ recording ++ decoding ++ recording ++ decoding) =
      some server ∧ server.sent.map (·.turn) = [0, 1] ∧ OneAtATime server ∧ InOrder server := by
  obtain ⟨server, ran, answered⟩ : ∃ server : WebSocketServer Unit,
      run (step offlineEngine 2) {} ([.onOpen ()] ++ recording ++ decoding ++ recording ++ decoding) =
        some server ∧ server.sent.map (·.turn) = [0, 1] := ⟨_, rfl, rfl⟩
  have waits : Meets (step offlineEngine 2) (fun server event => Waits server event = true) {}
      ([.onOpen ()] ++ recording ++ decoding ++ recording ++ decoding) := by decide +kernel
  exact ⟨server, ran, answered, run_oneAtATime (waits.imp fun _ _ => Waits.endsAlone) ran⟩

end Asr2Pass.OfflineServer
