import Asr2Pass.Library.Runs
import Asr2Pass.Online.ChunkSizes
import Asr2Pass.Server.OnMessage

/-! # `do_decoder`, and the steps of a connection

A task takes a step of its own for each place where another thread can come between: the tests of
`is_eof` and of the handle, the call of the model, the sending of a result and the decrement of
`access_num`.
-/

namespace Asr2Pass.Server

open TwoPass (AsrType)

def asrMode (modetype : String) : AsrType :=
  if modetype = "offline" then .asrOffline
  else if modetype = "online" then .asrOnline
  else .asrTwoPass

/-- `handle_result`, as the members of the answer. -/
def handleResult (engine : Engine) (result : RecogResult) : List (String × Json) :=
  let text := if result.tpassMsg ≠ "" then result.tpassMsg else result.msg
  let mode :=
    if result.tpassMsg ≠ "" then [("mode", Json.string "2pass-offline")]
    else if result.msg ≠ "" then [("mode", Json.string "2pass-online")]
    else []
  let timestamp := if result.stamp ≠ "" then [("timestamp", Json.string result.stamp)] else []
  let stampSents :=
    if result.stampSents ≠ "" then
      [("stamp_sents", (engine.parse result.stampSents.toUTF8.toList).getD (.string ""))]
    else []
  ("text", Json.string text) :: mode ++ timestamp ++ stampSents

namespace Running

def answer (running : Running) (members : List (String × Json)) (isFinal : Bool) : Json :=
  .object (members ++
    [("wav_name", .string running.args.wavName), ("is_final", .boolean isFinal)])

/-- What is sent for a result in the loop: nothing for an empty text. -/
def replies (engine : Engine) (running : Running) : Option RecogResult → List Json
  | none => []
  | some result =>
    if result.msg ≠ "" ∨ result.tpassMsg ≠ "" then
      [running.answer (handleResult engine result) false]
    else []

/-- What is sent for the last result. -/
def lastReplies (engine : Engine) (running : Running) : Option RecogResult → List Json
  | some result => [running.answer (handleResult engine result) true]
  | none =>
    if running.args.wavFormat ≠ "pcm" ∧ running.args.wavFormat ≠ "PCM" then
      [running.answer [("text",
        .string "ERROR. Real-time transcription service ONLY SUPPORT PCM stream.")] true]
    else []

end Running

/-- What a call of the model comes to.  An ended one has taken the process with it. -/
inductive Outcome where
  | returned (result : Option RecogResult)
  | threw
  | ended

/-- The formats that are loaded; a call returns at once for any other. -/
def Args.IsPcm (args : Args) : Prop :=
  args.wavFormat = "pcm" ∨ args.wavFormat = "PCM"

instance (args : Args) : Decidable args.IsPcm :=
  inferInstanceAs (Decidable (_ ∨ _))

/-- `LinearResample` asserts that the rate is positive. -/
def Args.Loads (args : Args) : Prop :=
  args.IsPcm → 0 < args.audioFs

instance (args : Args) : Decidable args.Loads :=
  inferInstanceAs (Decidable (_ → _))

/-- The online model can be fed in chunks of this `chunk_size`. -/
def Feeds (chunkSize : List Int) : Prop :=
  match chunkSize with
  | [left, middle, right] =>
    ∃ isInt, ({ left, middle, right, isInt } : Online.ChunkSize).Usable
  | _ => False

instance : (chunkSize : List Int) → Decidable (Feeds chunkSize)
  | [left, middle, right] =>
    inferInstanceAs (Decidable (∃ isInt, ({ left, middle, right, isInt } : Online.ChunkSize).Usable))
  | [] => .isFalse id
  | [_] => .isFalse id
  | [_, _] => .isFalse id
  | _ :: _ :: _ :: _ :: _ => .isFalse id

/-- A call on a stream of this `chunk_size` leaves the process alive. -/
def Args.Survives (args : Args) (chunkSize : List Int) : Prop :=
  args.Loads ∧ (args.IsPcm → asrMode args.modetype = .asrOffline ∨ Feeds chunkSize)

instance (args : Args) (chunkSize : List Int) : Decidable (args.Survives chunkSize) :=
  inferInstanceAs (Decidable (_ ∧ (_ → _)))

/-- What a call on a stream can come to.  A failed assertion ends the process; what is undefined with
    a `chunk_size` that does not feed the online model may end it as well. -/
def Args.CanCome (args : Args) : Option (List Int) → Outcome → Prop
  | none, _ => True
  | some chunkSize, .ended => ¬ args.Survives chunkSize
  | some _, .returned _ => args.Loads
  | some _, .threw => args.Loads

instance (args : Args) :
    (stream : Option (List Int)) → (outcome : Outcome) → Decidable (args.CanCome stream outcome)
  | none, _ => .isTrue trivial
  | some chunkSize, .ended => inferInstanceAs (Decidable (¬ args.Survives chunkSize))
  | some _, .returned _ => inferInstanceAs (Decidable args.Loads)
  | some _, .threw => inferInstanceAs (Decidable args.Loads)

namespace Connection

/-- The strand invokes the next task; the conversions are outside of every `try`. -/
def begin (connection : Connection) : Option Connection :=
  match connection.running, connection.strand with
  | none, task :: rest =>
    match task.fields.convert with
    | none => some { connection with terminated := true }
    | some args =>
      let running : Running :=
        { buffer := task.buffer, hotwordsEmbedding := task.hotwordsEmbedding,
          isFinal := task.isFinal, args,
          phase := if connection.tpassOnlineHandle = none then .leave .nullHandle else .loop }
      some { connection with strand := rest, running := some running }
  | _, _ => none

/-- The tests of `do_decoder`. -/
def test (connection : Connection) (running : Running) : Option Running :=
  match running.phase with
  | .loop =>
    if running.buffer.length ≥ 800 * 2 ∧ connection.isEof = false then
      some { running with
        buffer := running.buffer.drop (800 * 2)
        phase := .infer (running.buffer.take (800 * 2)) }
    else some { running with phase := .final }
  | .final =>
    if running.isFinal ∧ connection.isEof = false then some { running with phase := .inferFinal }
    else some { running with phase := .leave .done }
  | _ => none

def inferBuffer (connection : Connection) (running : Running) (data : List Byte)
    (inputFinished : Bool) : Connection :=
  { connection with calls := connection.calls ++ [.inferBuffer data inputFinished
      (asrMode running.args.modetype) running.args running.hotwordsEmbedding] }

/-- A call of `FunTpassInferBuffer`, unless the handle is gone. -/
def infer (connection : Connection) (running : Running) (outcome : Outcome) : Option Connection :=
  match running.phase with
  | .infer subvector =>
    if connection.tpassOnlineHandle = none then
      some { connection with running := some { running with phase := .leave .handleGone } }
    else
      match outcome with
      | .returned result => some { connection.inferBuffer running subvector false with
          running := some { running with phase := .reply result } }
      | .threw => some { connection.inferBuffer running subvector false with
          running := some { running with phase := .leave .inferenceThrew } }
      | .ended => some { connection with terminated := true }
  | .inferFinal =>
    if connection.tpassOnlineHandle = none then
      some { connection with running := some { running with phase := .leave .handleGone } }
    else
      match outcome with
      | .returned result => some { connection.inferBuffer running running.buffer running.isFinal with
          running := some { running with phase := .replyFinal result } }
      | .threw => some { connection.inferBuffer running running.buffer running.isFinal with
          running := some { running with phase := .leave .inferenceThrew } }
      | .ended => some { connection with terminated := true }
  | _ => none

/-- The sending of what a result asks for. -/
def deliver (engine : Engine) (connection : Connection) (running : Running) : Option Connection :=
  match running.phase with
  | .reply result =>
    some { connection with
      sent := connection.sent ++ running.replies engine result
      running := some { running with phase := .loop } }
  | .replyFinal result =>
    some { connection with
      sent := connection.sent ++ running.lastReplies engine result
      running := some { running with phase := .leave .done } }
  | _ => none

/-- An exception from `handle_result` or from what is sent. -/
def deliverThrows (connection : Connection) (running : Running) : Option Connection :=
  match running.phase with
  | .reply (some _) =>
    some { connection with running := some { running with phase := .leave .elsewhereThrew } }
  | .replyFinal (some _) =>
    some { connection with running := some { running with phase := .leave .elsewhereThrew } }
  | _ => none

def decrement (connection : Connection) (running : Running) : Option Connection :=
  match running.phase with
  | .leave exit =>
    some { connection with
      accessNum := connection.accessNum - 1
      running := none
      exits := connection.exits ++ [exit] }
  | _ => none

end Connection

/-! ## The steps -/

inductive Step where
  | receive (frame : Frame)
  | handle
  | onClose
  | removeHdl
  | begin
  | test
  | infer (outcome : Outcome)
  | deliver
  | deliverThrows
  | decrement

def perform (engine : Engine) (connection : Connection) : Step → Option Connection
  | .receive frame =>
    if connection.inflight.isNone then some (connection.receive frame) else none
  | .handle => connection.inflight.map fun frame => connection.handle engine frame
  | .onClose => some connection.onClose
  | .removeHdl => some connection.removeHdl
  | .begin => connection.begin
  | .test => connection.running.bind fun running =>
      (connection.test running).map fun running => { connection with running := some running }
  | .infer outcome => connection.running.bind fun running =>
      if running.args.CanCome connection.tpassOnlineHandle outcome then
        connection.infer running outcome
      else none
  | .deliver => connection.running.bind fun running => connection.deliver engine running
  | .deliverThrows => connection.running.bind fun running => connection.deliverThrows running
  | .decrement => connection.running.bind fun running => connection.decrement running

/-- A step of a connection; none after the process has ended. -/
def step (engine : Engine) (connection : Connection) (event : Step) : Option Connection :=
  if connection.terminated then none else perform engine connection event

theorem step_eq_some {engine : Engine} {connection next : Connection} {event : Step} :
    step engine connection event = some next ↔
      connection.terminated = false ∧ perform engine connection event = some next := by
  rw [step]
  rcases connection.terminated <;> simp

/-- The steps of the decoder threads. -/
def Step.OfDecoder : Step → Prop
  | .begin => True
  | .test => True
  | .infer _ => True
  | .deliver => True
  | .deliverThrows => True
  | .decrement => True
  | _ => False

/-- The steps of `on_message`. -/
def Step.OfMessage : Step → Prop
  | .receive _ => True
  | .handle => True
  | _ => False

namespace Connection

variable {engine : Engine} {connection next : Connection}

/-- What the strand does when it is free. -/
theorem begin_cases (began : connection.begin = some next) :
    ∃ task rest, connection.running = none ∧ connection.strand = task :: rest ∧
      (task.fields.convert = none ∧ next = { connection with terminated := true } ∨
        ∃ args, task.fields.convert = some args ∧ next = { connection with
          strand := rest
          running := some {
            buffer := task.buffer, hotwordsEmbedding := task.hotwordsEmbedding,
            isFinal := task.isFinal, args,
            phase := if connection.tpassOnlineHandle = none then .leave .nullHandle
              else .loop } }) := by
  cases idle : connection.running with
  | some running => simp [begin, idle] at began
  | none =>
    cases queue : connection.strand with
    | nil => simp [begin, idle, queue] at began
    | cons task rest =>
      refine ⟨task, rest, rfl, rfl, ?_⟩
      cases converted : task.fields.convert with
      | none =>
        simp only [begin, idle, queue, converted] at began
        cases began
        exact .inl ⟨rfl, rfl⟩
      | some args =>
        simp only [begin, idle, queue, converted] at began
        cases began
        exact .inr ⟨args, rfl, rfl⟩

theorem infer_performed {outcome : Outcome}
    (performed : perform engine connection (.infer outcome) = some next) :
    ∃ running, connection.running = some running ∧
      running.args.CanCome connection.tpassOnlineHandle outcome ∧
        connection.infer running outcome = some next := by
  obtain ⟨running, busy, called⟩ := Option.bind_eq_some_iff.mp performed
  obtain ⟨can, called⟩ := Option.ite_none_right_eq_some.mp called
  exact ⟨running, busy, can, called⟩

/-- A call, with the handle or without it. -/
theorem infer_cases {running : Running} {outcome : Outcome}
    (called : connection.infer running outcome = some next) :
    (∀ exit, running.phase ≠ .leave exit) ∧
      ((outcome = .ended ∧ connection.tpassOnlineHandle ≠ none ∧
        next = { connection with terminated := true }) ∨
      ∃ running' calls, running'.args = running.args ∧
        (∃ more, calls = connection.calls ++ more ∧ ∀ call ∈ more, call.IsInference) ∧
        next = { connection with running := some running', calls }) := by
  have gone : ∃ more, connection.calls = connection.calls ++ more ∧
      ∀ call ∈ more, call.IsInference := ⟨[], (List.append_nil _).symm, by simp⟩
  simp only [infer] at called
  split at called
  · rename_i phase
    refine ⟨by simp [phase], ?_⟩
    split at called
    · cases called
      exact .inr ⟨_, _, by rfl, gone, rfl⟩
    · rename_i handle
      cases outcome <;> cases called
      · exact .inr ⟨_, _, by rfl, ⟨_, rfl, by simp [EngineCall.IsInference]⟩, rfl⟩
      · exact .inr ⟨_, _, by rfl, ⟨_, rfl, by simp [EngineCall.IsInference]⟩, rfl⟩
      · exact .inl ⟨rfl, handle, rfl⟩
  · rename_i phase
    refine ⟨by simp [phase], ?_⟩
    split at called
    · cases called
      exact .inr ⟨_, _, by rfl, gone, rfl⟩
    · rename_i handle
      cases outcome <;> cases called
      · exact .inr ⟨_, _, by rfl, ⟨_, rfl, by simp [EngineCall.IsInference]⟩, rfl⟩
      · exact .inr ⟨_, _, by rfl, ⟨_, rfl, by simp [EngineCall.IsInference]⟩, rfl⟩
      · exact .inl ⟨rfl, handle, rfl⟩
  · cases called

/-- A step of the decoder threads takes the next task, ends the process in a call, takes the task
    that runs further, or is the end of it. -/
theorem decoder_cases {event : Step} (decoder : event.OfDecoder)
    (performed : perform engine connection event = some next) :
    connection.begin = some next ∨
    ((∃ running chunkSize, connection.running = some running ∧
        connection.tpassOnlineHandle = some chunkSize ∧ (∀ exit, running.phase ≠ .leave exit) ∧
        ¬ running.args.Survives chunkSize) ∧ next = { connection with terminated := true }) ∨
    ∃ running, connection.running = some running ∧ ((∃ running' calls sent,
        (running'.args = running.args ∧ ∀ exit, running.phase ≠ .leave exit) ∧
        (∃ more, calls = connection.calls ++ more ∧ ∀ call ∈ more, call.IsInference) ∧
        next = { connection with running := some running', calls, sent }) ∨
      ∃ exit, next = { connection with
        accessNum := connection.accessNum - 1
        running := none
        exits := connection.exits ++ [exit] }) := by
  -- For the steps that call no engine.
  have same : ∃ more, connection.calls = connection.calls ++ more ∧
      ∀ call ∈ more, call.IsInference := ⟨[], (List.append_nil _).symm, by simp⟩
  cases event with
  | begin => exact .inl performed
  | test =>
    obtain ⟨running, busy, tested⟩ := Option.bind_eq_some_iff.mp performed
    obtain ⟨running', tested, rfl⟩ := Option.map_eq_some_iff.mp tested
    refine .inr (.inr ⟨running, busy, .inl ⟨_, _, _, ?_, same, rfl⟩⟩)
    simp only [test] at tested
    split at tested
    · rename_i phase
      refine ⟨?_, by simp [phase]⟩
      split at tested <;> cases tested <;> rfl
    · rename_i phase
      refine ⟨?_, by simp [phase]⟩
      split at tested <;> cases tested <;> rfl
    · cases tested
  | infer outcome =>
    obtain ⟨running, busy, can, called⟩ := infer_performed performed
    obtain ⟨phase, ⟨rfl, handle, ended⟩ | ⟨running', calls, args, more, rfl⟩⟩ := infer_cases called
    · obtain ⟨chunkSize, handle⟩ := Option.ne_none_iff_exists'.mp handle
      rw [handle] at can
      exact .inr (.inl ⟨⟨running, chunkSize, busy, handle, phase, can⟩, ended⟩)
    · exact .inr (.inr ⟨running, busy, .inl ⟨_, _, _, ⟨args, phase⟩, more, rfl⟩⟩)
  | deliver =>
    obtain ⟨running, busy, delivered⟩ := Option.bind_eq_some_iff.mp performed
    simp only [deliver] at delivered
    split at delivered
    · rename_i phase
      cases delivered
      exact .inr (.inr ⟨running, busy, .inl ⟨_, _, _, ⟨by rfl, by simp [phase]⟩, same, rfl⟩⟩)
    · rename_i phase
      cases delivered
      exact .inr (.inr ⟨running, busy, .inl ⟨_, _, _, ⟨by rfl, by simp [phase]⟩, same, rfl⟩⟩)
    · cases delivered
  | deliverThrows =>
    obtain ⟨running, busy, threw⟩ := Option.bind_eq_some_iff.mp performed
    simp only [deliverThrows] at threw
    split at threw
    · rename_i phase
      cases threw
      exact .inr (.inr ⟨running, busy, .inl ⟨_, _, _, ⟨by rfl, by simp [phase]⟩, same, rfl⟩⟩)
    · rename_i phase
      cases threw
      exact .inr (.inr ⟨running, busy, .inl ⟨_, _, _, ⟨by rfl, by simp [phase]⟩, same, rfl⟩⟩)
    · cases threw
  | decrement =>
    obtain ⟨running, busy, left⟩ := Option.bind_eq_some_iff.mp performed
    simp only [decrement] at left
    split at left
    · cases left
      exact .inr (.inr ⟨running, busy, .inr ⟨_, rfl⟩⟩)
    · cases left
  | receive frame => exact decoder.elim
  | handle => exact decoder.elim
  | onClose => exact decoder.elim
  | removeHdl => exact decoder.elim

end Connection

/-- Only messages bring samples. -/
theorem quiet_step {engine : Engine} {connection next : Connection} {event : Step}
    (quiet : ¬ event.OfMessage) (stepped : step engine connection event = some next) :
    next.samples = connection.samples ∧ next.inflight = connection.inflight := by
  obtain ⟨-, performed⟩ := step_eq_some.mp stepped
  have decoder (ofDecoder : event.OfDecoder) :
      next.samples = connection.samples ∧ next.inflight = connection.inflight := by
    obtain began | ⟨-, rfl⟩ | ⟨running, -, ⟨running', calls, sent, -, -, rfl⟩ | ⟨exit, rfl⟩⟩ :=
      Connection.decoder_cases ofDecoder performed
    · obtain ⟨task, rest, -, -, ⟨-, rfl⟩ | ⟨args, -, rfl⟩⟩ := Connection.begin_cases began
      · exact ⟨rfl, rfl⟩
      · exact ⟨rfl, rfl⟩
    · exact ⟨rfl, rfl⟩
    · exact ⟨rfl, rfl⟩
    · exact ⟨rfl, rfl⟩
  cases event with
  | receive frame => exact absurd trivial quiet
  | handle => exact absurd trivial quiet
  | onClose =>
    cases performed
    rw [Connection.onClose]
    split <;> exact ⟨rfl, rfl⟩
  | removeHdl =>
    cases performed
    rw [Connection.removeHdl]
    split <;> exact ⟨rfl, rfl⟩
  | _ => exact decoder trivial

end Asr2Pass.Server
