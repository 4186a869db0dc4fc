import Asr2Pass.OfflineServer.Connection
import Mathlib.Logic.Function.Basic

/-! # The decoder threads of the offline server

The connections share the queue of `io_decoder_` and the threads that run it.  A thread that is free
takes the next task, whatever the others are at.  What one step does is read off for one connection:
its entry, and the tasks and answers that are its own.
-/

namespace Asr2Pass.OfflineServer

open Server (Byte Json Frame Engine RecogResult Outcome)

/-- What was sent to a client for its `turn`-th task. -/
structure Reply (Hdl : Type) where
  hdl : Hdl
  turn : Nat
  json : Json

structure WebSocketServer (Hdl : Type) where
  /-- The connections that have been opened; whether one is still in `data_map` it says itself. -/
  dataMap : Hdl → Option Connection := fun _ => none
  ioDecoder : List (Task Hdl) := []
  running : List (Running Hdl) := []
  sent : List (Reply Hdl) := []
  /-- An exception has left a handler or a decoder thread. -/
  terminated : Bool := false

/-! ## The steps -/

inductive Step (Hdl : Type) where
  | onOpen (hdl : Hdl)
  | receive (hdl : Hdl) (frame : Frame)
  | handle (hdl : Hdl)
  | onClose (hdl : Hdl)
  | removeHdl (hdl : Hdl)
  | start
  /-- The steps of the task at a place among those that run. -/
  | infer (place : Nat) (outcome : Outcome)
  | send (place : Nat)
  | sendThrows (place : Nat)
  | leave (place : Nat)

variable {Hdl : Type} [DecidableEq Hdl]

namespace WebSocketServer

def store (server : WebSocketServer Hdl) (hdl : Hdl) (connection : Connection) :
    WebSocketServer Hdl :=
  { server with dataMap := Function.update server.dataMap hdl (some connection) }

/-- A connection has a handle of its own. -/
def open' (engine : Engine) (server : WebSocketServer Hdl) (hdl : Hdl) :
    Option (WebSocketServer Hdl) :=
  match server.dataMap hdl with
  | none => some (server.store hdl (onOpen engine))
  | some _ => none

def handle (engine : Engine) (server : WebSocketServer Hdl) (hdl : Hdl) :
    Option (WebSocketServer Hdl) := do
  let connection ← server.dataMap hdl
  let frame ← connection.inflight
  match connection.handle engine hdl frame with
  | none => return { server with terminated := true }
  | some (handled, tasks) =>
    return { server.store hdl { handled with inflight := none } with
      ioDecoder := server.ioDecoder ++ tasks }

/-- A free thread takes the next task; the conversions are outside of every `try`. -/
def start (decoderThreads : Nat) (server : WebSocketServer Hdl) : Option (WebSocketServer Hdl) :=
  match server.ioDecoder with
  | [] => none
  | task :: rest =>
    if server.running.length < decoderThreads then
      match task.fields.convert with
      | none => some { server with terminated := true }
      | some args =>
        some { server with ioDecoder := rest, running := server.running ++ [Running.start task args] }
    else none

/-- What there is to be sent after `FunOfflineInferBuffer`, which does not end the process. -/
def resultOf : Outcome → Option (Option RecogResult)
  | .returned result => some result
  | .threw => some none
  | .ended => none

def infer (outcome : Outcome) (server : WebSocketServer Hdl) (place : Nat) :
    Option (WebSocketServer Hdl) := do
  let running ← server.running[place]?
  let result ← resultOf outcome
  match running.phase with
  | .infer =>
    return { server with
      running := server.running.set place { running with phase := .send result } }
  | _ => none

def send (engine : Engine) (server : WebSocketServer Hdl) (place : Nat) :
    Option (WebSocketServer Hdl) := do
  let running ← server.running[place]?
  match running.phase with
  | .send result =>
    return { server with
      running := server.running.set place { running with phase := .leave }
      sent := server.sent ++
        [{ hdl := running.hdl, turn := running.turn, json := running.answer engine result }] }
  | _ => none

/-- An exception from what is sent. -/
def sendThrows (server : WebSocketServer Hdl) (place : Nat) : Option (WebSocketServer Hdl) := do
  let running ← server.running[place]?
  match running.phase with
  | .send _ =>
    return { server with running := server.running.set place { running with phase := .leave } }
  | _ => none

def leave (server : WebSocketServer Hdl) (place : Nat) : Option (WebSocketServer Hdl) := do
  let running ← server.running[place]?
  match running.phase with
  | .leave =>
    let connection ← server.dataMap running.hdl
    return { server.store running.hdl { connection with accessNum := connection.accessNum - 1 } with
      running := server.running.eraseIdx place }
  | _ => none

end WebSocketServer

def perform (engine : Engine) (decoderThreads : Nat) (server : WebSocketServer Hdl) :
    Step Hdl → Option (WebSocketServer Hdl)
  | .onOpen hdl => server.open' engine hdl
  | .receive hdl frame => (server.dataMap hdl).bind fun connection =>
      if connection.inflight.isNone then some (server.store hdl (connection.receive frame)) else none
  | .handle hdl => server.handle engine hdl
  | .onClose hdl => (server.dataMap hdl).map fun connection => server.store hdl connection.onClose
  | .removeHdl hdl => (server.dataMap hdl).map fun connection =>
      server.store hdl connection.removeHdl
  | .start => server.start decoderThreads
  | .infer place outcome => server.infer outcome place
  | .send place => server.send engine place
  | .sendThrows place => server.sendThrows place
  | .leave place => server.leave place

/-- A step of the server; none after an exception has ended the process. -/
def step (engine : Engine) (decoderThreads : Nat) (server : WebSocketServer Hdl)
    (event : Step Hdl) : Option (WebSocketServer Hdl) :=
  if server.terminated then none else perform engine decoderThreads server event

theorem step_eq_some {engine : Engine} {decoderThreads : Nat} {server next : WebSocketServer Hdl}
    {event : Step Hdl} : step engine decoderThreads server event = some next ↔
      server.terminated = false ∧ perform engine decoderThreads server event = some next := by
  rw [step]
  cases server.terminated <;> simp

end Asr2Pass.OfflineServer
