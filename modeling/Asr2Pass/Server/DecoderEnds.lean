import Asr2Pass.Server.AccessNum

/-! # The decoder threads come to an end

However the steps of the decoder threads follow each other, there are at most `cost` of them, and
where none is left no task is pending.
-/

namespace Asr2Pass.Server

open Library

/-- The steps that are left of the task that runs, at most. -/
def Running.cost (running : Running) : Nat :=
  let pieces := running.buffer.length / (800 * 2)
  match running.phase with
  | .loop => 3 * pieces + 5
  | .infer _ => 3 * pieces + 7
  | .reply _ => 3 * pieces + 6
  | .final => 4
  | .inferFinal => 3
  | .replyFinal _ => 2
  | .leave _ => 1

def Task.cost (task : Task) : Nat :=
  3 * (task.buffer.length / (800 * 2)) + 6

def strandCost : List Task → Nat
  | [] => 0
  | task :: rest => task.cost + strandCost rest

namespace Connection

def cost (connection : Connection) : Nat :=
  if connection.terminated then 0
  else strandCost connection.strand + (connection.running.map Running.cost).getD 0

section
variable {engine : Engine} {connection next : Connection}

end

/-! ## Where they stop -/

/-- The calls of the task that runs leave the process alive. -/
def Attended (connection : Connection) (running : Running) : Prop :=
  (∃ exit, running.phase = .leave exit) ∨
    ∃ chunkSize, connection.tpassOnlineHandle = some chunkSize ∧ running.args.Survives chunkSize

/-- What the steps of a task leave as it is. -/
structure Kept (connection next : Connection) : Prop where
  terminated : next.terminated = connection.terminated
  strand : next.strand = connection.strand
  handle : next.tpassOnlineHandle = connection.tpassOnlineHandle
  isEof : next.isEof = connection.isEof
  attended : ∀ running, next.running = some running → next.Attended running

section
variable {engine : Engine} {connection next : Connection}

theorem Kept.trans {last : Connection} (kept : Kept connection next) (later : Kept next last) :
    Kept connection last where
  terminated := later.terminated.trans kept.terminated
  strand := later.strand.trans kept.strand
  handle := later.handle.trans kept.handle
  isEof := later.isEof.trans kept.isEof
  attended := later.attended

theorem attended_of_args {running running' : Running} {chunkSize : List Int}
    (handle : next.tpassOnlineHandle = some chunkSize) (survives : running.args.Survives chunkSize)
    (busy : next.running = some running') (args : running'.args = running.args) :
    ∀ running, next.running = some running → next.Attended running := by
  intro other same
  rw [busy] at same
  cases same
  exact .inr ⟨chunkSize, handle, args ▸ survives⟩

/-- A task that runs can always take a step. -/
theorem advances (engine : Engine) {running : Running} (busy : connection.running = some running)
    (attended : connection.Attended running) :
    ∃ event next, Step.OfDecoder event ∧ perform engine connection event = some next ∧
      Kept connection next := by
  obtain ⟨exit, phase⟩ | ⟨chunkSize, handle, survives⟩ := attended
  · refine ⟨.decrement, { connection with
      accessNum := connection.accessNum - 1
      running := none
      exits := connection.exits ++ [exit] }, trivial, ?_, rfl, rfl, rfl, rfl, by simp⟩
    simp only [perform, busy, Option.bind_some, decrement, phase]
  · have tested (phase : running.phase = .loop ∨ running.phase = .final) :
        ∃ event next, Step.OfDecoder event ∧ perform engine connection event = some next ∧
          Kept connection next := by
      obtain ⟨running', taken, args⟩ : ∃ running', connection.test running = some running' ∧
          running'.args = running.args := by
        rcases phase with phase | phase <;> simp only [test, phase] <;> split <;>
          exact ⟨_, rfl, rfl⟩
      refine ⟨.test, { connection with running := some running' }, trivial, ?_, rfl, rfl, rfl, rfl,
        attended_of_args handle survives rfl args⟩
      simp only [perform, busy, Option.bind_some, taken, Option.map_some]
    have can : running.args.CanCome connection.tpassOnlineHandle (.returned none) := by
      rw [handle]
      exact survives.1
    rcases phase : running.phase with _ | subvector | result | _ | _ | result | exit
    case loop => exact tested (.inl phase)
    case final => exact tested (.inr phase)
    case infer =>
      refine ⟨.infer (.returned none), { connection.inferBuffer running subvector false with
        running := some { running with phase := .reply none } }, trivial, ?_, rfl, rfl, rfl, rfl,
        attended_of_args handle survives rfl rfl⟩
      simp only [perform, busy, Option.bind_some, if_pos can, infer, phase]
      rw [if_neg (by simp [handle])]
    case inferFinal =>
      refine ⟨.infer (.returned none), { connection.inferBuffer running running.buffer
        running.isFinal with running := some { running with phase := .replyFinal none } }, trivial,
        ?_, rfl, rfl, rfl, rfl, attended_of_args handle survives rfl rfl⟩
      simp only [perform, busy, Option.bind_some, if_pos can, infer, phase]
      rw [if_neg (by simp [handle])]
    case reply =>
      refine ⟨.deliver, { connection with
        sent := connection.sent ++ running.replies engine result
        running := some { running with phase := .loop } }, trivial, ?_, rfl, rfl, rfl, rfl,
        attended_of_args handle survives rfl rfl⟩
      simp only [perform, busy, Option.bind_some, deliver, phase]
    case replyFinal =>
      refine ⟨.deliver, { connection with
        sent := connection.sent ++ running.lastReplies engine result
        running := some { running with phase := .leave .done } }, trivial, ?_, rfl, rfl, rfl, rfl,
        attended_of_args handle survives rfl rfl⟩
      simp only [perform, busy, Option.bind_some, deliver, phase]
    case leave =>
      refine ⟨.decrement, { connection with
        accessNum := connection.accessNum - 1
        running := none
        exits := connection.exits ++ [exit] }, trivial, ?_, rfl, rfl, rfl, rfl, by simp⟩
      simp only [perform, busy, Option.bind_some, decrement, phase]

end

end Connection

end Asr2Pass.Server
