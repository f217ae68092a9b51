import Drover.Data.Bytes
import Mathlib.Logic.Function.Basic

/-!
# Remote commands

The documents `commands/{pc}/q/{id}` and the operations on them.  Every
operation is one write or one transaction of the store.
-/

namespace Drover.Commands

/-- `Command`, as `DataTo` decodes a document: a missing field is empty. -/
structure Command where
  id : Bytes
  cmd : Bytes
  sid : Bytes
  requestedBy : Bytes
  ts : Bytes
  status : Bytes
  detail : Bytes
  finishedAt : Bytes
  agent : Bytes
  args : List (Bytes × Bytes)
  source : Bytes
  deriving DecidableEq

/-- The document without fields. -/
def Command.empty : Command := ⟨[], [], [], [], [], [], [], [], [], [], []⟩

/-- The status of a new command. -/
def pending : Bytes := ascii "pending"

/-- The status of a claimed command. -/
def running : Bytes := ascii "running"

theorem running_ne_pending : running ≠ pending := by decide

/-- The statuses that end a command. -/
inductive Outcome where
  | done
  | error
  deriving DecidableEq

/-- The status as it is stored. -/
def Outcome.status : Outcome → Bytes
  | done => ascii "done"
  | error => ascii "error"

theorem Outcome.status_ne_pending (outcome : Outcome) : outcome.status ≠ pending := by
  cases outcome <;> decide

/-- `ValidCommands`. -/
def ValidCommands : List Bytes :=
  [ascii "restart-agent", ascii "self-update", ascii "restart-proxy", ascii "restart-claude",
    ascii "update-claude", ascii "update-all", ascii "semi-auto", ascii "restart-agent-session",
    ascii "update-agent-cli", ascii "restart-daemon", ascii "read-pane", ascii "send-input",
    ascii "interrupt", ascii "start-agent-session", ascii "close-pane", ascii "organize"]

/-- `ValidAgents`. -/
def ValidAgents : List Bytes :=
  [ascii "agy", ascii "amp", ascii "claude", ascii "cline", ascii "codex", ascii "copilot",
    ascii "cursor", ascii "devin", ascii "droid", ascii "gemini", ascii "grok", ascii "hermes",
    ascii "kilo", ascii "kimi", ascii "kiro", ascii "maki", ascii "mastracode", ascii "omp",
    ascii "opencode", ascii "pi", ascii "qodercli"]

/-- The errors of `PushCommandArgs`. -/
inductive PushError where
  | unknownCommand (cmd : Bytes)
  | unknownAgent (agent : Bytes)
  | emptyKey
  | argsTooLarge
  deriving DecidableEq

/-- `argsMaxBytes`. -/
def argsMaxBytes : Nat := 16 * 1024

/-- `validateArgs`, from the total of the arguments already seen. -/
def validateArgs (total : Nat) : List (Bytes × Bytes) → Except PushError Unit
  | [] => .ok ()
  | (k, v) :: args =>
      if k = [] then .error .emptyKey
      else
        let total := total + (k.length + v.length)
        if total > argsMaxBytes then .error .argsTooLarge else validateArgs total args

/-- The queues of all PCs. -/
abbrev Queues := Bytes → Bytes → Option Command

/-- Replace one document. -/
def Queues.set (q : Queues) (pc id : Bytes) (doc : Command) : Queues :=
  Function.update q pc (Function.update (q pc) id (some doc))

/-- The document `PushCommandArgs` writes under a new id. -/
def newCommand (id cmd sid agent requestedBy source : Bytes) (args : List (Bytes × Bytes))
    (ts : Bytes) : Command :=
  { Command.empty with
    id := id, cmd := cmd, sid := sid, agent := agent, requestedBy := requestedBy, ts := ts
    status := pending, source := source, args := args }

/-- `PushCommandArgs`, with the random id and the clock as arguments. -/
def pushCommandArgs (q : Queues) (pc cmd sid agent requestedBy source : Bytes)
    (args : List (Bytes × Bytes)) (id ts : Bytes) : Except PushError Queues :=
  if cmd ∉ ValidCommands then .error (.unknownCommand cmd)
  else if agent ≠ [] ∧ agent ∉ ValidAgents then .error (.unknownAgent agent)
  else do
    validateArgs 0 args
    return q.set pc id (newCommand id cmd sid agent requestedBy source args ts)

/-- The transaction of `claimCommandFor`: `none` when it reports an error. -/
def claimCommandFor (q : Queues) (pc id : Bytes) : Option Queues :=
  match q pc id with
  | none => none
  | some doc =>
      if doc.status ≠ pending then none else some (q.set pc id { doc with status := running })

/-- The transaction of `claimCommand`, on the client's own PC. -/
def claimCommand (pcID : Bytes) (q : Queues) (id : Bytes) : Option Queues :=
  claimCommandFor q pcID id

/-- `AckCommandFor`: the fields are merged into the document. -/
def ackCommandFor (q : Queues) (pc id status detail finishedAt : Bytes) : Queues :=
  q.set pc id { (q pc id).getD Command.empty with
    status := status, detail := detail, finishedAt := finishedAt }

variable {q q' : Queues} {pc pc' id id' : Bytes}

@[simp]
theorem Queues.set_same (q : Queues) (pc id : Bytes) (doc : Command) :
    q.set pc id doc pc id = some doc := by
  simp [Queues.set]

theorem Queues.set_of_ne {doc : Command} (other : (pc', id') ≠ (pc, id)) :
    q.set pc id doc pc' id' = q pc' id' := by
  rw [Queues.set]
  by_cases samePc : pc' = pc
  · subst samePc
    rw [Function.update_self, Function.update_of_ne fun sameId => other (by rw [sameId])]
  · rw [Function.update_of_ne samePc]

/-- A claim succeeds on pending commands only, and once. -/
theorem claimCommandFor_eq_some_iff :
    claimCommandFor q pc id = some q' ↔
      ∃ doc, q pc id = some doc ∧ doc.status = pending ∧
        q' = q.set pc id { doc with status := running } := by
  rw [claimCommandFor]
  cases found : q pc id with
  | none => simp
  | some doc =>
      by_cases isPending : doc.status = pending
      · simp [isPending, eq_comm]
      · simp [isPending]

/-- An accepted push writes the new command. -/
theorem pushCommandArgs_eq_ok {cmd sid agent requestedBy source ts : Bytes}
    {args : List (Bytes × Bytes)}
    (accepted : pushCommandArgs q pc cmd sid agent requestedBy source args id ts = .ok q') :
    q' = q.set pc id (newCommand id cmd sid agent requestedBy source args ts) := by
  rw [pushCommandArgs] at accepted
  split at accepted
  · cases accepted
  · split at accepted
    · cases accepted
    · cases valid : validateArgs 0 args with
      | error e => rw [valid] at accepted; cases accepted
      | ok u =>
          rw [valid] at accepted
          cases accepted
          rfl

end Drover.Commands
