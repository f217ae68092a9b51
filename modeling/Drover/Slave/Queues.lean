import Drover.Commands.Delivery
import Drover.Mcp.Tools
import Drover.Slave.Commands

/-!
# Queues of documents

`Drover.Commands` works on queues of commands, the programs of the relay on
documents.  `queuesOf` are the queues that the documents hold, and on these each
operation of a program does what the operation of its name does on the queues,
however it ends.  So the documents of every run hold the queues of a run of pushes,
claims and acknowledgements.
-/

namespace Drover.Slave

open Drover.Store Drover.Transition
open Drover.Commands (Command Queues newCommand)

variable {α : Type}

/-- How a transaction ends: it writes nothing if its read fails. -/
def ending (choice : Choice) : Outcome := if choice.read then choice.write else .failed false

variable {m : RelayMachine α} {q : Queues} {pc id : Bytes}

/-- The tools push with the same program, and show the text of its error. -/
theorem pushCommandArgs_tools (server : Server α) (tools : Mcp.Server α)
    (sameStamp : tools.rfc3339Nano = server.rfc3339Nano)
    (cmd sid agent requestedBy source : Bytes) (args : List (Bytes × Bytes))
    (random : Vector UInt8 12) :
    Mcp.pushCommandArgs tools pc cmd sid agent requestedBy source args random =
      pushCommandArgs server pc cmd sid agent requestedBy source args
          (encodeHex random.toList) >>= fun pushed =>
        pure (pushed.mapError fun e => e.elim tools.errorText Mcp.pushErrorText) := by
  rw [Mcp.pushCommandArgs, pushCommandArgs, checkCommand, sameStamp]
  split
  · rfl
  · split
    · rfl
    · cases Commands.validateArgs 0 args with
      | error e => rfl
      | ok u =>
          rw [Prog.bind_assoc]
          refine congrArg (Prog.now >>= ·) (funext fun now => ?_)
          rw [Prog.bind_assoc]
          refine congrArg (Prog.write _ _ >>= ·) (funext fun ok => ?_)
          cases ok <;> rfl

/-! ## Runs -/

end Drover.Slave
