import Drover.Slave.Role

/-!
# The status of a command

A command is pending, then running, then done or in error.  The transaction of a claim
holds to this order; an acknowledgement merges the status that it is given, whatever
the document has.  The statuses move forward in exactly the runs where every
acknowledgement that takes effect finds a command whose status may become the one it
brings.
-/

namespace Drover.Slave

open Drover.Store Drover.Transition
open Drover.Push (PushEntry)
open Drover.Commands (Command PushError newCommand pending running)

variable {α : Type}

/-! ## Programs -/

/-- The checks of `PushCommandArgs`. -/
def checkCommand (cmd agent : Bytes) (args : List (Bytes × Bytes)) : Except PushError Unit :=
  if cmd ∉ Commands.ValidCommands then .error (.unknownCommand cmd)
  else if agent ≠ [] ∧ agent ∉ Commands.ValidAgents then .error (.unknownAgent agent)
  else Commands.validateArgs 0 args

/-- `PushCommandArgs`, with the id that it draws; the error is `none` where the write
fails. -/
def pushCommandArgs (server : Server α) (pc cmd sid agent requestedBy source : Bytes)
    (args : List (Bytes × Bytes)) (id : Bytes) : Client α (Except (Option PushError) Bytes) :=
  match checkCommand cmd agent args with
  | .error e => pure (.error (some e))
  | .ok () => do
      let now ← Prog.now
      let ok ← Prog.write (commandPath pc id) fun _ =>
        some (.command
          (newCommand id cmd sid agent requestedBy source args (server.rfc3339Nano now)))
      pure (if ok then .ok id else .error none)

/-- A call that may touch the commands. -/
inductive CommandCall where
  | push (pc cmd sid agent requestedBy source : Bytes) (args : List (Bytes × Bytes)) (id : Bytes)
  /-- `claimCommandFor`, and `claimCommand` for the own PC. -/
  | claim (pc id : Bytes)
  | claimPending (pc : Bytes)
  /-- `AckCommandFor`, and `AckCommand` for the own PC. -/
  | ack (pc id status detail : Bytes)
  /-- `/slave/commands`. -/
  | slaveClaim (authorization : Bytes) (fires : Nat)
  /-- `/slave/command-ack`. -/
  | slaveAck (authorization : Bytes) (post : Bool) (body : Option (Bytes × Bytes × Bytes))

/-- The program of a call; what it answers is left out. -/
def CommandCall.handle (server : Server α) : CommandCall → Client α Unit
  | .push pc cmd sid agent requestedBy source args id => do
      let _ ← pushCommandArgs server pc cmd sid agent requestedBy source args id
  | .claim pc id => do
      let _ ← claimCommandFor pc id
  | .claimPending pc => do
      let _ ← claimPendingCommands pc
  | .ack pc id status detail => do
      let _ ← ackCommandFor server pc id status detail
  | .slaveClaim authorization fires => do
      let _ ← slaveGuard server authorization (slaveCommands fires)
  | .slaveAck authorization post body => do
      let _ ← slaveGuard server authorization (slaveAckCommand server post body)

/-- The calls on the commands of a store. -/
abbrev CommandSystem (α : Type) := State CommandCall (Doc α) PushEntry Delivery Unit

/-- What can happen to them next. -/
abbrev CommandLabel (α : Type) := Store.Label CommandCall (Doc α)

/-- One step of the calls. -/
abbrev Server.commandStep (server : Server α) : Step (CommandSystem α) (CommandLabel α) :=
  Store.step (CommandCall.handle server)

/-! ## Statuses -/

/-- The status of a document, if it is a command. -/
def docStatus : Option (Doc α) → Option Bytes
  | some (.command cm) => some cm.status
  | _ => none

/-- The status of the command at a path. -/
def commandStatus (m : RelayMachine α) (path : Path) : Option Bytes := docStatus m.docs[path]?

/-- A command stays as it is, is claimed, or is finished. -/
inductive Advances : Option Bytes → Option Bytes → Prop
  | same (status : Option Bytes) : Advances status status
  | claimed : Advances (some pending) (some running)
  | finished (outcome : Commands.Outcome) : Advances (some running) (some outcome.status)

/-- The call is `PushCommandArgs`. -/
def CommandCall.isPush : CommandCall → Bool
  | .push .. => true
  | _ => false

/-- The status that the call acknowledges a command with. -/
def CommandCall.ackStatus : CommandCall → Option Bytes
  | .ack _ _ status _ => some status
  | .slaveAck _ _ (some (_, status, _)) => some status
  | _ => none

/-- The label is a step of a call that pushes a command. -/
def Pushes (s : CommandSystem α) : CommandLabel α → Prop
  | .advance r _ => ∃ c, s.calls r = some c ∧ c.input.isPush = true
  | _ => False

/-- Every command moves forward, and a new one is pending and has been pushed. -/
def MovesForward (server : Server α) (s : CommandSystem α) (label : CommandLabel α) : Prop :=
  ∀ s', server.commandStep s label = some s' → ∀ pc id,
    Advances (commandStatus s.machine (commandPath pc id))
        (commandStatus s'.machine (commandPath pc id)) ∨
      (commandStatus s.machine (commandPath pc id) = none ∧
        commandStatus s'.machine (commandPath pc id) = some pending ∧ Pushes s label)

/-- The statuses that an acknowledgement may bring to a command. -/
def fitting : Option Bytes → List Bytes
  | none => []
  | some old =>
      if old = running then [old, ascii "done", ascii "error"]
      else if old = pending then [old, running]
      else [old]

/-- A write that takes effect fits the command that it finds: an acknowledgement brings
`done` or `error` to a running command, `running` to a pending one, or the status that
the command has. -/
def WriteFits (m : RelayMachine α) (choice : Choice) (call : CommandCall) (path : Path) : Prop :=
  choice.write.applied = true → ∀ status ∈ call.ackStatus, status ∈ fitting (commandStatus m path)

/-- A write of the step fits the command that it finds. -/
def AckFits (s : CommandSystem α) : CommandLabel α → Prop
  | .advance r choice =>
      match s.calls r with
      | some ⟨call, _, .op o _⟩ => ∀ path ∈ o.written, WriteFits s.machine choice call path
      | _ => True
  | _ => True

/-- A push writes under an id that no command has. -/
def DrawsFresh (s : CommandSystem α) : CommandLabel α → Prop
  | .advance r choice =>
      match s.calls r with
      | some ⟨call, _, .op o _⟩ =>
          choice.write.applied = true → call.isPush = true →
            ∀ path ∈ o.written, commandStatus s.machine path = none
      | _ => True
  | _ => True

/-! ## What the calls do -/

/-- The operations of a call. -/
inductive CommandOp : CommandCall → ClientOp α → Prop
  | now {call : CommandCall} : CommandOp call .now
  | get {call : CommandCall} (path : Path) : CommandOp call (.get path)
  | list {call : CommandCall} (col : Path) : CommandOp call (.list col)
  | claim {call : CommandCall} (pc id : Bytes) :
      CommandOp call (.transact (commandPath pc id) (commandPath pc id) claimChange)
  | push {pc cmd sid agent requestedBy source id : Bytes} {args : List (Bytes × Bytes)}
      (valid : checkCommand cmd agent args = .ok ()) (ts : Bytes) :
      CommandOp (.push pc cmd sid agent requestedBy source args id)
        (.write (commandPath pc id) fun _ =>
          some (.command (newCommand id cmd sid agent requestedBy source args ts)))
  | ack {call : CommandCall} {status : Bytes} (isAck : call.ackStatus = some status)
      (pc id detail finishedAt : Bytes) :
      CommandOp call (.write (commandPath pc id) (ackChange status detail finishedAt))

section

variable (server : Server α)

theorem claimCommandFor_only (pc id : Bytes) {call : CommandCall} :
    (claimCommandFor pc id).Only (CommandOp (α := α) call) :=
  .bind (.op (.claim pc id)) fun _ => .pure _

theorem claimPendingCommands_only (pc : Bytes) {call : CommandCall} :
    (claimPendingCommands pc).Only (CommandOp (α := α) call) := by
  have claims : ∀ docs, (claimCommands pc docs).Only (CommandOp (α := α) call) := by
    intro docs
    induction docs with
    | nil => exact .pure _
    | cons p docs ih =>
        rw [claimCommands.eq_def]
        split
        · exact .pure _
        · rename_i same
          cases same
          split
          · exact ih
          · apply Prog.Only.bind (claimCommandFor_only pc _)
            intro claimed
            exact .bind ih fun cms => .pure _
        · rename_i same
          cases same
          exact ih
  apply Prog.Only.bind (.op (.list _))
  intro docs
  split
  · exact .bind (claims _) fun cms => .pure _
  · exact .pure _

theorem slaveCommands_commandOp (fires : Nat) (pc : Bytes) {call : CommandCall} :
    (slaveCommands fires pc).Only (CommandOp (α := α) call) := by
  apply longPoll_only (.get _) (.get _)
  apply Prog.Only.bind (claimPendingCommands_only pc)
  intro found
  split <;> exact .pure _

/-- Every call keeps to its operations. -/
theorem CommandCall.handle_only (call : CommandCall) :
    (call.handle server).Only (CommandOp (α := α) call) := by
  cases call with
  | push pc cmd sid agent requestedBy source args id =>
      refine .bind ?_ fun _ => .pure _
      rw [pushCommandArgs]
      split
      · exact .pure _
      · rename_i valid
        exact .bind (.op .now) fun now => .bind (.op (.push valid _)) fun ok => .pure _
  | claim pc id => exact .bind (claimCommandFor_only pc id) fun _ => .pure _
  | claimPending pc => exact .bind (claimPendingCommands_only pc) fun _ => .pure _
  | ack pc id status detail =>
      exact .bind (.bind (.op .now) fun now => .op (.ack rfl ..)) fun _ => .pure _
  | slaveClaim authorization fires =>
      apply Prog.Only.bind (guarded_only server .now .get authorization
        fun pc => slaveCommands_commandOp fires pc)
      exact fun _ => .pure _
  | slaveAck authorization post body =>
      apply Prog.Only.bind (guarded_only server .now .get authorization fun pc => ?_)
      · exact fun _ => .pure _
      · rw [slaveAckCommand.eq_def]
        split
        · exact .pure _
        · split
          · exact .pure _
          · split
            · exact .pure _
            · refine .bind (.bind (.op .now) fun now => .op (.ack rfl ..)) fun ok => ?_
              split <;> exact .pure _

end

/-! ## Steps -/

section

variable {server : Server α} {s s' : CommandSystem α} {label : CommandLabel α}

theorem commandStatus_change {m : RelayMachine α} (outcome : Outcome) (path path' : Path)
    (change : Option (Doc α) → Option (Doc α)) :
    commandStatus { m with docs := changeDocument m.docs outcome path change } path' =
      if path' = path ∧ outcome.applied = true then docStatus (change m.docs[path]?)
      else commandStatus m path' := by
  by_cases same : path' = path
  · subst same
    rw [commandStatus, changeDocument_same]
    split <;> simp_all [commandStatus]
  · rw [commandStatus, changeDocument_of_ne same, if_neg fun both => same both.1, commandStatus]

theorem advances_iff_fitting {old : Option Bytes} {status : Bytes} :
    Advances old (some status) ↔ status ∈ fitting old := by
  constructor
  · intro advances
    cases advances with
    | same =>
        rw [fitting]
        split
        · exact List.mem_cons_self
        · split <;> exact List.mem_cons_self
    | claimed => decide
    | finished outcome => cases outcome <;> decide
  · intro fits
    cases old with
    | none => cases fits
    | some old =>
        rw [fitting] at fits
        split at fits
        · rename_i isRunning
          rcases List.mem_cons.mp fits with rfl | finished
          · exact .same _
          · rw [isRunning]
            rcases List.mem_pair.mp finished with rfl | rfl
            · exact .finished .done
            · exact .finished .error
        · split at fits
          · rename_i isPending
            rcases List.mem_pair.mp fits with rfl | rfl
            · exact .same _
            · rw [isPending]
              exact .claimed
          · rw [List.mem_singleton.mp fits]
            exact .same _

/-- The claim transaction moves a pending command to running. -/
theorem advances_claim (m : RelayMachine α) (choice : Choice) (target path : Path) :
    Advances (commandStatus m path)
      (commandStatus { m with docs := m.transaction choice target target claimChange } path) := by
  rw [Machine.transaction]
  cases read : readDocument m.docs choice.read target with
  | failed | absent => exact .same _
  | found d =>
      cases d with
      | command cm =>
          by_cases isPending : cm.status = pending
          · simp only [claimChange, isPending, ne_eq, not_true, if_false]
            rw [commandStatus_change]
            split
            · rename_i both
              have stored := (readDocument_eq_found_iff.mp read).2
              rw [both.1, commandStatus, stored, docStatus, isPending]
              exact .claimed
            · exact .same _
          · simp only [claimChange, isPending, ne_eq, not_false_iff, if_true]
            exact .same _
      | _ =>
          exact .same _

theorem not_pushes_of_ackStatus {call : CommandCall} {status : Bytes}
    (isAck : call.ackStatus = some status) : call.isPush = false := by
  cases call <;> first | rfl | cases isAck

/-- One step moves the commands forward exactly if it is no acknowledgement that does not
fit. -/
theorem movesForward_iff_ackFits (does : s.Calls (fun _ => True) CommandOp)
    (fresh : DrawsFresh s label) (internal : label.Begins fun _ => True)
    (taken : server.commandStep s label = some s') :
    MovesForward server s label ↔ AckFits s label := by
  have still : (∀ path, commandStatus s'.machine path = commandStatus s.machine path) →
      MovesForward server s label := by
    intro same next isNext pc id
    cases taken.symm.trans isNext
    rw [same]
    exact .inl (.same _)
  cases stepped_of_step taken with
  | tick later => exact iff_of_true (still fun _ => rfl) trivial
  | external path doc => exact internal.elim
  | begin input unused => exact iff_of_true (still fun _ => rfl) trivial
  | @advance r c o next choice running isOp =>
      obtain ⟨call, past, program⟩ := c
      cases isOp
      have op : CommandOp call o := (does r _ running).2.1
      have ackFits : AckFits s (.advance r choice) ↔
          ∀ path ∈ o.written, WriteFits s.machine choice call path := by
        rw [AckFits, running]
      rw [ackFits]
      cases op with
      | now | get | list => exact iff_of_true (still fun _ => rfl) nofun
      | claim pc id =>
          refine iff_of_true ?_ nofun
          intro next' isNext pc' id'
          cases taken.symm.trans isNext
          exact .inl (advances_claim s.machine choice (commandPath pc id) _)
      | @push pc cmd sid agent requestedBy source id args valid ts =>
          refine iff_of_true ?_ ?_
          · intro next' isNext pc' id'
            cases taken.symm.trans isNext
            change Advances _ (commandStatus { s.machine with docs := _ } _) ∨ _ ∧
              commandStatus { s.machine with docs := _ } _ = _ ∧ _
            rw [commandStatus_change]
            split
            · rename_i both
              rw [DrawsFresh, running] at fresh
              exact .inr ⟨both.1 ▸ fresh both.2 rfl _ rfl, rfl, _, running, rfl⟩
            · exact .inl (.same _)
          · intro path _ _ status isStatus
            cases isStatus
      | @ack call status isAck pc id detail finishedAt =>
          have after : ∀ path, commandStatus (s.machine.after choice
              (.write (commandPath pc id) (ackChange status detail finishedAt))) path =
              if path = commandPath pc id ∧ choice.write.applied = true then some status
              else commandStatus s.machine path := fun path => commandStatus_change ..
          constructor
          · intro moves path isPath applied status' isStatus
            cases isPath
            cases isAck.symm.trans isStatus
            have moved := moves _ taken pc id
            change Advances _ (commandStatus (s.machine.after ..) _) ∨ _ at moved
            rw [after, if_pos ⟨rfl, applied⟩] at moved
            rcases moved with advances | ⟨-, -, pushes⟩
            · exact advances_iff_fitting.mp advances
            · obtain ⟨c, running', isPush⟩ := pushes
              cases running.symm.trans running'
              rw [not_pushes_of_ackStatus isAck] at isPush
              cases isPush
          · intro fits next' isNext pc' id'
            cases taken.symm.trans isNext
            left
            change Advances _ (commandStatus (s.machine.after ..) _)
            rw [after]
            split
            · rename_i both
              rw [both.1]
              exact advances_iff_fitting.mpr (fits _ rfl both.2 status isAck)
            · exact .same _

end

/-! ## Runs -/

/-- In every run of pushes, claims and acknowledgements, whatever the store has at the
start, the commands move forward exactly if every acknowledgement that takes effect
fits the command that it finds. -/
theorem movesForward_iff_acksFit (server : Server α) (m : RelayMachine α)
    {labels : List (CommandLabel α)} (internal : ∀ label ∈ labels, label.Begins fun _ => True)
    (fresh : Along server.commandStep DrawsFresh { machine := m } labels) :
    Along server.commandStep (MovesForward server) { machine := m } labels ↔
      Along server.commandStep AckFits { machine := m } labels := by
  have idle : ({ machine := m } : CommandSystem α).Calls (fun _ => True) CommandOp := by
    intro r c running
    cases running
  have begins : Along server.commandStep (fun _ label => label.Begins fun _ => True)
      { machine := m } labels := along_of_forall_mem internal _
  have environment := begins.and fresh
  refine along_iff_along ?_ ?_ idle environment
  · intro s label s' does env taken
    exact does.step (fun call _ => call.handle_only server) env.1.input taken
  · intro s label s' does env taken
    exact movesForward_iff_ackFits does env.2 env.1 taken

/-! ## Checking a run -/

instance (s : CommandSystem α) : (label : CommandLabel α) → Decidable (AckFits s label)
  | .tick _ | .external .. | .begin .. => isTrue trivial
  | .advance r choice =>
      match running : s.calls r with
      | some ⟨call, _, .op o _⟩ =>
          decidable_of_iff (∀ path ∈ o.written, choice.write.applied = true →
            ∀ status ∈ call.ackStatus, status ∈ fitting (commandStatus s.machine path))
            (by rw [AckFits, running]; rfl)
      | some ⟨_, _, .reply _⟩ | none => isTrue (by rw [AckFits, running]; trivial)

instance (s : CommandSystem α) : (label : CommandLabel α) → Decidable (DrawsFresh s label)
  | .tick _ | .external .. | .begin .. => isTrue trivial
  | .advance r choice =>
      match running : s.calls r with
      | some ⟨call, _, .op o _⟩ =>
          decidable_of_iff (choice.write.applied = true → call.isPush = true →
            ∀ path ∈ o.written, commandStatus s.machine path = none)
            (by rw [DrawsFresh, running])
      | some ⟨_, _, .reply _⟩ | none => isTrue (by rw [DrawsFresh, running]; trivial)

/-- A call and its operations, which all go well. -/
def commandLabels (r : Nat) (call : CommandCall) (operations : Nat) : List (CommandLabel Unit) :=
  .begin r call :: List.replicate operations (.advance r .ok)

/-- `/slave/command-ack` of `mac` for its command `c1`. -/
def sampleAck (status : Bytes) : CommandCall :=
  .slaveAck (sampleAuthorization (ascii "mac")) true (some (ascii "c1", status, []))

/-- A command is pushed, claimed and acknowledged as done. -/
def finishedLabels : List (CommandLabel Unit) :=
  commandLabels 0 (.push (ascii "mac") (ascii "restart-daemon") [] [] [] [] [] (ascii "c1")) 2 ++
    commandLabels 1 (.claim (ascii "mac") (ascii "c1")) 1 ++
    commandLabels 2 (sampleAck (ascii "done")) 5

/-- Then it is acknowledged as pending, up to the write. -/
def requeueLabels : List (CommandLabel Unit) :=
  finishedLabels ++ commandLabels 3 (sampleAck pending) 4

theorem finished_movesForward :
    Along sampleServer.commandStep (MovesForward sampleServer) { machine := {} } finishedLabels ∧
      (exec sampleServer.commandStep { machine := {} } finishedLabels).map (fun s =>
        commandStatus s.machine (commandPath (ascii "mac") (ascii "c1"))) =
          some (some (ascii "done")) := by
  constructor
  · exact (movesForward_iff_acksFit sampleServer {} (by decide +kernel) (by decide +kernel)).mpr
      (by decide +kernel)
  · decide +kernel

/-- An acknowledgement puts a finished command back into the queue. -/
theorem finished_requeued :
    ¬ ∀ labels : List (CommandLabel Unit), (∀ label ∈ labels, label.Begins fun _ => True) →
      Along sampleServer.commandStep DrawsFresh { machine := {} } labels →
      Along sampleServer.commandStep (MovesForward sampleServer) { machine := {} } labels := by
  intro all
  have ends : (exec sampleServer.commandStep { machine := {} } requeueLabels).map (fun s =>
      (commandStatus s.machine (commandPath (ascii "mac") (ascii "c1")),
        (sampleServer.commandStep s (.advance 3 .ok)).map fun s' =>
          commandStatus s'.machine (commandPath (ascii "mac") (ascii "c1")))) =
        some (some (ascii "done"), some (some pending)) := by
    decide +kernel
  obtain ⟨s, run, statuses⟩ := Option.map_eq_some_iff.mp ends
  obtain ⟨before, after⟩ := Prod.mk.inj statuses
  obtain ⟨s', taken, after⟩ := Option.map_eq_some_iff.mp after
  have moves := (all (requeueLabels ++ [.advance 3 .ok]) (by decide +kernel)
    (by decide +kernel)).after run taken s' taken (ascii "mac") (ascii "c1")
  rw [before, after] at moves
  rcases moves with advances | ⟨missing, -⟩
  · exact absurd (advances_iff_fitting.mp advances) (by decide)
  · cases missing

end Drover.Slave
