import Drover.Mcp.Serve

/-!
# What the calls of tools do

The grounds of an operation are what its call was admitted with and what it has done
before.  A tool looks at the store and may queue one command or store one answer; then the
audit is written, and nothing after it.
-/

namespace Drover.Mcp

open Drover.Store Drover.Transition
open Drover.Commands (Command newCommand recentCommands)
open Drover.OAuth.Endpoint (VerifiedToken)
open Drover.Push (PushEntry stringField)
open Drover.Slave (Client Delivery Doc cmdCol commandPath listSessions)

variable {α : Type}

/-! ## Operations -/

/-- The documents of commands and of the audit. -/
def isCommand (path : Path) : Bool := (ascii "commands/").isPrefixOf path

/-- The path of an audit record. -/
def isAudit (path : Path) : Bool := (ascii "mcp_audit/").isPrefixOf path

/-- The operation writes a document of a kind. -/
def writesAt (kind : Path → Bool) : Op (Doc α) PushEntry Delivery → Bool
  | .write path _ => kind path
  | _ => false

/-- How many commands were queued. -/
def commandsOf (past : List (Act α)) : Nat := past.countP fun e => writesAt isCommand e.op

/-- The operation stores something besides the audit. -/
def isEffect (o : Op (Doc α) PushEntry Delivery) : Bool := o.target.any fun path => !isAudit path

/-- How much was stored besides the audit. -/
def effectsOf (past : List (Act α)) : Nat := past.countP fun e => isEffect e.op

/-- Nothing was written to the audit. -/
def Unaudited (past : List (Act α)) : Prop := ∀ e ∈ past, writesAt isAudit e.op = false

/-- The session that an input tool is for. -/
def Server.session (server : Server α) (req : Request) : Option (Bytes × Bytes) :=
  match req.tool with
  | .readPane => (server.readPaneArgs req.arguments).map fun a => (a.pc, a.sid)
  | .sendInput => (server.sendInputArgs req.arguments).map fun a => (a.pc, a.sid)
  | .interrupt => (server.interruptArgs req.arguments).map fun a => (a.pc, a.sid)
  | .getCommandResult => none

/-- The operation queues the command of the tool for the session of its arguments, in the
name of its bearer. -/
def Queues (server : RpcServer α) (call : ToolCall) (tool : ToolName)
    (o : Op (Doc α) PushEntry Delivery) : Prop :=
  call.name = tool.text ∧ ∃ pc sid, server.session (call.request tool) = some (pc, sid) ∧
    ∃ id args ts, o = .write (commandPath pc id) fun _ =>
      some (.command
        (newCommand id tool.queues sid [] (requestedByFor call.ctx.vt) (ascii "mcp") args ts))

/-- The operation stores the answer of a call of `glasses_answer`. -/
def Answers (server : RpcServer α) (call : ToolCall) (o : Op (Doc α) PushEntry Delivery) : Prop :=
  server.glasses = true ∧ call.name = glassesAnswerTool ∧
    ∃ a, decodeArgs server.glassesAnswer ⟨[], [], []⟩ call.arguments = some a ∧
      ∃ put : Op Glasses.Doc PushEntry Delivery, PutsAnswer a put ∧ o = put.lift glassesView

/-- Why an admitted call may perform an operation after `past`. -/
inductive Grounds (server : RpcServer α) (call : ToolCall) (past : List (Act α)) :
    Op (Doc α) PushEntry Delivery → Prop
  | look {o : Op (Doc α) PushEntry Delivery} (looks : Looks o) (unaudited : Unaudited past) :
      Grounds server call past o
  | queue {tool : ToolName} {o : Op (Doc α) PushEntry Delivery}
      (queues : Queues server call tool o) (first : effectsOf past = 0)
      (unaudited : Unaudited past) : Grounds server call past o
  | answer {o : Op (Doc α) PushEntry Delivery} (answers : Answers server call o)
      (first : effectsOf past = 0) (unaudited : Unaudited past) : Grounds server call past o
  | audit {o : Op (Doc α) PushEntry Delivery} {code : Bytes} {now : Nat}
      (isAudit : o = auditOp server call code now) (unaudited : Unaudited past) :
      Grounds server call past o

theorem isAudit_commandPath (pc id : Bytes) : isAudit (commandPath pc id) = false := by rfl

section

variable {server : RpcServer α} {call : ToolCall} {past : List (Act α)}

theorem Looks.writesAt {o : Op (Doc α) PushEntry Delivery} (looks : Looks o)
    (kind : Path → Bool) : writesAt kind o = false := by
  cases o with
  | get | list | now => rfl
  | write | transact | lookup | remember | forget | emit => exact looks.elim

theorem Looks.isEffect {o : Op (Doc α) PushEntry Delivery} (looks : Looks o) :
    isEffect o = false := by
  cases o with
  | get | list | now => rfl
  | write | transact | lookup | remember | forget | emit => exact looks.elim

theorem effectsOf_cons {e : Act α} (other : isEffect e.op = false) :
    effectsOf (e :: past) = effectsOf past := by
  rw [effectsOf, List.countP_cons_of_neg (by rw [other]; decide)]
  rfl

theorem commandsOf_le_effectsOf (past : List (Act α)) : commandsOf past ≤ effectsOf past := by
  refine List.countP_mono_left fun e _ isWrite => ?_
  rcases e with ⟨time, o, result⟩
  cases o with
  | write path f =>
      have command : isCommand path = true := isWrite
      have notAudit : isAudit path = false := by
        cases path with
        | nil => rfl
        | cons b path =>
            obtain ⟨isFirst, -⟩ := Bool.and_eq_true_iff.mp command
            have first : b = 0x63 := (eq_of_beq isFirst).symm
            rw [first]
            rfl
      rw [isEffect, Op.target, Option.any_some, notAudit]
      rfl
  | get | list | transact | lookup | remember | forget | now | emit => cases isWrite

theorem Unaudited.cons {e : Act α} (unaudited : Unaudited past)
    (other : writesAt isAudit e.op = false) : Unaudited (e :: past) :=
  List.forall_mem_cons.mpr ⟨other, unaudited⟩

/-- A program that only looks has to end well. -/
theorem along_of_looks {ρ : Type} {p : Client α ρ} {ends : List (Act α) → ρ → Prop}
    (looks : p.Only Looks) (unaudited : Unaudited past)
    (end_ : ∀ past' value, Unaudited past' → effectsOf past' = effectsOf past →
      ends past' value) :
    p.Along (Grounds server call) ends past := by
  induction p generalizing past with
  | reply value => exact end_ past value unaudited rfl
  | op o next ih =>
      refine ⟨.look looks.1 unaudited, fun time result _ => ?_⟩
      apply ih result (looks.2 result) (unaudited.cons (looks.1.writesAt isAudit))
      intro past' value unaudited' same
      rw [effectsOf_cons looks.1.isEffect] at same
      exact end_ past' value unaudited' same

/-! ## Programs that only look -/

theorem slaveAllowed_looks (server : Server α) (pc need : Bytes) :
    (slaveAllowed server pc need).Only Looks := by
  rw [slaveAllowed, Slave.pcRole]
  refine .bind (.bind (.op trivial) fun snap => ?_) fun role => ?_
  · split <;> exact .pure _
  · split <;> exact .pure _

theorem pcLastSeen_looks (server : Server α) (pc : Bytes) :
    (pcLastSeen server pc).Only Looks := by
  rw [pcLastSeen]
  apply Prog.Only.bind (.op trivial)
  intro snap
  split
  · simp only
    split
    · exact .pure _
    · split
      · exact .pure _
      · exact .bind (.op trivial) fun _ => .pure _
  · exact .pure _

theorem precheckPC_looks (server : Server α) (pc need : Bytes) (queueIfOffline : Bool) :
    (precheckPC server pc need queueIfOffline).Only Looks := by
  rw [precheckPC]
  apply Prog.Only.bind (slaveAllowed_looks server pc need)
  intro allowed
  split
  · apply Prog.Only.bind (Slave.isRevoked_only trivial)
    intro revoked
    split
    · exact .pure _
    · split
      · exact .pure _
      · apply Prog.Only.bind (pcLastSeen_looks server pc)
        rintro ⟨lastSeen, online⟩
        simp only
        split <;> exact .pure _
  · exact .pure _

theorem waitCommand_looks (pc id : Bytes) (snapshots : Nat) :
    (waitCommand pc id snapshots : Client α (Lookup Command)).Only Looks := by
  induction snapshots with
  | zero => exact .pure _
  | succ snapshots ih =>
      rw [waitCommand]
      apply Prog.Only.bind (.op trivial)
      intro snap
      split
      · exact .pure _
      · split
        · exact .pure _
        · exact ih
      · exact ih

theorem getCommandResult_looks (server : Server α) (id : Bytes) :
    (getCommandResult server id).Only Looks := by
  rw [getCommandResult]
  apply Prog.Only.bind (.op trivial)
  intro snap
  split
  · split <;> exact .pure _
  · exact .pure _

theorem getCommand_looks (pc id : Bytes) :
    (getCommand pc id : Client α (Lookup Command)).Only Looks := by
  rw [getCommand]
  apply Prog.Only.bind (.op trivial)
  intro snap
  split <;> exact .pure _

theorem listSessions_looks (pc : Bytes) :
    (listSessions pc : Client α _).Only Looks := by
  rw [listSessions]
  exact .bind (.op trivial) fun _ => .pure _

theorem sessionAgentStatus_looks (pc sid : Bytes) :
    (sessionAgentStatus pc sid : Client α Bytes).Only Looks := by
  rw [sessionAgentStatus]
  refine .bind (listSessions_looks pc) fun ss => ?_
  split <;> exact .pure _

theorem listPCs_looks : (Slave.listPCs : Client α _).Only Looks := by
  rw [Slave.listPCs]
  exact .bind (.op trivial) fun _ => .pure _

theorem recentCommands_looks (pc : Bytes) (n : Nat) :
    (recentCommands pc n : Client α _).Only Looks := by
  rw [recentCommands]
  apply Prog.Only.bind (.op trivial)
  intro docs
  split <;> exact .pure _

theorem machineRow_looks (server : ReadServer α) (pc : Bytes) :
    (machineRow server pc).Only Looks := by
  rw [machineRow]
  refine .bind (listSessions_looks pc) fun ss => ?_
  refine .bind ?_ fun ver => ?_
  · rw [pcVersion]
    apply Prog.Only.bind (.op trivial)
    intro snap
    split <;> exact .pure _
  · refine .bind ?_ fun role => ?_
    · rw [Slave.pcRole]
      apply Prog.Only.bind (.op trivial)
      intro snap
      split <;> exact .pure _
    · exact .bind (pcLastSeen_looks server.toServer pc) fun seen => .pure _

theorem machineRows_looks (server : ReadServer α) (pcs : List Bytes) :
    (machineRows server pcs).Only Looks := by
  induction pcs with
  | nil => exact .pure _
  | cons pc pcs ih =>
      rw [machineRows]
      exact .bind (machineRow_looks server pc) fun _ => .bind ih fun _ => .pure _

theorem toolListMachines_looks (server : ReadServer α) :
    (toolListMachines server).Only Looks := by
  rw [toolListMachines]
  apply Prog.Only.bind listPCs_looks
  intro pcs
  split
  · exact .pure _
  · exact .bind (machineRows_looks server _) fun _ => .pure _

theorem sessionRows_looks (a : ListSessionsArgs) (pcs : List Bytes) :
    (sessionRows a pcs : Client α _).Only Looks := by
  induction pcs with
  | nil => exact .pure _
  | cons pc pcs ih =>
      rw [sessionRows]
      exact .bind (listSessions_looks pc) fun _ => .bind ih fun _ => .pure _

theorem toolListSessions_looks (server : ReadServer α) (raw : Bytes) :
    (toolListSessions server raw).Only Looks := by
  rw [toolListSessions]
  split
  · exact .pure _
  · refine .bind ?_ fun pcs => ?_
    · split
      · exact .pure _
      · exact listPCs_looks
    · split
      · exact .pure _
      · exact .bind (sessionRows_looks _ _) fun _ => .pure _

theorem toolGetSession_looks (server : ReadServer α) (raw : Bytes) :
    (toolGetSession server raw).Only Looks := by
  rw [toolGetSession]
  split
  · exact .pure _
  · split
    · exact .pure _
    · apply Prog.Only.bind (listSessions_looks _)
      intro ss
      split
      · exact .pure _
      · split
        · exact .pure _
        · exact .bind (recentCommands_looks _ 5) fun _ => .pure _

theorem toolListCommands_looks (server : ReadServer α) (raw : Bytes) :
    (toolListCommands server raw).Only Looks := by
  rw [toolListCommands]
  split
  · exact .pure _
  · split
    · exact .pure _
    · apply Prog.Only.bind (recentCommands_looks _ _)
      intro cmds
      split <;> exact .pure _

theorem toolGetCommandResult_looks (server : Server α) (raw : Bytes) :
    (toolGetCommandResult server raw).Only Looks := by
  rw [toolGetCommandResult]
  split
  · exact .pure _
  · split
    · exact .pure _
    · apply Prog.Only.bind (getCommand_looks _ _)
      intro looked
      split
      · exact .pure _
      · exact .pure _
      · apply Prog.Only.bind (getCommandResult_looks server _)
        intro looked
        split <;> exact .pure _

/-! ## The input tools -/

theorem pushCommandArgs_grounds {tool : ToolName} {pc sid : Bytes} {args : List (Bytes × Bytes)}
    (isTool : call.name = tool.text)
    (isSession : server.session (call.request tool) = some (pc, sid))
    (first : effectsOf past = 0) (unaudited : Unaudited past) :
    (pushCommandArgs server.toServer pc tool.queues sid [] (requestedByFor call.ctx.vt)
      (ascii "mcp") args call.ctx.random).Along (Grounds server call)
      (fun past' _ => Unaudited past') past := by
  rw [pushCommandArgs]
  split
  · exact unaudited
  · split
    · exact unaudited
    · split
      · exact unaudited
      · apply Prog.Along.now (.look trivial unaudited)
        intro now
        have unaudited' := unaudited.cons (e := ⟨now, .now, now⟩) rfl
        refine ⟨.queue ⟨isTool, pc, sid, isSession, _, _, _, rfl⟩ ?_ unaudited',
          fun time ok _ => unaudited'.cons (isAudit_commandPath pc _)⟩
        rw [effectsOf_cons rfl, first]

theorem queueAndWait_grounds {tool : ToolName} {pc sid : Bytes} {args : List (Bytes × Bytes)}
    {finish : Bytes → Command → Client α ToolReply} (isTool : call.name = tool.text)
    (isSession : server.session (call.request tool) = some (pc, sid))
    (first : effectsOf past = 0) (unaudited : Unaudited past)
    (finishes : ∀ id cm, (finish id cm).Only Looks) :
    (queueAndWait server.toServer call.ctx pc tool.queues sid args finish).Along
      (Grounds server call) (fun past' _ => Unaudited past') past := by
  rw [queueAndWait]
  apply (pushCommandArgs_grounds isTool isSession first unaudited).andThen
  intro past pushed unaudited
  cases pushed with
  | error text => exact unaudited
  | ok id =>
      refine along_of_looks (.bind (waitCommand_looks pc id _) fun waited => ?_) unaudited
        fun past' _ unaudited' _ => unaudited'
      cases waited with
      | error | missing => exact .pure _
      | found cm =>
          simp only
          split
          · exact .pure _
          · exact finishes id cm

/-- A tool goes on after its checks. -/
theorem checked_grounds {pc need : Bytes} {queueIfOffline : Bool}
    {next : Option ToolErr → Client α ToolReply} (unaudited : Unaudited past)
    (refused : ∀ terr, next (some terr) = pure (.error terr))
    (goesOn : ∀ past', effectsOf past' = effectsOf past → Unaudited past' →
      (next none).Along (Grounds server call) (fun past' _ => Unaudited past') past') :
    (precheckPC server.toServer pc need queueIfOffline >>= next).Along (Grounds server call)
      (fun past' _ => Unaudited past') past := by
  apply Prog.Along.bind
  apply along_of_looks (precheckPC_looks server.toServer pc need queueIfOffline) unaudited
  intro past' terr unaudited' same
  cases terr with
  | some terr =>
      rw [refused]
      exact unaudited'
  | none => exact goesOn past' same unaudited'

theorem toolReadPane_grounds (isTool : call.name = ToolName.readPane.text) :
    (toolReadPane server.toServer call.ctx call.arguments).Along (Grounds server call)
      (fun past _ => Unaudited past) [] := by
  have nothing : Unaudited ([] : List (Act α)) := List.forall_mem_nil _
  rw [toolReadPane]
  split
  · exact nothing
  · rename_i a isArgs
    split
    · exact nothing
    · split
      · exact nothing
      · apply checked_grounds nothing fun terr => rfl
        intro past first unaudited
        refine queueAndWait_grounds isTool ?_ first unaudited ?_
        · exact congrArg (Option.map _) isArgs
        · intro id cm
          apply Prog.Only.bind (getCommandResult_looks server.toServer id)
          intro looked
          split
          · exact .pure _
          · exact .bind (sessionAgentStatus_looks _ _) fun _ => .pure _
          · exact .bind (sessionAgentStatus_looks _ _) fun _ => .pure _

theorem toolSendInput_grounds (isTool : call.name = ToolName.sendInput.text) :
    (toolSendInput server.toServer call.ctx call.arguments).Along (Grounds server call)
      (fun past _ => Unaudited past) [] := by
  have nothing : Unaudited ([] : List (Act α)) := List.forall_mem_nil _
  rw [toolSendInput]
  split
  · exact nothing
  · rename_i a isArgs
    split
    · exact nothing
    · split
      · exact nothing
      · apply checked_grounds nothing fun terr => rfl
        intro past first unaudited
        apply Prog.Along.now (.look trivial unaudited)
        intro now
        refine queueAndWait_grounds isTool ?_ ?_ (unaudited.cons rfl) ?_
        · exact congrArg (Option.map _) isArgs
        · rw [effectsOf_cons rfl, first]
          rfl
        · exact fun id cm => .bind (sessionAgentStatus_looks _ _) fun _ => .pure _

theorem toolInterrupt_grounds (isTool : call.name = ToolName.interrupt.text) :
    (toolInterrupt server.toServer call.ctx call.arguments).Along (Grounds server call)
      (fun past _ => Unaudited past) [] := by
  have nothing : Unaudited ([] : List (Act α)) := List.forall_mem_nil _
  rw [toolInterrupt]
  split
  · exact nothing
  · rename_i a isArgs
    split
    · exact nothing
    · apply checked_grounds nothing fun terr => rfl
      intro past first unaudited
      apply Prog.Along.now (.look trivial unaudited)
      intro now
      refine queueAndWait_grounds isTool ?_ ?_ (unaudited.cons rfl) ?_
      · exact congrArg (Option.map _) isArgs
      · rw [effectsOf_cons rfl, first]
        rfl
      · exact fun id cm => .pure _

theorem tool_grounds (tool : ToolName) (isTool : call.name = tool.text) :
    (server.tool (call.request tool)).Along (Grounds server call)
      (fun past _ => Unaudited past) [] := by
  cases tool with
  | readPane => exact toolReadPane_grounds isTool
  | sendInput => exact toolSendInput_grounds isTool
  | interrupt => exact toolInterrupt_grounds isTool
  | getCommandResult =>
      exact along_of_looks (toolGetCommandResult_looks server.toServer _) (List.forall_mem_nil _)
        fun past _ unaudited _ => unaudited

/-! ## All tools -/

theorem readTool_grounds {fn : RpcServer α → ToolCall → Client α ReadReply}
    (looks : (fn server call).Only Looks) :
    ((readTool fn).fn server call).Along (Grounds server call) (fun past _ => Unaudited past) [] :=
  along_of_looks (.bind looks fun _ => .pure _) (List.forall_mem_nil _)
    fun _ _ unaudited _ => unaudited

theorem inputTool_grounds (tool : ToolName) (isTool : call.name = tool.text) :
    ((inputTool tool).fn server call).Along (Grounds server call)
      (fun past _ => Unaudited past) [] :=
  (tool_grounds tool isTool).andThen fun _ _ unaudited => unaudited

/-- The tools of the registry keep to their grounds. -/
theorem registry_grounds {tier : ToolTier α}
    (registered : toolRegistry.lookup call.name = some tier) :
    (tier.fn server call).Along (Grounds server call) (fun past _ => Unaudited past) [] := by
  have mem : (call.name, tier) ∈ toolRegistry := by
    obtain ⟨before, after, isRegistry, -⟩ := List.lookup_eq_some_iff.mp registered
    rw [isRegistry]
    exact List.mem_append_right _ List.mem_cons_self
  simp only [toolRegistry, List.mem_cons, Prod.mk.injEq, List.not_mem_nil, or_false] at mem
  rcases mem with ⟨-, rfl⟩ | ⟨-, rfl⟩ | ⟨-, rfl⟩ | ⟨-, rfl⟩ | ⟨-, rfl⟩ | ⟨isTool, rfl⟩ |
    ⟨isTool, rfl⟩ | ⟨isTool, rfl⟩ | ⟨isTool, rfl⟩
  · exact readTool_grounds (toolListMachines_looks server.toReadServer)
  · exact readTool_grounds (toolListSessions_looks server.toReadServer _)
  · exact readTool_grounds (toolGetSession_looks server.toReadServer _)
  · exact readTool_grounds (toolListCommands_looks server.toReadServer _)
  · exact List.forall_mem_nil _
  · exact inputTool_grounds .readPane isTool
  · exact inputTool_grounds .sendInput isTool
  · exact inputTool_grounds .interrupt isTool
  · exact inputTool_grounds .getCommandResult isTool

theorem Looks.lift {o : Op Glasses.Doc PushEntry Delivery} (looks : Looks o) :
    Looks (o.lift glassesView : Op (Doc α) PushEntry Delivery) := by
  cases o with
  | get | list | now => exact trivial
  | write | transact | lookup | remember | forget | emit => exact looks.elim

/-- An answer is no record of the audit. -/
theorem PutsAnswer.lift {a : GlassesAnswerArgs} {put : Op Glasses.Doc PushEntry Delivery}
    (puts : PutsAnswer a put) :
    writesAt isAudit (put.lift glassesView : Op (Doc α) PushEntry Delivery) = false := by
  obtain ⟨now, rfl | rfl⟩ := puts <;> rfl

/-- What has been seen of a call that only looked. -/
theorem Quiet.of_seen {past : List (Event Glasses.Doc PushEntry Delivery)} {past' : List (Act α)}
    (seen : List.Forall₂ (Event.Seen glassesView) past past') (quiet : Quiet past) :
    Unaudited past' ∧ effectsOf past' = 0 := by
  induction seen with
  | nil => exact ⟨List.forall_mem_nil _, rfl⟩
  | cons first rest ih =>
      rw [Quiet, List.forall_mem_cons] at quiet
      obtain ⟨unaudited, none⟩ := ih quiet.2
      cases first
      refine ⟨unaudited.cons (quiet.1.lift.writesAt isAudit), ?_⟩
      rw [effectsOf_cons quiet.1.lift.isEffect, none]

theorem AnswerEnds.of_seen {a : GlassesAnswerArgs}
    {past : List (Event Glasses.Doc PushEntry Delivery)} {past' : List (Act α)}
    (seen : List.Forall₂ (Event.Seen glassesView) past past') (ends : AnswerEnds a past) :
    Unaudited past' := by
  induction seen with
  | nil => exact List.forall_mem_nil _
  | cons first rest ih =>
      rw [AnswerEnds, List.forall_mem_cons] at ends
      refine (ih ends.2).cons ?_
      cases first
      rcases ends.1 with looks | puts
      · exact looks.lift.writesAt isAudit
      · exact puts.lift

theorem toolGlassesAnswer_grounds (isSet : server.glasses = true)
    (isTool : call.name = glassesAnswerTool) :
    (glassesTool.fn server call).Along (Grounds server call)
      (fun past _ => Unaudited past) [] := by
  have nothing : Unaudited ([] : List (Act α)) := List.forall_mem_nil _
  simp only [glassesTool]
  apply Prog.Along.bind
  cases isArgs : decodeArgs server.glassesAnswer ⟨[], [], []⟩ call.arguments with
  | none => exact nothing
  | some a =>
      rw [toolGlassesAnswer]
      split
      · exact nothing
      · apply Prog.Along.bind
        refine ((putAnswer_along a).lift .nil).imp ?_ ?_
        · rintro past' o' ⟨past, o, seen, rfl, quiet, looks | puts⟩
          · obtain ⟨unaudited, -⟩ := quiet.of_seen seen
            exact .look looks.lift unaudited
          · obtain ⟨unaudited, first⟩ := quiet.of_seen seen
            exact .answer ⟨isSet, isTool, a, isArgs, o, puts, rfl⟩ first unaudited
        · rintro past' result ⟨past, seen, ends⟩
          have unaudited := ends.of_seen seen
          split <;> exact unaudited

/-- The tools keep to their grounds. -/
theorem tier_grounds {tier : ToolTier α} (registered : server.tier call.name = some tier) :
    (tier.fn server call).Along (Grounds server call) (fun past _ => Unaudited past) [] := by
  rw [RpcServer.tier] at registered
  split at registered
  · rename_i tier' inRegistry
    cases registered
    exact registry_grounds inRegistry
  · rw [RpcServer.glassesTier] at registered
    split at registered
    · cases registered
    · rename_i isSet
      rw [not_or, Bool.not_eq_false, not_not] at isSet
      cases registered
      exact toolGlassesAnswer_grounds isSet.1 isSet.2

/-- The scope of an input tool is that of its tier. -/
theorem scope_of_lookup {tier : ToolTier α} {tool : ToolName}
    (registered : server.tier tool.text = some tier) : tier.scope = tool.scope := by
  have isTier : server.tier tool.text = some (inputTool tool) := by
    cases tool <;> rfl
  rw [isTier] at registered
  cases registered
  rfl

theorem scope_of_glasses {tier : ToolTier α} (isSet : server.glasses = true)
    (registered : server.tier glassesAnswerTool = some tier) :
    tier.scope = ascii "drover.input" := by
  have isTier : server.tier glassesAnswerTool = server.glassesTier glassesAnswerTool := rfl
  rw [isTier, RpcServer.glassesTier, isSet] at registered
  cases registered
  rfl

/-! ## Calls -/

/-- The last thing that a call does is to write its record, with the code of its answer. -/
def Answered (server : RpcServer α) (adm : Admitted α) (past : List (Act α))
    (response : Response) : Prop :=
  ∃ reply now time written earlier, response = toolResponse adm.id reply ∧
    past = ⟨time, auditOp server adm.call (resultCode reply) now, written⟩ ::
      ⟨now, .now, now⟩ :: earlier ∧ Unaudited earlier

theorem runTool_grounds {adm : Admitted α}
    (registered : server.tier adm.call.name = some adm.tier) :
    (runTool server adm).Along (Grounds server adm.call) (Answered server adm) [] := by
  rw [runTool]
  apply (tier_grounds registered).andThen
  intro past reply unaudited
  rw [writeAudit, Prog.bind_assoc]
  apply Prog.Along.now (.look trivial unaudited)
  intro now
  refine ⟨.audit rfl (unaudited.cons rfl), fun time written _ => ?_⟩
  exact ⟨reply, now, time, written, past, rfl, rfl, unaudited⟩

/-- What an admitted call may have done: it has looked, queued a command or stored an answer
within its scope, one of these at most, and written its record, and nothing after that; and
if it has answered, it has come to its record. -/
structure Audited (server : RpcServer α) (adm : Admitted α) (past : List (Act α))
    (ended : Response → Prop) : Prop where
  each : ∀ e ∈ past, Looks e.op ∨
    (∃ tool : ToolName, adm.call.ctx.vt.scopes tool.scope = true ∧
      Queues server adm.call tool e.op) ∨
    (adm.call.ctx.vt.scopes (ascii "drover.input") = true ∧ Answers server adm.call e.op) ∨
    ∃ code now, e.op = auditOp server adm.call code now
  once : effectsOf past ≤ 1
  last : ∀ e before, past = e :: before → Unaudited before
  answered : ∀ response, ended response → Answered server adm past response

theorem Accounted.once (accounted : Accounted (Grounds server call) past) :
    effectsOf past ≤ 1 := by
  have atMost : ∀ (e : Act α) (before : List (Act α)), effectsOf before = 0 →
      effectsOf (e :: before) ≤ 1 := by
    intro e before first
    rw [effectsOf] at first
    rw [effectsOf, List.countP_cons, first]
    split <;> decide
  induction past with
  | nil => exact Nat.zero_le 1
  | cons e before ih =>
      obtain ⟨grounds, -, accounted⟩ := accounted
      cases grounds with
      | look looks =>
          rw [effectsOf_cons looks.isEffect]
          exact ih accounted
      | queue queues first => exact atMost e before first
      | answer answers first => exact atMost e before first
      | audit isAudit =>
          rw [effectsOf_cons (by rw [isAudit]; rfl)]
          exact ih accounted

theorem Accounted.last {e : Act α} (accounted : Accounted (Grounds server call) (e :: past)) :
    Unaudited past := by
  cases accounted.1 with
  | look looks unaudited => exact unaudited
  | queue queues first unaudited => exact unaudited
  | answer answers first unaudited => exact unaudited
  | audit isAudit unaudited => exact unaudited

theorem Accounted.each {adm : Admitted α} (accounted : Accounted (Grounds server adm.call) past)
    (registered : server.tier adm.call.name = some adm.tier)
    (scope : adm.call.ctx.vt.scopes adm.tier.scope = true) :
    ∀ e ∈ past, Looks e.op ∨
      (∃ tool : ToolName, adm.call.ctx.vt.scopes tool.scope = true ∧
        Queues server adm.call tool e.op) ∨
      (adm.call.ctx.vt.scopes (ascii "drover.input") = true ∧ Answers server adm.call e.op) ∨
      ∃ code now, e.op = auditOp server adm.call code now := by
  induction past with
  | nil => exact List.forall_mem_nil _
  | cons e before ih =>
      obtain ⟨grounds, -, accounted⟩ := accounted
      refine List.forall_mem_cons.mpr ⟨?_, ih accounted⟩
      cases grounds with
      | look looks => exact .inl looks
      | @queue tool _ queues =>
          have sameScope := scope_of_lookup (queues.1 ▸ registered)
          exact .inr (.inl ⟨tool, sameScope ▸ scope, queues⟩)
      | answer answers =>
          have sameScope := scope_of_glasses answers.1 (answers.2.1 ▸ registered)
          exact .inr (.inr (.inl ⟨sameScope ▸ scope, answers⟩))
      | audit isAudit => exact .inr (.inr (.inr ⟨_, _, isAudit⟩))

end

/-! ## `Verify` -/

/-- `Verify` reads the document of the token and the clock. -/
def Verifies (server : RpcServer α) (req : HttpRequest) (o : Op (Doc α) PushEntry Delivery) :
    Prop :=
  o = .get (server.bearerPath req.authorization) ∨ o = .now

/-- What `Verify` returns is what it says of the token that it has read. -/
def Verified (server : RpcServer α) (req : HttpRequest) (past : List (Act α))
    (bearer : Option VerifiedToken) : Prop :=
  past = [] ∧ bearer = none ∨
    ∃ time now snap,
      past = [⟨now, .now, now⟩, ⟨time, .get (server.bearerPath req.authorization), snap⟩] ∧
        bearer = server.oauth.verify (fun _ => tokenOf snap) now req.authorization

theorem verify_along (server : RpcServer α) (req : HttpRequest) :
    (server.verify req.authorization).Along (fun _ => Verifies server req)
      (Verified server req) [] := by
  rw [RpcServer.verify]
  split
  · exact .inl ⟨rfl, rfl⟩
  · apply Prog.Along.get (.inl rfl)
    intro time snap
    apply Prog.Along.now (.inr rfl)
    intro now
    exact .inr ⟨time, now, snap, rfl, rfl⟩

/-! ## Runs -/

/-- Why a request is answered at once. -/
def Refused (server : RpcServer α) (req : VerifiedRequest) (response : Response) : Prop :=
  (∀ adm, ¬ Admits server req adm) ∨
    ∃ adm, Admits server req adm ∧
      response = .toolError adm.id (rateLimited adm.tier.rateClass)

/-- The decision about a request is that of the checks and the limiter. -/
def Received.Decided (server : RpcServer α) (received : Received α) : Prop :=
  match received.decision with
  | .error response => Refused server received.request response
  | .ok adm => Admits server received.request adm

/-- A refused request does nothing. -/
def Received.Grounds (server : RpcServer α) (received : Received α) (past : List (Act α))
    (o : Op (Doc α) PushEntry Delivery) : Prop :=
  match received.decision with
  | .error _ => False
  | .ok adm => Mcp.Grounds server adm.call past o

/-- How a request is answered after `past`. -/
def Received.Answered (server : RpcServer α) (received : Received α) (past : List (Act α))
    (response : Response) : Prop :=
  match received.decision with
  | .error refusal => past = [] ∧ response = refusal
  | .ok adm => Mcp.Answered server adm past response

/-- What the parts of a request may do. -/
def Stage.Grounds (server : RpcServer α) (stage : Stage α) (past : List (Act α))
    (o : Op (Doc α) PushEntry Delivery) : Prop :=
  match stage with
  | .verify req => Verifies server req o
  | .serve received => received.Grounds server past o

/-- How the parts of a request end. -/
def Stage.Ends (server : RpcServer α) (stage : Stage α) (past : List (Act α)) (ended : Ended) :
    Prop :=
  match stage with
  | .verify req => ∃ bearer, ended = .verified bearer ∧ Verified server req past bearer
  | .serve received => ∃ response, ended = .responded response ∧
      received.Answered server past response

/-- A call of the process. -/
abbrev McpCall (α : Type) := Store.Call (Stage α) (Doc α) PushEntry Delivery Ended

/-- A request that is refused has done nothing but answer, and one that is admitted is
audited. -/
def Received.Settles (server : RpcServer α) (received : Received α) (past : List (Act α))
    (program : Client α Ended) : Prop :=
  match received.decision with
  | .error response =>
      Refused server received.request response ∧ past = [] ∧
        program = .reply (.responded response)
  | .ok adm => Admits server received.request adm ∧
      Audited server adm past fun response => program = .reply (.responded response)

/-- `Verify` has only read the token of the request; a request that is served is one that it
has returned from, and settles. -/
def Process.Settles (server : RpcServer α) (p : Process α) (c : McpCall α) : Prop :=
  match c.input with
  | .verify req => (∀ e ∈ c.past, Verifies server req e.op) ∧
      ∀ ended, c.program = .reply ended →
        ∃ bearer, ended = .verified bearer ∧ Verified server req c.past bearer
  | .serve received => (∃ r, p.verified r = some received.request) ∧
      received.Settles server c.past c.program

/-- Every call is on its grounds. -/
structure Process.Grounded (server : RpcServer α) (p : Process α) : Prop where
  decided : ∀ q c received, p.state.calls q = some c → c.input = .serve received →
    received.Decided server ∧ ∃ r, p.verified r = some received.request
  accounts : p.state.Accounts (Stage.Grounds server) (Stage.Ends server)

section

variable {server : RpcServer α} {p p' : Process α}

theorem handler_decided (server : RpcServer α) (l : Limiter) (now : Nat) (req : VerifiedRequest) :
    (Received.mk req (handler server l now req).2).Decided server := by
  by_cases admissible : ∃ adm, Admits server req adm
  · obtain ⟨adm, admits⟩ := admissible
    rw [admits.handler]
    simp only [Received.Decided]
    split
    · rename_i refused
      split at refused
      · cases refused
      · cases refused
        exact .inr ⟨adm, admits, rfl⟩
    · rename_i admitted
      split at admitted
      · cases admitted
        exact admits
      · cases admitted
  · have refused := not_exists.mp admissible
    obtain ⟨response, isRefusal⟩ := handler_refuses refused
    rw [isRefusal]
    exact .inl refused

/-- What is left to do for a request is on its grounds. -/
theorem Received.Decided.program {received : Received α} (decided : received.Decided server) :
    (received.program server).Along (received.Grounds server) (received.Answered server) [] := by
  obtain ⟨request, decision⟩ := received
  cases decision with
  | error response => exact ⟨rfl, rfl⟩
  | ok adm =>
      have admits : Admits server request adm := decided
      obtain ⟨-, -, -, -, -, -, registered, -⟩ := admits
      exact runTool_grounds registered

/-- A part of a request is on its grounds. -/
theorem Stage.program_along {stage : Stage α}
    (decided : ∀ received, stage = .serve received → received.Decided server) :
    (stage.program server).Along (stage.Grounds server) (stage.Ends server) [] := by
  cases stage with
  | verify req =>
      apply (verify_along server req).andThen
      exact fun past bearer verified => ⟨bearer, rfl, verified⟩
  | serve received =>
      apply ((decided received rfl).program).andThen
      exact fun past response answered => ⟨response, rfl, answered⟩

/-- What `Verify` has returned stays. -/
theorem Process.verified_of_extends {r : Nat} {req : VerifiedRequest}
    (kept : ∀ q c value, p.state.calls q = some c → c.program = .reply value →
      p'.state.calls q = some c) (verified : p.verified r = some req) :
    p'.verified r = some req := by
  rw [Process.verified] at verified ⊢
  split at verified
  · rename_i found
    rw [kept _ _ _ found rfl]
    exact verified
  · cases verified

theorem Process.Grounded.step {o : Occurrence α} (grounded : p.Grounded server)
    (taken : server.step p o = some p') : p'.Grounded server := by
  obtain ⟨⟨l, label⟩, enters, stepping⟩ := Option.bind_eq_some_iff.mp taken
  obtain ⟨state, stepped, rfl⟩ := Option.map_eq_some_iff.mp stepping
  have kept : ∀ q c value, p.state.calls q = some c → c.program = .reply value →
      state.calls q = some c := by
    rintro q ⟨input, past, program⟩ value found rfl
    exact calls_of_answered found stepped
  have begins : ∀ q received, label = .begin q (.serve received) →
      received.Decided server ∧ ∃ r, p.verified r = some received.request := by
    rintro q received rfl
    cases o with
    | tick | external | receive | advance => cases enters
    | serve r =>
        obtain ⟨req, verified, isServed⟩ := Option.map_eq_some_iff.mp enters
        cases isServed
        exact ⟨handler_decided server p.limiter _ req, r, verified⟩
  constructor
  case decided =>
    intro q c received found isServe
    have before : received.Decided server ∧ ∃ r, p.verified r = some received.request := by
      rcases calls_of_step stepped found with
        old | ⟨stage, isBegin, -, rfl⟩ | ⟨c, choice, o, next, -, running, -, -, rfl⟩
      · exact grounded.decided q c received old isServe
      · cases isServe
        exact begins q received isBegin
      · exact grounded.decided q c received running isServe
    obtain ⟨decided, r, verified⟩ := before
    exact ⟨decided, r, Process.verified_of_extends kept verified⟩
  case accounts =>
    refine grounded.accounts.step (fun q stage isBegin => ?_) stepped
    exact Stage.program_along fun received isServe => (begins q received (isServe ▸ isBegin)).1

theorem Process.Grounded.settles {q : Nat} {c : McpCall α} (grounded : p.Grounded server)
    (found : p.state.calls q = some c) : p.Settles server c := by
  have decided := grounded.decided q c
  obtain ⟨accounted, along⟩ := grounded.accounts q c found
  obtain ⟨stage, past, program⟩ := c
  cases stage with
  | verify req =>
      refine ⟨?_, ?_⟩
      · exact fun e mem => accounted.of_mem mem
      · rintro ended rfl
        exact along
  | serve received =>
      obtain ⟨isDecided, verified⟩ := decided received found rfl
      refine ⟨verified, ?_⟩
      obtain ⟨request, decision⟩ := received
      cases decision with
      | error response =>
          refine ⟨isDecided, ?_⟩
          cases program with
          | op o next => exact along.1.elim
          | reply value =>
              obtain ⟨response', rfl, nothing, rfl⟩ := along
              exact ⟨nothing, rfl⟩
      | ok adm =>
          have admits : Admits server request adm := isDecided
          refine ⟨admits, ?_⟩
          obtain ⟨-, -, -, -, -, -, registered, scope⟩ := admits
          constructor
          case each => exact Accounted.each accounted registered scope
          case once => exact Accounted.once accounted
          case last =>
            rintro e before rfl
            exact Accounted.last accounted
          case answered =>
            rintro response rfl
            obtain ⟨response', same, answered⟩ := along
            cases same
            exact answered

theorem Process.grounded_start (server : RpcServer α) (l : Limiter)
    (m : Machine (Doc α) PushEntry Delivery) :
    ({ limiter := l, state := { machine := m } } : Process α).Grounded server := by
  constructor
  · rintro q c received ⟨⟩
  · rintro q c ⟨⟩

/-- Every call of a tool is accounted for.  In every state of every run, whatever the other
calls and programs do and whichever operations fail, `Verify` has read nothing but the token
of its request; a request that is then refused has done nothing; one that is admitted has
passed every check, has only looked at the store but for one command or one answer that its
scope allows, for the session or the question of its arguments and in the name of its bearer,
and comes at its end to one record in the audit, which has the code of its answer. -/
theorem calls_settle (server : RpcServer α) (l : Limiter)
    (m : Machine (Doc α) PushEntry Delivery) (occurrences : List (Occurrence α)) :
    Always server.step (fun p => ∀ q c, p.state.calls q = some c → p.Settles server c)
      { limiter := l, state := { machine := m } } occurrences := by
  have start := Process.grounded_start server l m
  apply (always_of_inductive (fun _ _ _ => Process.Grounded.step) occurrences start).imp
  exact fun p grounded q c found => grounded.settles found

end

end Drover.Mcp
