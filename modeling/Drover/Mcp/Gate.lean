import Drover.Mcp.Tools
import Drover.Slave.Operations

/-!
# The gate of shared PCs

`slaveAllowed` looks at the role of a PC, which is empty where `PCRole` cannot read it,
and `toolGetCommandResult` does not ask it.  The gate holds in every run in which the
role is read and no stored text of the PC is asked for.
-/

namespace Drover.Mcp

open Drover.Store Drover.Transition
open Drover.Commands (Command)
open Drover.Push (PushEntry stringField)
open Drover.Slave (Client Delivery Doc cmdCol commandPath pcPath slaveRole)

variable {α : Type}

/-- The relay and its calls of tools. -/
abbrev System (α : Type) := State Request (Doc α) PushEntry Delivery ToolReply

/-- An operation that a call has performed. -/
abbrev Act (α : Type) := Event (Doc α) PushEntry Delivery

/-! ## What the gate is for -/

/-- The PC that a call is for. -/
def Server.target (server : Server α) (req : Request) : Option Bytes :=
  match req.tool with
  | .readPane => (server.readPaneArgs req.arguments).map (·.pc)
  | .sendInput => (server.sendInputArgs req.arguments).map (·.pc)
  | .interrupt => (server.interruptArgs req.arguments).map (·.pc)
  | .getCommandResult => (server.commandIDArgs req.arguments).map (·.pc)

/-- The command that the operation queues for the PC. -/
def queued (pc : Bytes) : Op (Doc α) PushEntry Delivery → Option Command
  | .write path change =>
      if (childID (cmdCol pc) path).isSome then
        match change none with
        | some (.command cm) => some cm
        | _ => none
      else none
  | _ => none

/-- The path of the result of a command. -/
def isResult (path : Path) : Bool := (ascii "mcp_results/").isPrefixOf path

/-- A result of a command was found. -/
def FoundResult (met : Doc α → Prop) : Act α → Prop
  | ⟨_, .get path, snap⟩ => isResult path = true ∧ ∃ d, snap = .found d ∧ met d
  | _ => False

theorem FoundResult.imp {met better : Doc α → Prop} {e : Act α} (found : FoundResult met e)
    (weaken : ∀ d, met d → better d) : FoundResult better e := by
  obtain ⟨time, o, result⟩ := e
  cases o with
  | get path =>
      obtain ⟨isResult, d, isFound, isMet⟩ := found
      exact ⟨isResult, d, isFound, weaken d isMet⟩
  | list | write | transact | lookup | remember | forget | now | emit => exact found

/-- The result is one of the PC. -/
def resultOf (pc : Bytes) (d : Doc α) : Prop := stringField d.data (ascii "pc") = pc

/-- The text of a screen that a reply shows. -/
def shownText : ToolReply → Option Bytes
  | .ok (.pane text _ _ _) => some text
  | .ok (.command _ _ _ (some (text, _))) => some text
  | _ => none

/-- No command is queued for the PC, or no other than `read-pane` where that may be read;
and where it may not, a reply that shows a text is to a call for another PC, and the text
is not one of this PC. -/
structure Gated (server : Server α) (pc : Bytes) (s : System α) : Prop where
  commands : ∀ r c, s.calls r = some c → ∀ e ∈ c.past, ∀ cm, queued pc e.op = some cm →
    server.slaveAccess = ascii "read" ∧ cm.cmd = ascii "read-pane"
  texts : server.slaveAccess ≠ ascii "read" → ∀ r c, s.calls r = some c →
    ∀ reply text, c.program = .reply reply → shownText reply = some text →
      server.target c.input ≠ some pc ∧ ∀ e ∈ c.past, ¬ FoundResult (resultOf pc) e

/-- The PC is registered as a shared one. -/
def IsSlave (pc : Bytes) (m : Machine (Doc α) PushEntry Delivery) : Prop :=
  ∃ d, m.docs[pcPath pc]? = some d ∧ d.role = slaveRole

/-- Other programs leave the PC registered as a shared one. -/
def StaysSlave (pc : Bytes) : Label Request (Doc α) → Prop
  | .external path doc => path = pcPath pc → ∃ d, doc = some d ∧ d.role = slaveRole
  | _ => True

/-- A call that reads the role of the PC, which is the first thing it does, can read it;
and where the PC may not be read, a call reads no result of the PC, and
`get_command_result` none for it. -/
def OpFits (server : Server α) (pc : Bytes) (m : Machine (Doc α) PushEntry Delivery)
    (choice : Choice) (req : Request) (past : List (Act α)) :
    Op (Doc α) PushEntry Delivery → Prop
  | .get path =>
      (past = [] → path = pcPath pc → choice.read = true) ∧
        (server.slaveAccess ≠ ascii "read" → isResult path = true → choice.read = true →
          ∀ d, m.docs[path]? = some d →
            ¬ resultOf pc d ∧ ¬ (req.tool = .getCommandResult ∧ server.target req = some pc))
  | _ => True

/-- The operation of the step fits the gate. -/
def GateFits (server : Server α) (pc : Bytes) (s : System α) : Label Request (Doc α) → Prop
  | .advance r choice =>
      match s.calls r with
      | some ⟨req, past, .op o _⟩ => OpFits server pc s.machine choice req past o
      | _ => True
  | _ => True

/-! ## What the tools do -/

/-- What a tool must be allowed on a shared PC. -/
def ToolName.need : ToolName → Bytes
  | readPane => ascii "read"
  | sendInput | interrupt | getCommandResult => ascii "full"

/-- The command that a tool queues. -/
def ToolName.queues : ToolName → Bytes
  | readPane => ascii "read-pane"
  | sendInput => ascii "send-input"
  | interrupt => ascii "interrupt"
  | getCommandResult => []

/-- The PC was not seen to be a shared one. -/
def NotSlave (pc : Bytes) : Act α → Prop
  | ⟨_, .get path, snap⟩ => path = pcPath pc ∧ ∀ d, snap = .found d → d.role ≠ slaveRole
  | _ => False

/-- A call passes the gate by the setting, or by what it read first. -/
def Passes (server : Server α) (pc need : Bytes) (past : List (Act α)) : Prop :=
  server.allows need = true ∨ ∃ e, past.getLast? = some e ∧ NotSlave pc e

/-- An operation writes no document of `pcs`, and queues the command of its tool for the
PC of the call, past the gate. -/
def Why (server : Server α) (req : Request) (past : List (Act α))
    (o : Op (Doc α) PushEntry Delivery) : Prop :=
  o.WritesIn (fun path => ∀ pc, path ≠ pcPath pc) (fun _ => True) ∧
    ∀ pc cm, queued pc o = some cm →
      server.target req = some pc ∧ Passes server pc req.tool.need past ∧ cm.cmd = req.tool.queues

/-- A text is that of a pane past the gate, or of a result that was found. -/
def Ends (server : Server α) (req : Request) (past : List (Act α)) (reply : ToolReply) : Prop :=
  ∀ text, shownText reply = some text →
    (∃ pc, server.target req = some pc ∧ req.tool = .readPane ∧
      Passes server pc req.tool.need past) ∨
    (req.tool = .getCommandResult ∧ ∃ e ∈ past, FoundResult (fun _ => True) e)

theorem Passes.suffix {server : Server α} {pc need : Bytes} {past past' : List (Act α)}
    (passes : Passes server pc need past) (longer : past <:+ past') :
    Passes server pc need past' := by
  rcases passes with allowed | ⟨e, isFirst, notSlave⟩
  · exact .inl allowed
  · obtain ⟨newer, rfl⟩ := longer
    refine .inr ⟨e, ?_, notSlave⟩
    rw [List.getLast?_append, isFirst]
    rfl

/-- It reads, or writes to the audit. -/
def Harmless : Op (Doc α) PushEntry Delivery → Prop
  | .get _ | .list _ | .now => True
  | .write path _ => ∃ id, path = auditPath id
  | _ => False

theorem childID_cmdCol_auditPath (pc id : Bytes) : childID (cmdCol pc) (auditPath id) = none := by
  cases isChild : childID (cmdCol pc) (auditPath id) with
  | none => rfl
  | some id' =>
      obtain ⟨isPath, -⟩ := childID_eq_some_iff.mp isChild
      have same : auditPath id = commandPath pc id' := isPath
      rw [Slave.commandPath_eq] at same
      exact absurd same (docPath_ne (by decide) (by decide) (by decide))

theorem encodeHex_clean (s : Bytes) : slash ∉ encodeHex s := by
  have digits : ∀ n < 16, lowerHexDigit n ≠ slash := by decide
  intro mem
  obtain ⟨b, -, mem⟩ := List.mem_flatMap.mp mem
  have lt := b.toNat_lt
  simp only [List.mem_cons, List.not_mem_nil, or_false] at mem
  rcases mem with high | low
  · exact digits _ (by omega) high.symm
  · exact digits _ (by omega) low.symm

/-- A command is in the queue of one PC. -/
theorem cmdCol_inj {pc pc' id id' : Bytes} (clean : slash ∉ id)
    (isChild : childID (cmdCol pc') (commandPath pc id) = some id') : pc = pc' := by
  obtain ⟨isPath, -, clean'⟩ := childID_eq_some_iff.mp isChild
  have cols : docPath (ascii "commands") pc ++ slash :: ascii "q" =
      docPath (ascii "commands") pc' ++ slash :: ascii "q" :=
    ((separated_inj_right clean' clean).mp isPath).1
  exact docPath_inj.mp (List.append_cancel_right cols)

section

variable {server : Server α} {req : Request} {past : List (Act α)}

theorem Harmless.why {o : Op (Doc α) PushEntry Delivery} (harmless : Harmless o) :
    Why server req past o := by
  cases o with
  | get | list | now => exact ⟨trivial, fun pc cm queues => by cases queues⟩
  | write path change =>
      obtain ⟨id, rfl⟩ := harmless
      refine ⟨fun pc same => ?_, fun pc cm queues => ?_⟩
      · exact absurd same (docPath_ne (by decide) (by decide) (by decide))
      · rw [queued, childID_cmdCol_auditPath] at queues
        cases queues
  | transact | lookup | remember | forget | emit => exact harmless.elim

/-- A program that does no harm has to end well. -/
theorem along_of_harmless {ρ : Type} {p : Client α ρ} {ends : List (Act α) → ρ → Prop}
    (harmless : p.Only Harmless) (end_ : ∀ past' value, past <:+ past' → ends past' value) :
    p.Along (Why server req) ends past :=
  harmless.along (fun _ _ does => does.why) end_

theorem waitCommand_harmless (pc id : Bytes) (snapshots : Nat) :
    (waitCommand pc id snapshots : Client α (Lookup Command)).Only Harmless := by
  induction snapshots with
  | zero => exact .pure _
  | succ snapshots ih =>
      rw [waitCommand]
      apply Prog.Only.bind (.op trivial)
      intro snap
      split
      · exact .pure _
      · split
        · exact .pure _
        · exact ih
      · exact ih

theorem sessionAgentStatus_harmless (pc sid : Bytes) :
    (sessionAgentStatus pc sid : Client α Bytes).Only Harmless := by
  rw [sessionAgentStatus]
  refine Prog.Only.bind (.bind (.op trivial) fun _ => .pure _) fun ss => ?_
  split <;> exact .pure _

theorem pcLastSeen_harmless (pc : Bytes) : (pcLastSeen server pc).Only Harmless := by
  rw [pcLastSeen]
  apply Prog.Only.bind (.op trivial)
  intro snap
  split
  · simp only
    split
    · exact .pure _
    · split
      · exact .pure _
      · exact .bind (.op trivial) fun _ => .pure _
  · exact .pure _

theorem writeMCPAudit_harmless (resultCode : Bytes) :
    (writeMCPAudit server req resultCode).Only Harmless := by
  rw [writeMCPAudit]
  exact .bind (.op trivial) fun _ => .op ⟨req.auditID, rfl⟩

/-- A call is let through by the setting, or by the role that it has read. -/
theorem slaveAllowed_along (pc : Bytes) :
    (slaveAllowed server pc req.tool.need).Along (Why server req)
      (fun past allowed => allowed = true → Passes server pc req.tool.need past) [] := by
  rw [slaveAllowed, Slave.pcRole]
  apply Prog.Along.bind
  apply Prog.Along.get (Harmless.why trivial)
  intro time snap
  have other : ∀ role : Bytes, (∀ d, snap = .found d → d.role = role) →
      (if role ≠ slaveRole then pure true else pure (server.allows req.tool.need) :
        Client α Bool).Along (Why server req)
        (fun past allowed => allowed = true → Passes server pc req.tool.need past)
        [⟨time, .get (pcPath pc), snap⟩] := by
    intro role isRole
    split
    · rename_i notSlave
      refine fun _ => .inr ⟨_, rfl, rfl, fun d found => ?_⟩
      rw [isRole d found]
      exact notSlave
    · exact fun allowed => .inl allowed
  cases snap with
  | found d =>
      apply other d.role
      rintro _ ⟨⟩
      rfl
  | absent | failed =>
      apply other []
      rintro _ ⟨⟩

/-- After its checks a call is past the gate. -/
theorem precheckPC_along (pc : Bytes) (queueIfOffline : Bool) :
    (precheckPC server pc req.tool.need queueIfOffline).Along (Why server req)
      (fun past terr => terr = none → Passes server pc req.tool.need past) [] := by
  rw [precheckPC]
  apply Prog.Along.bind
  apply (slaveAllowed_along pc).imp fun _ _ why => why
  intro past allowed passes
  cases allowed with
  | false => exact fun isNone => by cases isNone
  | true =>
      rw [if_pos rfl]
      refine along_of_harmless ?_ fun past' terr longer _ => (passes rfl).suffix longer
      · apply Prog.Only.bind (Slave.isRevoked_only trivial)
        intro revoked
        split
        · exact .pure _
        · split
          · exact .pure _
          · apply Prog.Only.bind (pcLastSeen_harmless pc)
            rintro ⟨lastSeen, online⟩
            simp only
            split <;> exact .pure _

/-- A command is queued past the gate. -/
theorem pushCommandArgs_along {pc cmd sid agent requestedBy source : Bytes}
    {args : List (Bytes × Bytes)} {random : Vector UInt8 12}
    (isTarget : server.target req = some pc) (passes : Passes server pc req.tool.need past)
    (isCmd : cmd = req.tool.queues) :
    (pushCommandArgs server pc cmd sid agent requestedBy source args random).Along (Why server req)
      (fun past' _ => past <:+ past') past := by
  rw [pushCommandArgs]
  split
  · exact List.suffix_rfl
  · split
    · exact List.suffix_rfl
    · split
      · exact List.suffix_rfl
      · apply Prog.Along.now (Harmless.why trivial)
        intro now
        refine ⟨⟨fun pc' same => ?_, fun pc' cm queues => ?_⟩, fun time ok _ => ?_⟩
        · rw [Slave.commandPath_eq] at same
          exact absurd same (docPath_ne (by decide) (by decide) (by decide))
        · rw [queued] at queues
          split at queues
          · rename_i isChild
            cases queues
            obtain ⟨id', isChild⟩ := Option.isSome_iff_exists.mp isChild
            obtain rfl := cmdCol_inj (encodeHex_clean _) isChild
            exact ⟨isTarget, passes.suffix (List.suffix_cons _ _), isCmd⟩
          · cases queues
        · exact (List.suffix_cons _ _).trans (List.suffix_cons _ _)

theorem queueAndWait_along {pc sid : Bytes} {args : List (Bytes × Bytes)}
    {finish : Bytes → Command → Client α ToolReply} {ctx : Context}
    (isTarget : server.target req = some pc) (passes : Passes server pc req.tool.need past)
    (finishes : ∀ id cm past', past <:+ past' →
      (finish id cm).Along (Why server req) (Ends server req) past') :
    (queueAndWait server ctx pc req.tool.queues sid args finish).Along (Why server req)
      (Ends server req) past := by
  rw [queueAndWait]
  apply Prog.Along.bind
  apply (pushCommandArgs_along isTarget passes rfl).imp fun _ _ why => why
  intro past' pushed longer
  cases pushed with
  | error text => exact fun _ shown => by cases shown
  | ok id =>
      apply Prog.Along.bind
      apply along_of_harmless (waitCommand_harmless pc id ctx.snapshots)
      intro past'' waited longer'
      cases waited with
      | error => exact fun _ shown => by cases shown
      | missing => exact fun _ shown => by cases shown
      | found cm =>
          simp only
          split
          · exact fun _ shown => by cases shown
          · exact finishes id cm past'' (longer.trans longer')

theorem Ends.error (terr : ToolErr) : Ends server req past (.error terr) :=
  fun _ shown => by cases shown

theorem Ends.suffix {past' : List (Act α)} {reply : ToolReply} (ends : Ends server req past reply)
    (longer : past <:+ past') : Ends server req past' reply := by
  intro text shown
  rcases ends text shown with ⟨pc, isTarget, isTool, passes⟩ | ⟨isTool, e, mem, found⟩
  · exact .inl ⟨pc, isTarget, isTool, passes.suffix longer⟩
  · exact .inr ⟨isTool, e, longer.subset mem, found⟩

theorem getCommandResult_harmless (id : Bytes) : (getCommandResult server id).Only Harmless := by
  rw [getCommandResult]
  apply Prog.Only.bind (.op trivial)
  intro snap
  split
  · split <;> exact .pure _
  · exact .pure _

theorem getCommand_harmless (pc id : Bytes) :
    (getCommand pc id : Client α (Lookup Command)).Only Harmless := by
  rw [getCommand]
  apply Prog.Only.bind (.op trivial)
  intro snap
  split <;> exact .pure _

theorem isResult_resultPath (id : Bytes) : isResult (resultPath id) = true := by
  rw [isResult, List.isPrefixOf_iff_prefix]
  exact ⟨id, by rw [resultPath, docPath_eq]; rfl⟩

/-- A result that is returned has been found. -/
theorem getCommandResult_along (id : Bytes) :
    (getCommandResult server id).Along (Why server req)
      (fun past looked => ∀ res, looked = .found res →
        ∃ e ∈ past, FoundResult (fun _ => True) e) past := by
  rw [getCommandResult]
  apply Prog.Along.get (Harmless.why trivial)
  intro time snap
  cases snap with
  | found d =>
      simp only
      split
      · exact fun res _ =>
          ⟨_, List.mem_cons_self, isResult_resultPath id, d, rfl, trivial⟩
      · rintro res ⟨⟩
  | absent | failed => rintro res ⟨⟩

/-- A tool goes on past the gate. -/
theorem checked_along {pc need : Bytes} {queueIfOffline : Bool}
    {next : Option ToolErr → Client α ToolReply} (isNeed : need = req.tool.need)
    (refused : ∀ terr, next (some terr) = pure (.error terr))
    (goesOn : ∀ past, Passes server pc req.tool.need past →
      (next none).Along (Why server req) (Ends server req) past) :
    (precheckPC server pc need queueIfOffline >>= next).Along (Why server req)
      (Ends server req) [] := by
  rw [isNeed]
  apply Prog.Along.bind
  apply (precheckPC_along pc queueIfOffline).imp fun _ _ why => why
  intro past terr passes
  cases terr with
  | some terr =>
      rw [refused]
      exact .error terr
  | none => exact goesOn past (passes rfl)

theorem toolReadPane_along (isTool : req.tool = .readPane) :
    (toolReadPane server req.ctx req.arguments).Along (Why server req) (Ends server req) [] := by
  have queues : ascii "read-pane" = req.tool.queues := by rw [isTool]; rfl
  rw [toolReadPane]
  split
  · exact .error _
  · rename_i a decoded
    have isTarget : server.target req = some a.pc := by
      rw [Server.target, isTool]
      simp only [decoded, Option.map_some]
    split
    · exact .error _
    · split
      · exact .error _
      · apply checked_along (by rw [isTool]; rfl) fun _ => rfl
        intro past passes
        simp only
        rw [queues]
        apply queueAndWait_along isTarget passes
        intro id cm past' longer
        apply along_of_harmless
        · apply Prog.Only.bind (getCommandResult_harmless id)
          intro looked
          split
          · exact .pure _
          · exact .bind (sessionAgentStatus_harmless _ _) fun _ => .pure _
          · exact .bind (sessionAgentStatus_harmless _ _) fun _ => .pure _
        · intro past'' reply longer' text shown
          exact .inl ⟨a.pc, isTarget, isTool, passes.suffix (longer.trans longer')⟩

theorem toolSendInput_along (isTool : req.tool = .sendInput) :
    (toolSendInput server req.ctx req.arguments).Along (Why server req) (Ends server req) [] := by
  have queues : ascii "send-input" = req.tool.queues := by rw [isTool]; rfl
  rw [toolSendInput]
  split
  · exact .error _
  · rename_i a decoded
    have isTarget : server.target req = some a.pc := by
      rw [Server.target, isTool]
      simp only [decoded, Option.map_some]
    split
    · exact .error _
    · split
      · exact .error _
      · apply checked_along (by rw [isTool]; rfl) fun _ => rfl
        intro past passes
        apply Prog.Along.now (Harmless.why trivial)
        intro now
        simp only
        rw [queues]
        apply queueAndWait_along isTarget (passes.suffix (List.suffix_cons _ _))
        intro id cm past' longer
        apply Prog.Along.bind
        apply along_of_harmless (sessionAgentStatus_harmless _ _)
        exact fun past'' status _ text shown => by cases shown

theorem toolInterrupt_along (isTool : req.tool = .interrupt) :
    (toolInterrupt server req.ctx req.arguments).Along (Why server req) (Ends server req) [] := by
  have queues : ascii "interrupt" = req.tool.queues := by rw [isTool]; rfl
  rw [toolInterrupt]
  split
  · exact .error _
  · rename_i a decoded
    have isTarget : server.target req = some a.pc := by
      rw [Server.target, isTool]
      simp only [decoded, Option.map_some]
    split
    · exact .error _
    · apply checked_along (by rw [isTool]; rfl) fun _ => rfl
      intro past passes
      apply Prog.Along.now (Harmless.why trivial)
      intro now
      simp only
      rw [queues]
      apply queueAndWait_along isTarget (passes.suffix (List.suffix_cons _ _))
      exact fun id cm past' longer text shown => by cases shown

theorem toolGetCommandResult_along (isTool : req.tool = .getCommandResult) :
    (toolGetCommandResult server req.arguments).Along (Why server req) (Ends server req) [] := by
  rw [toolGetCommandResult]
  split
  · exact .error _
  · rename_i a decoded
    split
    · exact .error _
    · apply Prog.Along.bind
      apply along_of_harmless (getCommand_harmless _ _)
      intro past looked _
      cases looked with
      | error => exact .error _
      | missing => exact .error _
      | found cm =>
          apply Prog.Along.bind
          apply (getCommandResult_along a.commandID).imp fun _ _ why => why
          intro past' result ends
          cases result with
          | error | missing => exact fun text shown => by cases shown
          | found res => exact fun text _ => .inr ⟨isTool, ends res rfl⟩

/-- Every operation of a tool has its reason, and so has the text that it returns. -/
theorem tool_along (server : Server α) (req : Request) :
    (server.tool req).Along (Why server req) (Ends server req) [] := by
  rw [Server.tool]
  cases isTool : req.tool with
  | readPane => exact toolReadPane_along isTool
  | sendInput => exact toolSendInput_along isTool
  | interrupt => exact toolInterrupt_along isTool
  | getCommandResult => exact toolGetCommandResult_along isTool

theorem handleToolsCall_along (server : Server α) (req : Request) :
    (handleToolsCall server req).Along (Why server req) (Ends server req) [] := by
  rw [handleToolsCall]
  split
  · exact .error _
  · split
    · exact .error _
    · apply Prog.Along.bind
      apply (tool_along server req).imp fun _ _ why => why
      intro past reply ends
      apply Prog.Along.bind
      apply along_of_harmless (writeMCPAudit_harmless _)
      intro past' written longer
      exact ends.suffix longer

end

/-! ## Runs -/

section

variable {server : Server α} {pc : Bytes} {s s' : System α} {label : Label Request (Doc α)}

/-- What a call has done is kept from the PC. -/
structure Kept (server : Server α) (pc : Bytes) (req : Request) (past : List (Act α)) : Prop where
  first : ∀ e, past.getLast? = some e → ¬ NotSlave pc e
  commands : ∀ e ∈ past, ∀ cm, queued pc e.op = some cm →
    server.slaveAccess = ascii "read" ∧ cm.cmd = ascii "read-pane"
  results : server.slaveAccess ≠ ascii "read" → ∀ e ∈ past, FoundResult (fun _ => True) e →
    ¬ FoundResult (resultOf pc) e ∧
      ¬ (req.tool = .getCommandResult ∧ server.target req = some pc)

/-- A shared PC is passed by for its panes only. -/
theorem Kept.passes {req : Request} {past : List (Act α)} (kept : Kept server pc req past)
    (notFull : server.slaveAccess ≠ ascii "full") (passes : Passes server pc req.tool.need past) :
    server.slaveAccess = ascii "read" ∧ req.tool = .readPane := by
  rcases passes with allowed | ⟨e, isFirst, notSlave⟩
  · rw [Server.allows, if_neg notFull] at allowed
    split at allowed
    · rename_i read
      refine ⟨read, ?_⟩
      rw [decide_eq_true_eq] at allowed
      cases isTool : req.tool with
      | readPane => rfl
      | sendInput | interrupt | getCommandResult =>
          rw [isTool] at allowed
          exact absurd allowed (by decide)
    · cases allowed
  · exact absurd notSlave (kept.first e isFirst)

/-- An operation that has its reason and meets the condition is kept from the PC. -/
theorem Kept.cons {req : Request} {past : List (Act α)} {o : Op (Doc α) PushEntry Delivery}
    {choice : Choice} {m : Machine (Doc α) PushEntry Delivery} (kept : Kept server pc req past)
    (notFull : server.slaveAccess ≠ ascii "full") (isSlave : IsSlave pc m)
    (why : Why server req past o) (fits : OpFits server pc m choice req past o) :
    Kept server pc req (m.event choice o :: past) := by
  refine ⟨?_, ?_, ?_⟩
  · cases past with
    | nil =>
        rintro e ⟨⟩ notSlave
        cases o with
        | get path =>
            obtain ⟨rfl, other⟩ := notSlave
            obtain ⟨d, stored, isRole⟩ := isSlave
            have read : choice.read = true := fits.1 rfl rfl
            exact other d (readDocument_eq_found_iff.mpr ⟨read, stored⟩) isRole
        | list | write | transact | lookup | remember | forget | now | emit => exact notSlave
    | cons older past =>
        rw [List.getLast?_cons_cons]
        exact kept.first
  · intro e mem cm queues
    rcases List.mem_cons.mp mem with rfl | old
    · obtain ⟨-, passes, isCmd⟩ := why.2 pc cm queues
      obtain ⟨read, isTool⟩ := kept.passes notFull passes
      exact ⟨read, by rw [isCmd, isTool]; rfl⟩
    · exact kept.commands e old cm queues
  · intro notRead e mem found
    rcases List.mem_cons.mp mem with rfl | old
    · cases o with
      | get path =>
          obtain ⟨isResult, d, isFound, -⟩ := found
          obtain ⟨read, stored⟩ := readDocument_eq_found_iff.mp isFound
          obtain ⟨other, notAsked⟩ := fits.2 notRead isResult read d stored
          refine ⟨?_, notAsked⟩
          rintro ⟨-, d', isFound', ofPC⟩
          cases isFound.symm.trans isFound'
          exact other ofPC
      | list | write | transact | lookup | remember | forget | now | emit => exact found.elim
    · exact kept.results notRead e old found

/-- What the gate rests on, in every state of a run. -/
structure Guarded (server : Server α) (pc : Bytes) (s : System α) : Prop where
  isSlave : IsSlave pc s.machine
  follows : s.Follows (Why server) (Ends server)
  kept : ∀ r c, s.calls r = some c → Kept server pc c.input c.past

theorem Guarded.step (guarded : Guarded server pc s)
    (notFull : server.slaveAccess ≠ ascii "full") (stays : StaysSlave pc label)
    (fits : GateFits server pc s label) (taken : server.step s label = some s') :
    Guarded server pc s' := by
  obtain ⟨isSlave, follows, kept⟩ := guarded
  refine ⟨?_, follows.step (fun _ req _ => handleToolsCall_along server req) taken, ?_⟩
  · cases stepped_of_step taken with
    | tick | begin => exact isSlave
    | external path doc =>
        obtain ⟨d, stored, isRole⟩ := isSlave
        by_cases same : path = pcPath pc
        · obtain ⟨d', rfl, isRole'⟩ := stays same
          refine ⟨d', ?_, isRole'⟩
          rw [same]
          exact changeDocument_same
        · exact ⟨d, (changeDocument_of_ne (Ne.symm same)).trans stored, isRole⟩
    | @advance r c o next choice running isOp =>
        have along := follows r c running
        rw [isOp] at along
        have same := (along.1.1.after (m := s.machine) choice).docs (pcPath pc)
          fun own => own pc rfl
        obtain ⟨d, stored, isRole⟩ := isSlave
        exact ⟨d, same.trans stored, isRole⟩
  · intro r c found
    rcases calls_of_step taken found with
      old | ⟨req, -, -, rfl⟩ | ⟨c, choice, o, next, rfl, running, isOp, -, rfl⟩
    · exact kept r c old
    · refine ⟨?_, ?_, ?_⟩
      · rintro e ⟨⟩
      · rintro e ⟨⟩
      · rintro - e ⟨⟩
    · have along := follows r c running
      rw [isOp] at along
      obtain ⟨req, past, program⟩ := c
      cases isOp
      rw [GateFits, running] at fits
      exact (kept r _ running).cons notFull isSlave along.1 fits

theorem Guarded.gated (guarded : Guarded server pc s)
    (notFull : server.slaveAccess ≠ ascii "full") : Gated server pc s := by
  refine ⟨fun r c running => (guarded.kept r c running).commands, ?_⟩
  intro notRead r c running reply text isReply shown
  have kept := guarded.kept r c running
  have follows := guarded.follows r c running
  rw [isReply] at follows
  refine ⟨fun isTarget => ?_, fun e mem found => ?_⟩
  · rcases follows text shown with ⟨pc', isTarget', -, passes⟩ | ⟨isTool, e, mem, found⟩
    · cases isTarget.symm.trans isTarget'
      exact notRead (kept.passes notFull passes).1
    · exact (kept.results notRead e mem found).2 ⟨isTool, isTarget⟩
  · exact (kept.results notRead e mem (found.imp fun _ _ => trivial)).1 found

end

/-- While a PC is registered as a shared one, the gate holds after every step of every run
in which its role is read when it is asked for, and no result is asked for that is to be
kept from the callers. -/
theorem gated_of_fits (server : Server α) (pc : Bytes) (m : Machine (Doc α) PushEntry Delivery)
    {labels : List (Label Request (Doc α))} (notFull : server.slaveAccess ≠ ascii "full")
    (isSlave : IsSlave pc m) (stays : ∀ label ∈ labels, StaysSlave pc label)
    (fits : Along server.step (GateFits server pc) { machine := m } labels) :
    Always server.step (Gated server pc) { machine := m } labels := by
  have start : Guarded server pc ({ machine := m } : System α) := by
    refine ⟨isSlave, ?_, ?_⟩
    · rintro r c ⟨⟩
    · rintro r c ⟨⟩
  have both := (along_of_forall_mem stays ({ machine := m } : System α)).and fits
  apply (always_of_preserved _ start both).imp
  · exact fun s guarded => guarded.gated notFull
  · exact fun s label s' guarded met taken => guarded.step notFull met.1 met.2 taken

/-! ## Samples -/

instance (server : Server α) (pc : Bytes) (m : Machine (Doc α) PushEntry Delivery)
    (choice : Choice) (req : Request) (past : List (Act α)) :
    (o : Op (Doc α) PushEntry Delivery) → Decidable (OpFits server pc m choice req past o)
  | .get path =>
      have : Decidable (past = []) := decidable_of_iff (past.isEmpty = true) List.isEmpty_iff
      have : Decidable (∀ d, m.docs[path]? = some d → ¬ resultOf pc d ∧
          ¬ (req.tool = .getCommandResult ∧ server.target req = some pc)) :=
        match stored : m.docs[path]? with
        | none => isTrue fun d found => by cases found
        | some d =>
            have : Decidable (resultOf pc d) := inferInstanceAs (Decidable (_ = _))
            decidable_of_iff (¬ resultOf pc d ∧
              ¬ (req.tool = .getCommandResult ∧ server.target req = some pc))
              ⟨fun both d' found => by cases found; exact both, fun all => all d rfl⟩
      inferInstanceAs (Decidable (_ ∧ _))
  | .list _ | .write .. | .transact .. | .lookup _ | .remember .. | .forget _ | .now | .emit _ =>
      isTrue trivial

instance (server : Server α) (pc : Bytes) (s : System α) :
    (label : Label Request (Doc α)) → Decidable (GateFits server pc s label)
  | .tick _ | .external .. | .begin .. => isTrue trivial
  | .advance r choice =>
      match running : s.calls r with
      | some ⟨req, past, .op o _⟩ =>
          decidable_of_iff (OpFits server pc s.machine choice req past o)
            (by rw [GateFits, running])
      | some ⟨_, _, .reply _⟩ | none => isTrue (by rw [GateFits, running]; trivial)

/-- The arguments of `read_pane` for the session `w1` of `mac`. -/
def paneJSON : Bytes :=
  ascii "\x7b\"pc\":\"mac\",\"sid\":\"w1\",\"queue_if_offline\":true\x7d"

/-- The arguments of `get_command_result` for the command `c1` of `mac`. -/
def commandJSON : Bytes := ascii "\x7b\"pc\":\"mac\",\"command_id\":\"c1\"\x7d"

/-- A server that can decode these arguments, and lets nobody into shared PCs. -/
def sampleServer : Server Unit where
  slaveAccess := ascii "off"
  readPane raw := if raw = paneJSON then some ⟨ascii "mac", ascii "w1", [], 0, true⟩ else none
  sendInput _ := none
  interrupt _ := none
  commandID raw := if raw = commandJSON then some ⟨ascii "mac", ascii "c1"⟩ else none
  pcSIDFromArgs raw := if raw = paneJSON then (ascii "mac", ascii "w1") else (ascii "mac", [])
  dataToString _ := none
  dataToBool _ := none
  sha256 s := Vector.ofFn fun i => s.getD i 0
  rfc3339Nano now := List.replicate now 0x30
  parseTime s := some s.length
  errorText := ascii "unavailable"

/-- A call of the owner. -/
def sampleRequest (tool : ToolName) (arguments : Bytes) : Request where
  ctx := ⟨⟨ascii "a@b", ascii "app", fun _ => true⟩, Vector.replicate 12 0, 0⟩
  tool := tool
  arguments := arguments
  allowed := true
  auditID := ascii "x"

/-- A store with the shared PC `mac`, and a text of its screen. -/
def sampleMachine : Machine (Doc Unit) PushEntry Delivery where
  docs := Std.ExtTreeMap.ofList [
    (pcPath (ascii "mac"), Doc.fields (Slave.slavePC (ascii "mac") [] [])),
    (commandPath (ascii "mac") (ascii "c1"), Doc.command Command.empty),
    (resultPath (ascii "c1"), Doc.fields (fieldsOf [
      (ascii "pc", .string (ascii "mac")), (ascii "text", .string (ascii "secret"))]))]

theorem isSlave_sampleMachine : IsSlave (ascii "mac") sampleMachine := by
  have role : sampleMachine.docs[pcPath (ascii "mac")]?.map Doc.role = some slaveRole := by
    decide +kernel
  exact Option.map_eq_some_iff.mp role

/-- The owner asks for the screen of `mac`; the first read may fail. -/
def readPaneLabels (role : Choice) (n : Nat) : List (Label Request (Doc Unit)) :=
  .begin 0 (sampleRequest .readPane paneJSON) :: .advance 0 role ::
    List.replicate n (.advance 0 .ok)

/-- The owner asks for the text that is stored. -/
def getResultLabels : List (Label Request (Doc Unit)) :=
  .begin 0 (sampleRequest .getCommandResult commandJSON) :: List.replicate 4 (.advance 0 .ok)

theorem staysSlave_readPaneLabels (role : Choice) (n : Nat) :
    ∀ label ∈ readPaneLabels role n, StaysSlave (ascii "mac") label := by
  intro label mem
  rcases List.mem_cons.mp mem with rfl | mem
  · exact trivial
  · rcases List.mem_cons.mp mem with rfl | mem
    · exact trivial
    · rw [List.eq_of_mem_replicate mem]
      exact trivial

/-- The code of a refusal. -/
def refusal : ToolReply → Option Bytes
  | .error terr => some terr.code
  | .ok _ => none

theorem readPane_refused :
    ∃ s, exec sampleServer.step { machine := sampleMachine } (readPaneLabels .ok 2) = some s ∧
      (s.answer 0).bind refusal = some (ascii "forbidden") ∧
      Gated sampleServer (ascii "mac") s := by
  have refused : (exec sampleServer.step { machine := sampleMachine } (readPaneLabels .ok 2)).map
      (fun s => (s.answer 0).bind refusal) = some (some (ascii "forbidden")) := by
    decide +kernel
  have fits : Along sampleServer.step (GateFits sampleServer (ascii "mac"))
      { machine := sampleMachine } (readPaneLabels .ok 2) := by
    decide +kernel
  obtain ⟨s, run, answer⟩ := Option.map_eq_some_iff.mp refused
  have always := gated_of_fits sampleServer (ascii "mac") sampleMachine (by decide)
    isSlave_sampleMachine (staysSlave_readPaneLabels .ok 2) fits
  exact ⟨s, run, answer, always.last run⟩

/-- When the role cannot be read, a command is queued; and the stored text is returned
without a look at the role. -/
theorem unread_role_queues :
    (∃ s, exec sampleServer.step { machine := sampleMachine }
        (readPaneLabels ⟨false, .ok⟩ 5) = some s ∧ ¬ Gated sampleServer (ascii "mac") s) ∧
      ∃ s, exec sampleServer.step { machine := sampleMachine } getResultLabels = some s ∧
        (s.answer 0).bind shownText = some (ascii "secret") ∧
        ¬ Gated sampleServer (ascii "mac") s := by
  constructor
  · have queues : (exec sampleServer.step { machine := sampleMachine }
        (readPaneLabels ⟨false, .ok⟩ 5)).bind (fun s => (s.calls 0).map fun c =>
          c.past.any fun e => (queued (ascii "mac") e.op).isSome) = some true := by
      decide +kernel
    obtain ⟨s, run, some_⟩ := Option.bind_eq_some_iff.mp queues
    obtain ⟨c, running, any⟩ := Option.map_eq_some_iff.mp some_
    obtain ⟨e, mem, isSome⟩ := List.any_eq_true.mp any
    obtain ⟨cm, isQueued⟩ := Option.isSome_iff_exists.mp isSome
    refine ⟨s, run, fun gated => ?_⟩
    exact absurd (gated.commands 0 c running e mem cm isQueued).1 (by decide)
  · have shows : (exec sampleServer.step { machine := sampleMachine } getResultLabels).map
        (fun s => (s.answer 0, (s.calls 0).bind fun c => sampleServer.target c.input)) =
          some (some (.ok (.command [] [] [] (some (ascii "secret", false)))),
            some (ascii "mac")) := by
      decide +kernel
    obtain ⟨s, run, both⟩ := Option.map_eq_some_iff.mp shows
    obtain ⟨answered, isTarget⟩ := Prod.mk.inj both
    refine ⟨s, run, by rw [answered]; rfl, fun gated => ?_⟩
    obtain ⟨c, running, isReply⟩ := State.answer_eq_some_iff.mp answered
    rw [running, Option.bind_some] at isTarget
    exact (gated.texts (by decide) 0 c running _ _ isReply rfl).1 isTarget

end Drover.Mcp
