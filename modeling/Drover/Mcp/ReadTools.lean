import Drover.Commands.Audit
import Drover.Mcp.Tools
import Drover.Mcp.WaitForStatus
import Drover.Slave.Listed

/-!
# The reading tools of the MCP server

`list_machines`, `list_sessions`, `get_session` and `list_commands` read what the PCs
have pushed, and queue nothing.  They drop the errors of most of what they read.
-/

namespace Drover.Mcp

open Drover.Store
open Drover.Commands (Command recentCommands)
open Drover.Push (Fields stringField)
open Drover.Slave (Client listPCs listSessions pcPath pcRole)

variable {α : Type}

/-! ## Arguments -/

/-- The arguments of `list_sessions`. -/
structure ListSessionsArgs where
  pc : Bytes
  agent : Bytes
  status : Bytes

/-- `pcSIDArgs`. -/
structure PCSIDArgs where
  pc : Bytes
  sid : Bytes

/-- The arguments of `list_commands`. -/
structure ListCommandsArgs where
  pc : Bytes
  limit : Int

/-- The `Server`, with `json.Unmarshal` into the arguments of the tools of
`tools_read.go`. -/
structure ReadServer (α : Type) extends Server α where
  listSessions : Bytes → Option ListSessionsArgs
  pcSID : Bytes → Option PCSIDArgs
  listCommands : Bytes → Option ListCommandsArgs
  waitForStatus : Bytes → Option WaitForStatusArgs

/-! ## Tools -/

/-- An entry of `list_machines`. -/
structure MachineRow where
  pc : Bytes
  role : Bytes
  version : Bytes
  sessions : Nat
  working : Nat
  online : Bool
  lastSeen : Bytes
  deriving DecidableEq

/-- An entry of `list_sessions`. -/
structure SessionRow where
  pc : Bytes
  sid : Bytes
  agent : Bytes
  agentStatus : Bytes
  cwd : Bytes
  shortDir : Bytes
  windowName : Bytes
  updatedAt : Bytes
  deriving DecidableEq

/-- What `get_session` returns of a command. -/
structure RecentRow where
  id : Bytes
  cmd : Bytes
  status : Bytes
  detail : Bytes
  ts : Bytes
  deriving DecidableEq

/-- What `list_commands` returns of a command. -/
structure CommandRow extends RecentRow where
  sid : Bytes
  agent : Bytes
  requestedBy : Bytes
  source : Bytes
  finishedAt : Bytes
  deriving DecidableEq

/-- The value that a tool of `tools_read.go` returns. -/
inductive ReadResult where
  | machines (rows : List MachineRow)
  | sessions (rows : List SessionRow)
  | session (row : SessionRow) (recent : List RecentRow)
  | commands (rows : List CommandRow)
  | status (wait : StatusWait)
  deriving DecidableEq

/-- What a read tool returns. -/
abbrev ReadReply := Except ToolErr ReadResult

/-- `PCVersion`. -/
def pcVersion (pc : Bytes) : Client α Bytes := do
  match ← Prog.get (pcPath pc) with
  | .found d => pure (stringField d.data (ascii "cm_version"))
  | _ => pure []

/-- A round of `toolListMachines`. -/
def machineRow (server : ReadServer α) (pc : Bytes) : Client α MachineRow := do
  let ss ← listSessions pc
  let ss := ss.getD []
  let ver ← pcVersion pc
  let role ← pcRole pc
  let (lastSeen, online) ← pcLastSeen server.toServer pc
  pure
    { pc := pc
      role := if role = [] then ascii "master" else role
      version := ver
      sessions := ss.length
      working := ss.countP fun x => stringField x (ascii "agent_status") = ascii "working"
      online := online
      lastSeen := lastSeen }

/-- The rounds of `toolListMachines`. -/
def machineRows (server : ReadServer α) : List Bytes → Client α (List MachineRow)
  | [] => pure []
  | pc :: pcs => do
      let row ← machineRow server pc
      let rows ← machineRows server pcs
      pure (row :: rows)

/-- `toolListMachines`. -/
def toolListMachines (server : ReadServer α) : Client α ReadReply := do
  match ← listPCs with
  | none => pure (.error ⟨ascii "server_error", server.errorText⟩)
  | some pcs =>
      let rows ← machineRows server pcs
      pure (.ok (.machines rows))

/-- The row of a session. -/
def sessionRow (pc sid : Bytes) (x : Fields α) : SessionRow where
  pc := pc
  sid := sid
  agent := stringField x (ascii "agent")
  agentStatus := stringField x (ascii "agent_status")
  cwd := stringField x (ascii "cwd")
  shortDir := stringField x (ascii "short_dir")
  windowName := stringField x (ascii "window_name")
  updatedAt := stringField x (ascii "updated_at")

/-- The filters of `list_sessions`. -/
def ListSessionsArgs.keeps (a : ListSessionsArgs) (x : Fields α) : Bool :=
  (a.agent = [] ∨ stringField x (ascii "agent") = a.agent) ∧
    (a.status = [] ∨ stringField x (ascii "agent_status") = a.status)

/-- The rounds of `toolListSessions`. -/
def sessionRows (a : ListSessionsArgs) : List Bytes → Client α (List SessionRow)
  | [] => pure []
  | pc :: pcs => do
      let ss ← listSessions pc
      let rows ← sessionRows a pcs
      pure (((ss.getD []).filter a.keeps).map
        (fun x => sessionRow pc (stringField x (ascii "key")) x) ++ rows)

/-- `toolListSessions`. -/
def toolListSessions (server : ReadServer α) (raw : Bytes) : Client α ReadReply :=
  match decodeArgs server.listSessions ⟨[], [], []⟩ raw with
  | none => pure (.error ⟨ascii "invalid_request", utf8 "引数の解析に失敗"⟩)
  | some a => do
      match ← (if a.pc ≠ [] then pure (some [a.pc]) else listPCs) with
      | none => pure (.error ⟨ascii "server_error", server.errorText⟩)
      | some pcs =>
          let rows ← sessionRows a pcs
          pure (.ok (.sessions rows))

/-- The entry of a command. -/
def recentRow (cm : Command) : RecentRow := ⟨cm.id, cm.cmd, cm.status, cm.detail, cm.ts⟩

/-- `toolGetSession`. -/
def toolGetSession (server : ReadServer α) (raw : Bytes) : Client α ReadReply :=
  match decodeArgs server.pcSID ⟨[], []⟩ raw with
  | none => pure (.error ⟨ascii "invalid_request", utf8 "pc/sid が必要"⟩)
  | some a =>
      if a.pc = [] ∨ a.sid = [] then
        pure (.error ⟨ascii "invalid_request", utf8 "pc/sid が必要"⟩)
      else do
        match ← listSessions a.pc with
        | none => pure (.error ⟨ascii "server_error", server.errorText⟩)
        | some ss =>
            match ss.find? fun x => stringField x (ascii "key") = a.sid with
            | none => pure (.error ⟨ascii "not_found", utf8 "セッションが見つかりません"⟩)
            | some x =>
                let cmds ← recentCommands a.pc 5
                let own := (cmds.getD []).filter fun cm => cm.sid = [] ∨ cm.sid = a.sid
                pure (.ok (.session (sessionRow a.pc a.sid x) (own.map recentRow)))

/-- The number of commands that `list_commands` asks for. -/
def commandLimit (limit : Int) : Nat := if limit ≤ 0 ∨ 20 < limit then 20 else limit.toNat

/-- `toolListCommands`. -/
def toolListCommands (server : ReadServer α) (raw : Bytes) : Client α ReadReply :=
  match decodeArgs server.listCommands ⟨[], 0⟩ raw with
  | none => pure (.error ⟨ascii "invalid_request", utf8 "pc が必要"⟩)
  | some a =>
      if a.pc = [] then pure (.error ⟨ascii "invalid_request", utf8 "pc が必要"⟩)
      else do
        match ← recentCommands a.pc (commandLimit a.limit) with
        | none => pure (.error ⟨ascii "server_error", server.errorText⟩)
        | some cmds =>
            pure (.ok (.commands (cmds.map fun cm =>
              { recentRow cm with
                sid := cm.sid
                agent := cm.agent
                requestedBy := cm.requestedBy
                source := cm.source
                finishedAt := cm.finishedAt })))

end Drover.Mcp
