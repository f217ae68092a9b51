import Drover.OAuth.Endpoint
import Drover.Slave.Client
import Drover.Store.Calls

/-!
# The input tools of the MCP server

`read_pane`, `send_input` and `interrupt` queue a command for a PC and wait for it;
`get_command_result` returns what a command has stored.  A shared PC is behind the
setting `slaveAccess`.
-/

namespace Drover.Mcp

open Drover.Store
open Drover.Commands (Command newCommand)
open Drover.OAuth.Endpoint (VerifiedToken)
open Drover.Push (Fields Value stringField)
open Drover.Slave (Client Doc minute second cmdCol commandPath pcPath pcRole slaveRole isRevoked
  listSessions)

variable {α : Type}

/-! ## Arguments -/

/-- The arguments of `read_pane`. -/
structure ReadPaneArgs where
  pc : Bytes
  sid : Bytes
  source : Bytes
  lines : Int
  queueIfOffline : Bool

/-- The arguments of `send_input`. -/
structure SendInputArgs where
  pc : Bytes
  sid : Bytes
  text : Bytes
  keys : List Bytes
  submit : Option Bool
  requireStatus : Bytes
  queueIfOffline : Bool

/-- `pcSIDQueueArgs`. -/
structure InterruptArgs where
  pc : Bytes
  sid : Bytes
  queueIfOffline : Bool

/-- `pcCommandIDArgs`. -/
structure CommandIDArgs where
  pc : Bytes
  commandID : Bytes

/-- A `Server`, and the library functions that its tools call: `json.Unmarshal` into the
arguments of each tool, how `DataTo` reads a value into a string or a bool, SHA-256, the
formats of times, and the text of the errors of the store. -/
structure Server (α : Type) where
  slaveAccess : Bytes
  readPane : Bytes → Option ReadPaneArgs
  sendInput : Bytes → Option SendInputArgs
  interrupt : Bytes → Option InterruptArgs
  commandID : Bytes → Option CommandIDArgs
  /-- `pcSIDFromArgs`. -/
  pcSIDFromArgs : Bytes → Bytes × Bytes
  dataToString : α → Option Bytes
  dataToBool : α → Option Bool
  sha256 : Bytes → Vector UInt8 32
  rfc3339Nano : Nat → Bytes
  parseTime : Bytes → Option Nat
  errorText : Bytes

/-- `decodeArgs`. -/
def decodeArgs {T : Type} (unmarshal : Bytes → Option T) (zero : T) (raw : Bytes) : Option T :=
  if raw = [] then some zero else unmarshal raw

/-- The decoded arguments of `read_pane`. -/
def Server.readPaneArgs (server : Server α) (raw : Bytes) : Option ReadPaneArgs :=
  decodeArgs server.readPane ⟨[], [], [], 0, false⟩ raw

/-- The decoded arguments of `send_input`. -/
def Server.sendInputArgs (server : Server α) (raw : Bytes) : Option SendInputArgs :=
  decodeArgs server.sendInput ⟨[], [], [], [], none, [], false⟩ raw

/-- The decoded arguments of `interrupt`. -/
def Server.interruptArgs (server : Server α) (raw : Bytes) : Option InterruptArgs :=
  decodeArgs server.interrupt ⟨[], [], false⟩ raw

/-- The decoded arguments of `get_command_result`. -/
def Server.commandIDArgs (server : Server α) (raw : Bytes) : Option CommandIDArgs :=
  decodeArgs server.commandID ⟨[], []⟩ raw

/-! ## Results of commands -/

/-- `mcp_results/{id}`. -/
def resultPath (id : Bytes) : Path := docPath (ascii "mcp_results") id

/-- `mcp_audit/{id}`. -/
def auditPath (id : Bytes) : Path := docPath (ascii "mcp_audit") id

/-- The fields of a `map[string]any`. -/
def fieldsOf (entries : List (Bytes × Value α)) : Fields α :=
  fun k => (entries.find? fun entry => entry.1 = k).map Prod.snd

/-- `CommandResult`. -/
structure CommandResult where
  pc : Bytes
  text : Bytes
  truncated : Bool
  createdAt : Bytes
  expireAt : Bytes
  deriving DecidableEq

/-- A string of `DataTo`; a missing field is empty. -/
def Server.dataString (server : Server α) (f : Fields α) (k : Bytes) : Option Bytes :=
  match f k with
  | none => some []
  | some (.string s) => some s
  | some (.int64 _) => none
  | some (.other x) => server.dataToString x

/-- A bool of `DataTo`. -/
def Server.dataBool (server : Server α) (f : Fields α) (k : Bytes) : Option Bool :=
  match f k with
  | none => some false
  | some (.string _) | some (.int64 _) => none
  | some (.other x) => server.dataToBool x

/-- `DataTo` of a `CommandResult`. -/
def Server.commandResult (server : Server α) (f : Fields α) : Option CommandResult := do
  let pc ← server.dataString f (ascii "pc")
  let text ← server.dataString f (ascii "text")
  let truncated ← server.dataBool f (ascii "truncated")
  let createdAt ← server.dataString f (ascii "created_at")
  let expireAt ← server.dataString f (ascii "expire_at")
  return ⟨pc, text, truncated, createdAt, expireAt⟩

/-- What `PutCommandResultFor` writes; `truncated` is the value of a bool. -/
def Server.resultDoc (server : Server α) (pc text : Bytes) (truncated : Value α) (ttl now : Nat) :
    Fields α :=
  fieldsOf [(ascii "pc", .string pc), (ascii "text", .string text), (ascii "truncated", truncated),
    (ascii "created_at", .string (server.rfc3339Nano now)),
    (ascii "expire_at", .string (server.rfc3339Nano (now + ttl)))]

/-- `PutCommandResultFor`, and `PutCommandResult` for the PC of the client. -/
def putCommandResultFor (server : Server α) (pc id text : Bytes) (truncated : Value α)
    (ttl : Nat) : Client α Bool := do
  let now ← Prog.now
  Prog.write (resultPath id) fun _ =>
    some (.fields (server.resultDoc pc text truncated ttl now))

/-- The outcome of a lookup: an error, nothing, or a value. -/
inductive Lookup (T : Type) where
  | error
  | missing
  | found (value : T)

/-- `GetCommandResult`. -/
def getCommandResult (server : Server α) (id : Bytes) : Client α (Lookup CommandResult) := do
  match ← Prog.get (resultPath id) with
  | .found d =>
      match server.commandResult d.data with
      | some r => pure (.found r)
      | none => pure .error
  | _ => pure .missing

/-! ## Commands -/

/-- The text of an error of `PushCommandArgs`. -/
def pushErrorText : Commands.PushError → Bytes
  | .unknownCommand cmd => utf8 "未知のコマンド: " ++ cmd
  | .unknownAgent agent => utf8 "未知のエージェント種別: " ++ agent
  | .emptyKey => utf8 "args に空キーがある"
  | .argsTooLarge => utf8 "args 合計サイズが上限（16384 bytes）超過"

/-- `PushCommandArgs`, for the random bytes of the id: the id, or the text of an error. -/
def pushCommandArgs (server : Server α) (pc cmd sid agent requestedBy source : Bytes)
    (args : List (Bytes × Bytes)) (random : Vector UInt8 12) : Client α (Except Bytes Bytes) :=
  if cmd ∉ Commands.ValidCommands then pure (.error (pushErrorText (.unknownCommand cmd)))
  else if agent ≠ [] ∧ agent ∉ Commands.ValidAgents then
    pure (.error (pushErrorText (.unknownAgent agent)))
  else
    match Commands.validateArgs 0 args with
    | .error e => pure (.error (pushErrorText e))
    | .ok () => do
        let id := encodeHex random.toList
        let now ← Prog.now
        let ok ← Prog.write (commandPath pc id) fun _ =>
          some (.command
            (newCommand id cmd sid agent requestedBy source args (server.rfc3339Nano now)))
        pure (if ok then .ok id else .error server.errorText)

/-- `GetCommand`. -/
def getCommand (pc id : Bytes) : Client α (Lookup Command) := do
  match ← Prog.get (commandPath pc id) with
  | .found (.command cm) => pure (.found cm)
  | .found _ => pure .error
  | _ => pure .missing

/-- `WaitCommand`, for so many snapshots before the deadline: a failed one is an error of
the stream, and `missing` is `timedOut`. -/
def waitCommand (pc id : Bytes) : Nat → Client α (Lookup Command)
  | 0 => pure .missing
  | snapshots + 1 => do
      match ← Prog.get (commandPath pc id) with
      | .failed => pure .error
      | .found (.command cm) =>
          if cm.status = ascii "done" ∨ cm.status = ascii "error" then pure (.found cm)
          else waitCommand pc id snapshots
      | _ => waitCommand pc id snapshots

/-! ## Checks -/

/-- `toolErr`. -/
structure ToolErr where
  code : Bytes
  message : Bytes
  deriving DecidableEq

/-- `pcOnlineWindow`. -/
def pcOnlineWindow : Nat := 10 * minute

/-- `PCLastSeen`: the time, and whether the PC is online. -/
def pcLastSeen (server : Server α) (pc : Bytes) : Client α (Bytes × Bool) := do
  match ← Prog.get (pcPath pc) with
  | .found d =>
      let lastSeen := stringField d.data (ascii "last_seen")
      if lastSeen = [] then pure ([], false)
      else
        match server.parseTime lastSeen with
        | none => pure (lastSeen, false)
        | some t =>
            let now ← Prog.now
            pure (lastSeen, decide (now < t + pcOnlineWindow))
  | _ => pure ([], false)

/-- What `slaveAccess` allows on a shared PC; any other value allows nothing. -/
def Server.allows (server : Server α) (need : Bytes) : Bool :=
  if server.slaveAccess = ascii "full" then true
  else if server.slaveAccess = ascii "read" then need = ascii "read"
  else false

/-- `slaveAllowed`; `PCRole` returns no error. -/
def slaveAllowed (server : Server α) (pc need : Bytes) : Client α Bool := do
  let role ← pcRole pc
  if role ≠ slaveRole then pure true else pure (server.allows need)

/-- `precheckPC`; `PCLastSeen` returns no error. -/
def precheckPC (server : Server α) (pc need : Bytes) (queueIfOffline : Bool) :
    Client α (Option ToolErr) := do
  if ← slaveAllowed server pc need then
    if ← isRevoked pc then
      pure (some ⟨ascii "forbidden", utf8 "この PC はペアリング解除済みです"⟩)
    else if queueIfOffline then pure none
    else
      let (_, online) ← pcLastSeen server pc
      if online then pure none
      else
        pure (some ⟨ascii "pc_offline",
          utf8 "PC がオフラインです（queue_if_offline:true で投入可）"⟩)
  else
    pure (some ⟨ascii "forbidden",
      utf8 "共用PC（slave）への" ++ need ++
        utf8 "アクセスは許可されていません（MCP_SLAVE_ACCESS）"⟩)

/-! ## Tools -/

/-- The value that a tool returns. -/
inductive ToolResult where
  | pending (commandID : Bytes)
  | pane (text : Bytes) (truncated : Bool) (agentStatus capturedAt : Bytes)
  | sent (commandID status agentStatusAfter : Bytes)
  | interrupted (commandID status : Bytes)
  | command (status detail finishedAt : Bytes) (result : Option (Bytes × Bool))
  deriving DecidableEq

/-- What comes with a call besides its arguments: its bearer, the random bytes that it
draws, and the snapshots of its command before the deadline. -/
structure Context where
  vt : VerifiedToken
  random : Vector UInt8 12
  snapshots : Nat

/-- What a tool returns. -/
abbrev ToolReply := Except ToolErr ToolResult

/-- `requestedByFor`. -/
def requestedByFor (vt : VerifiedToken) : Bytes :=
  ascii "mcp:" ++ vt.email ++ ascii ":" ++ vt.clientID

/-- `sendInputExpiry`. -/
def sendInputExpiry : Nat := 5 * minute

/-- `sessionAgentStatus`. -/
def sessionAgentStatus (pc sid : Bytes) : Client α Bytes := do
  let ss ← listSessions pc
  match (ss.getD []).find? fun x => stringField x (ascii "key") = sid with
  | some x => pure (stringField x (ascii "agent_status"))
  | none => pure []

/-- Queue a command and wait until it is done, as `toolReadPane`, `toolSendInput` and
`toolInterrupt` do after their checks; `finish` is what they do with it then. -/
def queueAndWait (server : Server α) (ctx : Context) (pc cmd sid : Bytes)
    (args : List (Bytes × Bytes)) (finish : Bytes → Command → Client α ToolReply) :
    Client α ToolReply := do
  match ← pushCommandArgs server pc cmd sid [] (requestedByFor ctx.vt) (ascii "mcp") args
      ctx.random with
  | .error text => pure (.error ⟨ascii "invalid_request", text⟩)
  | .ok id =>
      match ← waitCommand pc id ctx.snapshots with
      | .error => pure (.error ⟨ascii "server_error", server.errorText⟩)
      | .missing => pure (.ok (.pending id))
      | .found cm =>
          if cm.status = ascii "error" then pure (.error ⟨ascii "agent_error", cm.detail⟩)
          else finish id cm

/-- `toolReadPane`. -/
def toolReadPane (server : Server α) (ctx : Context) (raw : Bytes) : Client α ToolReply :=
  match server.readPaneArgs raw with
  | none => pure (.error ⟨ascii "invalid_request", utf8 "pc/sid が必要"⟩)
  | some a =>
      if a.pc = [] ∨ a.sid = [] then
        pure (.error ⟨ascii "invalid_request", utf8 "pc/sid が必要"⟩)
      else if a.lines < 0 ∨ 500 < a.lines then
        pure (.error ⟨ascii "invalid_request", utf8 "lines は 0〜500"⟩)
      else do
        match ← precheckPC server a.pc (ascii "read") a.queueIfOffline with
        | some terr => pure (.error terr)
        | none =>
            let args :=
              (if a.source ≠ [] then [(ascii "source", a.source)] else []) ++
                if 0 < a.lines then [(ascii "lines", ascii (toString a.lines))] else []
            queueAndWait server ctx a.pc (ascii "read-pane") a.sid args fun id _ => do
              match ← getCommandResult server id with
              | .error => pure (.error ⟨ascii "server_error", server.errorText⟩)
              | .missing =>
                  let status ← sessionAgentStatus a.pc a.sid
                  pure (.ok (.pane [] false status []))
              | .found res =>
                  let status ← sessionAgentStatus a.pc a.sid
                  pure (.ok (.pane res.text res.truncated status res.createdAt))

/-- `toolSendInput`. -/
def toolSendInput (server : Server α) (ctx : Context) (raw : Bytes) : Client α ToolReply :=
  match server.sendInputArgs raw with
  | none => pure (.error ⟨ascii "invalid_request", utf8 "pc/sid が必要"⟩)
  | some a =>
      if a.pc = [] ∨ a.sid = [] then
        pure (.error ⟨ascii "invalid_request", utf8 "pc/sid が必要"⟩)
      else if decide (a.text ≠ []) = decide (0 < a.keys.length) then
        pure (.error ⟨ascii "invalid_request", utf8 "text と keys はどちらか一方が必須（排他）"⟩)
      else do
        match ← precheckPC server a.pc (ascii "full") a.queueIfOffline with
        | some terr => pure (.error terr)
        | none =>
            let now ← Prog.now
            let input :=
              if a.text ≠ [] then
                [(ascii "text", a.text),
                  (ascii "submit", ascii (if a.submit.getD true then "true" else "false"))]
              else [(ascii "keys", (ascii ",").intercalate a.keys)]
            let args :=
              (ascii "expires_at", server.rfc3339Nano (now + sendInputExpiry)) :: input ++
                if a.requireStatus ≠ [] then [(ascii "require_status", a.requireStatus)] else []
            queueAndWait server ctx a.pc (ascii "send-input") a.sid args fun id cm => do
              let status ← sessionAgentStatus a.pc a.sid
              pure (.ok (.sent id cm.status status))

/-- `toolInterrupt`. -/
def toolInterrupt (server : Server α) (ctx : Context) (raw : Bytes) : Client α ToolReply :=
  match server.interruptArgs raw with
  | none => pure (.error ⟨ascii "invalid_request", utf8 "pc/sid が必要"⟩)
  | some a =>
      if a.pc = [] ∨ a.sid = [] then
        pure (.error ⟨ascii "invalid_request", utf8 "pc/sid が必要"⟩)
      else do
        match ← precheckPC server a.pc (ascii "full") a.queueIfOffline with
        | some terr => pure (.error terr)
        | none =>
            let now ← Prog.now
            let args := [(ascii "expires_at", server.rfc3339Nano (now + sendInputExpiry))]
            queueAndWait server ctx a.pc (ascii "interrupt") a.sid args fun id cm =>
              pure (.ok (.interrupted id cm.status))

/-- `toolGetCommandResult`. -/
def toolGetCommandResult (server : Server α) (raw : Bytes) : Client α ToolReply :=
  match server.commandIDArgs raw with
  | none => pure (.error ⟨ascii "invalid_request", utf8 "pc/command_id が必要"⟩)
  | some a =>
      if a.pc = [] ∨ a.commandID = [] then
        pure (.error ⟨ascii "invalid_request", utf8 "pc/command_id が必要"⟩)
      else do
        match ← getCommand a.pc a.commandID with
        | .error => pure (.error ⟨ascii "server_error", server.errorText⟩)
        | .missing => pure (.error ⟨ascii "not_found", utf8 "command_id が見つかりません"⟩)
        | .found cm =>
            match ← getCommandResult server a.commandID with
            | .found res =>
                pure (.ok (.command cm.status cm.detail cm.finishedAt
                  (some (res.text, res.truncated))))
            | _ => pure (.ok (.command cm.status cm.detail cm.finishedAt none))

/-! ## Calls of tools -/

/-- The tools of `tools_input.go`. -/
inductive ToolName where
  | readPane
  | sendInput
  | interrupt
  | getCommandResult
  deriving DecidableEq

/-- The name as a request has it. -/
def ToolName.text : ToolName → Bytes
  | readPane => ascii "read_pane"
  | sendInput => ascii "send_input"
  | interrupt => ascii "interrupt"
  | getCommandResult => ascii "get_command_result"

/-- The scope of a `toolTier`. -/
def ToolName.scope : ToolName → Bytes
  | readPane | getCommandResult => ascii "drover.read"
  | sendInput | interrupt => ascii "drover.input"

/-- The rate class of a `toolTier`. -/
def ToolName.rateClass : ToolName → Bytes
  | readPane | getCommandResult => ascii "read"
  | sendInput | interrupt => ascii "input"

/-- A call of `tools/call`, with what the limiter says of it and the id of its record in
the audit. -/
structure Request where
  ctx : Context
  tool : ToolName
  arguments : Bytes
  allowed : Bool
  auditID : Bytes

/-- The tool of a request. -/
def Server.tool (server : Server α) (req : Request) : Client α ToolReply :=
  match req.tool with
  | .readPane => toolReadPane server req.ctx req.arguments
  | .sendInput => toolSendInput server req.ctx req.arguments
  | .interrupt => toolInterrupt server req.ctx req.arguments
  | .getCommandResult => toolGetCommandResult server req.arguments

/-- `argsDigest`. -/
def Server.argsDigest (server : Server α) (raw : Bytes) : Bytes :=
  encodeHex ((server.sha256 raw).toList.take 8)

/-- `mcpAuditTTL`. -/
def mcpAuditTTL : Nat := 90 * 24 * 60 * minute

/-- `WriteMCPAudit`. -/
def writeMCPAudit (server : Server α) (req : Request) (resultCode : Bytes) : Client α Bool := do
  let now ← Prog.now
  let (pc, sid) := server.pcSIDFromArgs req.arguments
  Prog.write (auditPath req.auditID) fun _ =>
    some (.fields (fieldsOf [
      (ascii "ts", .string (server.rfc3339Nano now)),
      (ascii "email", .string req.ctx.vt.email),
      (ascii "client_id", .string []),
      (ascii "tool", .string req.tool.text),
      (ascii "pc", .string pc),
      (ascii "sid", .string sid),
      (ascii "args_digest", .string (server.argsDigest req.arguments)),
      (ascii "result_code", .string resultCode),
      (ascii "expire_at", .string (server.rfc3339Nano (now + mcpAuditTTL)))]))

/-- `handleToolsCall`. -/
def handleToolsCall (server : Server α) (req : Request) : Client α ToolReply :=
  if req.ctx.vt.scopes req.tool.scope = false then
    pure (.error ⟨ascii "forbidden",
      utf8 "スコープ " ++ req.tool.scope ++ utf8 " がありません"⟩)
  else if req.allowed = false then
    pure (.error ⟨ascii "rate_limited",
      utf8 "レート制限を超過しました（" ++ req.tool.rateClass ++ utf8 "）"⟩)
  else do
    let reply ← server.tool req
    let _ ← writeMCPAudit server req
      (match reply with
      | .error terr => terr.code
      | .ok _ => ascii "ok")
    pure reply

/-- One step of the store and the calls. -/
abbrev Server.step (server : Server α) := Store.step (handleToolsCall server)

end Drover.Mcp
