import Drover.Mcp.Gate
import Drover.Mcp.GlassesAnswer
import Drover.Mcp.RateLimit
import Drover.Mcp.ReadTools

/-!
# The MCP server

`Verify` reads the token of a request of `/mcp`.  Then the request is answered at once, by
`RequireBearer`, `serveMCP` or the first half of `handleToolsCall`, or it is admitted and its
tool runs.  What comes between `Verify` and the tool is one step, in which the limiter may be
asked; all else goes on operation by operation, with those of the others in between.
-/

namespace Drover.Mcp

open Drover.Store Drover.Transition
open Drover.Commands (newCommand)
open Drover.OAuth.Endpoint (VerifiedToken)
open Drover.Push (PushEntry stringField)
open Drover.Slave (Client Delivery Doc cmdCol commandPath second)

variable {α : Type}

/-! ## Requests and responses -/

/-- `rpcRequest`; the id and the parameters are JSON. -/
structure RpcRequest where
  jsonrpc : Bytes
  id : Bytes
  method : Bytes
  params : Bytes

/-- `toolCallParams`. -/
structure ToolCallParams where
  name : Bytes
  arguments : Bytes

/-- The `Server`, with `json.Decoder` and `json.Unmarshal` for the requests, the format of
the times of answers, its `oauth.Server`, and whether `SetGlasses` has set a store. -/
structure RpcServer (α : Type) extends ReadServer α where
  decodeRPC : Bytes → Option RpcRequest
  toolCallParams : Bytes → Option ToolCallParams
  glassesAnswer : Bytes → Option GlassesAnswerArgs
  rfc3339 : Nat → Bytes
  oauth : OAuth.Endpoint.Server
  glasses : Bool

/-- The annotations of a tool in `toolDefs`. -/
structure ToolDef where
  name : Bytes
  readOnly : Bool
  destructive : Bool
  idempotent : Bool
  deriving DecidableEq

/-- The value that a tool returns. -/
inductive Result where
  | input (result : ToolResult)
  | read (result : ReadResult)
  | answered (result : GlassesAnswered)
  deriving DecidableEq

/-- What a tool returns. -/
abbrev Reply := Except ToolErr Result

/-- What a request to `/mcp` is answered with. -/
inductive Response where
  /-- 401, with the `WWW-Authenticate`. -/
  | unauthorized (authenticate : Bytes)
  /-- 405. -/
  | methodNotAllowed
  /-- An `rpcError`. -/
  | rpcError (id : Bytes) (code : Int) (message : Bytes)
  | initialized (id protocolVersion : Bytes)
  | pong (id : Bytes)
  | tools (id : Bytes) (defs : List ToolDef)
  /-- `writeToolErrorResult`. -/
  | toolError (id : Bytes) (terr : ToolErr)
  /-- `writeToolResult`. -/
  | toolResult (id : Bytes) (result : Result)
  deriving DecidableEq

/-- A request of `/mcp`: its `Authorization`, its method and body, and what its tool draws
and is brought. -/
structure HttpRequest where
  authorization : Bytes
  method : Bytes
  body : Bytes
  random : Vector UInt8 12
  snapshots : Nat
  arrivals : List Arrival
  auditID : Bytes

/-- A request with what `Verify` says of it. -/
structure VerifiedRequest extends HttpRequest where
  bearer : Option VerifiedToken

/-- What a tool is called with. -/
structure ToolCall where
  ctx : Context
  arrivals : List Arrival
  auditID : Bytes
  name : Bytes
  arguments : Bytes

/-- `toolTier`; the class is one that a key of the limiter can hold. -/
structure ToolTier (α : Type) where
  scope : Bytes
  rateClass : Bytes
  clean : pipe ∉ rateClass
  fn : RpcServer α → ToolCall → Client α Reply

/-- A call that has passed the checks of `handleToolsCall`. -/
structure Admitted (α : Type) where
  id : Bytes
  tier : ToolTier α
  call : ToolCall

/-! ## Tools -/

/-- The call of a tool of `tools_input.go`, which has been allowed. -/
def ToolCall.request (call : ToolCall) (tool : ToolName) : Request where
  ctx := call.ctx
  tool := tool
  arguments := call.arguments
  allowed := true
  auditID := call.auditID

/-- A tool of `tools_input.go`. -/
def inputTool (tool : ToolName) : ToolTier α where
  scope := tool.scope
  rateClass := tool.rateClass
  clean := pipe_notMem_rateClass tool
  fn server call := do
    let reply ← server.tool (call.request tool)
    pure (reply.map .input)

/-- A tool of `tools_read.go`. -/
def readTool (fn : RpcServer α → ToolCall → Client α ReadReply) : ToolTier α where
  scope := ascii "drover.read"
  rateClass := ascii "read"
  clean := by decide
  fn server call := do
    let reply ← fn server call
    pure (reply.map .read)

/-- `wait_for_status`. -/
def waitTool : ToolTier α where
  scope := ascii "drover.input"
  rateClass := ascii "input"
  clean := by decide
  fn server call :=
    let args := decodeArgs server.waitForStatus ⟨[], [], [], 0⟩ call.arguments
    pure ((toolWaitForStatus call.arrivals args).map fun wait => .read (.status wait))

/-- The tier of `glassesTier`. -/
def glassesTool : ToolTier α where
  scope := ascii "drover.input"
  rateClass := ascii "input"
  clean := by decide
  fn server call := do
    let args := decodeArgs server.glassesAnswer ⟨[], [], []⟩ call.arguments
    let reply ← toolGlassesAnswer server.rfc3339 args
    pure (reply.map .answered)

/-- `toolRegistry`. -/
def toolRegistry : List (Bytes × ToolTier α) :=
  [(ascii "list_machines", readTool fun server _ => toolListMachines server.toReadServer),
    (ascii "list_sessions",
      readTool fun server call => toolListSessions server.toReadServer call.arguments),
    (ascii "get_session",
      readTool fun server call => toolGetSession server.toReadServer call.arguments),
    (ascii "list_commands",
      readTool fun server call => toolListCommands server.toReadServer call.arguments),
    (ascii "wait_for_status", waitTool),
    (ascii "read_pane", inputTool .readPane),
    (ascii "send_input", inputTool .sendInput),
    (ascii "interrupt", inputTool .interrupt),
    (ascii "get_command_result", inputTool .getCommandResult)]

/-- `glassesTier`. -/
def RpcServer.glassesTier (server : RpcServer α) (name : Bytes) : Option (ToolTier α) :=
  if server.glasses = false ∨ name ≠ glassesAnswerTool then none else some glassesTool

/-- The tier that `handleToolsCall` finds. -/
def RpcServer.tier (server : RpcServer α) (name : Bytes) : Option (ToolTier α) :=
  match toolRegistry.lookup name with
  | some tier => some tier
  | none => server.glassesTier name

/-- `toolDef`. -/
def toolDef (name : Bytes) : ToolDef := ⟨name, true, false, true⟩

/-- `toolDefs`. -/
def toolDefs : List ToolDef :=
  [toolDef (ascii "list_machines"), toolDef (ascii "list_sessions"),
    toolDef (ascii "get_session"), toolDef (ascii "list_commands"),
    toolDef (ascii "wait_for_status"),
    ⟨ascii "read_pane", true, false, true⟩, ⟨ascii "send_input", false, false, false⟩,
    ⟨ascii "interrupt", false, false, false⟩, toolDef (ascii "get_command_result")]

/-- `glassesAnswerDef`. -/
def glassesAnswerDef : ToolDef := ⟨glassesAnswerTool, false, false, true⟩

/-- `toolList`. -/
def RpcServer.toolList (server : RpcServer α) : List ToolDef :=
  if server.glasses = false then toolDefs else toolDefs ++ [glassesAnswerDef]

/-! ## Before a tool -/

/-- `protocolVersion`. -/
def protocolVersion : Bytes := ascii "2025-06-18"

/-- `maxBodyBytes`. -/
def maxBodyBytes : Nat := 2 ^ 20

/-- The time of the limiter, in seconds. -/
def reading (now : Nat) : ℚ := now / second

/-- The refusal of the limiter. -/
def rateLimited (rateClass : Bytes) : ToolErr :=
  ⟨ascii "rate_limited", utf8 "レート制限を超過しました（" ++ rateClass ++ utf8 "）"⟩

/-- `handleToolsCall`, until its tool is called. -/
def admitCall (server : RpcServer α) (l : Limiter) (now : Nat) (vt : VerifiedToken)
    (req : VerifiedRequest) (rpc : RpcRequest) : Limiter × Except Response (Admitted α) :=
  match server.toolCallParams rpc.params with
  | none => (l, .error (.rpcError rpc.id (-32602) (ascii "invalid params")))
  | some p =>
      match server.tier p.name with
      | none =>
          (l, .error (.toolError rpc.id ⟨ascii "not_found", ascii "unknown tool: " ++ p.name⟩))
      | some tier =>
          if vt.scopes tier.scope = false then
            (l, .error (.toolError rpc.id
              ⟨ascii "forbidden", utf8 "スコープ " ++ tier.scope ++ utf8 " がありません"⟩))
          else
            match l.allow ⟨vt.email, tier.rateClass, tier.clean, reading now⟩ with
            | (false, l) => (l, .error (.toolError rpc.id (rateLimited tier.rateClass)))
            | (true, l) =>
                (l, .ok ⟨rpc.id, tier,
                  ⟨⟨vt, req.random, req.snapshots⟩, req.arrivals, req.auditID, p.name,
                    p.arguments⟩⟩)

/-- `serveMCP`. -/
def serveMCP (server : RpcServer α) (l : Limiter) (now : Nat) (vt : VerifiedToken)
    (req : VerifiedRequest) : Limiter × Except Response (Admitted α) :=
  if req.method ≠ ascii "POST" then (l, .error .methodNotAllowed)
  else
    match server.decodeRPC (req.body.take maxBodyBytes) with
    | none => (l, .error (.rpcError [] (-32700) (ascii "parse error")))
    | some rpc =>
        if rpc.jsonrpc ≠ ascii "2.0" ∨ rpc.method = [] then
          (l, .error (.rpcError rpc.id (-32600) (ascii "invalid request")))
        else if rpc.method = ascii "initialize" then
          (l, .error (.initialized rpc.id protocolVersion))
        else if rpc.method = ascii "ping" then (l, .error (.pong rpc.id))
        else if rpc.method = ascii "tools/list" then (l, .error (.tools rpc.id server.toolList))
        else if rpc.method = ascii "tools/call" then admitCall server l now vt req rpc
        else
          (l, .error (.rpcError rpc.id (-32601) (ascii "method not found: " ++ rpc.method)))

/-- `Handler`: `serveMCP` behind `RequireBearer`. -/
def handler (server : RpcServer α) (l : Limiter) (now : Nat) (req : VerifiedRequest) :
    Limiter × Except Response (Admitted α) :=
  match req.bearer with
  | none =>
      (l, .error (.unauthorized (ascii "Bearer resource_metadata=\"" ++ server.oauth.selfBase ++
        ascii "/.well-known/oauth-protected-resource\"")))
  | some vt => serveMCP server l now vt req

/-- A request that passes all checks but that of the limiter, and how it is admitted. -/
inductive Admits (server : RpcServer α) (req : VerifiedRequest) : Admitted α → Prop
  | intro {vt : VerifiedToken} {rpc : RpcRequest} {p : ToolCallParams} {tier : ToolTier α}
      (bearer : req.bearer = some vt) (post : req.method = ascii "POST")
      (decoded : server.decodeRPC (req.body.take maxBodyBytes) = some rpc)
      (version : rpc.jsonrpc = ascii "2.0") (method : rpc.method = ascii "tools/call")
      (params : server.toolCallParams rpc.params = some p)
      (registered : server.tier p.name = some tier)
      (scope : vt.scopes tier.scope = true) :
      Admits server req
        ⟨rpc.id, tier, ⟨⟨vt, req.random, req.snapshots⟩, req.arrivals, req.auditID, p.name,
          p.arguments⟩⟩

/-- What the limiter is asked for an admissible request. -/
def Admitted.asks (adm : Admitted α) (now : Nat) : Call :=
  ⟨adm.call.ctx.vt.email, adm.tier.rateClass, adm.tier.clean, reading now⟩

section

variable {server : RpcServer α} {req : VerifiedRequest} {adm : Admitted α}

/-- The limiter decides about an admissible request. -/
theorem Admits.handler (admits : Admits server req adm) (l : Limiter) (now : Nat) :
    handler server l now req = ((l.allow (adm.asks now)).2,
      if (l.allow (adm.asks now)).1 = true then .ok adm
      else .error (.toolError adm.id (rateLimited adm.tier.rateClass))) := by
  obtain ⟨bearer, post, decoded, version, method, params, registered, scope⟩ := admits
  rw [Mcp.handler, bearer]
  simp only
  rw [serveMCP, if_neg (not_not_intro post), decoded]
  simp only
  rw [if_neg (by rw [version, method]; decide), if_neg (by rw [method]; decide),
    if_neg (by rw [method]; decide), if_neg (by rw [method]; decide), if_pos method, admitCall,
    params]
  simp only
  rw [registered]
  simp only
  rw [if_neg (by rw [scope]; decide)]
  rw [Admitted.asks]
  rcases l.allow _ with ⟨told, l⟩
  cases told <;> rfl

/-- Any other request is refused, and the limiter is not asked. -/
theorem handler_refuses (refused : ∀ adm, ¬ Admits server req adm) :
    ∃ response, ∀ l now, Mcp.handler server l now req = (l, .error response) := by
  cases bearer : req.bearer with
  | none => exact ⟨_, fun l now => by rw [Mcp.handler, bearer]⟩
  | some vt =>
      simp only [Mcp.handler, bearer, serveMCP]
      split
      · exact ⟨_, fun l now => rfl⟩
      · rename_i post
        split
        · exact ⟨_, fun l now => rfl⟩
        · rename_i rpc decoded
          split
          · exact ⟨_, fun l now => rfl⟩
          · rename_i valid
            split
            · exact ⟨_, fun l now => rfl⟩
            · split
              · exact ⟨_, fun l now => rfl⟩
              · split
                · exact ⟨_, fun l now => rfl⟩
                · split
                  · rename_i method
                    rw [not_or, not_not] at valid
                    simp only [admitCall]
                    split
                    · exact ⟨_, fun l now => rfl⟩
                    · rename_i p params
                      split
                      · exact ⟨_, fun l now => rfl⟩
                      · rename_i tier registered
                        split
                        · exact ⟨_, fun l now => rfl⟩
                        · rename_i scope
                          rw [Bool.not_eq_false] at scope
                          exact absurd (.intro bearer (not_not.mp post) decoded valid.1 method
                            params registered scope) (refused _)
                  · exact ⟨_, fun l now => rfl⟩

end

/-! ## A tool -/

/-- What `WriteMCPAudit` writes; `handleToolsCall` leaves out the client. -/
def auditRecord (server : RpcServer α) (call : ToolCall) (resultCode : Bytes) (now : Nat) :
    Doc α :=
  let (pc, sid) := server.pcSIDFromArgs call.arguments
  .fields (fieldsOf [
    (ascii "ts", .string (server.rfc3339Nano now)),
    (ascii "email", .string call.ctx.vt.email),
    (ascii "client_id", .string []),
    (ascii "tool", .string call.name),
    (ascii "pc", .string pc),
    (ascii "sid", .string sid),
    (ascii "args_digest", .string (server.argsDigest call.arguments)),
    (ascii "result_code", .string resultCode),
    (ascii "expire_at", .string (server.rfc3339Nano (now + mcpAuditTTL)))])

/-- Its write. -/
def auditOp (server : RpcServer α) (call : ToolCall) (resultCode : Bytes) (now : Nat) :
    Op (Doc α) PushEntry Delivery :=
  .write (auditPath call.auditID) fun _ => some (auditRecord server call resultCode now)

/-- `WriteMCPAudit`. -/
def writeAudit (server : RpcServer α) (call : ToolCall) (resultCode : Bytes) : Client α Bool := do
  let now ← Prog.now
  Prog.op (auditOp server call resultCode now) .reply

/-- The `result_code` of the audit record. -/
def resultCode : Reply → Bytes
  | .error terr => terr.code
  | .ok _ => ascii "ok"

/-- The response with the reply of the tool. -/
def toolResponse (id : Bytes) : Reply → Response
  | .error terr => .toolError id terr
  | .ok result => .toolResult id result

/-- `handleToolsCall`, from the call of its tool. -/
def runTool (server : RpcServer α) (adm : Admitted α) : Client α Response := do
  let reply ← adm.tier.fn server adm.call
  let _ ← writeAudit server adm.call (resultCode reply)
  pure (toolResponse adm.id reply)

theorem writeMCPAudit_request (server : RpcServer α) {call : ToolCall} {tool : ToolName}
    (isTool : call.name = tool.text) (code : Bytes) :
    writeMCPAudit server.toServer (call.request tool) code = writeAudit server call code := by
  have sameTool : (call.request tool).tool.text = call.name := isTool.symm
  simp only [writeMCPAudit, writeAudit, auditOp, auditRecord, sameTool]
  rfl

/-- A tool of `tools_input.go` runs as `handleToolsCall` does for an allowed request. -/
theorem runTool_inputTool (server : RpcServer α) {call : ToolCall} {tool : ToolName}
    (isTool : call.name = tool.text) (scope : call.ctx.vt.scopes tool.scope = true) (id : Bytes) :
    runTool server ⟨id, inputTool tool, call⟩ =
      handleToolsCall server.toServer (call.request tool) >>= fun reply =>
        pure (toolResponse id (reply.map .input)) := by
  rw [handleToolsCall, if_neg (by rw [ToolCall.request, scope]; decide),
    if_neg Bool.noConfusion, Prog.bind_assoc, runTool]
  simp only [inputTool, Prog.bind_assoc]
  apply congrArg
  funext reply
  rw [writeMCPAudit_request server isTool]
  cases reply <;> rfl

/-! ## A process -/

/-- The path of a token. -/
def tokenPath (tokenHash : Bytes) : Path := docPath (ascii "oauth_tokens") tokenHash

/-- The token in a document. -/
def tokenOf : Snapshot (Doc α) → Option OAuth.OAuthToken
  | .found (.token t) => some t
  | _ => none

/-- The document that `Verify` reads. -/
def RpcServer.bearerPath (server : RpcServer α) (authHeader : Bytes) : Path :=
  tokenPath (server.oauth.sha256Hex
    (trimSpace (authHeader.drop OAuth.Endpoint.bearerPrefix.length)))

/-- `Verify`: the token is read, if the header has one. -/
def RpcServer.verify (server : RpcServer α) (authHeader : Bytes) :
    Client α (Option VerifiedToken) :=
  if ¬ OAuth.Endpoint.bearerPrefix.isPrefixOf authHeader ∨
      trimSpace (authHeader.drop OAuth.Endpoint.bearerPrefix.length) = [] then pure none
  else do
    let snap ← Prog.get (server.bearerPath authHeader)
    let now ← Prog.now
    pure (server.oauth.verify (fun _ => tokenOf snap) now authHeader)

/-- A request behind `Verify`, and what has become of it. -/
structure Received (α : Type) where
  request : VerifiedRequest
  decision : Except Response (Admitted α)

/-- What is left to do for it. -/
def Received.program (server : RpcServer α) (received : Received α) : Client α Response :=
  match received.decision with
  | .error response => pure response
  | .ok adm => runTool server adm

/-- The two parts of a request: `Verify`, and what comes behind it. -/
inductive Stage (α : Type) where
  | verify (req : HttpRequest)
  | serve (received : Received α)

/-- How a part ends. -/
inductive Ended where
  | verified (bearer : Option VerifiedToken)
  | responded (response : Response)

/-- The program of a part. -/
def Stage.program (server : RpcServer α) : Stage α → Client α Ended
  | .verify req => do
      let bearer ← server.verify req.authorization
      pure (.verified bearer)
  | .serve received => do
      let response ← received.program server
      pure (.responded response)

/-- The calls of the parts of a request. -/
def verifyCall (r : Nat) : Nat := 2 * r

/-- The call of the server's process for the request `r`. -/
def serveCall (r : Nat) : Nat := 2 * r + 1

/-- A process of the server, with its limiter, over a store. -/
structure Process (α : Type) where
  limiter : Limiter := newLimiter
  state : State (Stage α) (Doc α) PushEntry Delivery Ended := {}

/-- What happens to a process. -/
inductive Occurrence (α : Type) where
  | tick (now : Nat)
  | external (path : Path) (doc : Option (Doc α))
  /-- A request comes in. -/
  | receive (r : Nat) (req : HttpRequest)
  /-- `Verify` has returned, and the request is served. -/
  | serve (r : Nat)
  /-- A part of a request goes on. -/
  | advance (q : Nat) (choice : Choice)

/-- What `Verify` has returned for a request. -/
def Process.verified (p : Process α) (r : Nat) : Option VerifiedRequest :=
  match p.state.calls (verifyCall r) with
  | some ⟨.verify req, _, .reply (.verified bearer)⟩ => some { req with bearer := bearer }
  | _ => none

/-- The limiter after an occurrence, and what happens to the calls. -/
def Process.enter (server : RpcServer α) (p : Process α) :
    Occurrence α → Option (Limiter × Label (Stage α) (Doc α))
  | .tick now => some (p.limiter, .tick now)
  | .external path doc => some (p.limiter, .external path doc)
  | .receive r req => some (p.limiter, .begin (verifyCall r) (.verify req))
  | .serve r =>
      (p.verified r).map fun req =>
        let (l, decision) := handler server p.limiter p.state.machine.clock req
        (l, .begin (serveCall r) (.serve ⟨req, decision⟩))
  | .advance q choice => some (p.limiter, .advance q choice)

/-- One step of a process. -/
def RpcServer.step (server : RpcServer α) : Step (Process α) (Occurrence α) :=
  fun p o =>
    (p.enter server o).bind fun (l, label) =>
      (Store.step (Stage.program server) p.state label).map fun state => ⟨l, state⟩

end Drover.Mcp
