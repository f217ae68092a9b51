import Drover.Commands.Audit
import Drover.Mcp.ReadTools
import Drover.OAuth.Login
import Drover.Slave.Commands
import Drover.Slave.Listed
import Drover.Web.WebhookSettings

/-!
# The owner's API

The browser of the owner signs in with a Google account and calls `/api/*` with the
cookie that it gets.  The login of `/oauth/*` gives out the same cookies, under the
same key.  The endpoints of shared PCs run in the same process, on the same store.
-/

namespace Drover.Web.Api

open Drover.Commands (Command recentCommands)
open Drover.Net
open Drover.OAuth.Endpoint (CallbackRequest LoginReply LoginServer Method accountToken)
open Drover.Push (Fields stringField)
open Drover.Slave (Client Doc jsonError listPCs listSessions second)
open Drover.Store
open Drover.WebAuth (Signer Token)

variable {α : Type}

/-! ## Servers -/

/-- The byte between the emails. -/
def comma : UInt8 := 0x2c

/-- The `allowed` of `New`. -/
def allowedOf (toLower : Bytes → Bytes) (allowedEmails : Bytes) : List Bytes :=
  ((allowedEmails.splitOn comma).map fun e => toLower (trimSpace e)).filter (· ≠ [])

/-- The `Server` of the relay.  `web.New` and `oauth.New` get the same key, client id
and list of emails, and make the same of them. -/
structure ApiServer (α : Type) extends Slave.Server α where
  login : LoginServer
  /-- HMAC-SHA256. -/
  hmac : Bytes → Bytes → Bytes
  /-- `WEB_SIGNING_KEY`. -/
  signingKey : Bytes
  /-- `ALLOWED_EMAILS`. -/
  allowedEmails : Bytes
  isSigner : login.signer = WebAuth.newSigner hmac signingKey
  isAllowed : ∀ email, login.allowed email = decide (email ∈ allowedOf login.toLower allowedEmails)
  parseURL : ParseURL
  /-- The value is the `bool` true. -/
  isTrue : Push.Value α → Bool

/-- `signer`. -/
def ApiServer.signer (server : ApiServer α) : Signer := server.login.signer

/-! ## Signing in -/

/-- `authGoogle`. -/
def ApiServer.authGoogle (server : ApiServer α) (now : Nat) (r : CallbackRequest) : LoginReply :=
  if r.method ≠ .post then .error 405 (utf8 "POST のみ")
  else server.login.signIn now r (ascii "/")

/-! ## Requests and answers -/

/-- A request to `/api/*`; `cookie` is the value of `cm_session`, and `body` is that
of a form. -/
structure ApiRequest where
  method : Method
  query : Bytes
  body : Bytes
  cookie : Option Bytes
  userAgent : Bytes

/-- `r.URL.Query().Get(..)`. -/
def ApiRequest.param (r : ApiRequest) (name : String) : Bytes :=
  (parseQuery r.query).get (ascii name)

/-- `r.FormValue(..)`, of a `POST`. -/
def ApiRequest.formValue (r : ApiRequest) (name : String) : Bytes :=
  Values.get (parseQuery r.body ++ parseQuery r.query) (ascii name)

/-- The endpoints, with what their handlers draw or decode. -/
inductive Endpoint where
  | pcs
  | devices
  | sessions
  | pushToken
  | deletePC
  | command (random : Vector UInt8 12)
  | commands
  | enroll (code : Option Bytes)
  | webhook (decoded : Option WebhookSaveRequest)

/-- An entry of `apiDevices`. -/
structure DeviceRow where
  id : Bytes
  sessions : Nat
  active : Nat
  cmVersion : Bytes
  deriving DecidableEq

/-- What the process answers. -/
inductive ApiReply (α : Type) where
  /-- An answer as the endpoints of shared PCs give it. -/
  | plain (reply : Slave.Reply)
  | signIn (reply : LoginReply)
  | pcs (ids : List Bytes)
  | devices (rows : List DeviceRow)
  | sessions (docs : List (Fields α))
  | pushed (id : Bytes)
  | webhook (enabled : Bool) (url headerName : Bytes) (hasSecret : Bool)
  | saved (answer : SaveAnswer)

/-- An error in JSON. -/
def ApiReply.fail (status : Nat) (name : String) : ApiReply α := .plain (jsonError status name)

/-! ## Handlers -/

/-- `devicePCs`. -/
def devicePCs (t : Token) : Client α (List Bytes) :=
  if t.scope = accountScope then do
    let ps ← listPCs
    pure (ps.getD [])
  else pure [t.scope]

/-- `apiPCs`. -/
def apiPCs (t : Token) : Client α (ApiReply α) := do
  let pcs ← devicePCs t
  pure (.pcs pcs)

/-- A round of `apiDevices`. -/
def deviceRow (server : ApiServer α) (pc : Bytes) : Client α DeviceRow := do
  let ss ← listSessions pc
  let ss := ss.getD []
  let cmv ← Mcp.pcVersion pc
  pure
    { id := pc
      sessions := ss.length
      active := ss.countP fun x => (x (ascii "is_active")).any server.isTrue
      cmVersion := cmv }

/-- The rounds of `apiDevices`. -/
def deviceRows (server : ApiServer α) : List Bytes → Client α (List DeviceRow)
  | [] => pure []
  | pc :: pcs => do
      let row ← deviceRow server pc
      let rows ← deviceRows server pcs
      pure (row :: rows)

/-- `apiDevices`. -/
def apiDevices (server : ApiServer α) (t : Token) : Client α (ApiReply α) := do
  let pcs ← devicePCs t
  let rows ← deviceRows server pcs
  pure (.devices rows)

/-- `apiSessions`. -/
def apiSessions (r : ApiRequest) (t : Token) : Client α (ApiReply α) :=
  let pc := r.param "pc"
  let pc := if pc = [] ∧ t.scope ≠ accountScope then t.scope else pc
  if pc = [] ∨ allows t.scope pc = false then pure (.fail 403 "forbidden")
  else do
    match ← listSessions pc with
    | none => pure (.fail 500 "firestore")
    | some ss => pure (.sessions ss)

/-- `pushtokens/{token}`. -/
def pushTokenPath (token : Bytes) : Path := docPath (ascii "pushtokens") token

/-- What `SavePushToken` writes. -/
def pushTokenDoc (token ua stamp : Bytes) : Fields α :=
  Function.update
    (Function.update
      (Function.update (fun _ => none) (ascii "token") (some (.string token)))
      (ascii "ua") (some (.string ua)))
    (ascii "last_seen") (some (.string stamp))

/-- `SavePushToken`. -/
def savePushToken (server : ApiServer α) (token ua : Bytes) : Client α Bool :=
  if token = [] then pure true
  else do
    let now ← Prog.now
    Prog.write (pushTokenPath token) fun _ =>
      some (.fields (pushTokenDoc token ua (server.rfc3339Nano now)))

/-- `apiPushToken`. -/
def apiPushToken (server : ApiServer α) (r : ApiRequest) : Client α (ApiReply α) :=
  if r.method ≠ .post then pure (.fail 405 "post only")
  else
    let token := r.formValue "token"
    if token = [] then pure (.fail 400 "token required")
    else do
      if ← savePushToken server token r.userAgent then pure (.plain .ok)
      else pure (.fail 500 "firestore")

/-- The PC that `apiDeletePC` looks for. -/
def ApiRequest.deletedPC (r : ApiRequest) : Bytes :=
  if r.param "pc" = [] then r.formValue "pc" else r.param "pc"

/-- `apiDeletePC`. -/
def apiDeletePC (r : ApiRequest) (t : Token) : Client α (ApiReply α) := do
  let reply ← Slave.apiDeletePC (r.method = .post) t.scope r.deletedPC
  pure (.plain reply)

/-- The `args` of `apiCommand`; `none` is a bad `on`. -/
def semiAutoArgs (cmd on : Bytes) : Option (List (Bytes × Bytes)) :=
  if on = [] then some []
  else if cmd ≠ ascii "semi-auto" ∨ (on ≠ ascii "1" ∧ on ≠ ascii "0") then none
  else some [(ascii "on", on)]

/-- The `source` of a command: `PushCommand` leaves it empty. -/
def sourceOf (args : List (Bytes × Bytes)) : Bytes := if args = [] then [] else ascii "web"

/-- `apiCommand`. -/
def apiCommand (server : ApiServer α) (random : Vector UInt8 12) (r : ApiRequest) (t : Token) :
    Client α (ApiReply α) :=
  if r.method ≠ .post then pure (.fail 405 "post only")
  else
    let pc := r.formValue "pc"
    let cmd := r.formValue "cmd"
    if pc = [] ∨ allows t.scope pc = false then pure (.fail 403 "forbidden")
    else if cmd ∉ Commands.ValidCommands then pure (.fail 400 "bad command")
    else
      match semiAutoArgs cmd (r.formValue "on") with
      | none => pure (.fail 400 "bad on")
      | some args => do
          let pushed ← Slave.pushCommandArgs server.toServer pc cmd (r.formValue "sid")
            (r.formValue "agent") t.pc (sourceOf args) args (encodeHex random.toList)
          match pushed with
          | .ok id => pure (.pushed id)
          | .error _ => pure (.fail 500 "firestore")

/-- `apiCommands`. -/
def apiCommands (r : ApiRequest) (t : Token) : Client α (ApiReply α) :=
  let pc := r.param "pc"
  if pc = [] ∨ allows t.scope pc = false then pure (.fail 403 "forbidden")
  else do
    match ← recentCommands pc 20 with
    | none => pure (.fail 500 "firestore")
    | some cs => pure (.plain (.commands cs))

/-- `apiEnroll`. -/
def apiEnroll (server : ApiServer α) (code : Option Bytes) (r : ApiRequest) :
    Client α (ApiReply α) := do
  let reply ← Slave.apiEnroll server.toServer (r.param "role") code
  pure (.plain reply)

/-- `apiWebhookGet`. -/
def apiWebhookGet : Client α (ApiReply α) := do
  match ← Slave.getWebhookConfig with
  | none => pure (.fail 500 "firestore")
  | some cfg => pure (.webhook cfg.enabled cfg.url cfg.headerName (cfg.headerSecret ≠ []))

/-- `apiWebhook`. -/
def apiWebhook (server : ApiServer α) (decoded : Option WebhookSaveRequest) (r : ApiRequest)
    (t : Token) : Client α (ApiReply α) :=
  if t.scope ≠ accountScope then pure (.fail 403 "forbidden")
  else
    match r.method with
    | .get => apiWebhookGet
    | .post => do
        let answer ← apiWebhookSave server.parseURL decoded
        pure (.saved answer)
    | .other => pure (.fail 405 "method not allowed")

/-- The handler of an endpoint, for the token of the cookie. -/
def Endpoint.handle (server : ApiServer α) (r : ApiRequest) (t : Token) :
    Endpoint → Client α (ApiReply α)
  | .pcs => apiPCs t
  | .devices => apiDevices server t
  | .sessions => apiSessions r t
  | .pushToken => apiPushToken server r
  | .deletePC => apiDeletePC r t
  | .command random => apiCommand server random r t
  | .commands => apiCommands r t
  | .enroll code => apiEnroll server code r
  | .webhook decoded => apiWebhook server decoded r t

/-- `apiGuard`, with the check of `auth`. -/
def apiGuard (server : ApiServer α) (r : ApiRequest) (h : Token → Client α (ApiReply α)) :
    Client α (ApiReply α) :=
  match r.cookie with
  | none => pure (.fail 401 "unauthorized")
  | some c => do
      let now ← Prog.now
      match server.signer.verify ((now / second : Nat) : Int) c with
      | none => pure (.fail 401 "unauthorized")
      | some t => h t

/-! ## The process -/

/-- What comes in: sign-ins, calls of the API, and the requests of shared PCs. -/
inductive Incoming (α : Type) where
  | authGoogle (r : CallbackRequest)
  /-- `/oauth/login-callback`. -/
  | loginCallback (r : CallbackRequest)
  | api (endpoint : Endpoint) (r : ApiRequest)
  | enroll (post : Bool) (code pc : Bytes) (secret : Option Bytes)
  | slaveToken (post : Bool) (body : Option (Bytes × Bytes))
  | slave (authorization : Bytes) (req : Slave.SlaveRequest α)
  | session (authorization sid role : Bytes)

/-- The handler of a request. -/
def ApiServer.handle (server : ApiServer α) : Incoming α → Client α (ApiReply α)
  | .authGoogle r => do
      let now ← Prog.now
      pure (.signIn (server.authGoogle now r))
  | .loginCallback r => do
      let now ← Prog.now
      pure (.signIn (server.login.loginCallback now r))
  | .api endpoint r => apiGuard server r fun t => endpoint.handle server r t
  | .enroll post code pc secret => do
      let reply ← Slave.enroll server.toServer post code pc secret
      pure (.plain reply)
  | .slaveToken post body => do
      let reply ← Slave.slaveToken server.toServer post body
      pure (.plain reply)
  | .slave authorization req => do
      let reply ← Slave.slaveGuard server.toServer authorization (req.handle server.toServer)
      pure (.plain reply)
  | .session authorization sid role => do
      let reply ← Slave.session server.toServer authorization sid role
      pure (.plain reply)

/-- The calls of a relay on its store. -/
abbrev System (α : Type) :=
  State (Incoming α) (Doc α) Push.PushEntry Slave.Delivery (ApiReply α)

/-- What can happen to the calls next. -/
abbrev Label (α : Type) := Store.Label (Incoming α) (Doc α)

/-- One step of the relay. -/
abbrev ApiServer.step (server : ApiServer α) : Transition.Step (System α) (Label α) :=
  Store.step server.handle

end Drover.Web.Api
