import Drover.Slave.Client
import Drover.Store.Calls
import Drover.Web.Access

/-!
# The endpoints of shared PCs

The handlers of `/slave/*`, the gate of `/session`, and what the owner does to a
shared PC: issue an enroll code, enroll with it, and delete the PC.  A bearer names
its PC, and the handlers behind `slaveGuard` act for that PC only.
-/

namespace Drover.Slave

open Drover.Store
open Drover.Push (Fields stringField)
open Drover.Commands (Command)
open Drover.Web (Verdict slaveSessionKey)

variable {α : Type}

/-! ## Bearers -/

/-- The byte between the parts of a token. -/
def dot : UInt8 := 0x2e

/-- What the `uid` of a shared PC starts with. -/
def slavePrefix : Bytes := ascii "slave:"

/-- `firebaseCustomToken`. -/
def Server.firebaseCustomToken (server : Server α) (uid : Bytes) (now : Nat) : Option Bytes := do
  let sign ← server.sign
  let signing := server.header ++ dot :: server.encode (server.marshal uid (now / second))
  let sig ← sign signing
  return signing ++ dot :: server.encode sig

/-- `mintSlaveToken`. -/
def Server.mintSlaveToken (server : Server α) (pc : Bytes) (now : Nat) : Option Bytes :=
  server.firebaseCustomToken (slavePrefix ++ pc) now

/-- `verifySlaveToken`, up to the claims: the signature is checked, and the expiry is
not. -/
def Server.signedClaims (server : Server α) (tok : Bytes) : Option Claims :=
  match server.verifies, tok.splitOn dot with
  | some verifies, [head, body, sig] =>
      match server.decode sig with
      | none => none
      | some sig =>
          if verifies (head ++ dot :: body) sig then (server.decode body).bind server.unmarshal
          else none
  | _, _ => none

/-- `verifySlaveToken`, from the claims on. -/
def Claims.pc (claims : Claims) (now : Nat) : Option Bytes :=
  if claims.exp = 0 ∨ claims.exp ≤ ((now / second : Nat) : Int) then none
  else if slavePrefix.isPrefixOf claims.uid = false then none
  else
    let pc := claims.uid.drop slavePrefix.length
    if pc = [] then none else some pc

/-- `verifySlaveToken`. -/
def Server.verifySlaveToken (server : Server α) (tok : Bytes) (now : Nat) : Option Bytes :=
  (server.signedClaims tok).bind fun claims => claims.pc now

/-- `strings.ToLower`, of one byte. -/
def toLower (b : UInt8) : UInt8 := if 0x41 ≤ b ∧ b ≤ 0x5a then b + 0x20 else b

/-- `bearer`, of the `Authorization` header; no other character folds to one of its
prefix. -/
def bearer (authorization : Bytes) : Bytes :=
  let pfx := ascii "Bearer "
  if pfx.length < authorization.length ∧
      (authorization.take pfx.length).map toLower = pfx.map toLower then
    trimSpace (authorization.drop pfx.length)
  else []

theorem Claims.uid_of_pc {claims : Claims} {now : Nat} {pc : Bytes}
    (isPC : claims.pc now = some pc) :
    claims.uid = slavePrefix ++ pc ∧ pc ≠ [] := by
  rw [Claims.pc] at isPC
  split at isPC
  · cases isPC
  · split at isPC
    · cases isPC
    · rename_i isPrefix
      rw [Bool.not_eq_false] at isPrefix
      simp only at isPC
      split at isPC
      · cases isPC
      · rename_i named
        cases isPC
        exact ⟨(List.prefix_iff_eq_append.mp (List.isPrefixOf_iff_prefix.mp isPrefix)).symm, named⟩

/-- Whenever a bearer is good, it is for the PC of its claims. -/
theorem Server.uid_of_verifySlaveToken {server : Server α} {tok pc : Bytes} {now : Nat}
    (verified : server.verifySlaveToken tok now = some pc) :
    ∃ claims, server.signedClaims tok = some claims ∧ claims.uid = slavePrefix ++ pc ∧ pc ≠ [] := by
  obtain ⟨claims, signed, isPC⟩ := Option.bind_eq_some_iff.mp verified
  exact ⟨claims, signed, claims.uid_of_pc isPC⟩

/-! ## Requests -/

/-- A request behind `slaveGuard`; a body is `none` where it cannot be decoded.  A
long poll comes with how often its listener fires before the hold ends. -/
inductive SlaveRequest (α : Type) where
  | register (agentVersion : Bytes)
  | push (body : Option (List (Fields α)))
  | delete (body : Option Bytes)
  | sessions
  | wake (since : Bytes) (fires : Nat)
  | grant (body : Option (Bytes × Int))
  | revoked
  | commands (fires : Nat)
  | commandAck (post : Bool) (body : Option (Bytes × Bytes × Bytes))

/-- A request; the random values that the handler draws come with it. -/
inductive Request (α : Type) where
  /-- `/slave/token`. -/
  | token (post : Bool) (body : Option (Bytes × Bytes))
  | slave (authorization : Bytes) (req : SlaveRequest α)
  /-- A connection to `/session`. -/
  | session (authorization sid role : Bytes)
  /-- `/api/enroll` by the owner. -/
  | apiEnroll (role : Bytes) (code : Option Bytes)
  | enroll (post : Bool) (code pc : Bytes) (secret : Option Bytes)
  /-- `/api/pc/delete` by the owner of a scope. -/
  | apiDeletePC (post : Bool) (scope pc : Bytes)

/-- What the endpoints answer. -/
inductive Reply where
  /-- `http.Error`. -/
  | error (status : Nat) (text : Bytes)
  | ok
  | noContent
  | token (tok : Bytes) (exp : Nat)
  | changed (n : Nat)
  | keys (ids : List Bytes)
  | wake (sid ts : Bytes)
  | commands (cms : List Command)
  | revoked (rv : Bool) (wsURL httpURL : Bytes)
  | gate (verdict : Verdict)
  | code (code : Bytes) (slave : Bool)
  /-- The enrolled shared PC with its refresh secret. -/
  | enrolled (pc secret : Bytes)
  /-- The enrolled master with the key of the service account. -/
  | bootstrap (saJSON : Bytes)
  | deleted (pc : Bytes)
  deriving DecidableEq

/-- `http.Error(w, {"error": name}, status)`. -/
def jsonError (status : Nat) (name : String) : Reply :=
  .error status (ascii ("\x7b\"error\":\"" ++ name ++ "\"\x7d"))

/-! ## Handlers behind `slaveGuard` -/

/-- `slaveRegister`. -/
def slaveRegister (server : Server α) (agentVersion pc : Bytes) : Client α Reply := do
  if ← registerSlavePCVersion server pc agentVersion then pure .ok
  else pure (jsonError 500 "firestore")

/-- `sessionStatusByKey`: a later session goes over an earlier one with its key. -/
def statusByKey (sessions : List (Fields α)) : Bytes → Option Bytes :=
  sessions.foldl (fun out x =>
    if stringField x (ascii "key") = [] then out
    else Function.update out (stringField x (ascii "key"))
      (some (stringField x (ascii "agent_status")))) fun _ => none

/-- `webhook.NotifyStates`. -/
def notifyStates : List Bytes := [ascii "idle", ascii "done", ascii "blocked"]

/-- The old status that a round of `dispatchWebhooksForTransitions` notifies of. -/
def transition (old : Bytes → Option Bytes) (x : Fields α) : Option Bytes :=
  let key := stringField x (ascii "key")
  let newStatus := stringField x (ascii "agent_status")
  if key = [] then none
  else if newStatus ∉ notifyStates then none
  else
    match old key with
    | none => none
    | some oldStatus =>
        if oldStatus ≠ ascii "working" ∨ oldStatus = newStatus then none else some oldStatus

/-- The rounds of `dispatchWebhooksForTransitions`. -/
def dispatchWebhooks (server : Server α) (cfg : WebhookConfig) (pc : Bytes)
    (old : Bytes → Option Bytes) : List (Fields α) → Client α Unit
  | [] => pure ()
  | x :: xs =>
      match transition old x with
      | none => dispatchWebhooks server cfg pc old xs
      | some oldStatus => do
          let now ← Prog.now
          Prog.emit ⟨cfg,
            { pc := pc
              sid := stringField x (ascii "key")
              windowName := stringField x (ascii "window_name")
              agent := stringField x (ascii "agent")
              cwd := stringField x (ascii "cwd")
              oldStatus := oldStatus
              newStatus := stringField x (ascii "agent_status")
              at_ := server.rfc3339Nano now }⟩
          dispatchWebhooks server cfg pc old xs

/-- `dispatchWebhooksForTransitions`. -/
def dispatchWebhooksForTransitions (server : Server α) (pc : Bytes) (old : Bytes → Option Bytes)
    (sessions : List (Fields α)) : Client α Unit := do
  match ← getWebhookConfig with
  | some cfg => if cfg.enabled then dispatchWebhooks server cfg pc old sessions else pure ()
  | none => pure ()

/-- `slavePush`. -/
def slavePush (server : Server α) (body : Option (List (Fields α))) (pc : Bytes) : Client α Reply :=
  match body with
  | none => pure (jsonError 400 "bad request")
  | some sessions => do
      let listed ← listSessions pc
      match ← pushStatusFor server pc sessions with
      | none => pure (jsonError 500 "firestore")
      | some changed =>
          dispatchWebhooksForTransitions server pc (statusByKey (listed.getD [])) sessions
          pure (.changed changed)

/-- `slaveDelete`. -/
def slaveDelete (body : Option Bytes) (pc : Bytes) : Client α Reply :=
  match body with
  | none => pure (jsonError 400 "bad request")
  | some key => do
      if ← deleteSessionFor pc key then pure .ok else pure (jsonError 500 "firestore")

/-- `slaveSessions`. -/
def slaveSessions (pc : Bytes) : Client α Reply := do
  match ← sessionKeysFor pc with
  | some ids => pure (.keys ids)
  | none => pure (jsonError 500 "firestore")

/-- `wakeNewer`. -/
def wakeNewer (server : Server α) (ts since : Bytes) : Bool :=
  if ts = [] then false
  else if since = [] then true
  else
    match server.parseTime ts, server.parseTime since with
    | none, _ => false
    | some _, none => true
    | some tt, some ss => ss < tt

/-- The wake that `slaveWake` answers with. -/
def newerWake (server : Server α) (pc since : Bytes) : Client α (Option Reply) := do
  match ← wakeDoc pc with
  | some (sid, ts) => pure (if wakeNewer server ts since then some (.wake sid ts) else none)
  | none => pure none

/-- The commands that `slaveCommands` answers with. -/
def claimedCommands (pc : Bytes) : Client α (Option Reply) := do
  match ← claimPendingCommands pc with
  | some cms => pure (if cms ≠ [] then some (.commands cms) else none)
  | none => pure none

/-- The loop of a long poll, over the firings of its listener. -/
def hold (pc : Bytes) (poll : Client α (Option Reply)) : Nat → Client α Reply
  | 0 => pure .noContent
  | fires + 1 => do
      if ← refuses pc then pure (jsonError 403 "revoked")
      else
        match ← poll with
        | some reply => pure reply
        | none => hold pc poll fires

/-- `slaveWake` and `slaveCommands`: an answer at once, or from the loop. -/
def longPoll (pc : Bytes) (poll : Client α (Option Reply)) (fires : Nat) : Client α Reply := do
  match ← poll with
  | some reply => pure reply
  | none => hold pc poll fires

/-- `slaveWake`. -/
def slaveWake (server : Server α) (since : Bytes) (fires : Nat) (pc : Bytes) : Client α Reply :=
  longPoll pc (newerWake server pc since) fires

/-- `slaveCommands`. -/
def slaveCommands (fires : Nat) (pc : Bytes) : Client α Reply :=
  longPoll pc (claimedCommands pc) fires

/-- `slaveAckCommand`. -/
def slaveAckCommand (server : Server α) (post : Bool) (body : Option (Bytes × Bytes × Bytes))
    (pc : Bytes) : Client α Reply :=
  if post = false then pure (jsonError 405 "method")
  else
    match body with
    | none => pure (jsonError 400 "bad request")
    | some (id, status, detail) =>
        if id = [] then pure (jsonError 400 "bad request")
        else do
          if ← ackCommandFor server pc id status detail then pure .ok
          else pure (jsonError 500 "ack failed")

/-- What the id of an injection session ends with. -/
def injSuffix : Bytes := ascii "#inj"

/-- `strings.Cut(sid, injSuffix)`: what stands before and after the first one. -/
def cutInj : Bytes → Option (Bytes × Bytes)
  | [] => none
  | b :: s =>
      if injSuffix.isPrefixOf (b :: s) then some ([], (b :: s).drop injSuffix.length)
      else (cutInj s).map fun p => (b :: p.1, p.2)

/-- `injBaseSID`. -/
def injBaseSID (sid : Bytes) : Bytes :=
  match cutInj sid with
  | some (base, rest) =>
      if base ≠ [] ∧ (rest = [] ∨ (ascii "@").isPrefixOf rest) then base else sid
  | none => sid

example : injBaseSID (ascii "w1#inj@mac") = ascii "w1" := by decide

/-- The seconds of a grant. -/
def clampTTL (ttlSeconds : Int) : Nat := (min (max ttlSeconds 1) 300).toNat

/-- `slaveGrant`. -/
def slaveGrant (body : Option (Bytes × Int)) (pc : Bytes) : Client α Reply :=
  match body with
  | none => pure (jsonError 400 "bad request")
  | some (sid, ttlSeconds) =>
      if sid = [] then pure (jsonError 400 "bad request")
      else do
        if ← sessionOwnedBy pc (injBaseSID sid) then
          if ← putSlaveGrant pc sid (clampTTL ttlSeconds * second) then pure .ok
          else pure (jsonError 500 "firestore")
        else pure (jsonError 403 "forbidden")

/-- `relayUpstream`. -/
def relayUpstream (server : Server α) : Client α Bytes :=
  if server.relayUpstreamURL ≠ [] then pure server.relayUpstreamURL else relayURL

/-- `slaveRevoked`. -/
def Server.slaveRevoked (server : Server α) (pc : Bytes) : Client α Reply := do
  let rv ← refuses pc
  let wsURL ← relayUpstream server
  let httpURL ← relayHTTPURL
  pure (.revoked rv wsURL httpURL)

/-- What `slaveGuard` calls. -/
def SlaveRequest.handle (server : Server α) (pc : Bytes) : SlaveRequest α → Client α Reply
  | .register agentVersion => slaveRegister server agentVersion pc
  | .push body => slavePush server body pc
  | .delete body => slaveDelete body pc
  | .sessions => slaveSessions pc
  | .wake since fires => slaveWake server since fires pc
  | .grant body => slaveGrant body pc
  | .revoked => server.slaveRevoked pc
  | .commands fires => slaveCommands fires pc
  | .commandAck post body => slaveAckCommand server post body pc

/-- `slaveGuard`. -/
def slaveGuard (server : Server α) (authorization : Bytes) (h : Bytes → Client α Reply) :
    Client α Reply :=
  if server.enrollSA = [] then pure (jsonError 404 "slave disabled")
  else do
    let now ← Prog.now
    match server.verifySlaveToken (bearer authorization) now with
    | none => pure (jsonError 401 "unauthorized")
    | some pc =>
        if ← refuses pc then pure (jsonError 403 "revoked") else h pc

/-! ## The other handlers -/

/-- `slaveToken`, from the result of `SlaveSecretHash` on. -/
def tokenForHash (server : Server α) (pc secret : Bytes) (hash : Option Bytes) : Client α Reply :=
  if hash ≠ some (server.sha256Hex secret) then pure (jsonError 401 "unauthorized")
  else do
    if ← refuses pc then pure (jsonError 403 "revoked")
    else
      let now ← Prog.now
      match server.mintSlaveToken pc now with
      | none => pure (jsonError 500 "mint")
      | some tok => pure (.token tok (now / second + 60 * 60))

/-- `slaveToken`. -/
def slaveToken (server : Server α) (post : Bool) (body : Option (Bytes × Bytes)) : Client α Reply :=
  if server.enrollSA = [] then pure (jsonError 404 "slave disabled")
  else if post = false then pure (jsonError 405 "post only")
  else
    match body with
    | none => pure (jsonError 400 "bad request")
    | some (pc, secret) =>
        if pc = [] ∨ secret = [] then pure (jsonError 400 "bad request")
        else do
          let hash ← slaveSecretHash pc
          tokenForHash server pc secret hash

/-- The closure of `NewSlaveGate`. -/
def newSlaveGate (server : Server α) (authorization sid role : Bytes) : Client α Verdict :=
  if server.enrollSA = [] then pure .unhandled
  else if bearer authorization = [] then pure .unhandled
  else do
    let now ← Prog.now
    match server.verifySlaveToken (bearer authorization) now with
    | none => pure .refused
    | some pc =>
        if role ≠ Web.source then pure .refused
        else if ← refuses pc then pure .refused
        else if ← slaveGrantValid pc sid then pure (.allowed (slaveSessionKey pc sid))
        else pure .refused

/-- The part of `Server.ServeHTTP` that the gate decides. -/
def session (server : Server α) (authorization sid role : Bytes) : Client α Reply := do
  let verdict ← newSlaveGate server authorization sid role
  pure (.gate verdict)

/-- `apiEnroll`. -/
def apiEnroll (server : Server α) (role : Bytes) (code : Option Bytes) : Client α Reply :=
  match code with
  | none => pure (jsonError 500 "gen")
  | some code => do
      let slave : Bool := role = ascii "slave"
      let scope := if slave then ascii "enroll-slave" else ascii "enroll"
      if ← createPairing (server.hashCode code) [] scope (15 * minute) then pure (.code code slave)
      else pure (jsonError 500 "store")

/-- `enroll`. -/
def enroll (server : Server α) (post : Bool) (code pc : Bytes) (secret : Option Bytes) :
    Client α Reply :=
  if post = false then pure (.error 405 (utf8 "POST のみ"))
  else if code = [] then pure (.error 400 (utf8 "code が必要"))
  else do
    match ← consumePairing (server.hashCode code) with
    | none => pure (.error 401 (utf8 "コードが無効か期限切れです"))
    | some scope =>
        if scope = ascii "enroll" then pure (.bootstrap server.enrollSA)
        else if scope ≠ ascii "enroll-slave" then
          pure (.error 401 (utf8 "コードが無効か期限切れです"))
        else if pc = [] then pure (.error 400 (utf8 "pc が必要"))
        else if ValidPCName pc = false then
          pure (.error 400 (utf8 "pc 名が不正です（英数字と ._- のみ）"))
        else
          match secret with
          | none => pure (.error 500 (utf8 "secret 生成失敗"))
          | some secret => do
              match ← bindSlave pc (server.sha256Hex secret) with
              | none => pure (.error 500 (utf8 "bind 失敗"))
              | some false =>
                  pure (.error 409
                    (utf8 "この pc 名は既存の端末と衝突します（master を先に登録してください）"))
              | some true =>
                  let _ ← clearRevoked pc
                  pure (.enrolled pc secret)

/-- `apiDeletePC`. -/
def apiDeletePC (post : Bool) (scope pc : Bytes) : Client α Reply :=
  if post = false then pure (jsonError 405 "post only")
  else if pc = [] ∨ Web.allows scope pc = false then pure (jsonError 403 "forbidden")
  else do
    if ← setRevoked pc then
      if ← deletePCByID pc then pure (.deleted pc) else pure (jsonError 500 "firestore")
    else pure (jsonError 500 "revoke")

/-- The handler of a request. -/
def Server.handle (server : Server α) : Request α → Client α Reply
  | .token post body => slaveToken server post body
  | .slave authorization req => slaveGuard server authorization (req.handle server)
  | .session authorization sid role => session server authorization sid role
  | .apiEnroll role code => apiEnroll server role code
  | .enroll post code pc secret => enroll server post code pc secret
  | .apiDeletePC post scope pc => apiDeletePC post scope pc

/-! ## Systems -/

/-- The calls of a relay on a store. -/
abbrev System (α : Type) :=
  State (Request α) (Doc α) Push.PushEntry Delivery Reply

/-- What can happen to the calls next. -/
abbrev Label (α : Type) := Store.Label (Request α) (Doc α)

/-- One step of the relay. -/
abbrev Server.step (server : Server α) : Transition.Step (System α) (Label α) :=
  Store.step server.handle

/-! ## A relay -/

/-- The inverse of `encodeHex`. -/
def decodeHex : Bytes → Option Bytes
  | [] => some []
  | high :: low :: s =>
      match Net.unhex high, Net.unhex low with
      | some high, some low => (decodeHex s).map (UInt8.ofNat (16 * high + low) :: ·)
      | _, _ => none
  | [_] => none

theorem decodeHex_encodeHex (s : Bytes) : decodeHex (encodeHex s) = some s := by
  have digits : ∀ n < 16, Net.unhex (lowerHexDigit n) = some n := by decide
  induction s with
  | nil => rfl
  | cons b s ih =>
      have bound := b.toNat_lt
      have high := digits (b.toNat / 16) (by omega)
      have low := digits (b.toNat % 16) (by omega)
      have whole : UInt8.ofNat (16 * (b.toNat / 16) + b.toNat % 16) = b := by
        rw [Nat.div_add_mod, UInt8.ofNat_toNat]
      rw [encodeHex] at ih ⊢
      simp only [List.flatMap_cons, List.cons_append, List.nil_append, decodeHex, high, low, ih,
        Option.map_some, whole]

/-- A server whose signatures are the signed bytes, and whose claims are as many zeros
as the seconds, a one and the `uid`. -/
def sampleServer : Server Unit where
  enrollSA := ascii "sa"
  verifies := some fun msg sig => sig = msg
  sign := some some
  header := ascii "h"
  marshal uid iat := List.replicate iat 0 ++ 1 :: uid
  unmarshal body :=
    some ⟨(body.takeWhile (· = 0)).length + 60 * 60, (body.dropWhile (· = 0)).drop 1⟩
  encode := encodeHex
  decode := decodeHex
  sha256 s := Vector.ofFn fun i => s.getD i 0
  normalizeCode code := code
  rfc3339 now := List.replicate now 0x30
  rfc3339Nano now := List.replicate now 0x30
  parseTime s := some s.length
  digest f := stringField f (ascii "agent_status")
  verifyEvery := 10 * minute
  relayUpstreamURL := []

/-- The header with the bearer that is minted for the PC at the start. -/
def sampleAuthorization (pc : Bytes) : Bytes :=
  ascii "Bearer " ++ (sampleServer.mintSlaveToken pc 0).getD []

example : sampleServer.verifySlaveToken (bearer (sampleAuthorization (ascii "mac"))) second =
    some (ascii "mac") := by decide +kernel

/-- A working session. -/
def sampleSession (key : Bytes) : Fields Unit := fun k =>
  if k = ascii "key" then some (.string key)
  else if k = ascii "agent_status" then some (.string (ascii "working"))
  else none

/-- A call and its operations, which all go well. -/
def callLabels (r : Nat) (req : Request Unit) (operations : Nat) : List (Label Unit) :=
  .begin r req :: List.replicate operations (.advance r .ok)

/-- The owner issues a code, `mac` enrolls with it and gets a bearer. -/
def enrollLabels : List (Label Unit) :=
  callLabels 0 (.apiEnroll (ascii "slave") (some (ascii "code"))) 2 ++
    callLabels 1 (.enroll true (ascii "code") (ascii "mac") (some (ascii "secret"))) 5 ++
    callLabels 2 (.token true (some (ascii "mac", ascii "secret"))) 4

end Drover.Slave
