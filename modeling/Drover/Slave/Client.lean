import Drover.Commands.Core
import Drover.Data.Names
import Drover.Data.Strings
import Drover.Glasses.Core
import Drover.OAuth.Tokens
import Drover.Push.Cache
import Drover.Secrets.Consume
import Drover.Store.Program

/-!
# The state client of the relay

The methods of `state.Client` that the endpoints of shared PCs call, as programs
over the store.  The PC is an argument of each: the relay acts for the PC that a
token names.
-/

namespace Drover.Slave

open Drover.Store
open Drover.Push (Fields PushEntry stringField int64Field sessionKey contentHash contentHashKey)
open Drover.Commands (Command)

/-! ## Documents -/

/-- `webhook.Config`. -/
structure WebhookConfig where
  enabled : Bool
  url : Bytes
  headerName : Bytes
  headerSecret : Bytes
  deriving DecidableEq

/-- A document.  An `exp` is the time that `time.Parse` reads from it, and `none`
where it fails; a webhook configuration is `none` where `DataTo` fails. -/
inductive Doc (α : Type) where
  /-- `pcs/{pc}` and `pcs/{pc}/sessions/{id}`. -/
  | fields (f : Fields α)
  | slave (secretHash : Bytes) (revoked : Bool)
  | revoked
  | slaveGrant (pc sid : Bytes) (exp : Option Nat)
  | relayGrant (pc : Bytes) (exp : Option Nat)
  | wake (sid ts : Bytes)
  | command (cm : Command)
  | pairing (p : Secrets.Pairing)
  /-- `settings/relay`. -/
  | relay (url httpURL : Bytes)
  | webhook (cfg : Option WebhookConfig)
  /-- `oauth_tokens/{hash}`. -/
  | token (t : OAuth.OAuthToken)
  /-- `glasses_answers/{id}`, `glasses_asks/{id}` and `glasses_chat/{id}`. -/
  | glasses (d : Glasses.Doc)

/-- `webhook.Payload`. -/
structure Payload where
  pc : Bytes
  sid : Bytes
  windowName : Bytes
  agent : Bytes
  cwd : Bytes
  oldStatus : Bytes
  newStatus : Bytes
  at_ : Bytes
  deriving DecidableEq

/-- A `webhook.Send`. -/
structure Delivery where
  cfg : WebhookConfig
  payload : Payload
  deriving DecidableEq

/-- A method of the client. -/
abbrev Client (α ρ : Type) := Prog (Doc α) PushEntry Delivery ρ

variable {α : Type}

/-- The fields of a document, where the model keeps them. -/
def Doc.data : Doc α → Fields α
  | .fields f => f
  | _ => fun _ => none

/-- The role of a shared PC. -/
def slaveRole : Bytes := ascii "slave"

/-- The field of the role. -/
def roleKey : Bytes := ascii "role"

/-- The role of a document; empty where it has none. -/
def Doc.role (d : Doc α) : Bytes := stringField d.data roleKey

/-! ## Paths -/

/-- `pcs/{pc}`. -/
def pcPath (pc : Bytes) : Path := docPath (ascii "pcs") pc

/-- `pcs/{pc}/sessions`. -/
def sessionsCol (pc : Bytes) : Path := docPath (pcPath pc) (ascii "sessions")

/-- `pcs/{pc}/sessions/{id}`. -/
def sessionPath (pc id : Bytes) : Path := docPath (sessionsCol pc) id

/-- `slaves/{pc}`. -/
def slavePath (pc : Bytes) : Path := docPath (ascii "slaves") pc

/-- `revoked/{pc}`. -/
def revokedPath (pc : Bytes) : Path := docPath (ascii "revoked") pc

/-- `wake/{pc}`. -/
def wakePath (pc : Bytes) : Path := docPath (ascii "wake") pc

/-- `pairings/{codeHash}`. -/
def pairingPath (codeHash : Bytes) : Path := docPath (ascii "pairings") codeHash

/-- `settings/relay`. -/
def relaySettingsPath : Path := docPath (ascii "settings") (ascii "relay")

/-- `settings/webhook`. -/
def webhookPath : Path := docPath (ascii "settings") (ascii "webhook")

/-- The byte between a PC and its session in `slaveGrantDocID`. -/
def colon : UInt8 := 0x3a

/-- `slaveGrantDocID`. -/
def slaveGrantDocID (pc sid : Bytes) : Bytes := pc ++ colon :: sid

/-- The document of a grant to a shared PC. -/
def slaveGrantPath (pc sid : Bytes) : Path := docPath (ascii "slavegrants") (slaveGrantDocID pc sid)

/-- `relayGrantID`. -/
def relayGrantID (sid role : Bytes) : Bytes := sid ++ colon :: role

/-- The document of a grant to the relay. -/
def relayGrantPath (sid role : Bytes) : Path :=
  docPath (ascii "relaygrants") (relayGrantID sid role)

/-- `cmdCol`. -/
def cmdCol (pc : Bytes) : Path := docPath (docPath (ascii "commands") pc) (ascii "q")

/-- `commands/{pc}/q/{id}`. -/
def commandPath (pc id : Bytes) : Path := docPath (cmdCol pc) id

/-! ## Servers -/

/-- `time.Second`, in nanoseconds. -/
def second : Nat := 1000000000

/-- `time.Minute`. -/
def minute : Nat := 60 * second

/-- The payload of a bearer, as `verifySlaveToken` decodes it. -/
structure Claims where
  exp : Int
  uid : Bytes
  deriving DecidableEq

/-- A `Server`, and the library functions that its handlers call: the RSA functions
with the key of `enrollSA`, where it can be parsed, the encodings, SHA-256, the
formats of times, and the digest of `contentHash`.  Times are in nanoseconds. -/
structure Server (α : Type) where
  enrollSA : Bytes
  /-- `saPublicKey` and `rsa.VerifyPKCS1v15`: a message and its signature. -/
  verifies : Option (Bytes → Bytes → Bool)
  /-- The key that `firebaseCustomToken` parses, and `rsa.SignPKCS1v15`. -/
  sign : Option (Bytes → Option Bytes)
  /-- The encoded JSON of `alg` and `typ`. -/
  header : Bytes
  /-- The JSON of the claims, for a `uid` and the `iat` in seconds. -/
  marshal : Bytes → Nat → Bytes
  unmarshal : Bytes → Option Claims
  /-- `base64.RawURLEncoding`. -/
  encode : Bytes → Bytes
  decode : Bytes → Option Bytes
  sha256 : Bytes → Vector UInt8 32
  /-- `webauth.NormalizeCode`. -/
  normalizeCode : Bytes → Bytes
  rfc3339 : Nat → Bytes
  rfc3339Nano : Nat → Bytes
  /-- `time.Parse(time.RFC3339Nano, ..)`. -/
  parseTime : Bytes → Option Nat
  digest : Fields α → Bytes
  verifyEvery : Nat
  /-- `RELAY_UPSTREAM_URL`. -/
  relayUpstreamURL : Bytes

/-- `sha256Hex`. -/
def Server.sha256Hex (server : Server α) (s : Bytes) : Bytes := encodeHex (server.sha256 s).toList

/-- `webauth.HashCode`. -/
def Server.hashCode (server : Server α) (code : Bytes) : Bytes :=
  server.sha256Hex (server.normalizeCode code)

/-! ## Slaves and their PCs -/

/-- `IsRevoked`. -/
def isRevoked (pc : Bytes) : Client α Bool :=
  if pc = [] then pure false
  else do
    match ← Prog.get (revokedPath pc) with
    | .found _ => pure true
    | _ => pure false

/-- `SlaveRevoked`. -/
def slaveRevoked (pc : Bytes) : Client α Bool :=
  if pc = [] then pure false
  else do
    match ← Prog.get (slavePath pc) with
    | .found (.slave _ revoked) => pure revoked
    | _ => pure false

/-- `st.IsRevoked(ctx, pc) || st.SlaveRevoked(ctx, pc)`. -/
def refuses (pc : Bytes) : Client α Bool := do
  if ← isRevoked pc then pure true else slaveRevoked pc

/-- `SlaveSecretHash`. -/
def slaveSecretHash (pc : Bytes) : Client α (Option Bytes) := do
  match ← Prog.get (slavePath pc) with
  | .found (.slave hash _) => pure (if hash ≠ [] then some hash else none)
  | _ => pure none

/-- The transaction of `BindSlave` does not refuse. -/
def bindable : Snapshot (Doc α) → Bool
  | .found d => d.role = slaveRole
  | _ => true

/-- What the transaction of `BindSlave` writes, after what it has read. -/
def bindChange (secretHash : Bytes) (snap : Snapshot (Doc α)) :
    Option (Option (Doc α) → Option (Doc α)) :=
  if bindable snap then some fun _ => some (.slave secretHash false) else none

/-- `BindSlave`; `none` is an error. -/
def bindSlave (pc secretHash : Bytes) : Client α (Option Bool) :=
  if ValidPCName pc = false then pure (some false)
  else do
    let (snap, ok) ← Prog.transact (pcPath pc) (slavePath pc) (bindChange secretHash)
    pure (if ok then some (bindable snap) else none)

/-- `SetRevoked`. -/
def setRevoked (pc : Bytes) : Client α Bool :=
  if pc = [] then pure true else Prog.write (revokedPath pc) fun _ => some .revoked

/-- `ClearRevoked`. -/
def clearRevoked (pc : Bytes) : Client α Bool :=
  if pc = [] then pure true else Prog.write (revokedPath pc) fun _ => none

/-- The document that `RegisterSlavePCVersion` writes. -/
def slavePC (pc agentVersion stamp : Bytes) : Fields α :=
  let doc : Fields α :=
    Function.update
      (Function.update
        (Function.update
          (Function.update (fun _ => none) (ascii "id") (some (.string pc)))
          (ascii "updated_at") (some (.string stamp)))
        (ascii "agent_kind") (some (.string (ascii "herdr-drover"))))
      roleKey (some (.string slaveRole))
  if agentVersion ≠ [] then Function.update doc (ascii "cm_version") (some (.string agentVersion))
  else doc

/-- `RegisterSlavePCVersion`. -/
def registerSlavePCVersion (server : Server α) (pc agentVersion : Bytes) : Client α Bool := do
  let now ← Prog.now
  Prog.write (pcPath pc) fun _ => some (.fields (slavePC pc agentVersion (server.rfc3339 now)))

/-- `PCRole`. -/
def pcRole (pc : Bytes) : Client α Bytes := do
  match ← Prog.get (pcPath pc) with
  | .found d => pure d.role
  | _ => pure []

/-- Delete the session documents that were listed, whether or not that works. -/
def deleteSessions (pc : Bytes) : List (Bytes × Doc α) → Client α Unit
  | [] => pure ()
  | (id, _) :: docs => do
      let _ ← Prog.write (sessionPath pc id) fun _ => none
      deleteSessions pc docs

/-- `deletePC`. -/
def deletePC (pc : Bytes) : Client α Bool :=
  if pc = [] then pure true
  else do
    let docs ← Prog.list (sessionsCol pc)
    deleteSessions pc (docs.getD [])
    let _ ← Prog.write (pcPath pc) fun _ => none
    let _ ← Prog.write (slavePath pc) fun _ => none
    Prog.write (wakePath pc) fun _ => none

/-- `DeletePCByID`. -/
def deletePCByID (pc : Bytes) : Client α Bool := do
  Prog.forget (pc ++ [slash])
  deletePC pc

/-! ## Sessions -/

/-- `pushCache.key`. -/
def pushKey (pc id : Bytes) : Bytes := pc ++ slash :: id

/-- What a push of changed sessions merges into `pcs/{pc}`. -/
def parent (pc stamp : Bytes) (old : Option (Doc α)) : Fields α :=
  Function.update
    (Function.update
      (Function.update (old.elim (fun _ => none) Doc.data) (ascii "id") (some (.string pc)))
      (ascii "updated_at") (some (.string stamp)))
    (ascii "agent_kind") (some (.string (ascii "herdr-drover")))

/-- The entry has this hash, and was verified within the interval. -/
def remembered (server : Server α) (now : Nat) (hash : Bytes) (entry : Option PushEntry) : Bool :=
  entry.any fun e => e.hash = hash && (now : Int) - e.verifiedAt < server.verifyEvery

/-- The end of a round of `pushSessions`, from `ref.Set` on: the number of the changed
sessions, and `none` where the write failed. -/
def setSession (server : Server α) (pc : Bytes) (now : Nat) (session : Fields α) (changed : Nat)
    (ver : Int64) : Client α (Option Nat) := do
  let id := sessionKey session
  let hash := contentHash server.digest session
  let stamp ← Prog.now
  let ok ← Prog.write (sessionPath pc id) fun _ =>
    some (.fields (Push.document session ver hash (server.rfc3339 stamp)))
  if ok then
    Prog.remember (pushKey pc id) (some ⟨hash, ver, now⟩)
    pure (some (changed + 1))
  else
    Prog.remember (pushKey pc id) none
    pure none

/-- A round of `pushSessions`. -/
def pushSession (server : Server α) (pc : Bytes) (now : Nat) (session : Fields α) (changed : Nat) :
    Client α (Option Nat) := do
  let id := sessionKey session
  let hash := contentHash server.digest session
  let entry ← Prog.lookup (pushKey pc id)
  if remembered server now hash entry then pure (some changed)
  else
    match ← Prog.get (sessionPath pc id) with
    | .found d =>
        if stringField d.data contentHashKey = hash then
          Prog.remember (pushKey pc id) (some ⟨hash, int64Field d.data Push.version, now⟩)
          pure (some changed)
        else setSession server pc now session changed (int64Field d.data Push.version + 1)
    | _ => setSession server pc now session changed 1

/-- The loop of `pushSessions`, with the number of the changed sessions so far. -/
def pushRounds (server : Server α) (pc : Bytes) (now : Nat) :
    List (Fields α) → Nat → Client α (Option Nat)
  | [], changed => pure (some changed)
  | session :: sessions, changed => do
      match ← pushSession server pc now session changed with
      | some changed => pushRounds server pc now sessions changed
      | none => pure none

/-- `PushStatusFor`. -/
def pushStatusFor (server : Server α) (pc : Bytes) (sessions : List (Fields α)) :
    Client α (Option Nat) := do
  let now ← Prog.now
  match ← pushRounds server pc now sessions 0 with
  | none => pure none
  | some changed =>
      if 0 < changed then
        let stamp ← Prog.now
        let _ ← Prog.write (pcPath pc) fun old =>
          some (.fields (parent pc (server.rfc3339 stamp) old))
      pure (some changed)

/-- `DeleteSessionFor`. -/
def deleteSessionFor (pc key : Bytes) : Client α Bool :=
  if key = [] then pure true
  else do
    Prog.remember (pushKey pc key) none
    Prog.write (sessionPath pc key) fun _ => none

/-- `SessionKeysFor`. -/
def sessionKeysFor (pc : Bytes) : Client α (Option (List Bytes)) := do
  let docs ← Prog.list (sessionsCol pc)
  pure (docs.map fun docs => docs.map Prod.fst)

/-- `ListSessions`. -/
def listSessions (pc : Bytes) : Client α (Option (List (Fields α))) := do
  let docs ← Prog.list (sessionsCol pc)
  pure (docs.map fun docs => docs.map fun p => p.2.data)

/-- `SessionOwnedBy`. -/
def sessionOwnedBy (pc sid : Bytes) : Client α Bool :=
  if pc = [] ∨ sid = [] then pure false
  else do
    match ← Prog.get (sessionPath pc sid) with
    | .found _ => pure true
    | _ => pure false

/-! ## Grants -/

/-- `PutSlaveGrant`. -/
def putSlaveGrant (pc sid : Bytes) (ttl : Nat) : Client α Bool :=
  if pc = [] ∨ sid = [] then pure true
  else do
    let now ← Prog.now
    Prog.write (slaveGrantPath pc sid) fun _ => some (.slaveGrant pc sid (some (now + ttl)))

/-- `SlaveGrantValid`. -/
def slaveGrantValid (pc sid : Bytes) : Client α Bool :=
  if pc = [] ∨ sid = [] then pure false
  else do
    match ← Prog.get (slaveGrantPath pc sid) with
    | .found (.slaveGrant _ _ (some exp)) =>
        let now ← Prog.now
        pure (now < exp)
    | _ => pure false

/-- `PutRelayGrant` of the client of a PC. -/
def putRelayGrant (pcID sid role : Bytes) (ttl : Nat) : Client α Bool :=
  if sid = [] ∨ (role ≠ ascii "source" ∧ role ≠ ascii "viewer") then pure true
  else do
    let now ← Prog.now
    Prog.write (relayGrantPath sid role) fun _ => some (.relayGrant pcID (some (now + ttl)))

/-- `CheckRelayGrant`. -/
def checkRelayGrant (sid role : Bytes) : Client α Bool :=
  if sid = [] ∨ (role ≠ ascii "source" ∧ role ≠ ascii "viewer") then pure false
  else do
    match ← Prog.get (relayGrantPath sid role) with
    | .found (.relayGrant pc (some exp)) =>
        let now ← Prog.now
        if now < exp then
          if pc ≠ [] then
            let revoked ← isRevoked pc
            pure (!revoked)
          else pure true
        else pure false
    | _ => pure false

/-! ## Wakes, commands and settings -/

/-- `WakeDoc`. -/
def wakeDoc (pc : Bytes) : Client α (Option (Bytes × Bytes)) := do
  match ← Prog.get (wakePath pc) with
  | .found (.wake sid ts) => pure (if sid ≠ [] then some (sid, ts) else none)
  | _ => pure none

/-- What the transaction of a claim writes, after what it has read. -/
def claimChange : Snapshot (Doc α) → Option (Option (Doc α) → Option (Doc α))
  | .found (.command cm) =>
      if cm.status ≠ Commands.pending then none
      else some fun _ => some (.command { cm with status := Commands.running })
  | _ => none

/-- `claimCommandFor`. -/
def claimCommandFor (pc id : Bytes) : Client α Bool := do
  let (snap, ok) ← Prog.transact (commandPath pc id) (commandPath pc id) claimChange
  pure (ok && (claimChange snap).isSome)

/-- The claims of `ClaimPendingCommands`, for the documents of the query. -/
def claimCommands (pc : Bytes) : List (Bytes × Doc α) → Client α (List Command)
  | [] => pure []
  | (_, .command cm) :: docs =>
      if cm.status ≠ Commands.pending then claimCommands pc docs
      else do
        let claimed ← claimCommandFor pc cm.id
        let cms ← claimCommands pc docs
        pure (if claimed then { cm with status := Commands.running } :: cms else cms)
  | _ :: docs => claimCommands pc docs

/-- `ClaimPendingCommands`. -/
def claimPendingCommands (pc : Bytes) : Client α (Option (List Command)) := do
  match ← Prog.list (cmdCol pc) with
  | some docs =>
      let cms ← claimCommands pc docs
      pure (some cms)
  | none => pure none

/-- The fields that `AckCommandFor` merges into a command. -/
def ackChange (status detail finishedAt : Bytes) (old : Option (Doc α)) : Option (Doc α) :=
  let cm := match old with
    | some (.command cm) => cm
    | _ => Command.empty
  some (.command { cm with status := status, detail := detail, finishedAt := finishedAt })

/-- `AckCommandFor`. -/
def ackCommandFor (server : Server α) (pc id status detail : Bytes) : Client α Bool := do
  let now ← Prog.now
  Prog.write (commandPath pc id) (ackChange status detail (server.rfc3339Nano now))

/-- `RelayURL`, as `relayUpstream` uses it: empty where it fails. -/
def relayURL : Client α Bytes := do
  match ← Prog.get relaySettingsPath with
  | .found (.relay url _) => pure url
  | _ => pure []

/-- `RelayHTTPURL`, as `slaveHTTPUpstream` uses it: empty where it fails. -/
def relayHTTPURL : Client α Bytes := do
  match ← Prog.get relaySettingsPath with
  | .found (.relay _ httpURL) => pure httpURL
  | _ => pure []

/-- `GetWebhookConfig`; `none` is an error. -/
def getWebhookConfig : Client α (Option WebhookConfig) := do
  match ← Prog.get webhookPath with
  | .found (.webhook cfg) => pure cfg
  | _ => pure (some ⟨false, [], [], []⟩)

/-! ## Pairings -/

/-- `CreatePairing`; the time is stored without the fraction of the second. -/
def createPairing (codeHash pc scope : Bytes) (ttl : Nat) : Client α Bool := do
  let now ← Prog.now
  Prog.write (pairingPath codeHash) fun _ =>
    some (.pairing ⟨pc, scope, some ((now + ttl) / second * second)⟩)

/-- `ConsumePairing`: the scope of the pairing. -/
def consumePairing (codeHash : Bytes) : Client α (Option Bytes) := do
  match ← Prog.get (pairingPath codeHash) with
  | .found (.pairing p) =>
      let _ ← Prog.write (pairingPath codeHash) fun _ => none
      let now ← Prog.now
      pure (if Secrets.notAfter p.expiresAt now then some p.scope else none)
  | _ => pure none

end Drover.Slave
