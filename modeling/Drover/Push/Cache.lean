import Drover.Data.Bytes
import Drover.Data.Separator
import Drover.Store.Documents
import Drover.Transition.Run
import Mathlib.Logic.Function.Basic

/-!
# Pushing sessions

A client upserts session documents under `pcs/{pc}/sessions`, and remembers the
hash that it last pushed for each.  A push whose hash is remembered, and was
checked against the store less than `verifyEvery` ago, neither reads nor writes.
The calls run one after another; `verifyEvery` is a parameter, so that a client
that always reads the store is the case `0`.
-/

namespace Drover.Push

open Drover.Transition

/-- The byte between a PC and its session in a key. -/
def slash : UInt8 := 0x2f

/-- A PC that sessions are pushed for: a document of `pcs`, whose id has no slash. -/
structure PCName where
  text : Bytes
  slash_notMem : slash ∉ text
  deriving DecidableEq

/-- The value of a field: a string, an `int64`, or anything else. -/
inductive Value (α : Type) where
  | string (s : Bytes)
  | int64 (n : Int64)
  | other (x : α)
  deriving DecidableEq

/-- A `map[string]any`. -/
abbrev Fields (α : Type) := Bytes → Option (Value α)

/-- A document `pcs/{pc}/sessions/{id}`. -/
abbrev Path := PCName × Bytes

/-- `pushEntry`. -/
structure PushEntry where
  hash : Bytes
  version : Int64
  verifiedAt : Int
  deriving DecidableEq

/-- The cache of the client, the documents under `pcs`, and the counts that the
pushes have returned, the last first.  Times are in nanoseconds. -/
structure Client (α : Type) where
  entries : Bytes → Option PushEntry
  gets : Nat
  pcs : PCName → Option (Fields α)
  sessions : Path → Option (Fields α)
  clock : Int
  returned : List Nat

/-- What is fixed for a client: its own PC, how `contentHash` digests the fields
that it hashes (the JSON of the pairs in the order of their keys), and
`verifyEvery`. -/
structure Config (α : Type) where
  pcID : PCName
  digest : Fields α → Bytes
  verifyEvery : Nat

variable {α : Type}

/-! ## Fields -/

/-- The field of the version. -/
def version : Bytes := ascii "version"

/-- The field of the time of the last push. -/
def updatedAt : Bytes := ascii "updated_at"

/-- The field of the content hash. -/
def contentHashKey : Bytes := ascii "content_hash"

/-- `v, _ := m[k].(string)`. -/
def stringField (m : Fields α) (k : Bytes) : Bytes :=
  match m k with
  | some (.string v) => v
  | _ => []

/-- `v, _ := m[k].(int64)`. -/
def int64Field (m : Fields α) (k : Bytes) : Int64 :=
  match m k with
  | some (.int64 n) => n
  | _ => 0

/-- `contentHash`: the digest of the fields other than these three. -/
def contentHash (digest : Fields α → Bytes) (m : Fields α) : Bytes :=
  digest fun k => if k = version ∨ k = updatedAt ∨ k = contentHashKey then none else m k

/-- `sessionKey`. -/
def sessionKey (m : Fields α) : Bytes :=
  if stringField m (ascii "key") ≠ [] then stringField m (ascii "key")
  else if stringField m (ascii "session_id") ≠ [] then stringField m (ascii "session_id")
  else ascii "unknown"

/-- The document that a push writes. -/
def document (session : Fields α) (ver : Int64) (hash stamp : Bytes) : Fields α :=
  Function.update
    (Function.update
      (Function.update session version (some (.int64 ver)))
      contentHashKey (some (.string hash)))
    updatedAt (some (.string stamp))

/-- What a push of changed sessions merges into `pcs/{pc}`. -/
def parent (pc : PCName) (stamp : Bytes) (old : Option (Fields α)) : Fields α :=
  Function.update
    (Function.update
      (Function.update (old.getD fun _ => none) (ascii "id") (some (.string pc.text)))
      updatedAt (some (.string stamp)))
    (ascii "agent_kind") (some (.string (ascii "herdr-drover")))

/-! ## Paths -/

/-- `Collection("pcs").Doc(pc)`, whatever the text is. -/
def pcRef (pc : Bytes) : Store.Path := Store.docPath (ascii "pcs") pc

/-- The `Collection("sessions")` of it. -/
def sessionsCol (pc : Bytes) : Store.Path := Store.docPath (pcRef pc) (ascii "sessions")

/-- `ref`, the document of a session. -/
def ref (path : Path) : Store.Path := Store.docPath (sessionsCol path.1.text) path.2

/-! ## The cache -/

/-- `pushCache.key`. -/
def key (path : Path) : Bytes := path.1.text ++ slash :: path.2

namespace Client

/-- `pushCache.set`. -/
def set (s : Client α) (k : Bytes) (e : PushEntry) : Client α :=
  { s with entries := Function.update s.entries k (some e) }

/-- `pushCache.forget`. -/
def forget (s : Client α) (k : Bytes) : Client α :=
  { s with entries := Function.update s.entries k none }

/-- `pushCache.forgetPC`. -/
def forgetPC (s : Client α) (pc : Bytes) : Client α :=
  { s with entries := fun k => if (pc ++ [slash]).isPrefixOf k then none else s.entries k }

/-- `pushCache.get` finds the hash of the session, checked recently enough. -/
def remembers (cfg : Config α) (pc : PCName) (now : Int) (s : Client α) (session : Fields α) :
    Bool :=
  (s.entries (key (pc, sessionKey session))).any fun e =>
    e.hash = contentHash cfg.digest session && now - e.verifiedAt < cfg.verifyEvery

/-- The end of a round of `pushSessions`: `ref.Set` and `pushCache.set`. -/
def write (cfg : Config α) (pc : PCName) (now : Int) (stamp : Bytes) (s : Client α)
    (session : Fields α) (ver : Int64) : Client α :=
  let hash := contentHash cfg.digest session
  { s.set (key (pc, sessionKey session)) ⟨hash, ver, now⟩ with
    sessions :=
      Function.update s.sessions (pc, sessionKey session) (some (document session ver hash stamp)) }

end Client

theorem Client.entries_of_forget {s : Client α} {f k : Bytes} {e : PushEntry}
    (entry : (s.forget f).entries k = some e) : s.entries k = some e := by
  by_cases same : k = f
  · subst same
    simp [Client.forget] at entry
  · simpa only [Client.forget, Function.update_of_ne same] using entry

theorem Client.entries_of_forgetPC {s : Client α} {pc : Bytes} {k : Bytes} {e : PushEntry}
    (entry : (s.forgetPC pc).entries k = some e) : s.entries k = some e := by
  simp only [Client.forgetPC] at entry
  split at entry
  · cases entry
  · exact entry

/-! ## Calls -/

/-- One round of `pushSessions`; the number counts the changed sessions. -/
def pushSession (cfg : Config α) (pc : PCName) (now : Int) (stamp : Bytes) :
    Client α × Nat → Fields α → Client α × Nat
  | (s, changed), session =>
      if s.remembers cfg pc now session then (s, changed)
      else
        let s := { s with gets := s.gets + 1 }
        match s.sessions (pc, sessionKey session) with
        | some d =>
            if stringField d contentHashKey = contentHash cfg.digest session then
              (s.set (key (pc, sessionKey session))
                ⟨contentHash cfg.digest session, int64Field d version, now⟩, changed)
            else (s.write cfg pc now stamp session (int64Field d version + 1), changed + 1)
        | none => (s.write cfg pc now stamp session 1, changed + 1)

/-- The rounds of `pushSessions`. -/
def pushRounds (cfg : Config α) (pc : PCName) (now : Int) (stamp : Bytes) (s : Client α)
    (sessions : List (Fields α)) : Client α × Nat :=
  sessions.foldl (pushSession cfg pc now stamp) (s, 0)

/-- `pushSessions`. -/
def pushSessions (cfg : Config α) (pc : PCName) (now : Int) (stamp : Bytes) (s : Client α)
    (sessions : List (Fields α)) : Client α :=
  let out := pushRounds cfg pc now stamp s sessions
  { out.1 with
    pcs :=
      if 0 < out.2 then Function.update out.1.pcs pc (some (parent pc stamp (out.1.pcs pc)))
      else out.1.pcs
    clock := now
    returned := out.2 :: s.returned }

/-- `DeleteSessionFor`. -/
def deleteSessionFor (s : Client α) (pc : PCName) (id : Bytes) : Client α :=
  if id = [] then s
  else { s.forget (key (pc, id)) with sessions := Function.update s.sessions (pc, id) none }

/-- The session document is deleted with the PC: it is listed in the collection, or it is
the document of the PC itself. -/
def goesWith (pc : Bytes) (path : Path) : Bool :=
  decide (ref path = pcRef pc) || (Store.childID (sessionsCol pc) (ref path)).isSome

/-- `deletePC`, for any text. -/
def deletePC (s : Client α) (pc : Bytes) : Client α :=
  if pc = [] then s
  else { s with
    pcs := fun name => if name.text = pc then none else s.pcs name
    sessions := fun path => if goesWith pc path then none else s.sessions path }

/-- `DeletePCByID`. -/
def deletePCByID (s : Client α) (pc : Bytes) : Client α := deletePC (s.forgetPC pc) pc

/-- A call of a client; a push comes with the time of its start and the text of
`updated_at`. -/
inductive Call (α : Type) where
  | pushStatus (now : Int) (stamp : Bytes) (sessions : List (Fields α))
  | pushStatusFor (pc : PCName) (now : Int) (stamp : Bytes) (sessions : List (Fields α))
  | deleteSession (id : Bytes)
  | deleteSessionFor (pc : PCName) (id : Bytes)
  | deletePC
  | deletePCByID (pc : Bytes)

/-- The push that a call makes, if it makes one. -/
def Call.push (cfg : Config α) : Call α → Option (PCName × Int × Bytes × List (Fields α))
  | .pushStatus now stamp sessions => some (cfg.pcID, now, stamp, sessions)
  | .pushStatusFor pc now stamp sessions => some (pc, now, stamp, sessions)
  | _ => none

/-- What a call does to the client and the store. -/
def Call.run (cfg : Config α) (s : Client α) : Call α → Client α
  | .pushStatus now stamp sessions => pushSessions cfg cfg.pcID now stamp s sessions
  | .pushStatusFor pc now stamp sessions => pushSessions cfg pc now stamp s sessions
  | .deleteSession id => Push.deleteSessionFor s cfg.pcID id
  | .deleteSessionFor pc id => Push.deleteSessionFor s pc id
  | .deletePC => Push.deletePC s cfg.pcID.text
  | .deletePCByID pc => Push.deletePCByID s pc

/-! ## What a round does -/

theorem key_injective {path other : Path} (same : key path = key other) : path = other := by
  obtain ⟨⟨text, clean⟩, id⟩ := path
  obtain ⟨⟨text', clean'⟩, id'⟩ := other
  obtain ⟨rfl, rfl⟩ := (separated_inj clean' clean).mp same
  rfl

theorem key_ne {path other : Path} (ne : path ≠ other) : key path ≠ key other :=
  fun same => ne (key_injective same)

theorem stringField_document (session : Fields α) (ver : Int64) (hash stamp : Bytes) :
    stringField (document session ver hash stamp) contentHashKey = hash := by
  have other : contentHashKey ≠ updatedAt := by decide
  simp [stringField, document, Function.update_of_ne other]

theorem int64Field_document (session : Fields α) (ver : Int64) (hash stamp : Bytes) :
    int64Field (document session ver hash stamp) version = ver := by
  have notStamp : version ≠ updatedAt := by decide
  have notHash : version ≠ contentHashKey := by decide
  simp [int64Field, document, Function.update_of_ne notStamp, Function.update_of_ne notHash]

/-- The content hash that the store holds for a session. -/
def Client.hashAt (s : Client α) (path : Path) : Option Bytes :=
  (s.sessions path).map fun d => stringField d contentHashKey

theorem Client.hashAt_of_found {s : Client α} {path : Path} {d : Fields α}
    (found : s.sessions path = some d) : s.hashAt path = some (stringField d contentHashKey) := by
  rw [hashAt, found, Option.map_some]

theorem Client.hashAt_of_absent {s : Client α} {path : Path} (absent : s.sessions path = none) :
    s.hashAt path = none := by
  rw [hashAt, absent, Option.map_none]

section

variable {cfg : Config α} {pc : PCName} {now : Int} {stamp : Bytes} {s : Client α} {changed : Nat}
  {session d : Fields α}

theorem Client.remembers_eq_true_iff :
    s.remembers cfg pc now session = true ↔
      ∃ e, s.entries (key (pc, sessionKey session)) = some e ∧
        e.hash = contentHash cfg.digest session ∧ now - e.verifiedAt < cfg.verifyEvery := by
  simp [Client.remembers, Option.any_eq_true]

/-- A round is one of four: it goes by the cache, it finds the hash in the store, it
changes a document, or it creates one. -/
inductive Round (cfg : Config α) (pc : PCName) (now : Int) (stamp : Bytes) (session : Fields α)
    (s : Client α) (changed : Nat) : Client α × Nat → Prop
  | remembered (remembers : s.remembers cfg pc now session = true) :
      Round cfg pc now stamp session s changed (s, changed)
  | verified {d : Fields α} (misses : s.remembers cfg pc now session = false)
      (found : s.sessions (pc, sessionKey session) = some d)
      (same : stringField d contentHashKey = contentHash cfg.digest session) :
      Round cfg pc now stamp session s changed
        (({ s with gets := s.gets + 1 } : Client α).set (key (pc, sessionKey session))
          ⟨contentHash cfg.digest session, int64Field d version, now⟩, changed)
  | changes {d : Fields α} (misses : s.remembers cfg pc now session = false)
      (found : s.sessions (pc, sessionKey session) = some d)
      (differs : stringField d contentHashKey ≠ contentHash cfg.digest session) :
      Round cfg pc now stamp session s changed
        (({ s with gets := s.gets + 1 } : Client α).write cfg pc now stamp session
          (int64Field d version + 1), changed + 1)
  | creates (misses : s.remembers cfg pc now session = false)
      (absent : s.sessions (pc, sessionKey session) = none) :
      Round cfg pc now stamp session s changed
        (({ s with gets := s.gets + 1 } : Client α).write cfg pc now stamp session 1, changed + 1)

theorem round_pushSession (cfg : Config α) (pc : PCName) (now : Int) (stamp : Bytes) (s : Client α)
    (changed : Nat) (session : Fields α) :
    Round cfg pc now stamp session s changed
      (pushSession cfg pc now stamp (s, changed) session) := by
  rw [pushSession]
  split
  · rename_i remembers
    exact .remembered remembers
  · rename_i misses
    rw [Bool.not_eq_true] at misses
    cases found : s.sessions (pc, sessionKey session) with
    | none =>
        simp only [found]
        exact .creates misses found
    | some d =>
        simp only [found]
        split
        · rename_i same
          exact .verified misses found same
        · rename_i differs
          exact .changes misses found differs

end

end Drover.Push
