import Drover.Data.Names
import Drover.Net.Query

/-!
# The ways to the relay

A connection comes to the relay through `/session`, as a slave's source with a
bearer or on the master path without one, or through `/ws`, where an upstream
relay gets it through its own `/session`.  Each handler computes the pairing key
from the query and from what it reads of the store.
-/

namespace Drover.Web

open Drover.Net

/-- The role of a PC that shows its terminal. -/
def source : Bytes := ascii "source"

/-- The role of a page that looks at one. -/
def viewer : Bytes := ascii "viewer"

/-- The role of a shared PC. -/
def slave : Bytes := ascii "slave"

/-- `accountScope`. -/
def accountScope : Bytes := ascii "*"

/-- What the handlers look at in a request: the token that `bearer` finds in the
headers, and the query of the URL. -/
structure Request where
  bearer : Bytes
  query : Bytes

/-- `r.URL.Query().Get`. -/
def Request.param (r : Request) (name : String) : Bytes := (parseQuery r.query).get (ascii name)

/-- The outcome of the read of `pcs/{pc}`; the field `role` may be missing or no
string. -/
inductive PCRead where
  | failed
  | absent
  | found (role : Option Bytes)
  deriving DecidableEq

/-- `PCRole`. -/
def pcRole : PCRead → Bytes
  | .found (some role) => role
  | _ => []

/-- What a handler is told by the token check and the store. -/
structure Answers where
  verifySlaveToken : Bytes → Option Bytes
  isRevoked : Bytes → Bool
  slaveRevoked : Bytes → Bool
  slaveGrantValid : Bytes → Bytes → Bool
  checkRelayGrant : Bytes → Bytes → Bool
  getPC : Bytes → PCRead

/-- `slaveSessionKey`. -/
def slaveSessionKey (pc sid : Bytes) : Bytes := pc ++ 0x00 :: sid

/-- The answer of a `SlaveGate`: `handled` and `allow`, with the key. -/
inductive Verdict where
  | unhandled
  | refused
  | allowed (effKey : Bytes)
  deriving DecidableEq

/-- The closure of `NewSlaveGate`. -/
def slaveGate (enrollSA : Bytes) (answers : Answers) (r : Request) (sid role : Bytes) : Verdict :=
  if enrollSA = [] then .unhandled
  else if r.bearer = [] then .unhandled
  else
    match answers.verifySlaveToken r.bearer with
    | none => .refused
    | some pc =>
        if pc = [] then .refused
        else if role ≠ source then .refused
        else if answers.isRevoked pc || answers.slaveRevoked pc then .refused
        else if answers.slaveGrantValid pc sid then .allowed (slaveSessionKey pc sid)
        else .refused

/-- The closure of `NewViewerKey`. -/
def viewerKey (answers : Answers) (r : Request) (sid role : Bytes) : Bytes :=
  if role ≠ viewer then sid
  else if r.param "spc" = [] then sid
  else if pcRole (answers.getPC (r.param "spc")) = slave then slaveSessionKey (r.param "spc") sid
  else sid

/-- What a handler does with the connection: refuse it, accept it at the relay
under a pairing key, or dial the upstream relay with a request. -/
inductive Reply where
  | refuse (status : Nat)
  | accept (key role : Bytes)
  | dial (r : Request)

/-- `Server.ServeHTTP`, as `wireRelayAuth` wires it. -/
def serveHTTP (enrollSA : Bytes) (answers : Answers) (r : Request) : Reply :=
  if r.param "sid" = [] ∨ (r.param "role" ≠ source ∧ r.param "role" ≠ viewer) then .refuse 400
  else
    match slaveGate enrollSA answers r (r.param "sid") (r.param "role") with
    | .refused => .refuse 403
    | .allowed effKey => .accept effKey (r.param "role")
    | .unhandled =>
        if answers.checkRelayGrant (r.param "sid") (r.param "role") then
          .accept (viewerKey answers r (r.param "sid") (r.param "role")) (r.param "role")
        else .refuse 403

/-- The URL of `DialViewerFrom`. -/
def viewerURL (base : Base) (sid sourcePC : Bytes) : Bytes :=
  base.text ++ ascii "/session?sid=" ++ queryEscape sid ++ ascii "&role=viewer" ++
    if sourcePC ≠ [] then ascii "&spc=" ++ queryEscape sourcePC else []

/-- The request of `DialViewerFrom`, as the upstream relay gets it. -/
def dialViewerFrom (base : Base) (sid sourcePC : Bytes) : Request :=
  ⟨[], rawQuery (viewerURL base sid sourcePC)⟩

/-- The PC that a `/ws` request of a token with this scope is about. -/
def wsPC (scope : Bytes) (r : Request) : Bytes :=
  if r.param "pc" = [] ∧ scope ≠ accountScope then scope else r.param "pc"

/-- `allows`. -/
def allows (scope pc : Bytes) : Bool := scope = accountScope || scope = pc

/-- `wsViewer` and `proxyViewer`; `auth` is the scope of the cookie's token, and
`upstream` the relay of `relayUpstream`. -/
def wsViewer (auth : Option Bytes) (answers : Answers) (upstream : Option Base) (r : Request) :
    Reply :=
  match auth with
  | none => .refuse 401
  | some scope =>
      if r.param "sid" = [] ∨ wsPC scope r = [] ∨ allows scope (wsPC scope r) = false then
        .refuse 400
      else
        match upstream with
        | some up => .dial (dialViewerFrom up (r.param "sid") (wsPC scope r))
        | none =>
            .accept
              (if pcRole (answers.getPC (wsPC scope r)) = slave then
                slaveSessionKey (wsPC scope r) (r.param "sid")
              else r.param "sid")
              viewer

/-! ## What each handler accepts -/

/-- A slave source that the gate allows gets the key of its PC. -/
theorem slaveGate_eq_allowed_iff {enrollSA : Bytes} {answers : Answers} {r : Request}
    {sid role effKey : Bytes} :
    slaveGate enrollSA answers r sid role = .allowed effKey ↔
      (enrollSA ≠ [] ∧ r.bearer ≠ [] ∧ role = source) ∧
        ∃ pc, answers.verifySlaveToken r.bearer = some pc ∧ pc ≠ [] ∧
          (answers.isRevoked pc || answers.slaveRevoked pc) = false ∧
          answers.slaveGrantValid pc sid = true ∧ slaveSessionKey pc sid = effKey := by
  constructor
  · intro allowed
    rw [slaveGate] at allowed
    split at allowed
    · cases allowed
    · split at allowed
      · cases allowed
      · rename_i enabled hasBearer
        split at allowed
        · cases allowed
        · rename_i pc verified
          split at allowed
          · cases allowed
          · split at allowed
            · cases allowed
            · split at allowed
              · cases allowed
              · split at allowed
                · rename_i named isSource notRevoked granted
                  cases allowed
                  exact ⟨⟨enabled, hasBearer, not_not.mp isSource⟩, pc, verified, named,
                    Bool.eq_false_iff.mpr notRevoked, granted, rfl⟩
                · cases allowed
  · rintro ⟨⟨enabled, hasBearer, rfl⟩, pc, verified, named, notRevoked, granted, rfl⟩
    simp [slaveGate, enabled, hasBearer, verified, named, notRevoked, granted]

theorem slaveGate_of_no_bearer {r : Request} (noBearer : r.bearer = []) (enrollSA : Bytes)
    (answers : Answers) (sid role : Bytes) :
    slaveGate enrollSA answers r sid role = .unhandled := by
  rw [slaveGate, if_pos noBearer, ite_self]

/-- On the master path the key is the viewer key. -/
theorem serveHTTP_eq_accept_iff {r : Request} (noBearer : r.bearer = []) {enrollSA : Bytes}
    {answers : Answers} {key role : Bytes} :
    serveHTTP enrollSA answers r = .accept key role ↔
      r.param "sid" ≠ [] ∧ (role = source ∨ role = viewer) ∧ r.param "role" = role ∧
        answers.checkRelayGrant (r.param "sid") role = true ∧
        viewerKey answers r (r.param "sid") role = key := by
  rw [serveHTTP, slaveGate_of_no_bearer noBearer]
  constructor
  · intro accepted
    split at accepted
    · cases accepted
    · rename_i wellFormed
      rw [not_or, not_and_or, not_not, not_not] at wellFormed
      simp only at accepted
      split at accepted
      · rename_i granted
        cases accepted
        exact ⟨wellFormed.1, wellFormed.2, rfl, granted, rfl⟩
      · cases accepted
  · rintro ⟨sidNonempty, oneOf, rfl, granted, rfl⟩
    rw [if_neg (by rw [not_or, not_and_or, not_not, not_not]; exact ⟨sidNonempty, oneOf⟩)]
    exact if_pos granted

/-- What `wsViewer` checks of a request before it connects. -/
structure WsAllowed (auth : Option Bytes) (r : Request) (pc : Bytes) : Prop where
  sid_ne_nil : r.param "sid" ≠ []
  pc_ne_nil : pc ≠ []
  scope : ∃ scope, auth = some scope ∧ wsPC scope r = pc ∧ allows scope pc = true

/-- Without an upstream relay, `/ws` looks its PC up and accepts here. -/
theorem wsViewer_accepts {auth : Option Bytes} {answers : Answers} {upstream : Option Base}
    {r : Request} {key role : Bytes}
    (accepted : wsViewer auth answers upstream r = .accept key role) :
    ∃ pc, WsAllowed auth r pc ∧ role = viewer ∧
      key = if pcRole (answers.getPC pc) = slave then slaveSessionKey pc (r.param "sid")
        else r.param "sid" := by
  cases auth with
  | none => cases accepted
  | some scope =>
      simp only [wsViewer] at accepted
      split at accepted
      · cases accepted
      · rename_i wellFormed
        rw [not_or, not_or, Bool.not_eq_false] at wellFormed
        cases upstream with
        | some up => cases accepted
        | none =>
            cases accepted
            exact ⟨_, ⟨wellFormed.1, wellFormed.2.1, scope, rfl, rfl, wellFormed.2.2⟩, rfl, rfl⟩

/-- With an upstream relay, `/ws` dials it as a viewer of its PC. -/
theorem wsViewer_dials {auth : Option Bytes} {answers : Answers} {upstream : Option Base}
    {r dialed : Request} (dials : wsViewer auth answers upstream r = .dial dialed) :
    ∃ pc up, WsAllowed auth r pc ∧ dialed = dialViewerFrom up (r.param "sid") pc := by
  cases auth with
  | none => cases dials
  | some scope =>
      simp only [wsViewer] at dials
      split at dials
      · cases dials
      · rename_i wellFormed
        rw [not_or, not_or, Bool.not_eq_false] at wellFormed
        cases upstream with
        | some up =>
            cases dials
            exact ⟨_, up, ⟨wellFormed.1, wellFormed.2.1, scope, rfl, rfl, wellFormed.2.2⟩, rfl⟩
        | none => cases dials

theorem WsAllowed.unique {auth : Option Bytes} {r : Request} {pc other : Bytes}
    (allowed : WsAllowed auth r pc) (otherAllowed : WsAllowed auth r other) : pc = other := by
  obtain ⟨scope, found, rfl, -⟩ := allowed.scope
  obtain ⟨scope', found', rfl, -⟩ := otherAllowed.scope
  rw [found, Option.some.injEq] at found'
  rw [found']

/-! ## The dialed request -/

/-- The query of `DialViewerFrom`, as pairs. -/
def viewerQuery (sid sourcePC : Bytes) : Values :=
  (ascii "sid", sid) :: (ascii "role", viewer) ::
    if sourcePC ≠ [] then [(ascii "spc", sourcePC)] else []

theorem viewerURL_eq (base : Base) (sid sourcePC : Bytes) :
    viewerURL base sid sourcePC =
      (base.text ++ ascii "/session") ++ question :: encodeQuery (viewerQuery sid sourcePC) := by
  have sidPair : escapePair (ascii "sid", sid) = ascii "sid=" ++ queryEscape sid := by
    rw [escapePair, queryEscape_of_isUnreserved (s := ascii "sid") (by decide)]
    rfl
  have rolePair : escapePair (ascii "role", viewer) = ascii "role=viewer" := by decide
  have spcPair : escapePair (ascii "spc", sourcePC) = ascii "spc=" ++ queryEscape sourcePC := by
    rw [escapePair, queryEscape_of_isUnreserved (s := ascii "spc") (by decide)]
    rfl
  have sidStart : ascii "/session?sid=" = ascii "/session" ++ question :: ascii "sid=" := by decide
  have roleStart : ascii "&role=viewer" = ampersand :: ascii "role=viewer" := by decide
  have spcStart : ascii "&spc=" = ampersand :: ascii "spc=" := by decide
  rw [viewerURL, viewerQuery, encodeQuery, sidStart, roleStart, spcStart]
  split
  · simp only [List.map_cons, List.map_nil, List.intercalate_cons_cons, List.intercalate_singleton,
      sidPair, rolePair, spcPair, List.append_assoc, List.cons_append, List.nil_append]
  · simp only [List.map_cons, List.map_nil, List.intercalate_cons_cons, List.intercalate_singleton,
      sidPair, rolePair, List.append_assoc, List.cons_append, List.nil_append, List.append_nil]

/-- The upstream relay reads what was dialed. -/
theorem parseQuery_dialViewerFrom (base : Base) (sid sourcePC : Bytes) :
    parseQuery (dialViewerFrom base sid sourcePC).query = viewerQuery sid sourcePC := by
  have clean : ∀ c, c ∉ base.text → c ∉ ascii "/session" → c ∉ base.text ++ ascii "/session" :=
    fun c inBase inPath mem => (List.mem_append.mp mem).elim inBase inPath
  rw [dialViewerFrom, viewerURL_eq,
    rawQuery_append (clean _ base.question_notMem (by decide))
      (clean _ base.hash_notMem (by decide))
      (hash_notMem_encodeQuery _), parseQuery_encodeQuery]

@[simp]
theorem dialViewerFrom_sid (base : Base) (sid sourcePC : Bytes) :
    (dialViewerFrom base sid sourcePC).param "sid" = sid := by
  rw [Request.param, parseQuery_dialViewerFrom, viewerQuery, Values.get_cons_same]

@[simp]
theorem dialViewerFrom_role (base : Base) (sid sourcePC : Bytes) :
    (dialViewerFrom base sid sourcePC).param "role" = viewer := by
  rw [Request.param, parseQuery_dialViewerFrom, viewerQuery, Values.get_cons_of_ne (by decide),
    Values.get_cons_same]

@[simp]
theorem dialViewerFrom_spc (base : Base) (sid sourcePC : Bytes) :
    (dialViewerFrom base sid sourcePC).param "spc" = sourcePC := by
  rw [Request.param, parseQuery_dialViewerFrom, viewerQuery, Values.get_cons_of_ne (by decide),
    Values.get_cons_of_ne (by decide)]
  split
  · exact Values.get_cons_same ..
  · rename_i empty
    exact (not_not.mp empty).symm

end Drover.Web
