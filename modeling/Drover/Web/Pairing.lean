import Drover.Data.Separator
import Drover.Web.Access

/-!
# Pairing keys

A slave source is accepted under its PC's name, a NUL and its session id.  A
viewer of that session has to get the same key, and nobody else may: the name
has no NUL, but a session id from a query can have one, and the read of the
PC's role can fail.
-/

namespace Drover.Web

open Drover.Net

/-- Another connection: its session id, the PC that its request names (for
`/session` in `spc`, possibly none), its role, what the read of that PC came to,
and the pairing key it got. -/
structure Entry where
  sid : Bytes
  pc : Bytes
  role : Bytes
  read : PCRead
  key : Bytes

/-- The connections that the relay accepts besides the slaves' sources. -/
inductive Accepted (enrollSA : Bytes) : Entry → Prop
  /-- Through `/ws`, at this relay. -/
  | ws {auth : Option Bytes} {answers : Answers} {r : Request} {pc key role : Bytes}
      (allowed : WsAllowed auth r pc) (accepted : wsViewer auth answers none r = .accept key role) :
      Accepted enrollSA ⟨r.param "sid", pc, role, answers.getPC pc, key⟩
  /-- Through `/ws`, at the upstream relay. -/
  | proxied {auth : Option Bytes} {answers upstreamAnswers : Answers} {up : Base}
      {r dialed : Request} {pc key role : Bytes} (allowed : WsAllowed auth r pc)
      (dials : wsViewer auth answers (some up) r = .dial dialed)
      (accepted : serveHTTP enrollSA upstreamAnswers dialed = .accept key role) :
      Accepted enrollSA ⟨r.param "sid", pc, role, upstreamAnswers.getPC pc, key⟩
  /-- Through `/session`, on the master path. -/
  | session {answers : Answers} {r : Request} {key role : Bytes} (noBearer : r.bearer = [])
      (accepted : serveHTTP enrollSA answers r = .accept key role) :
      Accepted enrollSA ⟨r.param "sid", r.param "spc", role, answers.getPC (r.param "spc"), key⟩

namespace Entry

/-- A viewer of a PC that was read as a slave. -/
def OfSlave (e : Entry) : Prop := e.role = viewer ∧ e.pc ≠ [] ∧ pcRole e.read = slave

instance (e : Entry) : Decidable e.OfSlave := inferInstanceAs (Decidable (_ ∧ _))

/-- A viewer of the slave's session. -/
def Addresses (e : Entry) (pc sid : Bytes) : Prop := e.role = viewer ∧ e.pc = pc ∧ e.sid = sid

/-- The connection gets the slave's key if it is a viewer of the slave's session,
and another key otherwise. -/
def Isolated (e : Entry) (pc sid : Bytes) : Prop :=
  e.key = slaveSessionKey pc sid ↔ e.Addresses pc sid

/-- How a connection comes to the wrong key. -/
inductive Astray (e : Entry) (pc sid : Bytes) : Prop
  /-- The role of the slave was not read. -/
  | missed (addresses : e.Addresses pc sid) (notRead : pcRole e.read ≠ slave)
  /-- The session id on the master path is the slave's name, a NUL and the slave's
  session id. -/
  | smuggled (raw : ¬ e.OfSlave) (spells : e.sid = pc ++ 0x00 :: sid)
  /-- The name of another slave goes on after a NUL. -/
  | nested (ofSlave : e.OfSlave) (x : Bytes) (spells : e.pc = pc ++ 0x00 :: x)
      (rest : sid = x ++ 0x00 :: e.sid)

end Entry

/-! ## Keys -/

theorem nul_notMem_of_validPCName {pc : Bytes} (valid : ValidPCName pc = true) :
    (0x00 : UInt8) ∉ pc := fun mem => by
  have isName := isPCNameByte_of_mem valid mem
  revert isName
  decide

theorem ne_nil_of_validPCName {pc : Bytes} (valid : ValidPCName pc = true) : pc ≠ [] := by
  rintro rfl
  revert valid
  decide

theorem length_slaveSessionKey (pc sid : Bytes) :
    (slaveSessionKey pc sid).length = pc.length + sid.length + 1 := by
  rw [slaveSessionKey, List.length_append, List.length_cons, Nat.add_assoc]

/-- A namespaced key is never the raw session id. -/
theorem slaveSessionKey_ne (pc sid : Bytes) : slaveSessionKey pc sid ≠ sid := fun eq => by
  have lengths := congrArg List.length eq
  rw [length_slaveSessionKey] at lengths
  omega

/-- Two namespaced keys are the same only for the same session, or where the other
name goes on after a NUL. -/
theorem slaveSessionKey_eq_iff {pc : Bytes} (clean : (0x00 : UInt8) ∉ pc) {sid pc' sid' : Bytes} :
    slaveSessionKey pc' sid' = slaveSessionKey pc sid ↔
      (pc' = pc ∧ sid' = sid) ∨ ∃ x, pc' = pc ++ 0x00 :: x ∧ sid = x ++ 0x00 :: sid' :=
  separated_eq_iff clean

theorem viewerKey_eq (answers : Answers) (r : Request) (sid role : Bytes) :
    viewerKey answers r sid role =
      if role = viewer ∧ r.param "spc" ≠ [] ∧ pcRole (answers.getPC (r.param "spc")) = slave then
        slaveSessionKey (r.param "spc") sid
      else sid := by
  rw [viewerKey]
  by_cases isViewer : role = viewer
  · by_cases named : r.param "spc" = []
    · simp [isViewer, named]
    · simp [isViewer, named]
  · simp [isViewer]

/-- All ways to the relay choose the key by one rule. -/
theorem Accepted.key_eq {enrollSA : Bytes} {e : Entry} (accepted : Accepted enrollSA e) :
    e.key = if e.OfSlave then slaveSessionKey e.pc e.sid else e.sid := by
  cases accepted with
  | @ws auth answers r pc key role allowed accepted =>
      obtain ⟨pc', allowed', rfl, rfl⟩ := wsViewer_accepts accepted
      cases allowed.unique allowed'
      simp [Entry.OfSlave, allowed.pc_ne_nil]
  | @proxied auth answers upstreamAnswers up r dialed pc key role allowed dials accepted =>
      obtain ⟨pc', up', allowed', rfl⟩ := wsViewer_dials dials
      cases allowed.unique allowed'
      obtain ⟨-, -, rfl, -, rfl⟩ := (serveHTTP_eq_accept_iff rfl).mp accepted
      rw [viewerKey_eq, dialViewerFrom_sid, dialViewerFrom_spc]
      rfl
  | session noBearer accepted =>
      obtain ⟨-, -, -, -, rfl⟩ := (serveHTTP_eq_accept_iff noBearer).mp accepted
      exact viewerKey_eq ..

/-- A connection is isolated from a slave unless it goes astray. -/
theorem isolated_iff {pc : Bytes} (valid : ValidPCName pc = true) (sid : Bytes) {e : Entry}
    (key : e.key = if e.OfSlave then slaveSessionKey e.pc e.sid else e.sid) :
    e.Isolated pc sid ↔ ¬ e.Astray pc sid := by
  have named := ne_nil_of_validPCName valid
  have clean := nul_notMem_of_validPCName valid
  rw [Entry.Isolated, key]
  split
  · rename_i ofSlave
    rw [slaveSessionKey_eq_iff clean]
    constructor
    · intro same astray
      cases astray with
      | missed _ notRead => exact notRead ofSlave.2.2
      | smuggled raw _ => exact raw ofSlave
      | nested _ x spells rest =>
          have addresses := same.mp (.inr ⟨x, spells, rest⟩)
          rw [addresses.2.1] at spells
          exact clean (spells ▸ List.mem_append_right _ List.mem_cons_self)
    · intro straight
      constructor
      · rintro (⟨samePC, sameSid⟩ | ⟨x, spells, rest⟩)
        · exact ⟨ofSlave.1, samePC, sameSid⟩
        · exact absurd (.nested ofSlave x spells rest) straight
      · exact fun addresses => .inl addresses.2
  · rename_i raw
    constructor
    · intro same astray
      cases astray with
      | missed addresses _ =>
          exact slaveSessionKey_ne pc sid ((same.mpr addresses).symm.trans addresses.2.2)
      | smuggled _ spells =>
          exact slaveSessionKey_ne pc sid (spells.symm.trans (same.mp spells).2.2)
      | nested ofSlave _ _ _ => exact raw ofSlave
    · intro straight
      constructor
      · exact fun spells => absurd (.smuggled raw spells) straight
      · intro addresses
        refine absurd (.missed addresses fun isSlave => raw ⟨addresses.1, ?_, isSlave⟩) straight
        rw [addresses.2.1]
        exact named

/-- The two `/ws` paths choose the same key when both or neither read the PC as a
slave. -/
theorem proxied_key_eq_iff {auth : Option Bytes} {answers proxyAnswers upstreamAnswers : Answers}
    {up : Base} {enrollSA : Bytes} {r dialed : Request}
    {pc key role upstreamKey upstreamRole : Bytes}
    (allowed : WsAllowed auth r pc) (accepted : wsViewer auth answers none r = .accept key role)
    (dials : wsViewer auth proxyAnswers (some up) r = .dial dialed)
    (upstream : serveHTTP enrollSA upstreamAnswers dialed = .accept upstreamKey upstreamRole) :
    key = upstreamKey ↔
      (pcRole (answers.getPC pc) = slave ↔ pcRole (upstreamAnswers.getPC pc) = slave) := by
  have here : key = if pcRole (answers.getPC pc) = slave then slaveSessionKey pc (r.param "sid")
      else r.param "sid" := by
    obtain ⟨pc', allowed', -, isKey⟩ := wsViewer_accepts accepted
    rwa [allowed.unique allowed']
  have there : upstreamKey = if pcRole (upstreamAnswers.getPC pc) = slave then
      slaveSessionKey pc (r.param "sid") else r.param "sid" := by
    obtain ⟨pc', up', allowed', rfl⟩ := wsViewer_dials dials
    cases allowed.unique allowed'
    obtain ⟨-, -, isViewer, -, rfl⟩ := (serveHTTP_eq_accept_iff rfl).mp upstream
    rw [dialViewerFrom_role] at isViewer
    simp [viewerKey_eq, ← isViewer, allowed.pc_ne_nil]
  rw [here, there]
  by_cases readHere : pcRole (answers.getPC pc) = slave <;>
    by_cases readThere : pcRole (upstreamAnswers.getPC pc) = slave <;>
      simp [readHere, readThere, slaveSessionKey_ne, (slaveSessionKey_ne _ _).symm]

/-- A connection gets a slave's key exactly if it is a viewer of the slave's
session, unless it goes astray; and `/ws` chooses the same key with and without
an upstream relay exactly if the two reads of the PC's role agree. -/
theorem pairing_isolated_iff (enrollSA relaySA : Bytes) :
    (∀ answers r sid role effKey pc e, ValidPCName pc = true →
        answers.verifySlaveToken r.bearer = some pc →
        slaveGate enrollSA answers r sid role = .allowed effKey → Accepted relaySA e →
          ((e.key = effKey ↔ e.Addresses pc sid) ↔ ¬ e.Astray pc sid)) ∧
      ∀ auth answers proxyAnswers upstreamAnswers up r dialed pc key role upstreamKey
          upstreamRole, WsAllowed auth r pc → wsViewer auth answers none r = .accept key role →
        wsViewer auth proxyAnswers (some up) r = .dial dialed →
        serveHTTP relaySA upstreamAnswers dialed = .accept upstreamKey upstreamRole →
          (key = upstreamKey ↔
            (pcRole (answers.getPC pc) = slave ↔ pcRole (upstreamAnswers.getPC pc) = slave)) := by
  refine ⟨fun answers r sid role effKey pc e valid verified allowed accepted => ?_,
    fun _ _ _ _ _ _ _ _ _ _ _ _ => proxied_key_eq_iff⟩
  obtain ⟨-, pc', verified', -, -, -, rfl⟩ := slaveGate_eq_allowed_iff.mp allowed
  rw [verified, Option.some.injEq] at verified'
  subst verified'
  exact isolated_iff valid sid accepted.key_eq

/-! ## Runs of the handlers -/

/-- The store knows `alpha` as a slave with a grant for session `s1`, and `beta` as
a master. -/
def answersOf (alphaRead : PCRead) : Answers where
  verifySlaveToken := fun token => if token = ascii "token" then some (ascii "alpha") else none
  isRevoked := fun _ => false
  slaveRevoked := fun _ => false
  slaveGrantValid := fun pc sid => pc = ascii "alpha" && sid = ascii "s1"
  checkRelayGrant := fun _ _ => true
  getPC := fun pc =>
    if pc = ascii "alpha" then alphaRead
    else if pc = ascii "beta" then .found (some (ascii "master"))
    else .absent

/-- The read finds a shared PC. -/
def registered : PCRead := .found (some slave)

/-- A source of the session `s1`. -/
def slaveRequest : Request := ⟨ascii "token", ascii "sid=s1&role=source"⟩

/-- The relay of `wss://up`. -/
def upstreamBase : Base := ⟨ascii "wss://up", by decide, by decide⟩

/-- `/ws` for a session of a PC. -/
def wsRequest (pc sid : Bytes) : Request := ⟨[], encodeQuery [(ascii "pc", pc), (ascii "sid", sid)]⟩

@[simp]
theorem wsRequest_pc (pc sid : Bytes) : (wsRequest pc sid).param "pc" = pc := by
  rw [Request.param, wsRequest, parseQuery_encodeQuery, Values.get_cons_same]

@[simp]
theorem wsRequest_sid (pc sid : Bytes) : (wsRequest pc sid).param "sid" = sid := by
  rw [Request.param, wsRequest, parseQuery_encodeQuery, Values.get_cons_of_ne (by decide),
    Values.get_cons_same]

theorem wsRequest_allowed {pc sid : Bytes} (named : pc ≠ []) (sidNamed : sid ≠ []) :
    WsAllowed (some accountScope) (wsRequest pc sid) pc :=
  ⟨by rwa [wsRequest_sid], named, accountScope, rfl, by simp [wsPC], by simp [allows]⟩

theorem wsRequest_accepts {pc sid : Bytes} (named : pc ≠ []) (sidNamed : sid ≠ [])
    (answers : Answers) :
    wsViewer (some accountScope) answers none (wsRequest pc sid) =
      .accept (if pcRole (answers.getPC pc) = slave then slaveSessionKey pc sid else sid)
        viewer := by
  simp [wsViewer, wsPC, allows, named, sidNamed]

theorem wsRequest_dials {pc sid : Bytes} (named : pc ≠ []) (sidNamed : sid ≠ [])
    (answers : Answers) (up : Base) :
    wsViewer (some accountScope) answers (some up) (wsRequest pc sid) =
      .dial (dialViewerFrom up sid pc) := by
  simp [wsViewer, wsPC, allows, named, sidNamed]

/-- The connection of a `/ws` request that this relay accepts. -/
def wsEntry (answers : Answers) (pc sid : Bytes) : Entry where
  sid := sid
  pc := pc
  role := viewer
  read := answers.getPC pc
  key := if pcRole (answers.getPC pc) = slave then slaveSessionKey pc sid else sid

theorem wsEntry_accepted {pc sid : Bytes} (named : pc ≠ []) (sidNamed : sid ≠ [])
    (answers : Answers) (enrollSA : Bytes) : Accepted enrollSA (wsEntry answers pc sid) := by
  have accepted : Accepted enrollSA _ :=
    .ws (wsRequest_allowed named sidNamed) (wsRequest_accepts named sidNamed answers)
  rwa [wsRequest_sid] at accepted

theorem slaveRequest_allowed :
    slaveGate (ascii "sa") (answersOf registered) slaveRequest (ascii "s1") source =
      .allowed (slaveSessionKey (ascii "alpha") (ascii "s1")) := by decide

theorem dialViewerFrom_accepted (read : PCRead) :
    serveHTTP (ascii "sa") (answersOf read)
        (dialViewerFrom upstreamBase (ascii "s1") (ascii "alpha")) =
      .accept (viewerKey (answersOf read)
        (dialViewerFrom upstreamBase (ascii "s1") (ascii "alpha")) (ascii "s1") viewer) viewer :=
  (serveHTTP_eq_accept_iff rfl).mpr ⟨by rw [dialViewerFrom_sid]; decide, .inr rfl,
    dialViewerFrom_role .., rfl, by rw [dialViewerFrom_sid]⟩

theorem viewer_of_alpha_isolated :
    (((wsEntry (answersOf registered) (ascii "alpha") (ascii "s1")).key =
        slaveSessionKey (ascii "alpha") (ascii "s1") ↔
          (wsEntry (answersOf registered) (ascii "alpha") (ascii "s1")).Addresses (ascii "alpha")
            (ascii "s1")) ↔
      ¬ (wsEntry (answersOf registered) (ascii "alpha") (ascii "s1")).Astray (ascii "alpha")
        (ascii "s1")) ∧
    ((if pcRole ((answersOf registered).getPC (ascii "alpha")) = slave then
        slaveSessionKey (ascii "alpha") (ascii "s1") else ascii "s1") =
      viewerKey (answersOf .failed)
        (dialViewerFrom upstreamBase (ascii "s1") (ascii "alpha")) (ascii "s1") viewer ↔
      (pcRole ((answersOf registered).getPC (ascii "alpha")) = slave ↔
        pcRole ((answersOf .failed).getPC (ascii "alpha")) = slave)) :=
  ⟨(pairing_isolated_iff (ascii "sa") (ascii "sa")).1 (answersOf registered) slaveRequest
      (ascii "s1") source _ (ascii "alpha") _ (by decide) rfl slaveRequest_allowed
      (wsEntry_accepted (by decide) (by decide) _ _),
    (pairing_isolated_iff (ascii "sa") (ascii "sa")).2 (some accountScope) (answersOf registered)
      (answersOf registered) (answersOf .failed) upstreamBase
      (wsRequest (ascii "alpha") (ascii "s1"))
      _ (ascii "alpha") _ viewer _ viewer (wsRequest_allowed (by decide) (by decide))
      (wsRequest_accepts (by decide) (by decide) _) (wsRequest_dials (by decide) (by decide) _ _)
      (dialViewerFrom_accepted _)⟩

/-- `/ws?pc=beta&sid=alpha%00s1` gets the key of the slave `alpha`, whose own viewer
gets another key when the read of its role fails. -/
theorem smuggled_sid_gets_slave_key :
    (wsRequest (ascii "beta") (ascii "alpha" ++ 0x00 :: ascii "s1")).query =
        ascii "pc=beta&sid=alpha%00s1" ∧
      slaveGate (ascii "sa") (answersOf registered) slaveRequest (ascii "s1") source =
        .allowed (slaveSessionKey (ascii "alpha") (ascii "s1")) ∧
      (∃ e, Accepted (ascii "sa") e ∧ e.pc = ascii "beta" ∧
        e.key = slaveSessionKey (ascii "alpha") (ascii "s1")) ∧
      (∃ e, Accepted (ascii "sa") e ∧ e.Addresses (ascii "alpha") (ascii "s1") ∧ e.read = .failed ∧
        e.key ≠ slaveSessionKey (ascii "alpha") (ascii "s1")) ∧
      ¬ ∀ e, Accepted (ascii "sa") e → e.Isolated (ascii "alpha") (ascii "s1") := by
  have smuggled : Accepted (ascii "sa")
      (wsEntry (answersOf registered) (ascii "beta") (ascii "alpha" ++ 0x00 :: ascii "s1")) :=
    wsEntry_accepted (by decide) (by decide) _ _
  refine ⟨by decide, slaveRequest_allowed, ⟨_, smuggled, rfl, by decide⟩,
    ⟨_, wsEntry_accepted (by decide) (by decide) (answersOf .failed) (ascii "sa"),
      ⟨rfl, rfl, rfl⟩, rfl, by decide⟩, fun isolated => ?_⟩
  exact absurd ((isolated _ smuggled).mp (by decide)).2.1 (by decide)

end Drover.Web
