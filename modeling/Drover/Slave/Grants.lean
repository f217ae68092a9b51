import Drover.Slave.Operations

/-!
# What a shared PC can serve

The gate of `/session` takes a source with a bearer for a session that the bearer's PC
has been granted, and a grant is written by a request with a bearer of that PC, which
has found the session among the PC's own.  The signature of a bearer cannot be forged:
what it signs is what some token of the server signs, and `slaveToken` makes tokens for
names that were bound, which have no colon.  So a grant belongs to one PC and one
session.
-/

namespace Drover.Slave

open Drover.Store Drover.Transition
open Drover.Push (PushEntry)
open Drover.Web (Verdict slaveSessionKey)

variable {α ρ : Type}

/-- An operation that a call has performed. -/
abbrev Act (α : Type) := Event (Doc α) PushEntry Delivery

/-! ## Bearers -/

/-- `fbOwnerUID`. -/
def fbOwnerUID : Bytes := ascii "cm-owner"

/-- The `uid` of a token that the server makes. -/
def IsUID (uid : Bytes) : Prop :=
  uid = fbOwnerUID ∨ ∃ pc, ValidPCName pc = true ∧ uid = slavePrefix ++ pc

/-- The encodings come back, and do not contain a dot. -/
structure Server.Codecs (server : Server α) : Prop where
  dot_notMem_header : dot ∉ server.header
  dot_notMem_encode : ∀ s, dot ∉ server.encode s
  decode_encode : ∀ s, server.decode (server.encode s) = some s
  unmarshal_marshal : ∀ uid iat, IsUID uid →
    server.unmarshal (server.marshal uid iat) = some ⟨((iat + 60 * 60 : Nat) : Int), uid⟩

/-- What the signature of the bearer signs is the head and the claims of a token that
`slaveToken` has answered with, or of one of the owner. -/
def Server.SignedBy (server : Server α) (s : System α) (tok : Bytes) : Prop :=
  (server.signedClaims tok).isSome = true →
    ∃ tok', (tok'.splitOn dot).take 2 = (tok.splitOn dot).take 2 ∧
      ((∃ r post body past exp,
          s.calls r = some ⟨.token post body, past, .reply (.token tok' exp)⟩) ∨
        ∃ now, server.firebaseCustomToken fbOwnerUID now = some tok')

/-- Other programs write no slave grants, and bind only valid names. -/
def Outside (path : Path) (_ : Doc α) : Prop :=
  (∀ id, path ≠ docPath (ascii "slavegrants") id) ∧
    ∀ pc, path = slavePath pc → ValidPCName pc = true

/-- The `Authorization` header of a request that is checked. -/
def Request.authorization : Request α → Option Bytes
  | .slave authorization _ | .session authorization _ _ => some authorization
  | _ => none

/-- The signatures of the bearers are not forged. -/
def Server.Genuine (server : Server α) (s : System α) : Label α → Prop
  | .begin _ req => ∀ authorization ∈ req.authorization, server.SignedBy s (bearer authorization)
  | .external path (some d) => Outside path d
  | _ => True

section

variable {server : Server α}

/-- The segments of a token. -/
theorem splitOn_firebaseCustomToken (codecs : server.Codecs) {uid tok : Bytes} {now : Nat}
    (made : server.firebaseCustomToken uid now = some tok) :
    (tok.splitOn dot).take 2 =
      [server.header, server.encode (server.marshal uid (now / second))] := by
  simp only [Server.firebaseCustomToken, bind, Option.bind_eq_some_iff, pure] at made
  obtain ⟨sign, -, sig, -, made⟩ := made
  cases made
  rw [List.append_assoc, List.cons_append,
    List.splitOn_append_cons_self_of_not_mem codecs.dot_notMem_header,
    List.splitOn_append_cons_self_of_not_mem (codecs.dot_notMem_encode _),
    List.splitOn_eq_singleton (codecs.dot_notMem_encode _)]
  rfl

/-- A bearer that signs what a token for the `uid` signs has its claims. -/
theorem uid_of_signedClaims (codecs : server.Codecs) {uid tok tok' : Bytes} {now : Nat}
    {claims : Claims} (isUID : IsUID uid) (made : server.firebaseCustomToken uid now = some tok')
    (same : (tok'.splitOn dot).take 2 = (tok.splitOn dot).take 2)
    (signed : server.signedClaims tok = some claims) : claims.uid = uid := by
  rw [splitOn_firebaseCustomToken codecs made] at same
  rw [Server.signedClaims] at signed
  split at signed
  · rename_i verifies head body sig _ segments
    rw [segments] at same
    simp only [List.take_succ_cons, List.take_zero, List.cons.injEq, and_true] at same
    obtain ⟨-, rfl⟩ := same
    split at signed
    · cases signed
    · split at signed
      · rw [codecs.decode_encode, Option.bind_some, codecs.unmarshal_marshal _ _ isUID] at signed
        cases signed
        rfl
      · cases signed
  · cases signed

end

/-! ## What the calls have seen -/

/-- The call has verified its bearer as one of the PC. -/
def Verified (server : Server α) (authorization pc : Bytes) (past : List (Act α)) : Prop :=
  ∃ time, (⟨time, .now, time⟩ : Act α) ∈ past ∧
    server.verifySlaveToken (bearer authorization) time = some pc

/-- The call has read `revoked/{pc}` and `slaves/{pc}`, and found no revocation. -/
def NotRevoked (pc : Bytes) (past : List (Act α)) : Prop :=
  (∃ time snap, (⟨time, .get (revokedPath pc), snap⟩ : Act α) ∈ past ∧ ∀ d, snap ≠ .found d) ∧
    ∃ time snap, (⟨time, .get (slavePath pc), snap⟩ : Act α) ∈ past ∧
      ∀ hash, snap ≠ .found (.slave hash true)

/-- The call has found the session document. -/
def FoundSession (pc id : Bytes) (past : List (Act α)) : Prop :=
  ∃ time d, (⟨time, .get (sessionPath pc id), .found d⟩ : Act α) ∈ past

/-- What a request for a grant has seen before it writes the document. -/
def Grants (server : Server α) (req : Request α) (past : List (Act α)) (path : Path) (d : Doc α) :
    Prop :=
  ∃ authorization pc sid ttlSeconds now,
    req = .slave authorization (.grant (some (sid, ttlSeconds))) ∧
    Verified server authorization pc past ∧ FoundSession pc (injBaseSID sid) past ∧
    (⟨now, .now, now⟩ : Act α) ∈ past ∧ path = slaveGrantPath pc sid ∧
    d = .slaveGrant pc sid (some (now + clampTTL ttlSeconds * second))

/-- Why a call may write a document. -/
def Reason (server : Server α) (req : Request α) (past : List (Act α)) (path : Path) (d : Doc α) :
    Prop :=
  Outside path d ∨ Grants server req past path d

/-- What a call has seen when it answers. -/
def Ends (server : Server α) : Request α → List (Act α) → Reply → Prop
  | .token _ body, past, .token tok _ =>
      ∃ pc secret now, body = some (pc, secret) ∧ server.mintSlaveToken pc now = some tok ∧
        ∃ time hash revoked,
          (⟨time, .get (slavePath pc), .found (.slave hash revoked)⟩ : Act α) ∈ past
  | .session authorization sid role, past, .gate (.allowed key) =>
      role = Web.source ∧ ∃ pc, key = slaveSessionKey pc sid ∧
        Verified server authorization pc past ∧ NotRevoked pc past ∧
        ∃ time granted pc' sid' exp rest,
          past = ⟨time, .now, time⟩ ::
            ⟨granted, .get (slaveGrantPath pc sid),
              .found (.slaveGrant pc' sid' (some exp))⟩ :: rest ∧
          time < exp
  | _, _, _ => True

section

variable {past past' : List (Act α)} {pc : Bytes}

theorem Verified.mono {server : Server α} {authorization : Bytes} (longer : past ⊆ past')
    (verified : Verified server authorization pc past) :
    Verified server authorization pc past' := by
  obtain ⟨time, mem, isPC⟩ := verified
  exact ⟨time, longer mem, isPC⟩

theorem NotRevoked.mono (longer : past ⊆ past') (notRevoked : NotRevoked pc past) :
    NotRevoked pc past' := by
  obtain ⟨⟨time, snap, mem, notFound⟩, time', snap', mem', notSlave⟩ := notRevoked
  exact ⟨⟨time, snap, longer mem, notFound⟩, time', snap', longer mem', notSlave⟩

theorem FoundSession.mono {id : Bytes} (longer : past ⊆ past') (found : FoundSession pc id past) :
    FoundSession pc id past' := by
  obtain ⟨time, d, mem⟩ := found
  exact ⟨time, d, longer mem⟩

end

section

variable {why : List (Act α) → ClientOp α → Prop} {past : List (Act α)} {pc : Bytes}

theorem refuses_along {ends : List (Act α) → Bool → Prop} (named : pc ≠ [])
    (reads : ∀ past path, why past (.get path)) (yes : ∀ past', past <:+ past' → ends past' true)
    (no : ∀ past', past <:+ past' → NotRevoked pc past' → ends past' false) :
    (refuses pc).Along why ends past := by
  apply Prog.Along.bind
  rw [isRevoked, if_neg named]
  apply Prog.Along.get (reads _ _)
  intro time snap
  have second : (∀ d, snap ≠ .found d) →
      (slaveRevoked pc).Along why ends (⟨time, .get (revokedPath pc), snap⟩ :: past) := by
    intro notFound
    rw [slaveRevoked, if_neg named]
    apply Prog.Along.get (reads _ _)
    intro time' snap'
    have longer : past <:+ (⟨time', .get (slavePath pc), snap'⟩ : Act α) ::
        ⟨time, .get (revokedPath pc), snap⟩ :: past :=
      (List.suffix_cons _ _).trans (List.suffix_cons _ _)
    have notRevoked : (∀ hash, snap' ≠ .found (.slave hash true)) → NotRevoked pc
        ((⟨time', .get (slavePath pc), snap'⟩ : Act α) ::
          ⟨time, .get (revokedPath pc), snap⟩ :: past) :=
      fun notSlave => ⟨⟨time, snap, by simp, notFound⟩, time', snap', by simp, notSlave⟩
    cases snap' with
    | failed | absent => exact no _ longer (notRevoked (by simp))
    | found d =>
        cases d with
        | slave hash revoked =>
            cases revoked with
            | false => exact no _ longer (notRevoked (by simp))
            | true => exact yes _ longer
        | _ =>
            exact no _ longer (notRevoked (by simp))
  cases snap with
  | failed | absent => exact second (by simp)
  | found d => exact yes _ (List.suffix_cons _ _)

theorem slaveSecretHash_along {ends : List (Act α) → Option Bytes → Prop}
    (reads : ∀ past path, why past (.get path))
    (missing : ∀ past', past <:+ past' → ends past' none)
    (found : ∀ time hash revoked,
      ends (⟨time, .get (slavePath pc), .found (.slave hash revoked)⟩ :: past) (some hash)) :
    (slaveSecretHash pc).Along why ends past := by
  rw [slaveSecretHash]
  apply Prog.Along.get (reads _ _)
  intro time snap
  have no : ends (⟨time, .get (slavePath pc), snap⟩ :: past) none :=
    missing _ (List.suffix_cons _ _)
  cases snap with
  | failed | absent => exact no
  | found d =>
      cases d with
      | slave hash revoked =>
          change ends _ (if hash ≠ [] then some hash else none)
          split
          · exact found time hash revoked
          · exact no
      | _ =>
          exact no

theorem sessionOwnedBy_along {ends : List (Act α) → Bool → Prop} {sid : Bytes}
    (reads : ∀ past path, why past (.get path)) (missing : ∀ past', ends past' false)
    (found : ∀ past', past <:+ past' → FoundSession pc sid past' → ends past' true) :
    (sessionOwnedBy pc sid).Along why ends past := by
  rw [sessionOwnedBy]
  split
  · exact missing _
  · apply Prog.Along.get (reads _ _)
    intro time snap
    cases snap with
    | failed | absent => exact missing _
    | found d => exact found _ (List.suffix_cons _ _) ⟨time, d, by simp⟩

/-- A grant that is found in time. -/
theorem slaveGrantValid_along {ends : List (Act α) → Bool → Prop} {sid : Bytes}
    (reads : ∀ past path, why past (.get path)) (clock : ∀ past, why past .now)
    (invalid : ∀ past', past <:+ past' → ends past' false)
    (valid : ∀ granted pc' sid' exp time, time < exp →
      ends (⟨time, .now, time⟩ ::
        ⟨granted, .get (slaveGrantPath pc sid), .found (.slaveGrant pc' sid' (some exp))⟩ :: past)
        true) :
    (slaveGrantValid pc sid).Along why ends past := by
  rw [slaveGrantValid]
  split
  · exact invalid past List.suffix_rfl
  · apply Prog.Along.get (reads _ _)
    intro granted snap
    have no : ends (⟨granted, .get (slaveGrantPath pc sid), snap⟩ :: past) false :=
      invalid _ (List.suffix_cons _ _)
    cases snap with
    | failed | absent => exact no
    | found d =>
        cases d with
        | slaveGrant pc' sid' exp =>
            cases exp with
            | none => exact no
            | some exp =>
                apply Prog.Along.now (clock _)
                intro time
                change ends _ (decide (time < exp))
                by_cases inTime : time < exp
                · rw [decide_eq_true inTime]
                  exact valid granted pc' sid' exp time inTime
                · rw [decide_eq_false inTime]
                  exact invalid _ ((List.suffix_cons _ _).trans (List.suffix_cons _ _))
        | _ =>
            exact no

end

/-! ## What the handlers do -/

section

variable (server : Server α)

theorem justified_get {req : Request α} (past : List (Act α)) (path : Path) :
    (Op.get path : ClientOp α).Justified (Reason server req past) := trivial

theorem session_along (authorization sid role : Bytes) :
    (session server authorization sid role).Along
      (fun past o => o.Justified (Reason server (.session authorization sid role) past))
      (Ends server (.session authorization sid role)) [] := by
  apply Prog.Along.bind
  rw [newSlaveGate]
  split
  · exact trivial
  · split
    · exact trivial
    · apply Prog.Along.now trivial
      intro time
      split
      · exact trivial
      · rename_i pc verified
        have named : pc ≠ [] := by
          obtain ⟨-, -, -, named⟩ := Server.uid_of_verifySlaveToken verified
          exact named
        split
        · exact trivial
        · rename_i isSource
          apply Prog.Along.bind
          apply refuses_along named (justified_get server)
          case yes => exact fun _ _ => trivial
          case no =>
            intro past' longer notRevoked
            apply Prog.Along.bind
            apply slaveGrantValid_along (justified_get server) (fun _ => trivial)
            case invalid => exact fun _ _ => trivial
            case valid =>
              intro granted pc' sid' exp time' inTime
              have kept : past' ⊆ (⟨time', .now, time'⟩ : Act α) ::
                  ⟨granted, .get (slaveGrantPath pc sid),
                    .found (.slaveGrant pc' sid' (some exp))⟩ :: past' :=
                ((List.suffix_cons _ _).trans (List.suffix_cons _ _)).subset
              have isVerified : Verified server authorization pc past' :=
                ⟨time, longer.subset (by simp), verified⟩
              exact ⟨not_not.mp isSource, pc, rfl, isVerified.mono kept, notRevoked.mono kept,
                time', granted, pc', sid', exp, past', rfl, inTime⟩

theorem slaveToken_along (post : Bool) (body : Option (Bytes × Bytes)) :
    (slaveToken server post body).Along
      (fun past o => o.Justified (Reason server (.token post body) past))
      (Ends server (.token post body)) [] := by
  rw [slaveToken.eq_def]
  split
  · exact trivial
  · split
    · exact trivial
    · split
      · exact trivial
      · rename_i pc secret
        split
        · exact trivial
        · rename_i given
          rw [not_or] at given
          apply Prog.Along.bind
          apply slaveSecretHash_along (justified_get server)
          case missing => exact fun _ _ => trivial
          case found =>
            intro time hash revoked
            rw [tokenForHash]
            split
            · exact trivial
            · apply Prog.Along.bind
              apply refuses_along given.1 (justified_get server)
              case yes => exact fun _ _ => trivial
              case no =>
                intro past' longer notRevoked
                apply Prog.Along.now trivial
                intro now
                split
                · exact trivial
                · rename_i tok minted
                  exact ⟨pc, secret, now, rfl, minted, time, hash, revoked,
                    List.mem_cons_of_mem _ (longer.subset (by simp))⟩

theorem slaveGrant_along (authorization : Bytes) (body : Option (Bytes × Int)) :
    (slaveGuard server authorization (slaveGrant body)).Along
      (fun past o => o.Justified (Reason server (.slave authorization (.grant body)) past))
      (Ends server (.slave authorization (.grant body))) [] := by
  rw [slaveGuard]
  split
  · exact trivial
  · apply Prog.Along.now trivial
    intro time
    split
    · exact trivial
    · rename_i pc verified
      have named : pc ≠ [] := by
        obtain ⟨-, -, -, named⟩ := Server.uid_of_verifySlaveToken verified
        exact named
      apply Prog.Along.bind
      apply refuses_along named (justified_get server)
      case yes => exact fun _ _ => trivial
      case no =>
        intro past longer notRevoked
        have isVerified : Verified server authorization pc past :=
          ⟨time, longer.subset (by simp), verified⟩
        rw [if_neg (by simp), slaveGrant.eq_def]
        split
        · exact trivial
        · rename_i sid ttlSeconds
          split
          · exact trivial
          · apply Prog.Along.bind
            apply sessionOwnedBy_along (justified_get server)
            case missing => exact fun _ => trivial
            case found =>
              intro past' longer' found
              apply Prog.Along.bind
              rw [putSlaveGrant]
              split
              · exact trivial
              · apply Prog.Along.now trivial
                intro now
                refine ⟨?_, fun _ ok _ => ?_⟩
                · intro old d changed
                  cases changed
                  have kept : past' ⊆ (⟨now, .now, now⟩ : Act α) :: past' :=
                    List.subset_cons_self _ _
                  exact .inr ⟨authorization, pc, sid, ttlSeconds, now, rfl,
                    isVerified.mono (List.Subset.trans longer'.subset kept),
                    found.mono kept, by simp, rfl, rfl⟩
                · cases ok <;> exact trivial

/-- A write outside the slave grants needs no more reason. -/
theorem outside_docPath {col : Path} (top : slash ∉ col) (notGrants : col ≠ ascii "slavegrants")
    (notSlaves : col ≠ ascii "slaves") (id : Bytes) (d : Doc α) : Outside (docPath col id) d := by
  constructor
  · exact fun id' => docPath_ne top (by decide) notGrants
  · exact fun pc same => absurd same (docPath_ne top (by decide) notSlaves)

theorem Does.justified {server : Server α} {req : Request α} {o : ClientOp α}
    (does : Does server req o)
    (notGrant : ∀ authorization body, req ≠ .slave authorization (.grant body))
    (past : List (Act α)) : o.Justified (Reason server req past) := by
  cases does with
  | now | tokenSlave | tokenRevoked | gate | getPairing | forget | list => exact trivial
  | slave verified does =>
      cases does with
      | now | isRevoked | slaveRevoked | getSession | listSessions | lookup | remember | getWebhook
      | send | getWake | getRelay | listCommands => exact trivial
      | register | parent =>
          exact fun _ d _ => .inl (outside_docPath (by decide) (by decide) (by decide) _ d)
      | setSession =>
          intro _ d _
          rw [sessionPath_eq]
          exact .inl (outside_docPath (by decide) (by decide) (by decide) _ d)
      | grant => exact absurd rfl (notGrant _ _)
      | claim =>
          intro _ _ _ d _ _
          rw [commandPath_eq]
          exact .inl (outside_docPath (by decide) (by decide) (by decide) _ d)
      | ack =>
          intro _ d _
          rw [commandPath_eq]
          exact .inl (outside_docPath (by decide) (by decide) (by decide) _ d)
  | pair | revoke =>
      exact fun _ d _ => .inl (outside_docPath (by decide) (by decide) (by decide) _ d)
  | @bind post code pc secret valid =>
      intro _ _ _ d _ _
      refine .inl ⟨fun id same => ?_, fun pc' same => ?_⟩
      · exact absurd same (docPath_ne (by decide) (by decide) (by decide))
      · rw [slavePath, slavePath, docPath_inj] at same
        exact same ▸ valid
  | enrollDeletes | deletes => exact fun _ d written => nomatch written

/-- Every request has its reasons. -/
theorem Server.handle_along (req : Request α) :
    (server.handle req).Along (fun past o => o.Justified (Reason server req past))
      (Ends server req) [] := by
  have plain : (∀ authorization body, req ≠ .slave authorization (.grant body)) →
      (∀ past value, Ends server req past value) →
      (server.handle req).Along (fun past o => o.Justified (Reason server req past))
        (Ends server req) [] :=
    fun notGrant ends => (server.handle_only req).along
      (fun past o does => does.justified notGrant past) fun past value _ => ends past value
  cases req with
  | token post body => exact slaveToken_along server post body
  | slave authorization req =>
      cases req with
      | grant body => exact slaveGrant_along server authorization body
      | register | push | delete | sessions | wake | revoked | commands | commandAck =>
          exact plain (by simp) fun _ _ => trivial
  | session authorization sid role => exact session_along server authorization sid role
  | apiEnroll | enroll | apiDeletePC => exact plain (by simp) fun _ _ => trivial

end

/-! ## Runs -/

/-- The documents and the answers have their reasons, and the bearers are of bound
names. -/
structure Sound (server : Server α) (s : System α) : Prop where
  provenance : Provenance Outside (Reason server) (Ends server) s
  bearers : ∀ r c, s.calls r = some c → ∀ authorization ∈ c.input.authorization, ∀ now pc,
    server.verifySlaveToken (bearer authorization) now = some pc → ValidPCName pc = true

section

variable {server : Server α} {s s' : System α}

theorem valid_of_signedBy (codecs : server.Codecs)
    (provenance : Provenance Outside (Reason server) (Ends server) s) {tok pc : Bytes} {now : Nat}
    (signedBy : server.SignedBy s tok) (verified : server.verifySlaveToken tok now = some pc) :
    ValidPCName pc = true := by
  obtain ⟨claims, signed, isUID, -⟩ := Server.uid_of_verifySlaveToken verified
  obtain ⟨tok', same, ⟨r, post, body, past, exp, answered⟩ | ⟨time, made⟩⟩ :=
    signedBy (by rw [signed, Option.isSome_some])
  · obtain ⟨pc', secret, time, -, minted, found, hash, revoked, mem⟩ :=
      provenance.program r _ answered
    have valid : ValidPCName pc' = true := by
      obtain ⟨-, known, -⟩ := provenance.past r _ answered _ mem
      rcases known with outside | ⟨r', c', past', -, -, -, outside | granted⟩
      · exact outside.2 pc' rfl
      · exact outside.2 pc' rfl
      · obtain ⟨_, _, _, _, _, -, -, -, -, -, isGrant⟩ := granted
        cases isGrant
    rw [uid_of_signedClaims codecs (.inr ⟨pc', valid, rfl⟩) minted same signed] at isUID
    exact List.append_cancel_left isUID ▸ valid
  · rw [uid_of_signedClaims codecs (.inl rfl) made same signed] at isUID
    have head : (slavePrefix ++ pc).take 1 = ascii "s" := rfl
    rw [← isUID] at head
    exact absurd head (by decide)

theorem Sound.step (codecs : server.Codecs) (sound : Sound server s) {label : Label α}
    (genuine : server.Genuine s label) (taken : server.step s label = some s') :
    Sound server s' := by
  have from_ : label.From Outside := by
    cases label with
    | external path doc =>
        cases doc with
        | none => exact trivial
        | some d => exact genuine
    | tick | begin | advance => exact trivial
  refine ⟨sound.provenance.step server.handle_along from_ taken, ?_⟩
  intro r c found
  cases stepped_of_step taken with
  | tick later => exact sound.bearers r c found
  | external path doc => exact sound.bearers r c found
  | @begin r' req unused =>
      rw [State.calls_setCall] at found
      by_cases same : r = r'
      · rw [same, Function.update_self] at found
        cases found
        intro authorization isHeader now pc verified
        exact valid_of_signedBy codecs sound.provenance (genuine authorization isHeader) verified
      · rw [Function.update_of_ne same] at found
        exact sound.bearers r c found
  | @advance r' c' o next choice running isOp =>
      rw [State.perform, State.calls_setCall] at found
      by_cases same : r = r'
      · rw [same, Function.update_self] at found
        cases found
        exact sound.bearers r' c' running
      · rw [Function.update_of_ne same] at found
        exact sound.bearers r c found

end

/-- A request for a grant of the session, with a bearer of the PC, that by the time `t`
had found the session and read the clock at `granted`. -/
def GrantedBy (server : Server α) (s : System α) (pc sid : Bytes) (granted t : Nat) : Prop :=
  ∃ r c past authorization ttlSeconds, s.calls r = some c ∧
    c.input = .slave authorization (.grant (some (sid, ttlSeconds))) ∧ past <:+ c.past ∧
    (∀ e ∈ past, e.time ≤ t) ∧ Verified server authorization pc past ∧
    FoundSession pc (injBaseSID sid) past ∧ (⟨granted, .now, granted⟩ : Act α) ∈ past

theorem clampTTL_le (ttlSeconds : Int) : clampTTL ttlSeconds ≤ 300 := by
  rw [clampTTL]
  omega

theorem slaveGrantDocID_inj {pc pc' sid sid' : Bytes} (valid : ValidPCName pc = true)
    (valid' : ValidPCName pc' = true) :
    slaveGrantDocID pc sid = slaveGrantDocID pc' sid' ↔ pc = pc' ∧ sid = sid' :=
  separated_inj (colon_notMem_of_valid valid') (colon_notMem_of_valid valid)

theorem slaveGrantPath_inj {pc pc' sid sid' : Bytes} (valid : ValidPCName pc = true)
    (valid' : ValidPCName pc' = true) :
    slaveGrantPath pc sid = slaveGrantPath pc' sid' ↔ pc = pc' ∧ sid = sid' :=
  docPath_inj.trans (slaveGrantDocID_inj valid valid')

/-- What it takes for the gate to accept a connection. -/
theorem accepted_of_sound {server : Server α} {s : System α} (sound : Sound server s) {r : Nat}
    {authorization sid role key : Bytes} {past : List (Act α)}
    (accepted : s.calls r =
      some ⟨.session authorization sid role, past, .reply (.gate (.allowed key))⟩) :
    role = Web.source ∧ ∃ pc t granted, key = slaveSessionKey pc sid ∧
      (⟨t, .now, t⟩ : Act α) ∈ past ∧ (∀ e ∈ past, e.time ≤ t) ∧
      Verified server authorization pc past ∧ NotRevoked pc past ∧
      granted ≤ t ∧ t < granted + 300 * second ∧ GrantedBy server s pc sid granted t := by
  obtain ⟨provenance, bearers⟩ := sound
  obtain ⟨isSource, pc, isKey, verified, notRevoked, t, read, pc', sid', exp, rest, isPast,
    inTime⟩ :=
    provenance.program r _ accepted
  change past = _ at isPast
  subst isPast
  have sorted := provenance.sorted r _ accepted
  have before : ∀ e ∈ rest, e.time ≤ read := by
    intro e mem
    exact (List.pairwise_cons.mp (List.pairwise_cons.mp sorted).2).1 e mem
  have readBefore : read ≤ t := (List.pairwise_cons.mp sorted).1 _ List.mem_cons_self
  have valid : ValidPCName pc = true := by
    obtain ⟨time, -, isPC⟩ := verified
    exact bearers r _ accepted authorization rfl time pc isPC
  obtain ⟨-, known, -⟩ := provenance.past r _ accepted
    ⟨read, .get (slaveGrantPath pc sid), .found (.slaveGrant pc' sid' (some exp))⟩ (by simp)
  rcases known with outside | ⟨r', c, past', running, suffix, earlier, outside | granted⟩
  · exact absurd rfl (outside.1 _)
  · exact absurd rfl (outside.1 _)
  · obtain ⟨authorization', pc'', sid'', ttlSeconds, now, isInput, isPC, found, clock, isPath,
      isDoc⟩ :=
      granted
    cases isDoc
    have valid' : ValidPCName pc' = true := by
      obtain ⟨time, -, isPC⟩ := isPC
      exact bearers r' c running authorization' (by rw [isInput]; rfl) time pc' isPC
    obtain ⟨rfl, rfl⟩ := (slaveGrantPath_inj valid valid').mp isPath
    have nowBefore : now ≤ read := earlier _ clock
    have short : clampTTL ttlSeconds * second ≤ 300 * second :=
      Nat.mul_le_mul_right second (clampTTL_le ttlSeconds)
    refine ⟨isSource, pc, t, now, isKey, List.mem_cons_self, ?_, verified, notRevoked,
      Nat.le_trans nowBefore readBefore, Nat.lt_of_lt_of_le inTime (Nat.add_le_add_left short now),
      r', c, past', authorization', ttlSeconds, running, isInput, suffix,
      fun e mem => Nat.le_trans (earlier e mem) readBefore, isPC, found, clock⟩
    intro e mem
    rcases List.mem_cons.mp mem with rfl | mem
    · exact Nat.le_refl _
    · exact (List.pairwise_cons.mp sorted).1 e mem

/-! ## Grants of the relay -/

/-- A request of a slave. -/
def Request.BySlave : Request α → Prop
  | .token .. | .slave .. | .session .. => True
  | .apiEnroll .. | .enroll .. | .apiDeletePC .. => False

/-- The step is no external write, and none of a call that is no slave's. -/
def BySlaves (s : System α) : Label α → Prop
  | .tick _ | .begin .. => True
  | .external .. => False
  | .advance r _ => ∀ c, s.calls r = some c → c.input.BySlave

/-- The documents that `CheckRelayGrant` reads. -/
def Consulted (path : Path) : Prop :=
  ∃ id, path = docPath (ascii "relaygrants") id ∨ path = docPath (ascii "revoked") id

theorem not_consulted_docPath {col : Path} (top : slash ∉ col)
    (notGrants : col ≠ ascii "relaygrants")
    (notRevoked : col ≠ ascii "revoked") (id : Bytes) : ¬ Consulted (docPath col id) := by
  rintro ⟨id', same | same⟩
  · exact docPath_ne top (by decide) notGrants same
  · exact docPath_ne top (by decide) notRevoked same

/-- The requests of slaves write no such document. -/
theorem Does.not_consulted {server : Server α} {req : Request α} {o : ClientOp α}
    (does : Does server req o) (bySlave : req.BySlave) :
    o.WritesIn (fun path => ¬ Consulted path) fun _ => True := by
  cases does with
  | now | tokenSlave | tokenRevoked | gate => exact trivial
  | slave verified does =>
      cases does with
      | now | isRevoked | slaveRevoked | getSession | listSessions | lookup | remember | getWebhook
      | send | getWake | getRelay | listCommands => exact trivial
      | register | parent | grant =>
          exact not_consulted_docPath (by decide) (by decide) (by decide) _
      | setSession id =>
          change ¬ Consulted (sessionPath _ id)
          rw [sessionPath_eq]
          exact not_consulted_docPath (by decide) (by decide) (by decide) _
      | claim id | ack id =>
          change ¬ Consulted (commandPath _ id)
          rw [commandPath_eq]
          exact not_consulted_docPath (by decide) (by decide) (by decide) _
  | pair | getPairing | bind | forget | revoke | list | enrollDeletes | deletes =>
      exact bySlave.elim

/-- What `CheckRelayGrant` answers. -/
theorem checkRelayGrant_run (m : Machine (Doc α) PushEntry Delivery) (choices : Nat → Choice)
    {sid role : Bytes} (given : ¬ (sid = [] ∨ (role ≠ ascii "source" ∧ role ≠ ascii "viewer"))) :
    ((checkRelayGrant sid role).run choices m).2 =
      match readDocument m.docs (choices 0).read (relayGrantPath sid role) with
      | .found (.relayGrant pc (some exp)) =>
          decide (m.clock < exp) &&
            match readDocument m.docs (choices 2).read (revokedPath pc) with
            | .found _ => decide (pc = [])
            | _ => true
      | _ => false := by
  rw [checkRelayGrant, if_neg given]
  change (Prog.run (match readDocument m.docs (choices 0).read (relayGrantPath sid role) with
    | .found (.relayGrant pc (some exp)) => _
    | _ => _) _ m).2 = _
  split
  · rename_i pc exp grant
    change (Prog.run (if m.clock < exp then _ else _) _ m).2 = _
    by_cases inTime : m.clock < exp
    · rw [if_pos inTime, decide_eq_true inTime, Bool.true_and]
      by_cases named : pc = []
      · rw [if_neg (not_not.mpr named)]
        cases readDocument m.docs (choices 2).read (revokedPath pc) with
        | failed | absent => rfl
        | found d => exact (decide_eq_true named).symm
      · rw [if_pos named, isRevoked, if_neg named]
        change (Prog.run
          (Prog.bind (match readDocument m.docs (choices 2).read (revokedPath pc) with
          | .found _ => _
          | _ => _) _) _ m).2 = _
        cases readDocument m.docs (choices 2).read (revokedPath pc) with
        | failed | absent => rfl
        | found d => exact (decide_eq_false named).symm
    · rw [if_neg inTime, decide_eq_false inTime, Bool.false_and]
      rfl
  · rfl

/-- What `CheckRelayGrant` accepts, it has accepted earlier if its documents are the
same. -/
theorem checkRelayGrant_mono {m m' : Machine (Doc α) PushEntry Delivery} {sid role : Bytes}
    {choices : Nat → Choice} (docs : ∀ path, Consulted path → m'.docs[path]? = m.docs[path]?)
    (earlier : m.clock ≤ m'.clock)
    (accepts : ((checkRelayGrant sid role).run choices m').2 = true) :
    ((checkRelayGrant sid role).run choices m).2 = true := by
  by_cases given : sid = [] ∨ (role ≠ ascii "source" ∧ role ≠ ascii "viewer")
  · rw [checkRelayGrant, if_pos given] at accepts
    cases accepts
  · have grant : readDocument m'.docs (choices 0).read (relayGrantPath sid role) =
        readDocument m.docs (choices 0).read (relayGrantPath sid role) :=
      readDocument_congr (docs _ ⟨_, .inl rfl⟩) _
    have revoked : ∀ pc, readDocument m'.docs (choices 2).read (revokedPath pc) =
        readDocument m.docs (choices 2).read (revokedPath pc) :=
      fun pc => readDocument_congr (docs _ ⟨_, .inr rfl⟩) _
    rw [checkRelayGrant_run m' choices given, grant] at accepts
    rw [checkRelayGrant_run m choices given]
    split at accepts
    · rename_i pc exp found
      rw [revoked, Bool.and_eq_true, decide_eq_true_eq] at accepts
      rw [Bool.and_eq_true, decide_eq_true_eq]
      exact ⟨Nat.lt_of_le_of_lt earlier accepts.1, accepts.2⟩
    · cases accepts

section

variable {server : Server α} {s s' : System α}

/-- No step of a slave's request makes `CheckRelayGrant` accept. -/
theorem checkRelayGrant_of_step {sid role : Bytes} {choices : Nat → Choice}
    (does : s.Calls (fun _ => True) (Does server)) {label : Label α} (bySlaves : BySlaves s label)
    (taken : server.step s label = some s')
    (accepts : ((checkRelayGrant sid role).run choices s'.machine).2 = true) :
    ((checkRelayGrant sid role).run choices s.machine).2 = true := by
  cases stepped_of_step taken with
  | tick later =>
      refine checkRelayGrant_mono ?_ ?_ accepts
      · exact fun _ _ => rfl
      · exact later
  | external path doc => exact bySlaves.elim
  | begin input unused => exact accepts
  | @advance r c o next choice running isOp =>
      have does := (does r c running).2
      rw [isOp] at does
      have same := (does.1.not_consulted (bySlaves c running)).after (m := s.machine) choice
      refine checkRelayGrant_mono (fun path consulted => ?_)
        (Nat.le_of_eq (s.machine.clock_after choice o).symm) accepts
      exact same.docs path (not_not.mpr consulted)

theorem calls_of_step (does : s.Calls (fun _ => True) (Does server)) {label : Label α}
    (taken : server.step s label = some s') : s'.Calls (fun _ => True) (Does server) :=
  does.step (fun req _ => server.handle_only req) (fun _ _ _ => trivial) taken

theorem calls_of_exec {labels : List (Label α)} (run : exec server.step {} labels = some s) :
    s.Calls (fun _ => True) (Does server) := by
  have idle : ({} : System α).Calls (fun _ => True) (Does server) := by
    intro r c running
    cases running
  have always : Always server.step (fun s => s.Calls (fun _ => True) (Does server)) {} labels :=
    always_of_inductive (fun _ _ _ does taken => calls_of_step does taken) labels idle
  exact always.last run

theorem checkRelayGrant_of_exec {sid role : Bytes} {choices : Nat → Choice}
    {labels : List (Label α)} (does : s.Calls (fun _ => True) (Does server))
    (bySlaves : Along server.step BySlaves s labels)
    (run : exec server.step s labels = some s')
    (accepts : ((checkRelayGrant sid role).run choices s'.machine).2 = true) :
    ((checkRelayGrant sid role).run choices s.machine).2 = true := by
  induction labels generalizing s with
  | nil =>
      cases run
      exact accepts
  | cons label rest ih =>
      obtain ⟨middle, taken, run⟩ := (exec_cons_eq_some_iff ..).mp run
      obtain ⟨isSlaves, restSlaves⟩ := bySlaves middle taken
      exact checkRelayGrant_of_step does isSlaves taken
        (ih (calls_of_step does taken) restSlaves run)

theorem sound_of_exec (codecs : server.Codecs) {labels : List (Label α)}
    (genuine : Along server.step server.Genuine {} labels)
    (run : exec server.step {} labels = some s) : Sound server s := by
  have start : Sound server {} := ⟨.start, fun r c running => by cases running⟩
  have always : Always server.step (Sound server) {} labels :=
    always_of_preserved (fun _ _ _ sound met taken => sound.step codecs met taken) start genuine
  exact always.last run

end

/-- A connection of a shared PC that the gate accepts, at the time `t`, is a source with
a bearer of the PC, which is not revoked, and at most 300 seconds before a request with
a bearer of the PC was granted exactly this session and found it among the PC's own;
and no requests of slaves make `CheckRelayGrant` accept what it has not accepted before
them. -/
theorem slave_serves_only_granted (server : Server α) (codecs : server.Codecs)
    {labels : List (Label α)} {s : System α} (run : exec server.step {} labels = some s) :
    (Along server.step server.Genuine {} labels →
      ∀ {r : Nat} {authorization sid role key : Bytes} {past : List (Act α)},
        s.calls r = some ⟨.session authorization sid role, past, .reply (.gate (.allowed key))⟩ →
        role = Web.source ∧ ∃ pc t granted, key = slaveSessionKey pc sid ∧
          (⟨t, .now, t⟩ : Act α) ∈ past ∧ (∀ e ∈ past, e.time ≤ t) ∧
          Verified server authorization pc past ∧ NotRevoked pc past ∧
          granted ≤ t ∧ t < granted + 300 * second ∧ GrantedBy server s pc sid granted t) ∧
    ∀ {rest : List (Label α)} {s' : System α}, exec server.step s rest = some s' →
      Along server.step BySlaves s rest → ∀ sid role choices,
        ((checkRelayGrant sid role).run choices s'.machine).2 = true →
        ((checkRelayGrant sid role).run choices s.machine).2 = true :=
  ⟨fun genuine _ _ _ _ _ _ accepted =>
      accepted_of_sound (sound_of_exec codecs genuine run) accepted,
    fun restRun bySlaves _ _ _ accepts =>
      checkRelayGrant_of_exec (calls_of_exec run) bySlaves restRun accepts⟩

/-- With its bearer, `mac` pushes a session and is granted it; then its source connects. -/
def grantedLabels : List (Label Unit) :=
  callLabels 3 (.slave (sampleAuthorization (ascii "mac"))
      (.push (some [sampleSession (ascii "w1")]))) 13 ++
    callLabels 4 (.slave (sampleAuthorization (ascii "mac"))
      (.grant (some (ascii "w1#inj", 900)))) 6 ++
    callLabels 5 (.session (sampleAuthorization (ascii "mac")) (ascii "w1#inj") Web.source) 5

/-- The bearer of a request is the one that the call 2 was answered with. -/
def sampleGenuine (s : System Unit) : Label Unit → Bool
  | .begin _ req =>
      req.authorization.all fun authorization =>
        match s.calls 2 with
        | some ⟨.token .., _, .reply (.token tok _)⟩ => bearer authorization = tok
        | _ => false
  | .external .. => false
  | .tick _ | .advance .. => true

theorem genuine_of_sampleGenuine (s : System Unit) (label : Label Unit)
    (genuine : sampleGenuine s label = true) : sampleServer.Genuine s label := by
  cases label with
  | tick | advance => exact trivial
  | external => cases genuine
  | begin r req =>
      intro authorization isHeader _
      rw [Option.mem_def] at isHeader
      rw [sampleGenuine, isHeader, Option.all_some] at genuine
      split at genuine
      · rename_i post body past tok exp answered
        exact ⟨tok, by rw [of_decide_eq_true genuine], .inl ⟨2, post, body, past, exp, answered⟩⟩
      · cases genuine

theorem codecs_sampleServer : sampleServer.Codecs := by
  constructor
  case dot_notMem_header => decide
  case dot_notMem_encode =>
    intro s mem
    have digits : ∀ n < 16, lowerHexDigit n ≠ dot := by decide
    obtain ⟨b, -, mem⟩ := List.mem_flatMap.mp mem
    have bound := b.toNat_lt
    rcases List.mem_cons.mp mem with same | mem
    · exact digits (b.toNat / 16) (by omega) same.symm
    · exact digits (b.toNat % 16) (by omega) (List.mem_singleton.mp mem).symm
  case decode_encode => exact decodeHex_encodeHex
  case unmarshal_marshal =>
    intro uid iat _
    have zeros : ∀ b ∈ List.replicate iat (0 : UInt8), decide (b = 0) = true :=
      fun b mem => decide_eq_true (List.eq_of_mem_replicate mem)
    have before : (List.replicate iat (0 : UInt8) ++ 1 :: uid).takeWhile (· = 0) =
        List.replicate iat 0 := by
      rw [List.takeWhile_append_of_pos zeros, List.takeWhile_cons_of_neg (by decide),
        List.append_nil]
    have behind : (List.replicate iat (0 : UInt8) ++ 1 :: uid).dropWhile (· = 0) = 1 :: uid := by
      rw [List.dropWhile_append_of_pos zeros, List.dropWhile_cons_of_neg (by decide)]
    simp only [sampleServer, before, behind, List.length_replicate, List.drop_one, List.tail_cons]
    rfl

/-- The connection that the gate has accepted in a call. -/
def gateAccepted (s : System α) (r : Nat) : Option (Bytes × Bytes × Bytes × Bytes) :=
  match s.calls r with
  | some ⟨.session authorization sid role, _, .reply (.gate (.allowed key))⟩ =>
      some (authorization, sid, role, key)
  | _ => none

theorem calls_of_gateAccepted {s : System α} {r : Nat} {authorization sid role key : Bytes}
    (accepted : gateAccepted s r = some (authorization, sid, role, key)) :
    ∃ past, s.calls r =
      some ⟨.session authorization sid role, past, .reply (.gate (.allowed key))⟩ := by
  rw [gateAccepted] at accepted
  split at accepted
  · rename_i past _ running
    cases accepted
    exact ⟨past, running⟩
  · cases accepted

instance : DecidablePred (Request.BySlave (α := α))
  | .token .. | .slave .. | .session .. => isTrue trivial
  | .apiEnroll .. | .enroll .. | .apiDeletePC .. => isFalse id

instance (s : System α) : (label : Label α) → Decidable (BySlaves s label)
  | .tick _ | .begin .. => isTrue trivial
  | .external .. => isFalse id
  | .advance r _ => decidable_of_iff (∀ c ∈ s.calls r, c.input.BySlave) Iff.rfl

/-- The gate accepts the source of `mac` for the session that it was granted, and there
is no grant of the relay for it. -/
theorem grantedLabels_served :
    ∃ s, exec sampleServer.step {} (enrollLabels ++ grantedLabels) = some s ∧
      gateAccepted s 5 = some (sampleAuthorization (ascii "mac"), ascii "w1#inj", Web.source,
        slaveSessionKey (ascii "mac") (ascii "w1#inj")) ∧
      (∃ pc t granted,
        slaveSessionKey (ascii "mac") (ascii "w1#inj") = slaveSessionKey pc (ascii "w1#inj") ∧
        t < granted + 300 * second ∧ GrantedBy sampleServer s pc (ascii "w1#inj") granted t) ∧
      ((checkRelayGrant (ascii "w1#inj") Web.source).run (fun _ => .ok) s.machine).2 = false := by
  have enrolls : (exec sampleServer.step {} enrollLabels).map (fun s =>
      ((checkRelayGrant (ascii "w1#inj") Web.source).run (fun _ => .ok) s.machine).2) =
        some false := by
    decide +kernel
  have accepts : (exec sampleServer.step {} (enrollLabels ++ grantedLabels)).bind
      (gateAccepted · 5) = some (sampleAuthorization (ascii "mac"), ascii "w1#inj", Web.source,
        slaveSessionKey (ascii "mac") (ascii "w1#inj")) := by
    decide +kernel
  have genuine : Along sampleServer.step (fun s label => sampleGenuine s label = true) {}
      (enrollLabels ++ grantedLabels) := by
    decide +kernel
  have bySlaves : ((exec sampleServer.step {} enrollLabels).all fun s =>
      Along sampleServer.step BySlaves s grantedLabels) = true := by
    decide +kernel
  obtain ⟨s, run, accepted⟩ := Option.bind_eq_some_iff.mp accepts
  obtain ⟨start, enrolled, isFree⟩ := Option.map_eq_some_iff.mp enrolls
  obtain ⟨past, running⟩ := calls_of_gateAccepted accepted
  obtain ⟨served, -⟩ := slave_serves_only_granted sampleServer codecs_sampleServer run
  obtain ⟨-, free⟩ := slave_serves_only_granted sampleServer codecs_sampleServer enrolled
  rw [enrolled, Option.all_some] at bySlaves
  obtain ⟨-, pc, t, granted, isKey, -, -, -, -, -, inTime, grantedBy⟩ :=
    served (genuine.imp genuine_of_sampleGenuine) running
  refine ⟨s, run, accepted, ⟨pc, t, granted, isKey, inTime, grantedBy⟩, ?_⟩
  rw [exec_append enrolled] at run
  cases grants : ((checkRelayGrant (ascii "w1#inj") Web.source).run (fun _ => .ok) s.machine).2 with
  | false => rfl
  | true => exact (free run (of_decide_eq_true bySlaves) _ _ _ grants).symm.trans isFree

end Drover.Slave
