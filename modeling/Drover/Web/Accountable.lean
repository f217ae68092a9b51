import Drover.Store.Origins
import Drover.Web.Api

/-!
# Who decides

Commands, enroll codes, bindings of shared PCs, revocations and the settings of the
webhook are decisions of the owner.  In every run of the relay, each one that is stored
goes back to a call of the API with a cookie that an allowed account got by signing in
within the last twelve hours, or to an enrollment with a code that goes back to such a
call.  The requests of shared PCs are part of the runs; they carry decisions on, and
make none.
-/

namespace Drover.Web.Api

open Drover.Commands (Command newCommand)
open Drover.OAuth.Endpoint (CallbackRequest LoginReply SignsIn accountScope accountToken cookieTTL
  signIn_eq_redirect_iff loginCallback_eq_redirect_iff)
open Drover.Push (PushEntry)
open Drover.Slave (Client ClientOp Doc second)
open Drover.Store Drover.Transition
open Drover.WebAuth (Token newSigner)

variable {α : Type}

/-- What a call has done, latest first. -/
abbrev Past (α : Type) := List (Event (Doc α) PushEntry Slave.Delivery)

/-! ## Decisions -/

/-- What a document records of the owner's decisions. -/
inductive Decision where
  /-- A command as it was asked for. -/
  | command (cm : Command)
  | revoked
  /-- An enroll code. -/
  | pairing (scope : Bytes)
  /-- A shared PC with its secret. -/
  | slave (secretHash : Bytes)
  | webhook (enabled : Bool) (url headerName : Bytes)
  deriving DecidableEq

/-- The command without what the PC reports of it. -/
def asked (cm : Command) : Command := { cm with status := [], detail := [], finishedAt := [] }

/-- The decision that a document records.  An acknowledgement of an unknown id leaves a
command without a name, which asks for nothing. -/
def decision : Doc α → Option Decision
  | .command cm => if cm.cmd = [] then none else some (.command (asked cm))
  | .revoked => some .revoked
  | .pairing p => some (.pairing p.scope)
  | .slave secretHash _ => some (.slave secretHash)
  | .webhook (some cfg) => some (.webhook cfg.enabled cfg.url cfg.headerName)
  | _ => none

/-- The scope of the codes that shared PCs enroll with. -/
def slaveCode : Decision := .pairing (ascii "enroll-slave")

/-- The endpoint may record the decision there, for the token of the cookie. -/
def Endpoint.Decides (server : ApiServer α) (r : ApiRequest) (t : Token) :
    Endpoint → Path → Decision → Prop
  | .deletePC, path, .revoked =>
      r.method = .post ∧ r.deletedPC ≠ [] ∧ allows t.scope r.deletedPC = true ∧
        path = Slave.revokedPath r.deletedPC
  | .command random, path, .command cm =>
      r.method = .post ∧ r.formValue "pc" ≠ [] ∧ allows t.scope (r.formValue "pc") = true ∧
        r.formValue "cmd" ∈ Commands.ValidCommands ∧
        path = Slave.commandPath (r.formValue "pc") (encodeHex random.toList) ∧
        ∃ args ts, semiAutoArgs (r.formValue "cmd") (r.formValue "on") = some args ∧
          cm = asked (newCommand (encodeHex random.toList) (r.formValue "cmd") (r.formValue "sid")
            (r.formValue "agent") t.pc (sourceOf args) args ts)
  | .enroll (some code), path, .pairing scope =>
      path = Slave.pairingPath (server.hashCode code) ∧
        scope = if r.param "role" = ascii "slave" then ascii "enroll-slave" else ascii "enroll"
  | .webhook (some req), path, .webhook enabled url headerName =>
      r.method = .post ∧ t.scope = accountScope ∧ path = Slave.webhookPath ∧
        enabled = req.enabled ∧ url = req.url ∧ headerName = req.headerName
  | _, _, _ => False

/-- The code of the hash was found with the scope. -/
def FoundCode (codeHash scope : Bytes) (past : Past α) : Prop :=
  ∃ p time, ⟨time, .get (Slave.pairingPath codeHash), .found (.pairing p)⟩ ∈ past ∧
    p.scope = scope

/-- A call that has done `past` may record the decision there. -/
def Reason (server : ApiServer α) :
    Incoming α → Past α → Path → Decision → Prop
  | .api endpoint r, past, path, k =>
      ∃ cookie t time, r.cookie = some cookie ∧ ⟨time, .now, time⟩ ∈ past ∧
        server.signer.verify ((time / second : Nat) : Int) cookie = some t ∧
        endpoint.Decides server r t path k
  | .enroll true code pc (some secret), past, path, k =>
      path = Slave.slavePath pc ∧ k = .slave (server.sha256Hex secret) ∧
        FoundCode (server.hashCode code) (ascii "enroll-slave") past
  | _, _, _, _ => False

/-- A call that signs someone in gives the cookie of an allowed account. -/
def Grants (server : ApiServer α) (r : CallbackRequest)
    (past : Past α) (cookie : Bytes) : Prop :=
  ∃ email time, SignsIn server.login r email ∧ ⟨time, .now, time⟩ ∈ past ∧
    cookie = server.signer.sign (accountToken email time)

/-- The request of a call that signs someone in. -/
def Incoming.callback : Incoming α → Option CallbackRequest
  | .authGoogle r | .loginCallback r => some r
  | _ => none

/-- A call that signs someone in answers with the cookie of an allowed account. -/
def Ends (server : ApiServer α) (input : Incoming α)
    (past : Past α) (reply : ApiReply α) : Prop :=
  ∀ r location cookie, input.callback = some r → reply = .signIn (.redirect location cookie) →
    Grants server r past cookie

/-- The cookie was given out by a sign-in that came before all of `past`. -/
def GivenOut (s : System α) (past : Past α) (cookie : Bytes) : Prop :=
  ∃ q r c location, s.calls q = some c ∧ c.input.callback = some r ∧
    c.program = .reply (.signIn (.redirect location cookie)) ∧
    ∀ e ∈ c.past, ∀ e' ∈ past, e.time ≤ e'.time

/-- Nobody but the relay finds a MAC: who begins a call of the API with a text and its MAC
got them as a cookie. -/
def Presents (server : ApiServer α) (s : System α) : Label α → Prop
  | .begin _ (.api _ r) =>
      WebAuth.Unforgeable server.signer (fun t => GivenOut s [] (server.signer.sign t))
        fun tok => r.cookie = some tok
  | _ => True

/-- An allowed account made the decision with a cookie that it had got by signing in not
more than twelve hours before. -/
def ByOwner (server : ApiServer α) (s : System α) (path : Path) (k : Decision) : Prop :=
  ∃ q c endpoint r email signedAt time, s.calls q = some c ∧ c.input = .api endpoint r ∧
    endpoint.Decides server r (accountToken email signedAt) path k ∧
    r.cookie = some (server.signer.sign (accountToken email signedAt)) ∧
    ⟨time, .now, time⟩ ∈ c.past ∧ signedAt ≤ time ∧
    time / second ≤ (signedAt + cookieTTL) / second ∧
    ∃ q' c' r', s.calls q' = some c' ∧ c'.input.callback = some r' ∧
      SignsIn server.login r' email ∧ ⟨signedAt, .now, signedAt⟩ ∈ c'.past

/-- The operation carries decisions on, and makes only good ones. -/
abbrev Carries (good : Path → Decision → Prop) (o : ClientOp α) : Prop := o.Carries decision good

/-- The operation makes no decision. -/
abbrev Undecided : ClientOp α → Prop := Carries fun _ _ => False

theorem decision_ackChange (status detail finishedAt : Bytes) (old : Option (Doc α)) {d : Doc α}
    {k : Decision} (isNew : Slave.ackChange status detail finishedAt old = some d)
    (has : decision d = some k) : old.bind decision = some k := by
  cases isNew
  cases old with
  | none => cases has
  | some d =>
      cases d with
      | command cm => exact has
      | fields | slave | revoked | slaveGrant | relayGrant | wake | pairing | relay | webhook
      | token | glasses => cases has

theorem undecided_claim (path : Path) :
    Undecided (.transact path path Slave.claimChange : ClientOp α) := by
  intro snap f old d k isChange isNew has
  cases snap with
  | failed | absent => cases isChange
  | found d' =>
      cases d' with
      | command cm =>
          rw [Slave.claimChange, Option.ite_none_left_eq_some] at isChange
          cases isChange.2
          cases isNew
          exact .inr (.inr ⟨rfl, _, rfl, has⟩)
      | fields | slave | revoked | slaveGrant | relayGrant | wake | pairing | relay | webhook
      | token | glasses => cases isChange

theorem undecided_slaveOp {pc : Bytes} {req : Slave.SlaveRequest α} {o : ClientOp α}
    (does : Slave.SlaveOp pc req o) : Undecided o := by
  cases does with
  | now | isRevoked | slaveRevoked | getSession | listSessions | lookup | remember | getWebhook
  | send | getWake | getRelay | listCommands => exact trivial
  | register | parent | grant =>
      rintro old d k ⟨⟩ has
      cases has
  | setSession id change isData =>
      intro old d k isNew has
      obtain ⟨f, rfl⟩ := isData old d isNew
      cases has
  | claim id => exact undecided_claim _
  | ack id status detail finishedAt =>
      exact fun old d k isNew has =>
        .inl (decision_ackChange status detail finishedAt old isNew has)

/-- The requests of shared PCs make no decision. -/
theorem undecided_slave (server : ApiServer α) (authorization : Bytes)
    (req : Slave.SlaveRequest α) :
    (Slave.slaveGuard server.toServer authorization (req.handle server.toServer)).Only Undecided :=
  (Slave.slaveGuard_only server.toServer authorization req).imp fun o does => by
    cases does with
    | now => exact trivial
    | slave verified does => exact undecided_slaveOp does

theorem undecided_slaveToken (server : ApiServer α) (post : Bool) (body : Option (Bytes × Bytes)) :
    (Slave.slaveToken server.toServer post body).Only Undecided :=
  (Slave.slaveToken_only server.toServer post body).imp fun o does => by
    cases does with
    | now | tokenSlave | tokenRevoked => exact trivial

theorem undecided_session (server : ApiServer α) (authorization sid role : Bytes) :
    (Slave.session server.toServer authorization sid role).Only Undecided :=
  (Slave.session_only server.toServer authorization sid role).imp fun o does => by
    cases does with
    | now | gate => exact trivial

section

variable {good : Path → Decision → Prop} (server : ApiServer α) (r : ApiRequest) (t : Token)

theorem carries_listSessions (pc : Bytes) :
    (Slave.listSessions pc : Client α _).Only (Carries good) :=
  .bind (.op trivial) fun _ => .pure _

theorem carries_devicePCs : (devicePCs t : Client α _).Only (Carries good) := by
  rw [devicePCs]
  split
  · exact .bind (.bind (.op trivial) fun _ => .pure _) fun _ => .pure _
  · exact .pure _

theorem carries_deviceRows (pcs : List Bytes) : (deviceRows server pcs).Only (Carries good) := by
  induction pcs with
  | nil => exact .pure _
  | cons pc pcs ih =>
      have row : (deviceRow server pc).Only (Carries good) := by
        apply Prog.Only.bind (carries_listSessions pc)
        intro ss
        refine .bind (.bind (.op trivial) fun snap => ?_) fun _ => .pure _
        split <;> exact .pure _
      exact .bind row fun _ => .bind ih fun _ => .pure _

theorem carries_apiSessions : (apiSessions (α := α) r t).Only (Carries good) := by
  simp only [apiSessions]
  split
  all_goals
    split
    · exact .pure _
    · apply Prog.Only.bind (carries_listSessions _)
      intro ss
      split <;> exact .pure _

theorem carries_apiPushToken : (apiPushToken server r).Only (Carries good) := by
  have saves (token : Bytes) : (savePushToken server token r.userAgent).Only (Carries good) := by
    rw [savePushToken]
    split
    · exact .pure _
    · refine .bind (.op trivial) fun now => .op ?_
      rintro old d k ⟨⟩ has
      cases has
  simp only [apiPushToken]
  split
  · exact .pure _
  · split
    · exact .pure _
    · apply Prog.Only.bind (saves _)
      intro ok
      split <;> exact .pure _

theorem carries_apiDeletePC :
    (apiDeletePC (α := α) r t).Only (Carries (Endpoint.deletePC.Decides server r t)) := by
  refine .bind ?_ fun _ => .pure _
  rw [Slave.apiDeletePC]
  split
  · exact .pure _
  · rename_i isPost
    rw [decide_eq_false_iff_not, not_not] at isPost
    split
    · exact .pure _
    · rename_i guard
      rw [not_or, Bool.not_eq_false] at guard
      refine .bind ?_ fun ok => ?_
      · rw [Slave.setRevoked, if_neg guard.1]
        refine .op ?_
        rintro old d k ⟨⟩ ⟨⟩
        exact .inr ⟨isPost, guard.1, guard.2, rfl⟩
      · split
        · refine .bind ((Slave.deletePCByID_only _).imp fun o deletes => ?_) fun ok => ?_
          · cases deletes with
            | forget | list => exact trivial
            | deletes path =>
                rintro old d k ⟨⟩
          · split <;> exact .pure _
        · exact .pure _

theorem carries_apiCommand (random : Vector UInt8 12) :
    (apiCommand server random r t).Only
      (Carries ((Endpoint.command random).Decides server r t)) := by
  simp only [apiCommand]
  split
  · exact .pure _
  · rename_i isPost
    split
    · exact .pure _
    · rename_i guard
      rw [not_or, Bool.not_eq_false] at guard
      split
      · exact .pure _
      · rename_i valid
        split
        · exact .pure _
        · rename_i args isArgs
          refine .bind ?_ fun pushed => ?_
          · rw [Slave.pushCommandArgs]
            split
            · exact .pure _
            · refine .bind (.op trivial) fun now => .bind (.op ?_) fun ok => .pure _
              rintro old d k ⟨⟩ has
              rw [decision, Option.ite_none_left_eq_some] at has
              cases has.2
              exact .inr ⟨not_not.mp isPost, guard.1, guard.2, not_not.mp valid, rfl, args, _,
                isArgs, rfl⟩
          · split <;> exact .pure _

theorem carries_apiCommands : (apiCommands (α := α) r t).Only (Carries good) := by
  simp only [apiCommands]
  split
  · exact .pure _
  · refine .bind (.bind (.op trivial) fun docs => ?_) fun cms => ?_
    all_goals split <;> exact .pure _

theorem carries_apiEnroll (code : Option Bytes) :
    (apiEnroll server code r).Only (Carries ((Endpoint.enroll code).Decides server r t)) := by
  refine .bind ?_ fun _ => .pure _
  rw [Slave.apiEnroll.eq_def]
  split
  · exact .pure _
  · refine .bind (.bind (.op trivial) fun now => .op ?_) fun ok => ?_
    · rintro old d k ⟨⟩ ⟨⟩
      exact .inr ⟨rfl, by simp⟩
    · split <;> exact .pure _

theorem carries_apiWebhook (decoded : Option WebhookSaveRequest) :
    (apiWebhook server decoded r t).Only
      (Carries ((Endpoint.webhook decoded).Decides server r t)) := by
  have reads : (Slave.getWebhookConfig : Client α _).Only
      (Carries ((Endpoint.webhook decoded).Decides server r t)) := by
    apply Prog.Only.bind (.op trivial)
    intro snap
    split <;> exact .pure _
  rw [apiWebhook]
  split
  · exact .pure _
  · rename_i isAccount
    rw [not_not] at isAccount
    split
    · apply Prog.Only.bind reads
      intro cfg
      split <;> exact .pure _
    · rename_i isPost
      refine .bind ?_ fun answer => .pure _
      cases decoded with
      | none => exact .pure _
      | some req =>
          apply Prog.Only.bind
          · rw [secretOf]
            split
            · apply Prog.Only.bind reads
              intro cur
              split <;> exact .pure _
            · exact .pure _
          · intro secret
            split
            · exact .pure _
            · rename_i secret
              rw [saveConfig]
              split
              · exact .pure _
              · refine .bind ?_ fun ok => ?_
                · rw [setWebhookConfig]
                  split
                  · exact .pure _
                  · refine .op ?_
                    rintro old d k ⟨⟩ ⟨⟩
                    exact .inr ⟨isPost, isAccount, rfl, rfl, rfl, rfl⟩
                · split <;> exact .pure _
    · exact .pure _

/-- An endpoint makes the decisions that it may make. -/
theorem Endpoint.handle_carries (endpoint : Endpoint) :
    (endpoint.handle server r t).Only (Carries (endpoint.Decides server r t)) := by
  cases endpoint with
  | pcs => exact .bind (carries_devicePCs t) fun _ => .pure _
  | devices =>
      exact .bind (carries_devicePCs t) fun _ =>
        .bind (carries_deviceRows server _) fun _ => .pure _
  | sessions => exact carries_apiSessions r t
  | pushToken => exact carries_apiPushToken server r
  | deletePC => exact carries_apiDeletePC server r t
  | command random => exact carries_apiCommand server r t random
  | commands => exact carries_apiCommands r t
  | enroll code => exact carries_apiEnroll server r t code
  | webhook decoded => exact carries_apiWebhook server r t decoded

end

/-! ## Handlers -/

section

variable (server : ApiServer α)

/-- A handler of shared PCs, which makes no decision. -/
theorem along_undecided {input : Incoming α} {p : Client α (ApiReply α)}
    (undecided : p.Only Undecided) (noSignIn : input.callback = none) :
    p.Along (fun past => Carries (Reason server input past)) (Ends server input) [] := by
  refine undecided.along (fun past o carries => carries.imp fun _ _ => False.elim) ?_
  intro past reply _ r location cookie isSignIn
  cases noSignIn.symm.trans isSignIn

theorem along_api (endpoint : Endpoint) (r : ApiRequest) :
    (apiGuard server r fun t => endpoint.handle server r t).Along
      (fun past => Carries (Reason server (.api endpoint r) past)) (fun _ _ => True) [] := by
  rw [apiGuard.eq_def]
  split
  · exact trivial
  · rename_i cookie isCookie
    refine .now trivial fun time => ?_
    split
    · exact trivial
    · rename_i t verified
      have along : (endpoint.handle server r t).Along
          (fun _ => Carries (endpoint.Decides server r t)) (fun _ _ => True)
          [⟨time, .now, time⟩] :=
        (endpoint.handle_carries server r t).along (fun _ _ carries => carries) fun _ _ _ => trivial
      refine (along.suffix List.suffix_rfl).imp
        (fun past o both => both.2.imp fun path k decides => ?_) fun _ _ _ => trivial
      exact ⟨cookie, t, time, isCookie, both.1.subset List.mem_cons_self, verified, decides⟩

theorem along_signIn {input : Incoming α} {r : CallbackRequest} (isSignIn : input.callback = some r)
    (answer : Nat → LoginReply)
    (grants : ∀ time location cookie, answer time = .redirect location cookie →
      ∃ email, SignsIn server.login r email ∧
        cookie = server.signer.sign (accountToken email time)) :
    (Prog.now >>= fun now => pure (.signIn (answer now))).Along
      (fun past => Carries (Reason server input past)) (Ends server input) [] := by
  refine .now trivial fun time => ?_
  intro r' location cookie isSignIn' isReply
  cases isSignIn.symm.trans isSignIn'
  obtain ⟨email, signsIn, isCookie⟩ := grants time location cookie (ApiReply.signIn.inj isReply)
  exact ⟨email, time, signsIn, List.mem_cons_self, isCookie⟩

theorem along_consumePairing {good : Past α → Path → Decision → Prop}
    (codeHash : Bytes) :
    (Slave.consumePairing codeHash : Client α _).Along (fun past => Carries (good past))
      (fun past consumed => ∀ scope, consumed = some scope → FoundCode codeHash scope past) [] := by
  refine .get trivial fun time snap => ?_
  split
  · rename_i p
    refine ⟨by rintro old d k ⟨⟩, fun _ ok _ => ?_⟩
    refine .now trivial fun time' => ?_
    intro scope isScope
    split at isScope
    · cases isScope
      exact ⟨p, time, by simp, rfl⟩
    · cases isScope
  · exact fun scope isScope => by cases isScope

theorem along_bindSlave {good : Past α → Path → Decision → Prop}
    {pc secretHash : Bytes} {past : Past α}
    (reason : good past (Slave.slavePath pc) (.slave secretHash)) :
    (Slave.bindSlave pc secretHash : Client α _).Along (fun past => Carries (good past))
      (fun _ _ => True) past := by
  rw [Slave.bindSlave]
  split
  · exact trivial
  · refine ⟨?_, fun time result _ => trivial⟩
    intro snap f old d k isChange isNew has
    rw [Slave.bindChange, Option.ite_none_right_eq_some] at isChange
    cases isChange.2
    cases isNew
    cases has
    exact .inr (.inl reason)

/-- An enrollment binds a shared PC only with a code of that kind. -/
theorem along_enroll (post : Bool) (code pc : Bytes) (secret : Option Bytes) :
    (Slave.enroll server.toServer post code pc secret).Along
      (fun past => Carries (Reason server (.enroll post code pc secret) past))
      (fun _ _ => True) [] := by
  rw [Slave.enroll.eq_def]
  split
  · exact trivial
  · rename_i isPost
    rw [Bool.not_eq_false] at isPost
    split
    · exact trivial
    · refine .andThen (along_consumePairing _) fun past consumed found => ?_
      split
      · exact trivial
      · rename_i scope
        split
        · exact trivial
        · split
          · exact trivial
          · rename_i isSlave
            split
            · exact trivial
            · split
              · exact trivial
              · cases secret with
                | none => exact trivial
                | some secret =>
                    have reason : Reason server (.enroll post code pc (some secret)) past
                        (Slave.slavePath pc) (.slave (server.sha256Hex secret)) := by
                      obtain ⟨p, time, mem, isScope⟩ := found scope rfl
                      rw [isPost]
                      exact ⟨rfl, rfl, p, time, mem, isScope.trans (not_not.mp isSlave)⟩
                    refine .andThen (along_bindSlave reason) fun past' bound _ => ?_
                    split
                    · exact trivial
                    · exact trivial
                    · apply Prog.Along.bind
                      rw [Slave.clearRevoked]
                      split
                      · exact trivial
                      · exact ⟨by rintro old d k ⟨⟩, fun _ _ _ => trivial⟩

theorem along_handle (input : Incoming α) :
    (server.handle input).Along (fun past => Carries (Reason server input past))
      (Ends server input) [] := by
  cases input with
  | authGoogle r =>
      apply along_signIn server rfl
      intro time location cookie answered
      rw [ApiServer.authGoogle] at answered
      split at answered
      · cases answered
      · rename_i isPost
        obtain ⟨email, signsIn, -, isCookie⟩ :=
          (signIn_eq_redirect_iff (not_not.mp isPost)).mp answered
        exact ⟨email, signsIn, isCookie⟩
  | loginCallback r =>
      apply along_signIn server rfl
      intro time location cookie answered
      obtain ⟨email, signsIn, -, -, isCookie⟩ := loginCallback_eq_redirect_iff.mp answered
      exact ⟨email, signsIn, isCookie⟩
  | api endpoint r =>
      exact (along_api server endpoint r).imp (fun _ _ carries => carries)
        fun _ _ _ _ _ _ isSignIn => by cases isSignIn
  | enroll post code pc secret =>
      refine .andThen (along_enroll server post code pc secret) fun past reply _ => ?_
      intro r location cookie isSignIn
      cases isSignIn
  | slaveToken post body =>
      exact along_undecided server (.bind (undecided_slaveToken server post body) fun _ => .pure _)
        rfl
  | slave authorization req =>
      exact along_undecided server
        (.bind (undecided_slave server authorization req) fun _ => .pure _) rfl
  | session authorization sid role =>
      exact along_undecided server
        (.bind (undecided_session server authorization sid role) fun _ => .pure _) rfl

end

/-! ## Every run -/

/-- What is stored goes back to who decided it, and every cookie that is accepted to a
sign-in. -/
structure Owned (server : ApiServer α) (outside : Path → Decision → Prop) (s : System α) :
    Prop where
  traced : Traced decision outside (Reason server) s
  follows : s.Follows (fun input past => Carries (Reason server input past)) (Ends server)
  dated : s.Dated
  givenOut : ∀ q c endpoint r tok, s.calls q = some c → c.input = .api endpoint r →
    r.cookie = some tok → ∀ now t, server.signer.verify now tok = some t → GivenOut s c.past tok

section

variable {server : ApiServer α} {outside : Path → Decision → Prop} {s s' : System α}
  {label : Label α} {path : Path} {k : Decision} {past : Past α} {tok : Bytes}

theorem GivenOut.step (given : GivenOut s past tok) (taken : server.step s label = some s') :
    GivenOut s' past tok := by
  obtain ⟨q, r, ⟨input, signIn, program⟩, location, found, isSignIn, replied, before⟩ := given
  cases replied
  exact ⟨q, r, _, location, calls_of_answered found taken, isSignIn, rfl, before⟩

/-- What is done now comes after the sign-in too. -/
theorem GivenOut.cons (given : GivenOut s past tok) (dated : s.Dated)
    {e : Event (Doc α) PushEntry Slave.Delivery} (isNow : e.time = s.machine.clock) :
    GivenOut s (e :: past) tok := by
  obtain ⟨q, r, c, location, found, isSignIn, replied, before⟩ := given
  refine ⟨q, r, c, location, found, isSignIn, replied, fun e' mem => ?_⟩
  rw [List.forall_mem_cons, isNow]
  exact ⟨dated q c found e' mem, before e' mem⟩

theorem Owned.start : Owned server outside {} where
  traced := .start
  follows _ _ found := by cases found
  dated _ _ found := by cases found
  givenOut _ _ _ _ _ found := by cases found

theorem Owned.step (owned : Owned server outside s) (carries : label.Carries decision outside s)
    (presents : Presents server s label) (taken : server.step s label = some s') :
    Owned server outside s' where
  traced := owned.traced.step owned.follows owned.dated carries taken
  follows := owned.follows.step (fun _ input _ => along_handle server input) taken
  dated := owned.dated.step taken
  givenOut q c endpoint r tok found isAPI isCookie now t verified := by
    rcases calls_of_step taken found with
      old | ⟨input, rfl, -, rfl⟩ | ⟨c, choice, o, next, -, running, -, -, rfl⟩
    · exact (owned.givenOut q c endpoint r tok old isAPI isCookie now t verified).step taken
    · cases isAPI
      have unforgeable : WebAuth.Unforgeable server.signer
          (fun t => GivenOut s [] (server.signer.sign t)) fun tok => r.cookie = some tok := presents
      rw [ApiServer.signer, server.isSigner] at unforgeable verified
      obtain ⟨t', given, rfl⟩ := WebAuth.issued_of_verify unforgeable isCookie verified
      exact given.step taken
    · have given := owned.givenOut q c endpoint r tok running isAPI isCookie now t verified
      exact (given.cons owned.dated rfl).step taken

/-- What is read from the cookie of an account. -/
theorem token_of_verify (sum : ∀ key text, (server.hmac key text).length = 32) {email : Bytes}
    (valid : ValidString email) {signedAt : Nat}
    (bound : (signedAt + cookieTTL) / second ≤ 9223372036854775807) {time : Nat} {t : Token}
    (verified : server.signer.verify ((time / second : Nat) : Int)
      (server.signer.sign (accountToken email signedAt)) = some t) :
    t = accountToken email signedAt ∧ time / second ≤ (signedAt + cookieTTL) / second := by
  have scopeValid : ValidString (accountToken email signedAt).scope :=
    validString_of_ascii (s := accountScope) (by decide)
  have low : (0 : Int) ≤ (accountToken email signedAt).exp := Int.natCast_nonneg _
  have read := WebAuth.verify_sign sum server.signingKey (t := accountToken email signedAt) valid
    scopeValid (by omega) (Int.ofNat_le.mpr bound) ((time / second : Nat) : Int)
  rw [ApiServer.signer, server.isSigner, read, Option.ite_none_right_eq_some] at verified
  obtain ⟨notExpired | inTime, isToken⟩ := verified
  · have long : second ≤ cookieTTL := by decide
    have positive : 0 < (signedAt + cookieTTL) / second :=
      Nat.div_pos (Nat.le_add_left_of_le long) (by decide)
    exact absurd (Int.ofNat_eq_zero.mp notExpired) (Nat.ne_of_gt positive)
  · exact ⟨(Option.some.inj isToken).symm, Int.ofNat_le.mp inTime⟩

section

variable (owned : Owned server outside s) (sum : ∀ key text, (server.hmac key text).length = 32)
  (emails : ∀ cred email verified,
    server.login.verifyGoogle cred server.login.clientID = some (email, verified) →
      ValidString email)
  (bound : (s.machine.clock + cookieTTL) / second ≤ 9223372036854775807)

include owned sum emails bound

/-- A cookie that is accepted is that of an account which signed in within the last
twelve hours. -/
theorem Owned.byOwner {q : Nat}
    {c : Call (Incoming α) (Doc α) PushEntry Slave.Delivery (ApiReply α)} {endpoint : Endpoint}
    {r : ApiRequest} (found : s.calls q = some c) (isAPI : c.input = .api endpoint r)
    (suffix : past <:+ c.past) (reason : Reason server (.api endpoint r) past path k) :
    ByOwner server s path k := by
  obtain ⟨cookie, t, time, isCookie, read, verified, decides⟩ := reason
  obtain ⟨q', r', c', location, found', isSignIn, replied, before⟩ :=
    owned.givenOut q c endpoint r cookie found isAPI isCookie _ t verified
  have ends := owned.follows q' c' found'
  rw [replied] at ends
  obtain ⟨email, signedAt, signsIn, signedIn, rfl⟩ := ends r' location cookie isSignIn rfl
  have early : signedAt ≤ s.machine.clock := owned.dated q' c' found' _ signedIn
  have order : signedAt ≤ time := before _ signedIn _ (suffix.subset read)
  obtain ⟨isToken, inTime⟩ := token_of_verify sum (emails _ email true signsIn.verified)
    ((Nat.div_le_div_right (Nat.add_le_add_right early _)).trans bound) verified
  subst isToken
  exact ⟨q, c, endpoint, r, email, signedAt, time, found, isAPI, decides, isCookie,
    suffix.subset read, order, inTime, q', c', r', found', isSignIn, signsIn, signedIn⟩

/-- What an origin of a decision may be. -/
theorem Owned.decided {time : Nat} (origin : Origin outside (Reason server) s.calls time path k) :
    outside path k ∨ ByOwner server s path k ∨
      ∃ q c code pc secret, s.calls q = some c ∧ c.input = .enroll true code pc (some secret) ∧
        path = Slave.slavePath pc ∧ k = .slave (server.sha256Hex secret) ∧
        FoundCode (server.hashCode code) (ascii "enroll-slave") c.past := by
  rcases origin with known | ⟨q, c, past, found, suffix, -, reason⟩
  · exact .inl known
  · right
    cases isInput : c.input with
    | api endpoint r =>
        rw [isInput] at reason
        exact .inl (owned.byOwner sum emails bound found isInput suffix reason)
    | enroll post code pc secret =>
        rw [isInput] at reason
        cases post with
        | false => exact reason.elim
        | true =>
            cases secret with
            | none => exact reason.elim
            | some secret =>
                obtain ⟨isPath, isSlave, p, time, read, isScope⟩ := reason
                exact .inr ⟨q, c, code, pc, secret, found, isInput, isPath, isSlave, p, time,
                  suffix.subset read, isScope⟩
    | authGoogle | loginCallback | slaveToken | slave | session =>
        rw [isInput] at reason
        exact reason.elim

end

end

/-- The relay of one account; the MAC is that of the payload of its first cookie. -/
def sampleApiServer : ApiServer Unit where
  toServer := Slave.sampleServer
  login := OAuth.Endpoint.loginServer
  hmac _ text := OAuth.Endpoint.sampleSigner.mac text
  signingKey := ascii "k"
  allowedEmails := ascii "o@a.io"
  isSigner := rfl
  isAllowed email := by
    have listed : allowedOf OAuth.Endpoint.loginServer.toLower (ascii "o@a.io") =
        [ascii "o@a.io"] := by decide
    exact decide_eq_decide.mpr (by rw [listed, List.mem_singleton])
  parseURL := sampleParseURL
  isTrue _ := false

/-- The cookie of someone who signs in at the start. -/
def sampleCookie : Bytes := sampleApiServer.signer.sign (accountToken (ascii "o@a.io") 0)

/-- With the cookie the owner asks for a code, and `mac` enrolls with it. -/
def enrollLabels : List (Label Unit) :=
  .begin 1 (.api (.enroll (some (ascii "code")))
      ⟨.post, ascii "role=slave", [], some sampleCookie, []⟩) ::
    (List.replicate 3 (.advance 1 .ok) ++
      .begin 2 (.enroll true (ascii "code") (ascii "mac") (some (ascii "secret"))) ::
        List.replicate 5 (.advance 2 .ok))

end Drover.Web.Api
