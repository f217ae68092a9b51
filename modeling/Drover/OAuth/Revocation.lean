import Drover.OAuth.Endpoint

/-!
# Revoking a family

A refresh token that is presented a second time revokes its family: the tokens
that a query finds are deleted one by one, and an error on the way ends the
revocation without a trace.  A rotation of the same family that has read its
refresh token before the delete stores its new pair all the same; when it does so
after the query, the pair outlives the revocation.  `revocation_final` says that
a revoked family stays dead as long as no request rotates a token of the family
between the query and the last delete, and a failure leaves no good token behind.
-/

namespace Drover.OAuth.Endpoint

open Drover.Transition
open Drover.Secrets (OAuthCode)
open Drover.Store (Outcome)

/-- The family of the good refresh token that the request has read, or of the
pair that it is about to issue. -/
def Phase.rotating (clock : Nat) : Phase → Option Bytes
  | .gotToken _ t => if t.Live ∧ t.notExpired clock = true then some t.family else none
  | .mark _ t => some t.family
  | .issue _ g => some g.family
  | .createAccess pair | .createRefresh pair => some pair.grant.family
  | _ => none

/-- The family whose tokens the request is deleting. -/
def Phase.deleting : Phase → Option Bytes
  | .delete family _ => some family
  | _ => none

namespace State

/-- The family that the request is rotating. -/
def rotating (s : State) (r : RequestId) : Option Bytes :=
  (s.requests r).bind (Phase.rotating s.clock)

/-- The family that the request is revoking. -/
def deleting (s : State) (r : RequestId) : Option Bytes := (s.requests r).bind Phase.deleting

/-- The document is a token of the family that is neither superseded nor
expired. -/
def GoodIn (s : State) (family : Bytes) (h : Hash) : Prop :=
  ∃ t ∈ s.tokens h, t.family = family ∧ (t.kind = access ∨ t.kind = refresh) ∧
    t.superseded = false ∧ t.notExpired s.clock = true

instance (s : State) (family : Bytes) (h : Hash) : Decidable (s.GoodIn family h) :=
  inferInstanceAs (Decidable (∃ t ∈ s.tokens h, _))

/-- No token of the family is accepted, by `Verify` or by `tokenFromRefresh`. -/
structure Dead (s : State) (family : Bytes) : Prop where
  stored : ∀ h t, getOAuthToken s.tokens s.clock h = some t → t.family = family →
    t.kind ≠ access ∧ t.kind ≠ refresh
  presented : ∀ r form t, s.requests r = some (.gotToken form t) → t.family = family →
    Server.checkToken s.clock form t ≠ .mark form t

/-- Every family whose revocation has ended is dead. -/
def RevokedDead (s : State) : Prop := ∀ family ∈ s.revoked, s.Dead family

end State

/-- A revocation and the rotations of its family keep apart: none is on its way
at the query, none starts before the last delete, and where the query or a delete
fails, no good token is left that it should have deleted. -/
def Undisturbed (server : Server) (s : State) : Action → Prop
  | .advance r _ outcome =>
      match s.requests r with
      | some (.query family) =>
          (∀ q ∈ s.active, s.rotating q ≠ some family) ∧
            (outcome ≠ .ok → ∀ h ∈ s.used, ¬ s.GoodIn family h)
      | some (.delete family (h :: docs)) =>
          outcome ≠ .ok →
            (outcome.applied = false → ¬ s.GoodIn family h) ∧ ∀ h' ∈ docs, ¬ s.GoodIn family h'
      | some (.getToken form) =>
          outcome = .ok → ∀ q ∈ s.active, ∀ family ∈ s.deleting q,
            ¬ s.GoodIn family (server.sha256Hex form.refreshToken)
      | _ => True
  | _ => True

instance (server : Server) (s : State) (a : Action) : Decidable (Undisturbed server s a) := by
  unfold Undisturbed
  split
  · split <;> infer_instance
  · infer_instance

/-! ## Families are drawn -/

/-- The families that the phase is about have been drawn; a code has none yet. -/
def Phase.Drawn (drawn : List Bytes) : Phase → Prop
  | .gotToken _ t => t.kind ≠ [] → t.family ∈ drawn
  | .mark _ t => t.family ∈ drawn
  | .query family | .delete family _ => family ∈ drawn
  | .issue _ g => g.family = [] ∨ g.family ∈ drawn
  | .createAccess pair | .createRefresh pair => pair.grant.family ∈ drawn
  | _ => True

/-- The phase is not about a family. -/
def Phase.Quiet : Phase → Prop
  | .gotToken .. | .mark .. | .query _ | .delete .. | .issue .. | .createAccess _
  | .createRefresh _ => False
  | _ => True

/-- Every request is active, and every token is listed under a family that was
drawn. -/
structure Known (s : State) : Prop where
  nil : [] ∉ s.drawn
  tokens : ∀ h t, s.tokens h = some t → t.kind ≠ [] → t.family ∈ s.drawn ∧ h ∈ s.used
  active : ∀ r phase, s.requests r = some phase → r ∈ s.active
  phases : ∀ r phase, s.requests r = some phase → phase.Drawn s.drawn
  revoked : ∀ family ∈ s.revoked, family ∈ s.drawn

section

variable {server : Server} {s s' : State} {r q : RequestId} {phase next : Phase} {family : Bytes}
  {h : Hash} {draws : Draws} {outcome : Outcome}

theorem Phase.Drawn.mono {drawn drawn' : List Bytes} (known : phase.Drawn drawn)
    (more : drawn ⊆ drawn') : phase.Drawn drawn' := by
  cases phase with
  | gotToken form t => exact fun kind => more (known kind)
  | mark | query | delete | createAccess | createRefresh => exact more known
  | issue form g => exact known.imp_right fun mem => more mem
  | createClient | getClient | gotClient | createCode | getCode | deleteCode | gotCode | getToken
  | replied => exact trivial

theorem known_init : Known {} where
  nil mem := by cases mem
  tokens _ _ found := by cases found
  active _ _ found := by cases found
  phases _ _ found := by cases found
  revoked _ mem := by cases mem

/-- A request goes on. -/
theorem Known.setRequest (known : Known s) (found : s.requests r = some phase)
    (drawn : next.Drawn s.drawn) : Known (s.setRequest r next) :=
  { known with
    active := fun q phase' now => by
      rcases State.requests_cases now with ⟨rfl, -⟩ | ⟨-, old⟩
      · exact known.active _ _ found
      · exact known.active _ _ old
    phases := fun q phase' now => by
      rcases State.requests_cases now with ⟨-, rfl⟩ | ⟨-, old⟩
      · exact drawn
      · exact known.phases _ _ old }

/-- More values are drawn, and more tokens stored. -/
theorem Known.grow (known : Known s) (clients : Bytes → Option OAuthClient)
    (codes : Hash → Option OAuthCode) (tokens : Tokens) (used : List Hash) (drawn : List Bytes)
    (log : List Event) (nil : [] ∉ drawn) (moreDrawn : s.drawn ⊆ drawn) (moreUsed : s.used ⊆ used)
    (stored : ∀ h t, tokens h = some t → t.kind ≠ [] →
      s.tokens h = some t ∨ (t.family ∈ drawn ∧ h ∈ used)) :
    Known { s with clients, codes, tokens, used, drawn, log } where
  nil := nil
  tokens h t found kind := by
    rcases stored h t found kind with old | new
    · obtain ⟨mem, usedMem⟩ := known.tokens h t old kind
      exact ⟨moreDrawn mem, moreUsed usedMem⟩
    · exact new
  active := known.active
  phases r phase found := (known.phases r phase found).mono moreDrawn
  revoked family mem := moreDrawn (known.revoked family mem)

/-- The store loses tokens. -/
theorem Known.forget (known : Known s) {tokens : Tokens}
    (kept : ∀ h t, tokens h = some t → s.tokens h = some t) : Known { s with tokens } :=
  { known with tokens := fun h t found => known.tokens h t (kept h t found) }

theorem Known.endRevocation (known : Known s) (found : s.requests r = some phase)
    (drawn : family ∈ s.drawn) : Known (s.endRevocation r family) :=
  have next : Known (s.setRequest r Server.reused) := known.setRequest found trivial
  { next with revoked := List.forall_mem_cons.mpr ⟨drawn, known.revoked⟩ }

theorem quiet_handle (server : Server) (req : Request) : (server.handle req).Quiet := by
  cases req with
  | register method body =>
      rw [Server.handle, Server.register.eq_def]
      split
      · exact trivial
      · split
        · exact trivial
        · split <;> exact trivial
      · exact trivial
      · exact trivial
  | authorize req parsed =>
      rw [Server.handle, Server.authorize]
      have params : (server.authorizeParams req).Quiet := by
        rw [Server.authorizeParams]
        split
        · exact trivial
        · split <;> exact trivial
      split
      · split
        · exact params
        · exact trivial
      · split
        · exact params
        · exact trivial
      · exact trivial
  | token method form =>
      rw [Server.handle, Server.token.eq_def]
      split
      · exact trivial
      · split
        · split <;> exact trivial
        · split
          · split <;> exact trivial
          · exact trivial
      · exact trivial
      · exact trivial

theorem quiet_authorizeClient (server : Server) (now : Nat) (req : AuthorizeRequest)
    (client : OAuthClient) : (server.authorizeClient now req client).Quiet := by
  rw [Server.authorizeClient]
  split
  · exact trivial
  · split
    · exact trivial
    · split
      · exact trivial
      · split <;> exact trivial

theorem Phase.Quiet.drawn (quiet : phase.Quiet) (drawn : List Bytes) : phase.Drawn drawn := by
  cases phase with
  | gotToken | mark | query | delete | issue | createAccess | createRefresh => exact quiet.elim
  | createClient | getClient | gotClient | createCode | getCode | deleteCode | gotCode | getToken
  | replied => exact trivial

theorem Phase.Quiet.rotating (quiet : phase.Quiet) (clock : Nat) :
    phase.rotating clock = none := by
  cases phase with
  | gotToken | mark | query | delete | issue | createAccess | createRefresh => exact quiet.elim
  | createClient | getClient | gotClient | createCode | getCode | deleteCode | gotCode | getToken
  | replied => rfl

theorem Phase.Quiet.deleting (quiet : phase.Quiet) : phase.deleting = none := by
  cases phase with
  | gotToken | mark | query | delete | issue | createAccess | createRefresh => exact quiet.elim
  | createClient | getClient | gotClient | createCode | getCode | deleteCode | gotCode | getToken
  | replied => rfl

theorem drawn_checkCode (server : Server) (drawn : List Bytes) (now : Nat) (form : TokenForm)
    (oc : OAuthCode) : (server.checkCode now form oc).Drawn drawn := by
  rw [Server.checkCode]
  split
  · exact trivial
  · split
    · exact trivial
    · split
      · exact trivial
      · exact .inl rfl

theorem drawn_checkToken {drawn : List Bytes} (now : Nat) {form : TokenForm} {t : OAuthToken}
    (known : t.kind ≠ [] → t.family ∈ drawn) : (Server.checkToken now form t).Drawn drawn := by
  rw [Server.checkToken]
  split
  · exact trivial
  · rename_i isRefresh
    have drawn := known (by rw [not_not.mp isRefresh]; decide)
    split
    · exact drawn
    · split
      · exact trivial
      · exact drawn

/-! ## What a step can do to a family -/

theorem rotating_cases (now : (s.setRequest r next).rotating q = some family) :
    (q = r ∧ next.rotating s.clock = some family) ∨ s.rotating q = some family := by
  obtain ⟨phase, found, rotating⟩ := Option.bind_eq_some_iff.mp now
  rcases State.requests_cases found with ⟨same, rfl⟩ | ⟨-, old⟩
  · exact .inl ⟨same, rotating⟩
  · exact .inr (Option.bind_eq_some_iff.mpr ⟨phase, old, rotating⟩)

theorem rotating_of_found (found : s.requests r = some phase) :
    s.rotating r = phase.rotating s.clock := by
  rw [State.rotating, found, Option.bind_some]

/-- The step reads a good token of the family for a refresh request. -/
def Reads (server : Server) (s : State) (a : Action) (family : Bytes) : Prop :=
  ∃ r draws form, a = .advance r draws .ok ∧ s.requests r = some (.getToken form) ∧
    s.GoodIn family (server.sha256Hex form.refreshToken)

/-- A step outside of a revocation: a good token comes only from a rotation, and
a rotation only from reading a good token. -/
structure Ordinary (server : Server) (s : State) (a : Action) (s' : State) : Prop where
  known : Known s'
  good : ∀ family ∈ s.drawn, ∀ h, s'.GoodIn family h →
    s.GoodIn family h ∨ ∃ q, s.rotating q = some family
  rotating : ∀ family ∈ s.drawn, ∀ q, s'.rotating q = some family →
    s.rotating q = some family ∨ Reads server s a family
  deletes : ∀ q family docs, s'.requests q = some (.delete family docs) →
    s.requests q = some (.delete family docs)
  revoked : s'.revoked = s.revoked

theorem Known.ordinary_setRequest (known : Known s) {a : Action}
    (found : s.requests r = some phase) (drawn : next.Drawn s.drawn)
    (notDeleting : next.deleting = none)
    (rotating : ∀ family ∈ s.drawn, next.rotating s.clock = some family →
      s.rotating r = some family ∨ Reads server s a family) :
    Ordinary server s a (s.setRequest r next) where
  known := known.setRequest found drawn
  good _ _ _ good := .inl good
  rotating family mem q now := by
    rcases rotating_cases now with ⟨rfl, new⟩ | old
    · exact rotating family mem new
    · exact .inl old
  deletes q family docs now := by
    rcases State.requests_cases now with ⟨-, same⟩ | ⟨-, old⟩
    · rw [← same] at notDeleting
      cases notDeleting
    · exact old
  revoked := rfl

theorem Known.ordinary_quiet (known : Known s) {a : Action} (found : s.requests r = some phase)
    (quiet : next.Quiet) : Ordinary server s a (s.setRequest r next) :=
  known.ordinary_setRequest found (quiet.drawn _) quiet.deleting fun family _ rotating => by
    rw [quiet.rotating] at rotating
    cases rotating

/-- The request goes on with the family it had. -/
theorem Known.ordinary_keep (known : Known s) {a : Action} (found : s.requests r = some phase)
    (drawn : next.Drawn s.drawn) (notDeleting : next.deleting = none)
    (same : ∀ family ∈ s.drawn, next.rotating s.clock = some family →
      phase.rotating s.clock = some family) : Ordinary server s a (s.setRequest r next) :=
  known.ordinary_setRequest found drawn notDeleting fun family mem rotating =>
    .inl ((rotating_of_found found).trans (same family mem rotating))

theorem rotating_checkToken {now : Nat} {form : TokenForm} {t : OAuthToken}
    (rotating : (Server.checkToken now form t).rotating now = some family) :
    (Phase.gotToken form t).rotating now = some family := by
  rw [Server.checkToken] at rotating
  split at rotating
  · cases rotating
  · rename_i isRefresh
    split at rotating
    · cases rotating
    · rename_i live
      split at rotating
      · cases rotating
      · rename_i good
        rw [Bool.not_eq_false] at good
        rw [Bool.not_eq_true] at live
        rw [Phase.rotating, if_pos ⟨⟨not_not.mp isRefresh, live⟩, good⟩]
        exact rotating

theorem rotating_checkCode {now : Nat} {form : TokenForm} {oc : OAuthCode}
    (rotating : (server.checkCode now form oc).rotating now = some family) : family = [] := by
  rw [Server.checkCode] at rotating
  split at rotating
  · cases rotating
  · split at rotating
    · cases rotating
    · split at rotating
      · cases rotating
      · cases rotating
        rfl

theorem deleting_checkToken {now : Nat} {form : TokenForm} {t : OAuthToken} :
    (Server.checkToken now form t).deleting = none := by
  rw [Server.checkToken]
  split
  · rfl
  · split
    · rfl
    · split <;> rfl

theorem deleting_checkCode {now : Nat} {form : TokenForm} {oc : OAuthCode} :
    (server.checkCode now form oc).deleting = none := by
  rw [Server.checkCode]
  split
  · rfl
  · split
    · rfl
    · split <;> rfl

/-- A document that the rotation has superseded is good no more. -/
theorem goodIn_of_mark {marked : Hash} {tokens : Tokens}
    (written : tokens = State.written outcome s.tokens (markOAuthTokenSuperseded s.tokens marked))
    (good : ({ s with tokens } : State).GoodIn family h) : s.GoodIn family h := by
  obtain ⟨t, found, ofFamily, kind, live, notExpired⟩ := good
  subst written
  rcases State.written_update found with old | ⟨-, new⟩
  · exact ⟨t, old, ofFamily, kind, live, notExpired⟩
  · cases new
    cases live

theorem goodIn_of_kept {tokens : Tokens} (kept : ∀ t, tokens h = some t → s.tokens h = some t)
    (good : ({ s with tokens } : State).GoodIn family h) : s.GoodIn family h := by
  obtain ⟨t, found, rest⟩ := good
  exact ⟨t, kept t found, rest⟩

/-- A good token is an old one, or the one that was created. -/
theorem goodIn_of_create {fresh : Hash} {t : OAuthToken} {tokens : Tokens}
    (written : tokens = State.written outcome s.tokens (createOAuthToken s.tokens fresh t))
    (good : ({ s with tokens } : State).GoodIn family h) :
    s.GoodIn family h ∨ t.family = family := by
  obtain ⟨found, stored, ofFamily, rest⟩ := good
  subst written
  rcases State.written_update stored with old | ⟨-, new⟩
  · exact .inl ⟨found, old, ofFamily, rest⟩
  · cases new
    exact .inr ofFamily

/-- A request that stores a value which it has drawn. -/
theorem Known.ordinary_draw (known : Known s) {a : Action} (found : s.requests r = some phase)
    (quiet : next.Quiet) {value : Bytes} (fresh : s.Fresh value)
    (clients : Bytes → Option OAuthClient) (codes : Hash → Option OAuthCode) (log : List Event) :
    Ordinary server s a { s.setRequest r next with
      clients, codes, drawn := value :: s.drawn, log } := by
  have base : Ordinary server s a (s.setRequest r next) := known.ordinary_quiet found quiet
  have nil : [] ∉ value :: s.drawn := by
    rw [List.mem_cons, not_or]
    exact ⟨fresh.1.symm, known.nil⟩
  have grown := base.known.grow clients codes s.tokens s.used (value :: s.drawn) log nil
    (List.subset_cons_self _ _) (List.Subset.refl _) fun _ _ stored _ => .inl stored
  exact { base with known := grown }

theorem Known.ordinary_mark (known : Known s) {form : TokenForm} {t : OAuthToken}
    (found : s.requests r = some (.mark form t))
    (taken : advance server s r draws outcome (.mark form t) = some s') :
    Ordinary server s (.advance r draws outcome) s' := by
  have drawn : t.family ∈ s.drawn := known.phases _ _ found
  cases taken
  have base : ∀ next, next = .issue form t.grant ∨ next = .replied .serverError →
      Ordinary server s (.advance r draws outcome) (s.setRequest r next) := by
    rintro next (rfl | rfl)
    · exact known.ordinary_keep found (.inr drawn) rfl fun _ _ rotating => rotating
    · exact known.ordinary_quiet found trivial
  have ordinary := base (if outcome = .ok then .issue form t.grant else .replied .serverError)
    (by split <;> simp)
  have stored : ∀ h t', State.written outcome s.tokens
      (markOAuthTokenSuperseded s.tokens (server.sha256Hex form.refreshToken)) h = some t' →
      t'.kind ≠ [] → s.tokens h = some t' ∨ (t'.family ∈ s.drawn ∧ h ∈ s.used) := by
    intro h stored now kind
    rcases State.written_update now with old | ⟨rfl, new⟩
    · exact .inl old
    · cases new
      -- the merge keeps the family of what was stored, or it creates a document without a kind
      cases before : s.tokens (server.sha256Hex form.refreshToken) with
      | none =>
          rw [before] at kind
          exact absurd rfl kind
      | some old =>
          rw [before] at kind
          exact .inr (known.tokens _ old before kind)
  have marked := ordinary.known.grow s.clients s.codes _ s.used s.drawn s.log known.nil
    (List.Subset.refl _) (List.Subset.refl _) stored
  exact { ordinary with
    known := marked
    good := fun _ _ _ good => .inl (goodIn_of_mark rfl good) }

theorem Known.ordinary_issue (known : Known s) {form : TokenForm} {g : Grant}
    (found : s.requests r = some (.issue form g))
    (taken : advance server s r draws outcome (.issue form g) = some s') :
    Ordinary server s (.advance r draws outcome) s' := by
  have drawnGrant : g.family = [] ∨ g.family ∈ s.drawn := known.phases _ _ found
  rw [advance] at taken
  split at taken
  · cases taken
  · rename_i fresh
    rw [not_or, not_not] at fresh
    cases taken
    have nil : [] ∉ drawnFor g draws ++ s.drawn := by
      rw [List.mem_append, not_or]
      exact ⟨fun mem => (fresh.1 _ mem).1 rfl, known.nil⟩
    have family : (drawPair g draws s.clock).grant.family ∈ drawnFor g draws ++ s.drawn ∧
        ∀ family ∈ s.drawn, (drawPair g draws s.clock).grant.family = family →
          g.family = family := by
      by_cases new : g.family = []
      · have drawn : draws.family ∈ drawnFor g draws := by simp [drawnFor, new]
        simp only [drawPair, new, if_true]
        refine ⟨List.mem_append_left _ drawn, fun family mem same => ?_⟩
        exact absurd (same ▸ mem) (fresh.1 _ drawn).2
      · simp only [drawPair, new, if_false]
        exact ⟨List.mem_append_right _ (drawnGrant.resolve_left new), fun _ _ same => same⟩
    have grown := known.grow s.clients s.codes s.tokens s.used (drawnFor g draws ++ s.drawn)
      (.issued form (drawPair g draws s.clock) :: s.log) nil (List.subset_append_right _ _)
      (List.Subset.refl _) fun _ _ stored _ => .inl stored
    refine {
      known := grown.setRequest found family.1
      good := fun _ _ _ good => .inl good
      rotating := fun F mem q now => ?_
      deletes := fun q F docs now => ?_
      revoked := rfl }
    · rcases rotating_cases now with ⟨rfl, new⟩ | old
      · have same := family.2 F mem (Option.some.inj new)
        exact .inl ((rotating_of_found found).trans (congrArg some same))
      · exact .inl old
    · rcases State.requests_cases now with ⟨-, same⟩ | ⟨-, old⟩
      · cases same
      · exact old

/-- A request that stores a token of its pair. -/
theorem Known.ordinary_create (known : Known s) {a : Action} {pair : Pair} {fresh : Hash}
    {t : OAuthToken} (ofPair : t.family = pair.grant.family)
    (rotating : s.rotating r = some pair.grant.family) (drawn : pair.grant.family ∈ s.drawn)
    (base : Ordinary server s a (s.setRequest r next)) :
    Ordinary server s a { s.setRequest r next with
      tokens := State.written outcome s.tokens (createOAuthToken s.tokens fresh t)
      used := fresh :: s.used } := by
  have stored : ∀ h t',
      State.written outcome s.tokens (createOAuthToken s.tokens fresh t) h = some t' →
      t'.kind ≠ [] → s.tokens h = some t' ∨ (t'.family ∈ s.drawn ∧ h ∈ fresh :: s.used) := by
    intro h stored now kind
    rcases State.written_update now with old | ⟨rfl, new⟩
    · exact .inl old
    · cases new
      exact .inr ⟨ofPair ▸ drawn, List.mem_cons_self⟩
  have grown := base.known.grow s.clients s.codes _ (fresh :: s.used) s.drawn s.log known.nil
    (List.Subset.refl _) (List.subset_cons_self _ _) stored
  refine { base with
    known := grown
    good := fun family _ h good => ?_ }
  rcases goodIn_of_create rfl good with old | same
  · exact .inl old
  · exact .inr ⟨r, rotating.trans (congrArg some (ofPair.symm.trans same))⟩

theorem Known.ordinary_advance (known : Known s) (found : s.requests r = some phase)
    (notQuery : ∀ family, phase ≠ .query family)
    (notDelete : ∀ family docs, phase ≠ .delete family docs)
    (taken : advance server s r draws outcome phase = some s') :
    Ordinary server s (.advance r draws outcome) s' := by
  cases phase with
  | createClient req =>
      rw [advance] at taken
      split at taken
      · cases taken
      · rename_i fresh
        cases taken
        exact known.ordinary_draw found (by exact trivial) (not_not.mp fresh) _ _ _
  | getClient req =>
      rw [advance] at taken
      split at taken
      all_goals
        cases taken
        exact known.ordinary_quiet found trivial
  | gotClient req client =>
      cases taken
      exact known.ordinary_quiet found (quiet_authorizeClient server _ req client)
  | createCode req email time =>
      rw [advance] at taken
      split at taken
      · cases taken
      · rename_i fresh
        cases taken
        exact known.ordinary_draw found (by exact trivial) (not_not.mp fresh) _ _ _
  | getCode form =>
      rw [advance] at taken
      split at taken
      all_goals
        cases taken
        exact known.ordinary_quiet found trivial
  | deleteCode form oc =>
      cases taken
      have base :
          Ordinary server s (.advance r draws outcome) (s.setRequest r (.gotCode form oc)) :=
        known.ordinary_quiet found trivial
      exact { base with known := { base.known with } }
  | gotCode form oc =>
      cases taken
      refine known.ordinary_setRequest found (drawn_checkCode server _ _ form oc) deleting_checkCode
        fun family mem rotating => ?_
      rw [rotating_checkCode rotating] at mem
      exact absurd mem known.nil
  | getToken form =>
      rw [advance] at taken
      split at taken
      · cases taken
        exact known.ordinary_quiet found trivial
      · rename_i t stored
        cases taken
        split at stored
        · rename_i ok
          subst ok
          refine known.ordinary_setRequest found
            (fun kind => (known.tokens _ _ stored kind).1) rfl fun family mem rotating => ?_
          rw [Phase.rotating, Option.ite_none_right_eq_some, Option.some.injEq] at rotating
          obtain ⟨⟨live, good⟩, same⟩ := rotating
          exact .inr ⟨r, draws, form, rfl, found, t, stored, same, .inr live.1, live.2, good⟩
        · cases stored
  | gotToken form t =>
      cases taken
      exact known.ordinary_keep found (drawn_checkToken _ (known.phases _ _ found))
        deleting_checkToken fun family _ rotating => rotating_checkToken rotating
  | query family => exact absurd rfl (notQuery family)
  | delete family docs => exact absurd rfl (notDelete family docs)
  | mark form t => exact known.ordinary_mark found taken
  | issue form g => exact known.ordinary_issue found taken
  | createAccess pair =>
      have drawn : pair.grant.family ∈ s.drawn := known.phases _ _ found
      cases taken
      apply known.ordinary_create (rfl : (pair.grant.access pair.now).family = _)
        (rotating_of_found found) drawn
      split
      · exact known.ordinary_keep found drawn rfl fun _ _ rotating => rotating
      · exact known.ordinary_quiet found trivial
  | createRefresh pair =>
      have drawn : pair.grant.family ∈ s.drawn := known.phases _ _ found
      cases taken
      exact known.ordinary_create (rfl : (pair.grant.refresh pair.now).family = _)
        (rotating_of_found found) drawn (known.ordinary_quiet found trivial)
  | replied reply => cases taken

/-! ## Revocations -/

/-- Only these documents hold good tokens of the family, and nothing rotates
them. -/
structure State.Closing (s : State) (family : Bytes) (docs : List Hash) : Prop where
  good : ∀ h, s.GoodIn family h → h ∈ docs
  rotating : ∀ q, s.rotating q ≠ some family

/-- From its query on, a revocation has the good tokens of its family in its
list; when it has ended, there are none. -/
structure Closed (s : State) : Prop where
  known : Known s
  deleting : ∀ r family docs, s.requests r = some (.delete family docs) → s.Closing family docs
  revoked : ∀ family ∈ s.revoked, s.Closing family []

theorem Ordinary.closing {a : Action} {docs : List Hash} (ordinary : Ordinary server s a s')
    (drawn : family ∈ s.drawn) (closing : s.Closing family docs)
    (notRead : ¬ Reads server s a family) : s'.Closing family docs where
  good h good := by
    rcases ordinary.good family drawn h good with old | ⟨q, rotating⟩
    · exact closing.good h old
    · exact absurd rotating (closing.rotating q)
  rotating q now := by
    rcases ordinary.rotating family drawn q now with old | reads
    · exact closing.rotating q old
    · exact notRead reads

theorem Ordinary.closed {a : Action} (ordinary : Ordinary server s a s') (closed : Closed s)
    (undisturbed : Undisturbed server s a) : Closed s' where
  known := ordinary.known
  deleting q family docs now := by
    have found := ordinary.deletes q family docs now
    apply ordinary.closing (closed.known.phases _ _ found) (closed.deleting q family docs found)
    rintro ⟨r, draws, form, rfl, reading, good⟩
    simp only [Undisturbed, reading] at undisturbed
    apply undisturbed trivial q (closed.known.active _ _ found) family _ good
    rw [State.deleting, found]
    rfl
  revoked family mem := by
    rw [ordinary.revoked] at mem
    apply ordinary.closing (closed.known.revoked family mem) (closed.revoked family mem)
    rintro ⟨r, draws, form, rfl, reading, good⟩
    exact absurd ((closed.revoked family mem).good _ good) List.not_mem_nil

/-- Fewer documents, and a request that goes on to something that does not
rotate. -/
theorem Closing.shrink {docs : List Hash} (closing : s.Closing family docs)
    (good : ∀ h, s'.GoodIn family h → s.GoodIn family h)
    (rotating : ∀ q, s'.rotating q = some family → s.rotating q = some family) :
    s'.Closing family docs where
  good h now := closing.good h (good h now)
  rotating q now := closing.rotating q (rotating q now)

/-- A step of a revocation deletes documents, or ends. -/
theorem Closed.shrink (closed : Closed s) (known : Known s')
    (good : ∀ family h, s'.GoodIn family h → s.GoodIn family h)
    (rotating : ∀ q family, s'.rotating q = some family → s.rotating q = some family)
    (deleting : ∀ q family docs, s'.requests q = some (.delete family docs) →
      s.requests q = some (.delete family docs) ∨ s'.Closing family docs)
    (revoked : ∀ family ∈ s'.revoked, family ∈ s.revoked ∨ s'.Closing family []) :
    Closed s' where
  known := known
  deleting q family docs now := by
    rcases deleting q family docs now with old | new
    · exact Closing.shrink (closed.deleting q family docs old) (good family)
        fun q => rotating q family
    · exact new
  revoked family mem := by
    rcases revoked family mem with old | new
    · exact Closing.shrink (closed.revoked family old) (good family) fun q => rotating q family
    · exact new

theorem goodIn_used (known : Known s) (good : s.GoodIn family h) : h ∈ s.used := by
  obtain ⟨t, found, -, kind, -⟩ := good
  refine (known.tokens h t found ?_).2
  rcases kind with kind | kind
  · rw [kind]
    decide
  · rw [kind]
    decide

theorem mem_familyDocs (known : Known s) (good : s.GoodIn family h) :
    h ∈ familyDocs s.tokens s.used family := by
  have listed := goodIn_used known good
  obtain ⟨t, found, ofFamily, -⟩ := good
  rw [familyDocs, List.mem_filter, Option.any_eq_true]
  exact ⟨listed, t, found, decide_eq_true ofFamily⟩

/-- No request rotates what no active one does. -/
theorem rotating_ne_of_active (known : Known s)
    (none : ∀ q ∈ s.active, s.rotating q ≠ some family) (q : RequestId) :
    s.rotating q ≠ some family := by
  intro rotating
  obtain ⟨phase, found, -⟩ := Option.bind_eq_some_iff.mp rotating
  exact none q (known.active q phase found) rotating

theorem rotating_back (notRotating : next.rotating s.clock = none)
    (now : (s.setRequest r next).rotating q = some family) : s.rotating q = some family := by
  rcases rotating_cases now with ⟨-, new⟩ | old
  · rw [notRotating] at new
    cases new
  · exact old

/-- Another step of a revocation, when its list has what is good in the family. -/
theorem Closed.setDelete (closed : Closed s) {phase : Phase} {tokens : Tokens} {docs : List Hash}
    (found : s.requests r = some phase) (drawn : family ∈ s.drawn)
    (kept : ∀ h t, tokens h = some t → s.tokens h = some t)
    (noRotation : ∀ q, s.rotating q ≠ some family)
    (listed : ∀ h, ({ s with tokens } : State).GoodIn family h → h ∈ docs) :
    Closed { s.setRequest r (.delete family docs) with tokens } := by
  have known : Known (s.setRequest r (.delete family docs)) := closed.known.setRequest found drawn
  apply closed.shrink (known.forget kept)
  case good => exact fun F h => goodIn_of_kept (kept h)
  case rotating => exact fun q F => rotating_back rfl
  case deleting =>
    intro q F docs now
    rcases State.requests_cases now with ⟨-, same⟩ | ⟨-, old⟩
    · cases same
      exact .inr ⟨fun h good => listed h good, fun q now => noRotation q (rotating_back rfl now)⟩
    · exact .inl old
  case revoked => exact fun _ => .inl

/-- The last step of a revocation, when it leaves no good token of the family. -/
theorem Closed.endRevocation (closed : Closed s) {phase : Phase} {tokens : Tokens}
    (found : s.requests r = some phase) (drawn : family ∈ s.drawn)
    (kept : ∀ h t, tokens h = some t → s.tokens h = some t)
    (noRotation : ∀ q, s.rotating q ≠ some family)
    (none : ∀ h, ¬ ({ s with tokens } : State).GoodIn family h) :
    Closed { s.endRevocation r family with tokens } := by
  apply closed.shrink ((closed.known.endRevocation found drawn).forget kept)
  case good => exact fun F h => goodIn_of_kept (kept h)
  case rotating => exact fun q F => rotating_back rfl
  case deleting =>
    intro q F docs now
    rcases State.requests_cases now with ⟨-, same⟩ | ⟨-, old⟩
    · cases same
    · exact .inl old
  case revoked =>
    intro F mem
    rcases List.mem_cons.mp mem with rfl | old
    · exact .inr ⟨fun h good => (none h good).elim,
        fun q now => noRotation q (rotating_back rfl now)⟩
    · exact .inl old

theorem Closed.query (closed : Closed s) (found : s.requests r = some (.query family))
    (undisturbed : Undisturbed server s (.advance r draws outcome))
    (taken : advance server s r draws outcome (.query family) = some s') : Closed s' := by
  have drawn : family ∈ s.drawn := closed.known.phases _ _ found
  simp only [Undisturbed, found] at undisturbed
  have noRotation := rotating_ne_of_active closed.known undisturbed.1
  rw [advance] at taken
  split at taken
  · cases taken
    apply closed.setDelete found drawn (fun _ _ => id) noRotation
    exact fun h good => mem_familyDocs closed.known good
  · rename_i failed
    cases taken
    apply closed.endRevocation found drawn (fun _ _ => id) noRotation
    exact fun h good => undisturbed.2 failed h (goodIn_used closed.known good) good

theorem kept_of_revoked {revoked : Hash} {t : OAuthToken}
    (found : State.written outcome s.tokens (revokeOAuthToken s.tokens revoked) h = some t) :
    s.tokens h = some t := by
  rcases State.written_update found with old | ⟨-, new⟩
  · exact old
  · cases new

theorem not_goodIn_revoked (applied : outcome.applied = true) :
    ¬ ({ s with tokens := State.written outcome s.tokens (revokeOAuthToken s.tokens h) } :
      State).GoodIn family h := by
  rintro ⟨t, found, -⟩
  simp [State.written, applied] at found

theorem Closed.delete (closed : Closed s) {docs : List Hash}
    (found : s.requests r = some (.delete family docs))
    (undisturbed : Undisturbed server s (.advance r draws outcome))
    (taken : advance server s r draws outcome (.delete family docs) = some s') : Closed s' := by
  have drawn : family ∈ s.drawn := closed.known.phases _ _ found
  have closing := closed.deleting r family docs found
  cases docs with
  | nil =>
      cases taken
      apply closed.endRevocation found drawn (fun _ _ => id) closing.rotating
      exact fun h good => absurd (closing.good h good) List.not_mem_nil
  | cons revoked docs =>
      simp only [Undisturbed, found] at undisturbed
      rw [advance] at taken
      split at taken
      · rename_i ok
        cases taken
        have applied : outcome.applied = true := by
          rw [ok]
          rfl
        apply closed.setDelete found drawn (fun _ _ => kept_of_revoked) closing.rotating
        intro h good
        have old := goodIn_of_kept (fun _ => kept_of_revoked) good
        rcases List.mem_cons.mp (closing.good h old) with rfl | later
        · exact absurd good (not_goodIn_revoked applied)
        · exact later
      · rename_i failed
        cases taken
        apply closed.endRevocation found drawn (fun _ _ => kept_of_revoked) closing.rotating
        intro h good
        have old := goodIn_of_kept (fun _ => kept_of_revoked) good
        rcases List.mem_cons.mp (closing.good h old) with rfl | later
        · cases applied : outcome.applied with
          | true => exact not_goodIn_revoked applied good
          | false => exact (undisturbed failed).1 applied old
        · exact (undisturbed failed).2 h later old

theorem Phase.rotating_of_le {clock now : Nat} (le : clock ≤ now)
    (rotating : phase.rotating now = some family) : phase.rotating clock = some family := by
  cases phase with
  | gotToken form t =>
      rw [Phase.rotating, Option.ite_none_right_eq_some] at rotating ⊢
      exact ⟨⟨rotating.1.1, t.notExpired_of_le le rotating.1.2⟩, rotating.2⟩
  | mark | issue | createAccess | createRefresh => exact rotating
  | createClient | getClient | gotClient | createCode | getCode | deleteCode | gotCode | getToken
  | query | delete | replied => cases rotating

theorem Closed.step (closed : Closed s) {a : Action} (undisturbed : Undisturbed server s a)
    (taken : step server s a = some s') : Closed s' := by
  cases a with
  | tick now =>
      rw [Endpoint.step] at taken
      split at taken
      · rename_i le
        cases taken
        have known : Known { s with clock := now } := { closed.known with }
        apply closed.shrink known
        case good =>
          rintro F h ⟨t, found, ofFamily, kind, live, good⟩
          exact ⟨t, found, ofFamily, kind, live, t.notExpired_of_le le good⟩
        case rotating =>
          intro q F rotating
          obtain ⟨phase, found, rotating⟩ := Option.bind_eq_some_iff.mp rotating
          exact Option.bind_eq_some_iff.mpr ⟨phase, found, Phase.rotating_of_le le rotating⟩
        case deleting => exact fun _ _ _ => .inl
        case revoked => exact fun _ => .inl
      · cases taken
  | request r req =>
      rw [Endpoint.step] at taken
      split at taken
      · cases taken
      · cases taken
        have quiet := quiet_handle server req
        apply closed.shrink
        case known =>
          refine { closed.known with
            active := fun q phase now => ?_
            phases := fun q phase now => ?_ }
          · rcases State.requests_cases now with ⟨same, -⟩ | ⟨-, old⟩
            · exact same ▸ List.mem_cons_self
            · exact List.mem_cons_of_mem _ (closed.known.active _ _ old)
          · rcases State.requests_cases now with ⟨-, rfl⟩ | ⟨-, old⟩
            · exact quiet.drawn _
            · exact closed.known.phases _ _ old
        case good => exact fun _ _ => id
        case rotating => exact fun q F => rotating_back (quiet.rotating _)
        case deleting =>
          intro q F docs now
          rcases State.requests_cases now with ⟨-, same⟩ | ⟨-, old⟩
          · rw [← same] at quiet
            exact quiet.elim
          · exact .inl old
        case revoked => exact fun _ => .inl
  | advance r draws outcome =>
      obtain ⟨phase, found, advanced⟩ := Option.bind_eq_some_iff.mp taken
      by_cases isQuery : ∃ family, phase = .query family
      · obtain ⟨family, rfl⟩ := isQuery
        exact closed.query found undisturbed advanced
      · by_cases isDelete : ∃ family docs, phase = .delete family docs
        · obtain ⟨family, docs, rfl⟩ := isDelete
          exact closed.delete found undisturbed advanced
        · exact (closed.known.ordinary_advance found (fun family same => isQuery ⟨family, same⟩)
            (fun family docs same => isDelete ⟨family, docs, same⟩) advanced).closed closed
            undisturbed
  | removeToken h =>
      cases taken
      have kept : ∀ h' t, revokeOAuthToken s.tokens h h' = some t → s.tokens h' = some t := by
        intro h' t found
        have written : State.written .ok s.tokens (revokeOAuthToken s.tokens h) h' = some t := found
        exact kept_of_revoked written
      exact closed.shrink (closed.known.forget kept) (fun F h => goodIn_of_kept (kept h))
        (fun _ _ => id) (fun _ _ _ => .inl) fun _ => .inl
  | removeCode h =>
      cases taken
      exact closed.shrink { closed.known with } (fun _ _ => id) (fun _ _ => id)
        (fun _ _ _ => .inl) fun _ => .inl

theorem closed_init : Closed {} where
  known := known_init
  deleting _ _ _ found := by cases found
  revoked _ mem := by cases mem

theorem Closed.revokedDead (closed : Closed s) : s.RevokedDead := by
  intro family mem
  have closing := closed.revoked family mem
  constructor
  case stored =>
    intro h t read ofFamily
    by_contra accepted
    rw [not_and_or, not_not, not_not] at accepted
    rw [getOAuthToken, getOAuthTokenRaw] at read
    split at read
    · cases read
    · rename_i t' found
      split at read
      · cases read
      · rename_i live
        split at read
        · cases read
        · rename_i good
          cases read
          have good : s.GoodIn family h := ⟨t, found, ofFamily, accepted,
            Bool.eq_false_iff.mpr live, by simpa using good⟩
          exact absurd (closing.good h good) List.not_mem_nil
  case presented =>
    intro r form t found ofFamily accepted
    apply closing.rotating r
    rw [rotating_of_found found]
    apply rotating_checkToken
    rw [accepted, ← ofFamily]
    rfl

end

/-- In a run in which revocations and rotations keep apart, a revoked family
stays dead. -/
theorem revocation_final (server : Server) {actions : List Action}
    (undisturbed : Along (step server) (Undisturbed server) {} actions) :
    Always (step server) State.RevokedDead {} actions := by
  have closed : Always (step server) Closed {} actions :=
    always_of_preserved (fun _ _ _ closed met taken => Closed.step closed met taken) closed_init
      undisturbed
  exact closed.imp fun _ => Closed.revokedDead

/-! ## A rotation during a revocation -/

/-- A request with a refresh token. -/
def sampleRefresh : TokenForm where
  grantType := ascii "refresh_token"
  code := []
  codeVerifier := []
  redirectURI := []
  refreshToken := ascii "4ef4e5"

/-- The steps of request 3, which rotates the refresh token of `sampleRun`. -/
def sampleRotate : Action :=
  .advance 3 ⟨[], [], [], ascii "acce56", ascii "4ef4e6"⟩ .ok

/-- The steps of request 4, which presents the same refresh token. -/
def sampleReuse : Action := .advance 4 ⟨[], [], [], [], []⟩ .ok

/-- Request 3 has marked the refresh token when request 4 presents it and revokes
the family; the pair of request 3 is stored after that. -/
def sampleRace : List Action :=
  [.request 3 (.token .post (some sampleRefresh)), sampleRotate, sampleRotate, sampleRotate,
    .request 4 (.token .post (some sampleRefresh)), sampleReuse, sampleReuse, sampleReuse,
    sampleReuse, sampleReuse, sampleReuse, sampleRotate, sampleRotate]

theorem rotation_outlives_revocation :
    ∃ s, exec (step sampleServer) {} (sampleRun ++ sampleRace) = some s ∧ ¬ s.RevokedDead := by
  have outlives : (exec (step sampleServer) {} (sampleRun ++ sampleRace)).any (fun s =>
      ascii "fa" ∈ s.revoked ∧
        (getOAuthToken s.tokens s.clock (sampleServer.sha256Hex (ascii "acce56"))).any fun t =>
          t.family = ascii "fa" ∧ t.kind = access) = true := by decide +kernel
  rw [Option.any_eq_true] at outlives
  obtain ⟨s, run, outlives⟩ := outlives
  rw [decide_eq_true_iff, Option.any_eq_true] at outlives
  obtain ⟨revoked, t, found, accepted⟩ := outlives
  rw [decide_eq_true_iff] at accepted
  refine ⟨s, run, fun dead => ?_⟩
  exact ((dead _ revoked).stored _ t found accepted.1).1 accepted.2

/-- Request 3 has ended before request 4 presents the refresh token again. -/
def sampleRevocation : List Action :=
  [.request 3 (.token .post (some sampleRefresh)), sampleRotate, sampleRotate, sampleRotate,
    sampleRotate, sampleRotate, sampleRotate, .request 4 (.token .post (some sampleRefresh)),
    sampleReuse, sampleReuse, sampleReuse, sampleReuse, sampleReuse, sampleReuse, sampleReuse,
    sampleReuse]

theorem sampleRevocation_final :
    ∃ s, exec (step sampleServer) {} (sampleRun ++ sampleRevocation) = some s ∧
      ascii "fa" ∈ s.revoked ∧ s.RevokedDead := by
  have ends : (exec (step sampleServer) {} (sampleRun ++ sampleRevocation)).any (fun s =>
      ascii "fa" ∈ s.revoked) = true := by decide +kernel
  have undisturbed : Along (step sampleServer) (Undisturbed sampleServer) {}
      (sampleRun ++ sampleRevocation) := by decide +kernel
  rw [Option.any_eq_true] at ends
  obtain ⟨s, run, revoked⟩ := ends
  exact ⟨s, run, of_decide_eq_true revoked, (revocation_final sampleServer undisturbed).last run⟩

end Drover.OAuth.Endpoint
