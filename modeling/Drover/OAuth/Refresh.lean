import Drover.OAuth.Provenance
import Drover.OAuth.Revocation

/-!
# A refresh that fails

`tokenFromRefresh` marks the presented token as superseded before `issueTokenPair` stores
the new pair.  A failure in between leaves the client without a pair, and what it still
has counts as reused: its retry revokes the family.  `retriable_iff` says for which
failures a refresh without a pair can be retried.
-/

namespace Drover.OAuth.Endpoint

open Drover.Transition
open Drover.Store (Outcome)

/-- `tokenResponse`. -/
def Reply.IsPair : Reply → Prop
  | .tokens .. => True
  | _ => False

/-- How the operations of a refresh request end. -/
structure Faults where
  /-- `GetOAuthTokenRaw`. -/
  read : Outcome
  /-- `MarkOAuthTokenSuperseded`. -/
  mark : Outcome
  /-- `CreateOAuthToken`, of the access token. -/
  access : Outcome
  /-- `CreateOAuthToken`, of the refresh token. -/
  refresh : Outcome

/-- How the store operation of a phase ends. -/
def Faults.outcome (f : Faults) : Phase → Outcome
  | .getToken _ => f.read
  | .mark .. => f.mark
  | .createAccess _ => f.access
  | .createRefresh _ => f.refresh
  | _ => .ok

/-- If the mark takes effect, nothing fails. -/
def Faults.Harmless (f : Faults) : Prop :=
  f.read = .ok → f.mark.applied = true → f.mark = .ok ∧ f.access = .ok ∧ f.refresh = .ok

/-- Only the request `r` takes steps, its operations end as `f` says, and the token does
not expire meanwhile. -/
def Alone (f : Faults) (r : RequestId) (t : OAuthToken) (s : State) : Action → Prop
  | .tick now => t.notExpired now = true
  | .advance q _ outcome => q = r ∧ ∀ phase ∈ s.requests r, outcome = f.outcome phase
  | _ => False

/-- The request revokes a family. -/
def Phase.Revokes : Phase → Prop
  | .query _ | .delete .. => True
  | _ => False

/-- A later request `q` with the same token is accepted, if it can read it, and does not
revoke the family, whatever fails. -/
structure Retriable (server : Server) (s : State) (q : RequestId) (form : TokenForm)
    (t : OAuthToken) : Prop where
  accepted : ∀ now, s.clock ≤ now → t.notExpired now = true → ∀ draws draws' outcome,
    ((exec (step server) s
      [.tick now, .request q (.token .post (some form)), .advance q draws .ok,
        .advance q draws' outcome]).bind fun s' => s'.requests q) = some (.mark form t)
  spared : ∀ s₁ s' f actions phase,
    step server s (.request q (.token .post (some form))) = some s₁ →
    Along (step server) (Alone f q t) s₁ actions → exec (step server) s₁ actions = some s' →
    s'.requests q = some phase → ¬phase.Revokes

/-! ## Drawn tokens -/

/-- Nothing empty is drawn, and every pair that was issued. -/
structure Drew (s : State) : Prop where
  nil : [] ∉ s.drawn
  issued : ∀ form pair, .issued form pair ∈ s.log →
    pair.access ∈ s.drawn ∧ pair.refresh ∈ s.drawn

section

variable {server : Server} {s s' : State}

theorem Drew.same (drew : Drew s) (sameDrawn : s'.drawn = s.drawn) (sameLog : s'.log = s.log) :
    Drew s' where
  nil := sameDrawn ▸ drew.nil
  issued form pair mem := sameDrawn ▸ drew.issued form pair (sameLog ▸ mem)

/-- A step that draws values and logs an event. -/
theorem Drew.draw (drew : Drew s) (drawn : List Bytes) {e : Event}
    (nonempty : ∀ d ∈ drawn, d ≠ [])
    (issued : ∀ form pair, e = .issued form pair → pair.access ∈ drawn ∧ pair.refresh ∈ drawn)
    (sameDrawn : s'.drawn = drawn ++ s.drawn) (sameLog : s'.log = e :: s.log) : Drew s' where
  nil := by
    rw [sameDrawn, List.mem_append]
    rintro (new | before)
    · exact nonempty [] new rfl
    · exact drew.nil before
  issued form pair mem := by
    rw [sameLog, List.mem_cons] at mem
    rw [sameDrawn, List.mem_append, List.mem_append]
    rcases mem with new | before
    · exact (issued form pair new.symm).imp .inl .inl
    · exact (drew.issued form pair before).imp .inr .inr

theorem Drew.advance (drew : Drew s) {r : RequestId} {draws : Draws} {outcome : Outcome}
    {phase : Phase} (taken : advance server s r draws outcome phase = some s') : Drew s' := by
  cases phase with
  | createClient req =>
      rw [Endpoint.advance] at taken
      split at taken
      · cases taken
      · rename_i fresh
        cases taken
        apply drew.draw [draws.clientID] _ _ rfl rfl
        · exact List.forall_mem_singleton.mpr (not_not.mp fresh).1
        · exact fun _ _ impossible => Event.noConfusion impossible
  | getClient req | getCode form | getToken form =>
      rw [Endpoint.advance] at taken
      split at taken
      all_goals
        cases taken
        exact drew.same rfl rfl
  | createCode req email time =>
      rw [Endpoint.advance] at taken
      split at taken
      · cases taken
      · rename_i fresh
        cases taken
        apply drew.draw [draws.code] _ _ rfl rfl
        · exact List.forall_mem_singleton.mpr (not_not.mp fresh).1
        · exact fun _ _ impossible => Event.noConfusion impossible
  | query family =>
      rw [Endpoint.advance] at taken
      split at taken
      all_goals
        cases taken
        exact drew.same rfl rfl
  | delete family docs =>
      cases docs with
      | nil =>
          cases taken
          exact drew.same rfl rfl
      | cons h docs =>
          rw [Endpoint.advance] at taken
          split at taken
          all_goals
            cases taken
            exact drew.same rfl rfl
  | issue form g =>
      rw [Endpoint.advance] at taken
      split at taken
      · cases taken
      · rename_i fresh
        cases taken
        rw [not_or, not_not] at fresh
        apply drew.draw (drawnFor g draws) _ _ rfl rfl
        · exact fun d mem => (fresh.1 d mem).1
        · intro form' pair same
          cases same
          exact ⟨List.mem_cons_self, List.mem_cons_of_mem _ List.mem_cons_self⟩
  | gotClient | deleteCode | gotCode | gotToken | mark | createAccess | createRefresh =>
      cases taken
      exact drew.same rfl rfl
  | replied reply => cases taken

theorem Drew.step (drew : Drew s) {a : Action} (taken : step server s a = some s') : Drew s' := by
  cases a with
  | tick now =>
      rw [Endpoint.step] at taken
      split at taken
      · cases taken
        exact drew.same rfl rfl
      · cases taken
  | request r req =>
      rw [Endpoint.step] at taken
      split at taken
      · cases taken
      · cases taken
        exact drew.same rfl rfl
  | advance r draws outcome =>
      obtain ⟨phase, -, advanced⟩ := Option.bind_eq_some_iff.mp taken
      exact drew.advance advanced
  | removeToken h | removeCode h =>
      cases taken
      exact drew.same rfl rfl

theorem drew_of_run {history : List Action}
    (reached : exec (Endpoint.step server) {} history = some s) : Drew s :=
  (always_of_inductive (fun _ _ _ drew taken => Drew.step drew taken) history
    ⟨List.not_mem_nil, fun _ _ mem => absurd mem List.not_mem_nil⟩).last reached

theorem Server.Descends.issued {log : List Event} {pair : Pair} {a : Accept}
    (descends : server.Descends log pair a) : ∃ form, .issued form pair ∈ log := by
  induction descends with
  | @exchange _ form => exact ⟨form, List.mem_cons_self⟩
  | @refresh _ form => exact ⟨form, List.mem_cons_self⟩
  | later e _ ih => exact ih.imp fun _ mem => List.mem_cons_of_mem e mem

/-- A refresh token in the store has been drawn. -/
theorem drawn_of_stored (noCollision : Function.Injective server.sha256) {history : List Action}
    (reached : exec (Endpoint.step server) {} history = some s) {raw : Bytes} {t : OAuthToken}
    (stored : s.tokens (server.sha256Hex raw) = some t) (isRefresh : t.kind = refresh) :
    raw ∈ s.drawn := by
  have drew := drew_of_run reached
  rcases (sound_of_run noCollision reached).tokens _ _ stored with
    empty | ⟨pair, a, descends, ⟨-, same⟩ | ⟨sameHash, -⟩⟩
  · exact absurd (isRefresh.symm.trans empty) (by decide)
  · rw [same] at isRefresh
    exact absurd isRefresh (by change access ≠ refresh; decide)
  · obtain ⟨form, issued⟩ := descends.issued
    rw [Server.sha256Hex_injective noCollision sameHash]
    exact (drew.issued form pair issued).2

end

/-! ## A refresh -/

namespace Server

variable (server : Server) (f : Faults) (form : TokenForm) (t : OAuthToken)

/-- The token has been read and marked. -/
structure Marked (stored : Option OAuthToken) : Prop where
  stored : stored = some { t with superseded := true }
  read : f.read = .ok
  mark : f.mark = .ok

/-- The pair does not overwrite the token. -/
structure Apart (pair : Pair) : Prop where
  access : server.sha256Hex form.refreshToken ≠ server.sha256Hex pair.access
  refresh : server.sha256Hex form.refreshToken ≠ server.sha256Hex pair.refresh

/-- The refresh ends without a pair, and the token is as before. -/
structure Untouched (stored : Option OAuthToken) (reply : Reply) : Prop where
  stored : stored = some t
  noPair : ¬reply.IsPair
  unmarked : f.read = .ok → f.mark.applied = false

/-- The refresh ends with the token superseded. -/
structure Spent (stored : Option OAuthToken) (reply : Reply) : Prop where
  stored : stored = some { t with superseded := true }
  read : f.read = .ok
  applied : f.mark.applied = true
  pair : reply.IsPair ↔ f.mark = .ok ∧ f.access = .ok ∧ f.refresh = .ok

/-- What is stored of the token in each phase of the refresh. -/
def Stage (stored : Option OAuthToken) : Phase → Prop
  | .getToken form' => form' = form ∧ stored = some t
  | .gotToken form' t' | .mark form' t' =>
      form' = form ∧ t' = t ∧ stored = some t ∧ f.read = .ok
  | .issue _ _ => Marked f t stored
  | .createAccess pair => Marked f t stored ∧ server.Apart form pair
  | .createRefresh pair => Marked f t stored ∧ server.Apart form pair ∧ f.access = .ok
  | .replied reply => Untouched f t stored reply ∨ Spent f t stored reply
  | _ => False

variable {server f form t}

theorem Stage.not_revokes {stored : Option OAuthToken} {phase : Phase}
    (stage : server.Stage f form t stored phase) : ¬phase.Revokes := by
  cases phase with
  | query | delete => exact fun _ => stage
  | _ => exact id

end Server

/-- The refresh of a token that is live and not expired. -/
structure Refreshing (server : Server) (f : Faults) (r : RequestId) (form : TokenForm)
    (t : OAuthToken) (s : State) : Prop where
  drawn : form.refreshToken ∈ s.drawn
  live : t.Live
  unexpired : t.notExpired s.clock = true
  stage : ∃ phase ∈ s.requests r,
    server.Stage f form t (s.tokens (server.sha256Hex form.refreshToken)) phase

section

variable {server : Server} {f : Faults} {r : RequestId} {form : TokenForm} {t : OAuthToken}
  {s s' : State}

theorem Refreshing.next (refreshing : Refreshing server f r form t s) {phase : Phase}
    (drawn : s.drawn ⊆ s'.drawn) (clock : s'.clock = s.clock)
    (found : s'.requests r = some phase)
    (stage : server.Stage f form t (s'.tokens (server.sha256Hex form.refreshToken)) phase) :
    Refreshing server f r form t s' where
  drawn := drawn refreshing.drawn
  live := refreshing.live
  unexpired := clock ▸ refreshing.unexpired
  stage := ⟨phase, found, stage⟩

theorem checkToken_live {now : Nat} (live : t.Live) (unexpired : t.notExpired now = true) :
    Server.checkToken now form t = .mark form t := by
  rw [Server.checkToken, if_neg (not_not.mpr live.1), live.2, if_neg Bool.false_ne_true, unexpired,
    if_neg Bool.false_ne_true.symm]

/-- A create that does not overwrite the token. -/
theorem written_create {outcome : Outcome} {tokens : Tokens} {h fresh : Hash} {new : OAuthToken}
    (other : h ≠ fresh) :
    State.written outcome tokens (createOAuthToken tokens fresh new) h = tokens h := by
  rw [State.written]
  split
  · exact createOAuthToken_of_ne other
  · rfl

theorem Refreshing.advance (noCollision : Function.Injective server.sha256)
    (refreshing : Refreshing server f r form t s) {phase : Phase} {draws : Draws}
    (found : s.requests r = some phase)
    (taken : Endpoint.advance server s r draws (f.outcome phase) phase = some s') :
    Refreshing server f r form t s' := by
  obtain ⟨phase', found', stage⟩ := refreshing.stage
  obtain rfl : phase = phase' := Option.some.inj (found.symm.trans found')
  have updated (next : Phase) : (s.setRequest r next).requests r = some next :=
    Function.update_self ..
  cases phase with
  | getToken form' =>
      obtain ⟨rfl, stored⟩ := stage
      rw [Endpoint.advance] at taken
      by_cases read : f.read = .ok
      · rw [Faults.outcome, if_pos read, getOAuthTokenRaw, stored] at taken
        cases taken
        exact refreshing.next (List.Subset.refl _) rfl (updated _) ⟨rfl, rfl, stored, read⟩
      · rw [Faults.outcome, if_neg read] at taken
        cases taken
        exact refreshing.next (List.Subset.refl _) rfl (updated _)
          (.inl ⟨stored, id, fun isOk => absurd isOk read⟩)
  | gotToken form' t' =>
      obtain ⟨rfl, rfl, stored, read⟩ := stage
      rw [Endpoint.advance, checkToken_live refreshing.live refreshing.unexpired] at taken
      cases taken
      exact refreshing.next (List.Subset.refl _) rfl (updated _) ⟨rfl, rfl, stored, read⟩
  | mark form' t' =>
      obtain ⟨rfl, rfl, stored, read⟩ := stage
      cases taken
      refine refreshing.next (List.Subset.refl _) rfl (updated _) ?_
      have marked : markOAuthTokenSuperseded s.tokens (server.sha256Hex form'.refreshToken)
          (server.sha256Hex form'.refreshToken) = some { t' with superseded := true } := by
        rw [markOAuthTokenSuperseded_same, stored, Option.getD_some]
      rw [Faults.outcome, State.written]
      cases ended : f.mark with
      | ok => exact ⟨marked, read, ended⟩
      | failed applied =>
          cases applied with
          | false => exact .inl ⟨stored, id, fun _ => congrArg Outcome.applied ended⟩
          | true =>
              refine .inr ⟨marked, read, congrArg Outcome.applied ended, ?_⟩
              rw [ended]
              exact iff_of_false id fun all => Outcome.noConfusion all.1
  | issue form' g =>
      rw [Endpoint.advance] at taken
      split at taken
      · cases taken
      · rename_i fresh
        cases taken
        rw [not_or, not_not] at fresh
        have apart (d : Bytes) (mem : d ∈ drawnFor g draws) :
            server.sha256Hex form.refreshToken ≠ server.sha256Hex d := by
          intro same
          apply (fresh.1 d mem).2
          rw [← Server.sha256Hex_injective noCollision same]
          exact refreshing.drawn
        refine refreshing.next (List.subset_append_right _ _) rfl (updated _) ⟨stage, ?_, ?_⟩
        · exact apart _ List.mem_cons_self
        · exact apart _ (List.mem_cons_of_mem _ List.mem_cons_self)
  | createAccess pair =>
      obtain ⟨marked, apart⟩ := stage
      cases taken
      refine refreshing.next (List.Subset.refl _) rfl (updated _) ?_
      dsimp only
      rw [written_create apart.access]
      by_cases created : f.outcome (.createAccess pair) = .ok
      · rw [if_pos created]
        exact ⟨marked, apart, created⟩
      · rw [if_neg created]
        refine .inr ⟨marked.stored, marked.read, congrArg Outcome.applied marked.mark, ?_⟩
        exact iff_of_false id fun all => created all.2.1
  | createRefresh pair =>
      obtain ⟨marked, apart, accessCreated⟩ := stage
      cases taken
      refine refreshing.next (List.Subset.refl _) rfl (updated _) ?_
      dsimp only
      rw [written_create apart.refresh]
      refine .inr ⟨marked.stored, marked.read, congrArg Outcome.applied marked.mark, ?_⟩
      by_cases created : f.outcome (.createRefresh pair) = .ok
      · rw [if_pos created]
        exact iff_of_true trivial ⟨marked.mark, accessCreated, created⟩
      · rw [if_neg created]
        exact iff_of_false id fun all => created all.2.2
  | replied reply => cases taken
  | _ => exact stage.elim

theorem Refreshing.step (noCollision : Function.Injective server.sha256)
    (refreshing : Refreshing server f r form t s) {a : Action} (alone : Alone f r t s a)
    (taken : step server s a = some s') : Refreshing server f r form t s' := by
  cases a with
  | tick now =>
      rw [Endpoint.step] at taken
      split at taken
      · cases taken
        exact { refreshing with unexpired := alone }
      · cases taken
  | advance q draws outcome =>
      obtain ⟨rfl, ends⟩ := alone
      obtain ⟨phase, found, advanced⟩ := Option.bind_eq_some_iff.mp taken
      rw [ends phase found] at advanced
      exact refreshing.advance noCollision found advanced
  | request | removeToken | removeCode => exact alone.elim

theorem Refreshing.run (noCollision : Function.Injective server.sha256)
    (refreshing : Refreshing server f r form t s) {actions : List Action}
    (alone : Along (Endpoint.step server) (Alone f r t) s actions)
    (run : exec (Endpoint.step server) s actions = some s') : Refreshing server f r form t s' :=
  (always_of_preserved (fun _ _ _ refreshing alone taken =>
    Refreshing.step noCollision refreshing alone taken) refreshing alone).last run

theorem handle_refresh (grantType : form.grantType = ascii "refresh_token")
    (nonempty : form.refreshToken ≠ []) :
    server.handle (.token .post (some form)) = .getToken form := by
  rw [Server.handle, Server.token, grantType, if_neg (by decide), if_pos rfl, if_neg nonempty]

/-- The request for the token begins its refresh. -/
theorem refreshing_request (grantType : form.grantType = ascii "refresh_token")
    (nonempty : form.refreshToken ≠ []) (drawn : form.refreshToken ∈ s.drawn) (live : t.Live)
    (unexpired : t.notExpired s.clock = true)
    (stored : s.tokens (server.sha256Hex form.refreshToken) = some t)
    (begun : step server s (.request r (.token .post (some form))) = some s') :
    Refreshing server f r form t s' := by
  rw [step] at begun
  split at begun
  · cases begun
  · cases begun
    rw [handle_refresh grantType nonempty]
    exact ⟨drawn, live, unexpired, .getToken form, Function.update_self .., rfl, stored⟩

/-! ## The retry -/

/-- A retry checks what is stored of the token. -/
theorem retry_checks (grantType : form.grantType = ascii "refresh_token")
    (nonempty : form.refreshToken ≠ [])
    (stored : s.tokens (server.sha256Hex form.refreshToken) = some t)
    (free : s.requests r = none) {now : Nat} (later : s.clock ≤ now) (draws draws' : Draws)
    (outcome : Outcome) :
    ((exec (step server) s
      [.tick now, .request r (.token .post (some form)), .advance r draws .ok,
        .advance r draws' outcome]).bind fun s' => s'.requests r) =
      some (Server.checkToken now form t) := by
  have begins : server.handle (.token .post (some form)) = .getToken form :=
    handle_refresh grantType nonempty
  simp [exec, step, later, free, begins, Endpoint.advance, getOAuthTokenRaw, stored,
    State.setRequest]

theorem retriable_of_stored (noCollision : Function.Injective server.sha256)
    (grantType : form.grantType = ascii "refresh_token") (nonempty : form.refreshToken ≠ [])
    (drawn : form.refreshToken ∈ s.drawn) (live : t.Live) (unexpired : t.notExpired s.clock = true)
    (stored : s.tokens (server.sha256Hex form.refreshToken) = some t)
    (free : s.requests r = none) : Retriable server s r form t where
  accepted now later unexpiredThen draws draws' outcome := by
    rw [retry_checks grantType nonempty stored free later, checkToken_live live unexpiredThen]
  spared s₁ s' f actions phase begun alone run found := by
    have refreshing : Refreshing server f r form t s' :=
      (refreshing_request grantType nonempty drawn live unexpired stored begun).run noCollision
        alone run
    obtain ⟨phase', found', stage⟩ := refreshing.stage
    obtain rfl : phase = phase' := Option.some.inj (found.symm.trans found')
    exact stage.not_revokes

/-- What is superseded is not accepted any more. -/
theorem not_retriable (grantType : form.grantType = ascii "refresh_token")
    (nonempty : form.refreshToken ≠ []) (live : t.Live) (unexpired : t.notExpired s.clock = true)
    (stored : s.tokens (server.sha256Hex form.refreshToken) = some { t with superseded := true })
    (free : s.requests r = none) : ¬Retriable server s r form t := by
  intro retriable
  have accepted := retriable.accepted s.clock (Nat.le_refl _) unexpired ⟨[], [], [], [], []⟩
    ⟨[], [], [], [], []⟩ .ok
  rw [retry_checks grantType nonempty stored free (Nat.le_refl _), Server.checkToken,
    if_neg (not_not.mpr live.1), if_pos rfl] at accepted
  cases accepted

end

/-- A refresh that ends without a pair can be retried exactly if nothing fails once the
token has been superseded. -/
theorem retriable_iff {server : Server} (noCollision : Function.Injective server.sha256)
    {history actions : List Action} {s s₁ s' : State} {r q : RequestId} {form : TokenForm}
    {t : OAuthToken} {f : Faults} {reply : Reply}
    (reached : exec (step server) {} history = some s)
    (grantType : form.grantType = ascii "refresh_token")
    (stored : getOAuthTokenRaw s.tokens (server.sha256Hex form.refreshToken) = some t)
    (live : t.Live) (unexpired : t.notExpired s.clock = true)
    (begun : step server s (.request r (.token .post (some form))) = some s₁)
    (alone : Along (step server) (Alone f r t) s₁ actions)
    (run : exec (step server) s₁ actions = some s')
    (ended : s'.requests r = some (.replied reply)) (free : s'.requests q = none) :
    reply.IsPair ∨ Retriable server s' q form t ↔ f.Harmless := by
  have drawn : form.refreshToken ∈ s.drawn := drawn_of_stored noCollision reached stored live.1
  have nonempty : form.refreshToken ≠ [] := fun empty => (drew_of_run reached).nil (empty ▸ drawn)
  have refreshing : Refreshing server f r form t s' :=
    (refreshing_request grantType nonempty drawn live unexpired stored begun).run noCollision
      alone run
  obtain ⟨phase, found, stage⟩ := refreshing.stage
  obtain rfl : .replied reply = phase := Option.some.inj (ended.symm.trans found)
  rcases stage with untouched | spent
  · apply iff_of_true
    · exact .inr (retriable_of_stored noCollision grantType nonempty refreshing.drawn live
        refreshing.unexpired untouched.stored free)
    · intro read applied
      exact absurd applied (by rw [untouched.unmarked read]; decide)
  · constructor
    · rintro (isPair | retriable) - -
      · exact spent.pair.mp isPair
      · exact absurd retriable
          (not_retriable grantType nonempty live refreshing.unexpired spent.stored free)
    · intro harmless
      exact .inl (spent.pair.mpr (harmless spent.read spent.applied))

/-- The mark takes effect, and the access token is not stored. -/
def sampleFaults : Faults := ⟨.ok, .ok, .failed false, .ok⟩

/-- The request 3 presents the sample refresh token. -/
def sampleRequest3 : Action := .request 3 (.token .post (some sampleRefresh))

/-- The steps of request 3, up to the create that fails. -/
def sampleFailure : List Action :=
  let go (outcome : Outcome) : Action :=
    .advance 3 ⟨[], [], [], ascii "acce56", ascii "4ef4e6"⟩ outcome
  [go .ok, go .ok, go .ok, go .ok, go (.failed false)]

/-- Request 4 presents the token again. -/
def sampleRetry : List Action :=
  .request 4 (.token .post (some sampleRefresh)) :: List.replicate 6 sampleReuse

instance Alone.decidable (f : Faults) (r : RequestId) (t : OAuthToken) (s : State) (a : Action) :
    Decidable (Alone f r t s a) :=
  match a with
  | .tick now => inferInstanceAs (Decidable (t.notExpired now = true))
  | .advance q _ outcome =>
      inferInstanceAs (Decidable (q = r ∧ ∀ phase ∈ s.requests r, outcome = f.outcome phase))
  | .request .. | .removeToken _ | .removeCode _ => isFalse id

/-- Request 3 ends without a pair, and what it leaves behind cannot be retried. -/
theorem sampleFailure_not_retriable : ∃ s t s₁ s',
    exec (step sampleServer) {} sampleRun = some s ∧ step sampleServer s sampleRequest3 = some s₁ ∧
      exec (step sampleServer) s₁ sampleFailure = some s' ∧
      s'.requests 3 = some (.replied .serverError) ∧
      (Reply.serverError.IsPair ∨ Retriable sampleServer s' 4 sampleRefresh t ↔
        sampleFaults.Harmless) := by
  have valid : (exec (step sampleServer) {} sampleRun).any (fun s =>
      (getOAuthTokenRaw s.tokens (sampleServer.sha256Hex sampleRefresh.refreshToken)).any fun t =>
        t.Live ∧ t.notExpired s.clock = true ∧
          (step sampleServer s sampleRequest3).any fun s₁ =>
            Along (step sampleServer) (Alone sampleFaults 3 t) s₁ sampleFailure ∧
              (exec (step sampleServer) s₁ sampleFailure).any fun s' =>
                s'.requests 3 = some (.replied .serverError) ∧ s'.requests 4 = none) = true := by
    decide +kernel
  simp only [Option.any_eq_true, decide_eq_true_iff] at valid
  obtain ⟨s, reached, t, stored, live, unexpired, s₁, begun, alone, s', run, ended, free⟩ := valid
  exact ⟨s, t, s₁, s', reached, begun, run, ended,
    retriable_iff sampleSha256.injective reached rfl stored live unexpired begun alone run ended
      free⟩

/-- Request 3 ends with a server error and without a pair, and its retry revokes the
family. -/
theorem failed_refresh_revokes : ∃ s s',
    exec (step sampleServer) {} (sampleRun ++ sampleRequest3 :: sampleFailure) = some s ∧
      s.requests 3 = some (.replied .serverError) ∧
      exec (step sampleServer) s sampleRetry = some s' ∧
      s'.requests 4 = some Server.reused ∧ ascii "fa" ∈ s'.revoked := by
  have ends : (exec (step sampleServer) {} (sampleRun ++ sampleRequest3 :: sampleFailure)).any
      (fun s => s.requests 3 = some (.replied .serverError) ∧
        (exec (step sampleServer) s sampleRetry).any fun s' =>
          s'.requests 4 = some Server.reused ∧ ascii "fa" ∈ s'.revoked) = true := by
    decide +kernel
  simp only [Option.any_eq_true, decide_eq_true_iff] at ends
  obtain ⟨s, run, replied, s', retried, reused, revoked⟩ := ends
  exact ⟨s, s', run, replied, retried, reused, revoked⟩

end Drover.OAuth.Endpoint
