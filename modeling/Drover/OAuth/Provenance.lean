import Drover.OAuth.Endpoint

/-!
# Where access tokens come from

Every client, code and token in the store, and every request on its way, is
accounted for by the log: a client by a registration whose redirect URIs passed
`hostAllowed`, a code by an accepted authorize request, a token by a pair that
descends from such a code.  What `Verify` accepts is therefore an access token of
such a pair.
-/

namespace Drover.OAuth.Endpoint

open Drover.Transition
open Drover.Secrets (OAuthCode)
open Drover.Store (Outcome)

/-- Whom the tokens for the code of the request are for. -/
def Accept.grant (a : Accept) (family : Bytes) : Grant :=
  ⟨a.email, a.req.params.clientID, fields a.req.params.scope, family⟩

namespace Server

variable (server : Server)

/-- What has been checked of an authorize request, after the events `before`,
when it gets a code for the account `email`. -/
structure Accepts (before : List Event) (req : AuthorizeRequest) (email : Bytes) (time : Nat) :
    Prop where
  method : req.method = .post
  decision : req.decision = ascii "accept"
  challenge : req.params.codeChallenge ≠ []
  cookie : server.authCookie time req.cookie = some email
  registered : ∃ registration, .registered req.params.clientID registration ∈ before ∧
    req.params.redirectURI ∈ registration.redirectURIs
  hostAllowed : server.hostAllowed req.params.redirectURI = true

/-- The request was accepted, after all its checks. -/
inductive Genuine : List Event → Accept → Prop
  | here {before : List Event} {a : Accept} (accepts : server.Accepts before a.req a.email a.time) :
      Genuine (.accepted a :: before) a
  | later {before : List Event} {a : Accept} (e : Event) (genuine : Genuine before a) :
      Genuine (e :: before) a

/-- The pair was issued for the code of the request, or for the refresh token of
a pair that was issued before and descends from it. -/
inductive Descends : List Event → Pair → Accept → Prop
  | exchange {before : List Event} {form : TokenForm} {pair : Pair} {a : Accept}
      (genuine : server.Genuine before a) (code : form.code = a.code)
      (verifier :
        server.pkceChallengeFromVerifier form.codeVerifier = a.req.params.codeChallenge)
      (family : pair.grant.family ≠ []) (grant : pair.grant = Accept.grant a pair.grant.family) :
      Descends (.issued form pair :: before) pair a
  | refresh {before : List Event} {form : TokenForm} {parent pair : Pair} {a : Accept}
      (descends : Descends before parent a) (presented : form.refreshToken = parent.refresh)
      (grant : pair.grant = parent.grant) : Descends (.issued form pair :: before) pair a
  | later {before : List Event} {pair : Pair} {a : Accept} (e : Event)
      (descends : Descends before pair a) : Descends (e :: before) pair a

variable {server} {log log' : List Event} {pair : Pair} {a : Accept}

theorem Genuine.mono (genuine : server.Genuine log a) (older : log <:+ log') :
    server.Genuine log' a := by
  obtain ⟨new, rfl⟩ := older
  induction new with
  | nil => exact genuine
  | cons e new ih => exact .later e ih

theorem Descends.mono (descends : server.Descends log pair a) (older : log <:+ log') :
    server.Descends log' pair a := by
  obtain ⟨new, rfl⟩ := older
  induction new with
  | nil => exact descends
  | cons e new ih => exact .later e ih

theorem Descends.genuine (descends : server.Descends log pair a) : server.Genuine log a := by
  induction descends with
  | exchange genuine => exact .later _ genuine
  | refresh _ _ _ ih => exact .later _ ih
  | later e _ ih => exact .later e ih

/-- Along a chain of refreshes the grant stays the one of the code. -/
theorem Descends.grant (descends : server.Descends log pair a) :
    pair.grant.family ≠ [] ∧ pair.grant = Accept.grant a pair.grant.family := by
  induction descends with
  | exchange _ _ _ family grant => exact ⟨family, grant⟩
  | refresh _ _ grant ih => exact grant ▸ ih
  | later _ _ ih => exact ih

/-! ## What the log accounts for -/

variable (server)

/-- The client was registered with these redirect URIs, and all passed. -/
def ClientSound (log : List Event) (clientID : Bytes) (client : OAuthClient) : Prop :=
  ∃ req, .registered clientID req ∈ log ∧ client.redirectURIs = req.redirectURIs ∧
    ∀ u ∈ req.redirectURIs, server.hostAllowed u = true

/-- The code was given to an accepted request. -/
def CodeSound (log : List Event) (codeHash : Hash) (oc : OAuthCode) : Prop :=
  ∃ a, server.Genuine log a ∧ codeHash = server.sha256Hex a.code ∧
    grantOf oc = Accept.grant a [] ∧ oc.codeChallenge = a.req.params.codeChallenge

/-- The document belongs to a token of the pair. -/
def Holds (tokenHash : Hash) (t : OAuthToken) (pair : Pair) : Prop :=
  (tokenHash = server.sha256Hex pair.access ∧
      t = { pair.grant.access pair.now with superseded := t.superseded }) ∨
    (tokenHash = server.sha256Hex pair.refresh ∧
      t = { pair.grant.refresh pair.now with superseded := t.superseded })

/-- The token was issued, or it is what `MarkOAuthTokenSuperseded` makes of a
missing document. -/
def TokenSound (log : List Event) (tokenHash : Hash) (t : OAuthToken) : Prop :=
  t.kind = [] ∨ ∃ pair a, server.Descends log pair a ∧ server.Holds tokenHash t pair

/-- The grant is for a pair that will descend from an accepted request. -/
def GrantSound (log : List Event) (form : TokenForm) (g : Grant) : Prop :=
  (∃ a, server.Genuine log a ∧ form.code = a.code ∧
      server.pkceChallengeFromVerifier form.codeVerifier = a.req.params.codeChallenge ∧
      g = Accept.grant a []) ∨
    ∃ parent a, server.Descends log parent a ∧ form.refreshToken = parent.refresh ∧
      g = parent.grant

/-- What a phase of a request has behind it in the log. -/
def PhaseSound (log : List Event) : Phase → Prop
  | .createClient req => ∀ u ∈ req.redirectURIs, server.hostAllowed u = true
  | .getClient req => req.params.codeChallenge ≠ [] ∧ req.method ≠ .other
  | .gotClient req client =>
      (req.params.codeChallenge ≠ [] ∧ req.method ≠ .other) ∧
        server.ClientSound log req.params.clientID client
  | .createCode req email time => server.Accepts log req email time
  | .deleteCode form oc | .gotCode form oc => server.CodeSound log (server.sha256Hex form.code) oc
  | .gotToken form t => server.TokenSound log (server.sha256Hex form.refreshToken) t
  | .mark form t =>
      t.kind = refresh ∧ server.TokenSound log (server.sha256Hex form.refreshToken) t
  | .issue form g => server.GrantSound log form g
  | .createAccess pair | .createRefresh pair => ∃ a, server.Descends log pair a
  | .getCode _ | .getToken _ | .query _ | .delete .. | .replied _ => True

variable {server} {codeHash tokenHash : Hash} {client : OAuthClient} {clientID : Bytes}
  {oc : OAuthCode} {t : OAuthToken} {form : TokenForm} {g : Grant} {phase : Phase}

theorem ClientSound.mono (sound : server.ClientSound log clientID client) (older : log <:+ log') :
    server.ClientSound log' clientID client := by
  obtain ⟨req, registered, same, allowed⟩ := sound
  exact ⟨req, older.subset registered, same, allowed⟩

theorem CodeSound.mono (sound : server.CodeSound log codeHash oc) (older : log <:+ log') :
    server.CodeSound log' codeHash oc := by
  obtain ⟨a, genuine, rest⟩ := sound
  exact ⟨a, genuine.mono older, rest⟩

theorem TokenSound.mono (sound : server.TokenSound log tokenHash t) (older : log <:+ log') :
    server.TokenSound log' tokenHash t := by
  rcases sound with empty | ⟨pair, a, descends, holds⟩
  · exact .inl empty
  · exact .inr ⟨pair, a, descends.mono older, holds⟩

theorem GrantSound.mono (sound : server.GrantSound log form g) (older : log <:+ log') :
    server.GrantSound log' form g := by
  rcases sound with ⟨a, genuine, rest⟩ | ⟨parent, a, descends, rest⟩
  · exact .inl ⟨a, genuine.mono older, rest⟩
  · exact .inr ⟨parent, a, descends.mono older, rest⟩

theorem Accepts.mono {req : AuthorizeRequest} {email : Bytes} {time : Nat}
    (accepts : server.Accepts log req email time) (older : log <:+ log') :
    server.Accepts log' req email time := by
  obtain ⟨registration, registered, listed⟩ := accepts.registered
  exact { accepts with registered := ⟨registration, older.subset registered, listed⟩ }

theorem PhaseSound.mono (sound : server.PhaseSound log phase) (older : log <:+ log') :
    server.PhaseSound log' phase := by
  cases phase with
  | gotClient => exact ⟨sound.1, ClientSound.mono sound.2 older⟩
  | createCode => exact Accepts.mono sound older
  | deleteCode | gotCode => exact CodeSound.mono sound older
  | gotToken => exact TokenSound.mono sound older
  | mark => exact ⟨sound.1, TokenSound.mono sound.2 older⟩
  | issue => exact GrantSound.mono sound older
  | createAccess | createRefresh =>
      obtain ⟨a, descends⟩ := sound
      exact ⟨a, descends.mono older⟩
  | createClient | getClient => exact sound
  | getCode | getToken | query | delete | replied => exact trivial

/-! ## What the handlers check -/

theorem sound_register (log : List Event) (method : Method) (body : Option RegisterRequest) :
    server.PhaseSound log (server.register method body) := by
  cases method with
  | get | other => exact trivial
  | post =>
      cases body with
      | none => exact trivial
      | some req =>
          rw [register]
          split
          · exact trivial
          · split
            · exact trivial
            · rename_i notFound
              rw [List.find?_eq_none] at notFound
              intro u mem
              simpa using notFound u mem

theorem sound_authorizeParams (log : List Event) {req : AuthorizeRequest}
    (method : req.method ≠ .other) : server.PhaseSound log (server.authorizeParams req) := by
  rw [authorizeParams]
  split
  · exact trivial
  · rename_i pkce
    rw [not_or] at pkce
    split
    · exact trivial
    · exact ⟨pkce.2, method⟩

theorem sound_authorize (log : List Event) (req : AuthorizeRequest) (parsed : Bool) :
    server.PhaseSound log (server.authorize req parsed) := by
  cases method : req.method with
  | get =>
      simp only [authorize, method]
      split
      · exact sound_authorizeParams log (by rw [method]; decide)
      · exact trivial
  | post =>
      simp only [authorize, method]
      split
      · exact sound_authorizeParams log (by rw [method]; decide)
      · exact trivial
  | other =>
      simp only [authorize, method]
      exact trivial

theorem sound_token (log : List Event) (method : Method) (form : Option TokenForm) :
    server.PhaseSound log (token method form) := by
  cases method with
  | get | other => exact trivial
  | post =>
      cases form with
      | none => exact trivial
      | some form =>
          rw [token]
          split
          · split <;> exact trivial
          · split
            · split <;> exact trivial
            · exact trivial

theorem sound_handle (log : List Event) (req : Request) :
    server.PhaseSound log (server.handle req) := by
  cases req with
  | register method body => exact sound_register log method body
  | authorize req parsed => exact sound_authorize log req parsed
  | token method form => exact sound_token log method form

theorem sound_authorizeClient {req : AuthorizeRequest} (now : Nat)
    (sound : server.PhaseSound log (.gotClient req client)) :
    server.PhaseSound log (server.authorizeClient now req client) := by
  obtain ⟨⟨challenge, notOther⟩, registration, registered, same, allowed⟩ := sound
  rw [authorizeClient]
  split
  · exact trivial
  · rename_i listed
    rw [not_not, same] at listed
    split
    · exact trivial
    · rename_i email cookie
      split
      · exact trivial
      · rename_i notGet
        split
        · exact trivial
        · rename_i accepted
          have method : req.method = .post := by
            cases method : req.method with
            | get => exact absurd method notGet
            | post => rfl
            | other => exact absurd method notOther
          exact ⟨method, not_not.mp accepted, challenge, cookie, ⟨registration, registered, listed⟩,
            allowed _ listed⟩

theorem pkceVerify_eq_true_iff {codeChallenge verifier : Bytes} :
    server.pkceVerify codeChallenge verifier = true ↔
      codeChallenge ≠ [] ∧ verifier ≠ [] ∧
        server.pkceChallengeFromVerifier verifier = codeChallenge := by
  simp [pkceVerify, and_assoc]

theorem sha256Hex_injective (noCollision : Function.Injective server.sha256) :
    Function.Injective server.sha256Hex :=
  encodeHex_injective.comp noCollision

theorem sound_checkCode (noCollision : Function.Injective server.sha256) (now : Nat)
    (sound : server.CodeSound log (server.sha256Hex form.code) oc) :
    server.PhaseSound log (server.checkCode now form oc) := by
  obtain ⟨a, genuine, sameHash, grant, challenge⟩ := sound
  rw [checkCode]
  split
  · exact trivial
  · split
    · exact trivial
    · split
      · exact trivial
      · rename_i verified
        rw [Bool.not_eq_false, pkceVerify_eq_true_iff, challenge] at verified
        exact .inl ⟨a, genuine, sha256Hex_injective noCollision sameHash, verified.2.2, grant⟩

theorem sound_checkToken (now : Nat)
    (sound : server.TokenSound log (server.sha256Hex form.refreshToken) t) :
    server.PhaseSound log (checkToken now form t) := by
  rw [checkToken]
  split
  · exact trivial
  · rename_i isRefresh
    split
    · exact trivial
    · split
      · exact trivial
      · exact ⟨not_not.mp isRefresh, sound⟩

/-- A refresh token that is presented is the one of its pair. -/
theorem grantSound_of_mark (noCollision : Function.Injective server.sha256)
    (sound : server.PhaseSound log (.mark form t)) : server.GrantSound log form t.grant := by
  obtain ⟨isRefresh, empty | ⟨pair, a, descends, ⟨-, same⟩ | ⟨sameHash, same⟩⟩⟩ := sound
  · rw [isRefresh] at empty
    exact absurd empty (by decide)
  · rw [same] at isRefresh
    exact absurd isRefresh (by change access ≠ refresh; decide)
  · refine .inr ⟨pair, a, descends, sha256Hex_injective noCollision sameHash, ?_⟩
    rw [same]
    rfl

/-- The pair that is drawn for a sound grant descends from an accepted request. -/
theorem descends_drawPair {draws : Draws} (named : draws.family ≠ []) (now : Nat)
    (sound : server.GrantSound log form g) :
    ∃ a, server.Descends (.issued form (drawPair g draws now) :: log) (drawPair g draws now) a := by
  rcases sound with ⟨a, genuine, code, verifier, rfl⟩ | ⟨parent, a, descends, presented, rfl⟩
  · exact ⟨a, .exchange genuine code verifier named rfl⟩
  · refine ⟨a, .refresh descends presented ?_⟩
    rw [drawPair, if_neg descends.grant.1]

end Server

/-! ## The invariant -/

/-- All that is stored or on its way is accounted for. -/
structure Sound (server : Server) (s : State) : Prop where
  clients : ∀ id client, s.clients id = some client → server.ClientSound s.log id client
  codes : ∀ h oc, s.codes h = some oc → server.CodeSound s.log h oc
  tokens : ∀ h t, s.tokens h = some t → server.TokenSound s.log h t
  phases : ∀ r phase, s.requests r = some phase → server.PhaseSound s.log phase

section

variable {server : Server} {s s' : State} {r : RequestId} {phase : Phase}

theorem sound_init (server : Server) : Sound server {} where
  clients _ _ found := by cases found
  codes _ _ found := by cases found
  tokens _ _ found := by cases found
  phases _ _ found := by cases found

/-- A step that stores and passes on only what is accounted for. -/
theorem Sound.next (sound : Sound server s) (older : s.log <:+ s'.log)
    (clients : ∀ id client, s'.clients id = some client →
      s.clients id = some client ∨ server.ClientSound s'.log id client)
    (codes : ∀ h oc, s'.codes h = some oc → s.codes h = some oc ∨ server.CodeSound s'.log h oc)
    (tokens : ∀ h t, s'.tokens h = some t → s.tokens h = some t ∨ server.TokenSound s'.log h t)
    (phases : ∀ r phase, s'.requests r = some phase →
      s.requests r = some phase ∨ server.PhaseSound s'.log phase) :
    Sound server s' where
  clients id client found :=
    (clients id client found).elim (fun old => (sound.clients id client old).mono older) (·)
  codes h oc found := (codes h oc found).elim (fun old => (sound.codes h oc old).mono older) (·)
  tokens h t found := (tokens h t found).elim (fun old => (sound.tokens h t old).mono older) (·)
  phases r phase found :=
    (phases r phase found).elim (fun old => (sound.phases r phase old).mono older) (·)

/-- A request goes on. -/
theorem phases_of_setRequest {log : List Event} (next : server.PhaseSound log phase)
    (q : RequestId) (found : Phase) (now : (s.setRequest r phase).requests q = some found) :
    s.requests q = some found ∨ server.PhaseSound log found := by
  rcases State.requests_cases now with ⟨-, rfl⟩ | ⟨-, old⟩
  · exact .inr next
  · exact .inl old

theorem Sound.setRequest (sound : Sound server s) (next : server.PhaseSound s.log phase) :
    Sound server (s.setRequest r phase) :=
  sound.next List.suffix_rfl (fun _ _ => .inl) (fun _ _ => .inl) (fun _ _ => .inl)
    (phases_of_setRequest next)

theorem Sound.createClient (sound : Sound server s) {req : RegisterRequest} {draws : Draws}
    {outcome : Outcome} (found : s.requests r = some (.createClient req))
    (taken : advance server s r draws outcome (.createClient req) = some s') : Sound server s' := by
  have allowed : ∀ u ∈ req.redirectURIs, server.hostAllowed u = true := sound.phases r _ found
  rw [advance] at taken
  split at taken
  · cases taken
  · cases taken
    apply sound.next (List.suffix_cons _ _)
    case clients =>
      intro id client stored
      rcases State.written_update stored with old | ⟨rfl, new⟩
      · exact .inl old
      · cases new
        exact .inr ⟨req, List.mem_cons_self, rfl, allowed⟩
    case codes => exact fun _ _ => .inl
    case tokens => exact fun _ _ => .inl
    case phases => exact phases_of_setRequest trivial

theorem Sound.createCode (sound : Sound server s) {req : AuthorizeRequest} {email : Bytes}
    {time : Nat} {draws : Draws} {outcome : Outcome}
    (found : s.requests r = some (.createCode req email time))
    (taken : advance server s r draws outcome (.createCode req email time) = some s') :
    Sound server s' := by
  have accepts : server.Accepts s.log req email time := sound.phases r _ found
  rw [advance] at taken
  split at taken
  · cases taken
  · cases taken
    apply sound.next (List.suffix_cons _ _)
    case clients => exact fun _ _ => .inl
    case codes =>
      intro h oc stored
      rcases State.written_update stored with old | ⟨rfl, new⟩
      · exact .inl old
      · cases new
        exact .inr ⟨_, .here accepts, rfl, rfl, rfl⟩
    case tokens => exact fun _ _ => .inl
    case phases => exact phases_of_setRequest trivial

theorem Sound.mark (sound : Sound server s) (noCollision : Function.Injective server.sha256)
    {form : TokenForm} {t : OAuthToken} {draws : Draws} {outcome : Outcome}
    (found : s.requests r = some (.mark form t))
    (taken : advance server s r draws outcome (.mark form t) = some s') : Sound server s' := by
  have marked := sound.phases r _ found
  rw [advance] at taken
  cases taken
  apply sound.next
  case older => exact List.suffix_rfl
  case clients => exact fun _ _ => .inl
  case codes => exact fun _ _ => .inl
  case tokens =>
    intro h stored now
    rcases State.written_update now with old | ⟨rfl, new⟩
    · exact .inl old
    · cases new
      -- the merge keeps what was stored, or it creates a document without a kind
      cases before : s.tokens (server.sha256Hex form.refreshToken) with
      | none => exact .inr (.inl rfl)
      | some old =>
          refine .inr ?_
          rcases sound.tokens _ _ before with empty | ⟨pair, a, descends, holds⟩
          · exact .inl empty
          · refine .inr ⟨pair, a, descends, holds.imp ?_ ?_⟩
            · rintro ⟨same, doc⟩
              refine ⟨same, ?_⟩
              rw [Option.getD_some, doc]
            · rintro ⟨same, doc⟩
              refine ⟨same, ?_⟩
              rw [Option.getD_some, doc]
  case phases =>
    apply phases_of_setRequest
    split
    · exact Server.grantSound_of_mark noCollision marked
    · exact trivial

theorem Sound.issue (sound : Sound server s) {form : TokenForm} {g : Grant} {draws : Draws}
    {outcome : Outcome} (found : s.requests r = some (.issue form g))
    (taken : advance server s r draws outcome (.issue form g) = some s') : Sound server s' := by
  have grant : server.GrantSound s.log form g := sound.phases r _ found
  rw [advance] at taken
  split at taken
  · cases taken
  · rename_i fresh
    rw [not_or, not_not] at fresh
    cases taken
    have descends : ∃ a, server.Descends (.issued form (drawPair g draws s.clock) :: s.log)
        (drawPair g draws s.clock) a := by
      by_cases named : g.family = []
      · apply Server.descends_drawPair _ _ grant
        have drawn : draws.family ∈ drawnFor g draws := by simp [drawnFor, named]
        exact (fresh.1 _ drawn).1
      · rcases grant with ⟨a, -, -, -, rfl⟩ | ⟨parent, a, parentDescends, presented, rfl⟩
        · exact absurd rfl named
        · refine ⟨a, .refresh parentDescends presented ?_⟩
          rw [drawPair, if_neg named]
    exact sound.next (List.suffix_cons _ _) (fun _ _ => .inl) (fun _ _ => .inl) (fun _ _ => .inl)
      (phases_of_setRequest descends)

/-- A step of a request that stores a token of a pair. -/
theorem Sound.createToken (sound : Sound server s) {h : Hash} {t : OAuthToken} {outcome : Outcome}
    (token : server.TokenSound s.log h { t with superseded := false })
    (next : server.PhaseSound s.log phase) :
    Sound server { s.setRequest r phase with
      tokens := State.written outcome s.tokens (createOAuthToken s.tokens h t)
      used := h :: s.used } := by
  apply sound.next
  case older => exact List.suffix_rfl
  case clients => exact fun _ _ => .inl
  case codes => exact fun _ _ => .inl
  case tokens =>
    intro other stored now
    rcases State.written_update now with old | ⟨rfl, new⟩
    · exact .inl old
    · cases new
      exact .inr token
  case phases => exact phases_of_setRequest next

/-- The store loses documents. -/
theorem Sound.forget (sound : Sound server s) {codes : Hash → Option OAuthCode} {tokens : Tokens}
    (codesKept : ∀ h oc, codes h = some oc → s.codes h = some oc)
    (tokensKept : ∀ h t, tokens h = some t → s.tokens h = some t) :
    Sound server { s with codes, tokens } :=
  { sound with
    codes := fun h oc found => sound.codes h oc (codesKept h oc found)
    tokens := fun h t found => sound.tokens h t (tokensKept h t found) }

theorem kept_of_written {β : Type} {outcome : Outcome} {docs : Bytes → Option β} {key k : Bytes}
    {doc : β} (found : State.written outcome docs (Function.update docs key none) k = some doc) :
    docs k = some doc := by
  rcases State.written_update found with old | ⟨-, new⟩
  · exact old
  · cases new

theorem kept_of_update {β : Type} {docs : Bytes → Option β} {key k : Bytes} {doc : β}
    (found : Function.update docs key none k = some doc) : docs k = some doc :=
  @kept_of_written _ .ok _ _ _ _ found

theorem Sound.advance (sound : Sound server s) (noCollision : Function.Injective server.sha256)
    {draws : Draws} {outcome : Outcome} (found : s.requests r = some phase)
    (taken : advance server s r draws outcome phase = some s') : Sound server s' := by
  have current := sound.phases r phase found
  cases phase with
  | createClient req => exact sound.createClient found taken
  | createCode req email time => exact sound.createCode found taken
  | mark form t => exact sound.mark noCollision found taken
  | issue form g => exact sound.issue found taken
  | getClient req =>
      rw [Endpoint.advance] at taken
      split at taken
      · cases taken
        exact sound.setRequest trivial
      · rename_i client stored
        cases taken
        split at stored
        · exact sound.setRequest ⟨current, sound.clients _ _ stored⟩
        · cases stored
  | gotClient req client =>
      cases taken
      exact sound.setRequest (Server.sound_authorizeClient _ current)
  | getCode form =>
      rw [Endpoint.advance] at taken
      split at taken
      · cases taken
        exact sound.setRequest trivial
      · rename_i oc stored
        cases taken
        split at stored
        · exact sound.setRequest (sound.codes _ _ stored)
        · cases stored
  | deleteCode form oc =>
      cases taken
      have next : Sound server (s.setRequest r (.gotCode form oc)) := sound.setRequest current
      exact next.forget (fun _ _ => kept_of_written) fun _ _ => id
  | gotCode form oc =>
      cases taken
      exact sound.setRequest (Server.sound_checkCode noCollision _ current)
  | getToken form =>
      rw [Endpoint.advance] at taken
      split at taken
      · cases taken
        exact sound.setRequest trivial
      · rename_i t stored
        cases taken
        split at stored
        · exact sound.setRequest (sound.tokens _ _ stored)
        · cases stored
  | gotToken form t =>
      cases taken
      exact sound.setRequest (Server.sound_checkToken _ current)
  | query family =>
      rw [Endpoint.advance] at taken
      split at taken
      · cases taken
        exact sound.setRequest trivial
      · cases taken
        have next : Sound server (s.setRequest r Server.reused) := sound.setRequest trivial
        exact { next with }
  | delete family docs =>
      cases docs with
      | nil =>
          cases taken
          have next : Sound server (s.setRequest r Server.reused) := sound.setRequest trivial
          exact { next with }
      | cons h docs =>
          rw [Endpoint.advance] at taken
          split at taken
          · cases taken
            have next : Sound server (s.setRequest r (.delete family docs)) :=
              sound.setRequest trivial
            exact next.forget (fun _ _ => id) fun _ _ => kept_of_written
          · cases taken
            have next : Sound server (s.setRequest r Server.reused) := sound.setRequest trivial
            exact { next.forget (fun _ _ => id) fun _ _ => kept_of_written with }
  | createAccess pair =>
      cases taken
      obtain ⟨a, descends⟩ := current
      apply sound.createToken (.inr ⟨pair, a, descends, .inl ⟨rfl, rfl⟩⟩)
      split
      · exact ⟨a, descends⟩
      · exact trivial
  | createRefresh pair =>
      cases taken
      obtain ⟨a, descends⟩ := current
      exact sound.createToken (.inr ⟨pair, a, descends, .inr ⟨rfl, rfl⟩⟩) trivial
  | replied reply => cases taken

theorem Sound.step (sound : Sound server s) (noCollision : Function.Injective server.sha256)
    {action : Action} (taken : step server s action = some s') : Sound server s' := by
  cases action with
  | tick now =>
      rw [Endpoint.step] at taken
      split at taken
      · cases taken
        exact { sound with }
      · cases taken
  | request r req =>
      rw [Endpoint.step] at taken
      split at taken
      · cases taken
      · cases taken
        have next : Sound server (s.setRequest r (server.handle req)) :=
          sound.setRequest (Server.sound_handle _ req)
        exact { next with }
  | advance r draws outcome =>
      obtain ⟨phase, found, advanced⟩ := Option.bind_eq_some_iff.mp taken
      exact sound.advance noCollision found advanced
  | removeToken h =>
      cases taken
      exact sound.forget (fun _ _ => id) fun _ _ => kept_of_update
  | removeCode h =>
      cases taken
      exact sound.forget (fun _ _ => kept_of_update) fun _ _ => id

theorem sound_of_run (noCollision : Function.Injective server.sha256) {actions : List Action}
    (run : exec (Endpoint.step server) {} actions = some s) : Sound server s :=
  (always_of_inductive (fun _ _ _ sound taken => Sound.step sound noCollision taken) actions
    (sound_init server)).last run

end

/-! ## What is verified -/

namespace Server

/-- What `Verify` reads in the header. -/
def bearer (authHeader : Bytes) : Bytes := trimSpace (authHeader.drop bearerPrefix.length)

theorem getOAuthToken_eq_some_iff {tokens : Tokens} {now : Nat} {tokenHash : Hash}
    {t : OAuthToken} :
    getOAuthToken tokens now tokenHash = some t ↔
      tokens tokenHash = some t ∧ t.superseded = false ∧ t.notExpired now = true := by
  rw [getOAuthToken, getOAuthTokenRaw]
  cases tokens tokenHash with
  | none => simp
  | some t' =>
      simp only [Option.some.injEq]
      constructor
      · intro read
        split at read
        · cases read
        · split at read
          · cases read
          · rename_i live good
            cases read
            exact ⟨rfl, Bool.eq_false_iff.mpr live, Bool.not_eq_false _ ▸ good⟩
      · rintro ⟨rfl, live, good⟩
        rw [live, good]
        rfl

theorem verify_eq_some_iff {server : Server} {tokens : Tokens} {now : Nat} {authHeader : Bytes}
    {v : VerifiedToken} :
    server.verify tokens now authHeader = some v ↔
      bearerPrefix.isPrefixOf authHeader = true ∧ bearer authHeader ≠ [] ∧
        ∃ t, getOAuthToken tokens now (server.sha256Hex (bearer authHeader)) = some t ∧
          t.kind = access ∧ server.allowed (server.toLower t.email) = true ∧
          v = ⟨t.email, t.clientID, fun scope => t.scopes.contains scope⟩ := by
  rw [verify]
  constructor
  · intro verified
    split at verified
    · cases verified
    · rename_i isBearer
      simp only at verified
      split at verified
      · cases verified
      · rename_i notEmpty
        split at verified
        · cases verified
        · rename_i t found
          split at verified
          · cases verified
          · rename_i isAccess
            split at verified
            · cases verified
            · rename_i allowed
              cases verified
              exact ⟨not_not.mp isBearer, notEmpty, t, found, not_not.mp isAccess,
                Bool.not_eq_false _ ▸ allowed, rfl⟩
  · rintro ⟨isBearer, notEmpty, t, found, isAccess, allowed, rfl⟩
    rw [bearer] at notEmpty found
    simp only [isBearer, not_true_eq_false, if_false, notEmpty, found, isAccess, ne_eq, allowed]
    rfl

end Server

/-- The history of a token that `Verify` accepts at the time `now`: the pair it
belongs to, and the request that the pair descends from. -/
structure Provenance (server : Server) (log : List Event) (authHeader : Bytes) (now : Nat)
    (v : VerifiedToken) (pair : Pair) (a : Accept) : Prop where
  genuine : server.Genuine log a
  descends : server.Descends log pair a
  token : Server.bearer authHeader = pair.access
  grant : pair.grant = Accept.grant a pair.grant.family
  email : v.email = a.email
  allowed : server.allowed (server.toLower v.email) = true
  clientID : v.clientID = a.req.params.clientID
  scopes : ∀ scope, v.scopes scope = true ↔ scope ∈ fields a.req.params.scope
  notExpired : now ≤ pair.now + accessTTLFor (fields a.req.params.scope)

/-- Whatever `Verify` accepts, in any run of the endpoint, is an access token
whose pair descends by refreshes from the code of an accepted request. -/
theorem verify_provenance (server : Server) (noCollision : Function.Injective server.sha256)
    {actions : List Action} {s : State} (run : exec (step server) {} actions = some s) {now : Nat}
    {authHeader : Bytes} {v : VerifiedToken}
    (verified : server.verify s.tokens now authHeader = some v) :
    ∃ pair a, Provenance server s.log authHeader now v pair a := by
  have sound := sound_of_run noCollision run
  obtain ⟨-, -, t, found, isAccess, allowed, rfl⟩ := Server.verify_eq_some_iff.mp verified
  obtain ⟨stored, -, good⟩ := Server.getOAuthToken_eq_some_iff.mp found
  rcases sound.tokens _ _ stored with empty | ⟨pair, a, descends, ⟨sameHash, same⟩ | ⟨-, same⟩⟩
  · rw [isAccess] at empty
    exact absurd empty (by decide)
  · have grant := descends.grant.2
    have ofPair : t.grant = pair.grant := by
      rw [same]
      rfl
    have ofCode : t.grant = Accept.grant a pair.grant.family := ofPair.trans grant
    have scopes : t.scopes = fields a.req.params.scope := congrArg Grant.scopes ofCode
    refine ⟨pair, a, descends.genuine, descends, Server.sha256Hex_injective noCollision sameHash,
      grant, congrArg Grant.email ofCode, allowed, congrArg Grant.clientID ofCode, ?_, ?_⟩
    · intro scope
      rw [scopes, List.contains_iff_mem]
    · have expiry : t.expiresAt = some (pair.now + accessTTLFor pair.grant.scopes) := by
        rw [same]
        rfl
      have grantScopes : pair.grant.scopes = fields a.req.params.scope :=
        congrArg Grant.scopes grant
      rw [OAuthToken.notExpired, expiry, Option.any_some, decide_eq_true_iff, grantScopes] at good
      exact good
  · rw [same] at isAccess
    exact absurd isAccess (by change refresh ≠ access; decide)

theorem sampleRun_provenance : ∃ s v pair a,
    exec (step sampleServer) {} sampleRun = some s ∧
      sampleServer.verify s.tokens 0 (ascii "Bearer acce55") = some v ∧
      Provenance sampleServer s.log (ascii "Bearer acce55") 0 v pair a := by
  have accepted : ((exec (step sampleServer) {} sampleRun).bind fun s =>
      sampleServer.verify s.tokens 0 (ascii "Bearer acce55")).isSome = true := by decide +kernel
  obtain ⟨v, found⟩ := Option.isSome_iff_exists.mp accepted
  obtain ⟨s, run, verified⟩ := Option.bind_eq_some_iff.mp found
  obtain ⟨pair, a, provenance⟩ :=
    verify_provenance sampleServer sampleSha256.injective run verified
  exact ⟨s, v, pair, a, run, verified, provenance⟩

end Drover.OAuth.Endpoint
