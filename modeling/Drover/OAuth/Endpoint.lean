import Drover.Data.Strings
import Drover.Net.Query
import Drover.OAuth.Tokens
import Drover.Secrets.Consume
import Drover.Store.Documents
import Drover.Transition.Run
import Drover.WebAuth.Signer
import Mathlib.Logic.Equiv.Basic

/-!
# The authorization server

The requests to `/oauth/register`, `/oauth/authorize` and `/oauth/token`, one
store operation a step.  The label of a step carries what the environment
decides: the random values that are drawn, and whether the operation fails.  A
failed read counts as one that found nothing.

`log` and `revoked` are kept for the statements only: what has been registered,
accepted and issued so far, and which families have been revoked.
-/

namespace Drover.OAuth.Endpoint

open Drover.Transition
open Drover.Secrets (OAuthCode notAfter)
open Drover.Store (Outcome)

/-- The requests by number. -/
abbrev RequestId := Nat

/-- What `hostAllowed` looks at in a `url.URL`. -/
structure URL where
  scheme : Bytes
  hostname : Bytes
  port : Bytes
  path : Bytes

/-- `redirectRule`. -/
structure RedirectRule where
  port : Bytes
  path : Bytes

/-- A `Server`, and the library functions that its handlers call: SHA-256, the
base64 encoding, `url.Parse` and `strings.ToLower`. -/
structure Server where
  signer : WebAuth.Signer
  allowed : Bytes → Bool
  allowedRedirectHosts : List (Bytes × RedirectRule)
  selfBase : Bytes
  sha256 : Bytes → Bytes
  base64 : Bytes → Bytes
  parseURL : Bytes → Option URL
  toLower : Bytes → Bytes

/-- `sha256Hex`. -/
def Server.sha256Hex (server : Server) (s : Bytes) : Hash := encodeHex (server.sha256 s)

/-- `pkceChallengeFromVerifier`. -/
def Server.pkceChallengeFromVerifier (server : Server) (verifier : Bytes) : Bytes :=
  server.base64 (server.sha256 verifier)

/-- `pkceVerify`. -/
def Server.pkceVerify (server : Server) (codeChallenge verifier : Bytes) : Bool :=
  codeChallenge ≠ [] && verifier ≠ [] && server.pkceChallengeFromVerifier verifier = codeChallenge

/-! ## Redirect URIs -/

/-- `loopbackHosts`. -/
def loopbackHosts : List Bytes := [ascii "localhost", ascii "127.0.0.1", ascii "::1"]

/-- `schemeAllowed`. -/
def schemeAllowed (scheme host : Bytes) : Bool :=
  if host ∈ loopbackHosts then scheme = ascii "http" || scheme = ascii "https"
  else scheme = ascii "https"

/-- `hostAllowed`. -/
def Server.hostAllowed (server : Server) (rawURL : Bytes) : Bool :=
  match server.parseURL rawURL with
  | none => false
  | some u =>
      if u.hostname = [] then false
      else
        let host := server.toLower u.hostname
        match server.allowedRedirectHosts.lookup host with
        | none => false
        | some rule =>
            schemeAllowed u.scheme host && (rule.port = [] || u.port = rule.port) &&
              (rule.path = [] || rule.path = u.path)

/-! ## Requests -/

/-- The methods that the handlers tell apart. -/
inductive Method where
  | get
  | post
  | other
  deriving DecidableEq

/-- `registerRequest`, as far as `register` uses it. -/
structure RegisterRequest where
  clientName : Bytes
  redirectURIs : List Bytes
  deriving DecidableEq

/-- `authParams`. -/
structure AuthParams where
  clientID : Bytes
  redirectURI : Bytes
  scope : Bytes
  state : Bytes
  codeChallenge : Bytes
  codeChallengeMethod : Bytes
  resource : Bytes
  deriving DecidableEq

/-- A request to `/oauth/authorize`: the parameters of its query or its form, and
its `cm_session` cookie. -/
structure AuthorizeRequest where
  method : Method
  responseType : Bytes
  params : AuthParams
  cookie : Option Bytes
  decision : Bytes
  deriving DecidableEq

/-- The form of a request to `/oauth/token`. -/
structure TokenForm where
  grantType : Bytes
  code : Bytes
  codeVerifier : Bytes
  redirectURI : Bytes
  refreshToken : Bytes
  deriving DecidableEq

/-- A request; the body or the form is `none` if it cannot be parsed. -/
inductive Request where
  | register (method : Method) (body : Option RegisterRequest)
  | authorize (req : AuthorizeRequest) (parsed : Bool)
  | token (method : Method) (form : Option TokenForm)

/-- What the endpoints answer. -/
inductive Reply where
  /-- `http.Error`. -/
  | error (status : Nat) (text : Bytes)
  /-- `writeOAuthError`. -/
  | oauthError (status : Nat) (code desc : Bytes)
  /-- The handler panics. -/
  | aborted
  | registered (clientID : Bytes) (req : RegisterRequest)
  /-- The consent page. -/
  | consent (clientName : Bytes) (params : AuthParams)
  /-- To `/oauth/login`, with these parameters in `return_to`. -/
  | login (returnTo : AuthParams)
  /-- To the client, with these values set in the query. -/
  | redirect (uri : Bytes) (query : List (Bytes × Bytes))
  /-- `tokenResponse`. -/
  | tokens (accessToken refreshToken : Bytes) (expiresIn : Nat) (scopes : List Bytes)
  deriving DecidableEq

/-- The answer where the store fails. -/
def Reply.serverError : Reply := .error 500 (ascii "server_error")

/-! ## Documents -/

/-- `OAuthClient`. -/
structure OAuthClient where
  name : Bytes
  redirectURIs : List Bytes
  deriving DecidableEq

/-- `authCodeTTL`. -/
def authCodeTTL : Nat := 60 * second

/-- An authorize request that was accepted: whose cookie it had when, and the
code that it got. -/
structure Accept where
  req : AuthorizeRequest
  email : Bytes
  time : Nat
  code : Bytes
  deriving DecidableEq

/-- The document of its code, as `CreateOAuthCode` writes it at the time `now`. -/
def Accept.document (a : Accept) (now : Nat) : OAuthCode where
  clientID := a.req.params.clientID
  email := a.email
  scopes := fields a.req.params.scope
  codeChallenge := a.req.params.codeChallenge
  redirectURI := a.req.params.redirectURI
  resource := a.req.params.resource
  expiresAt := some (now + authCodeTTL)

/-- What `tokenFromCode` passes on to `issueTokenPair`. -/
def grantOf (oc : OAuthCode) : Grant := ⟨oc.email, oc.clientID, oc.scopes, []⟩

/-- A pair of tokens that `issueTokenPair` has drawn at the time `now`. -/
structure Pair where
  grant : Grant
  access : Bytes
  refresh : Bytes
  now : Nat
  deriving DecidableEq

/-- What the log of a run records. -/
inductive Event where
  | registered (clientID : Bytes) (req : RegisterRequest)
  | accepted (a : Accept)
  | issued (form : TokenForm) (pair : Pair)
  deriving DecidableEq

/-! ## Handlers -/

/-- What a request does next. -/
inductive Phase where
  /-- `CreateOAuthClient`. -/
  | createClient (req : RegisterRequest)
  /-- `GetOAuthClient`. -/
  | getClient (req : AuthorizeRequest)
  /-- The rest of `authorize` up to the code. -/
  | gotClient (req : AuthorizeRequest) (client : OAuthClient)
  /-- `CreateOAuthCode`. -/
  | createCode (req : AuthorizeRequest) (email : Bytes) (time : Nat)
  /-- `ConsumeOAuthCode`: the read. -/
  | getCode (form : TokenForm)
  /-- `ConsumeOAuthCode`: the delete. -/
  | deleteCode (form : TokenForm) (oc : OAuthCode)
  /-- `ConsumeOAuthCode`: the expiry, and the checks of `tokenFromCode`. -/
  | gotCode (form : TokenForm) (oc : OAuthCode)
  /-- `GetOAuthTokenRaw`. -/
  | getToken (form : TokenForm)
  /-- The checks of `tokenFromRefresh`. -/
  | gotToken (form : TokenForm) (t : OAuthToken)
  /-- The query of `RevokeOAuthTokenFamily`. -/
  | query (family : Bytes)
  /-- Its deletes. -/
  | delete (family : Bytes) (docs : List Hash)
  /-- `MarkOAuthTokenSuperseded`. -/
  | mark (form : TokenForm) (t : OAuthToken)
  /-- `issueTokenPair`: the random values. -/
  | issue (form : TokenForm) (g : Grant)
  /-- `issueTokenPair`: the access token. -/
  | createAccess (pair : Pair)
  /-- `issueTokenPair`: the refresh token. -/
  | createRefresh (pair : Pair)
  | replied (reply : Reply)
  deriving DecidableEq

/-- `writeOAuthError` with the status 400. -/
def badRequest (code : String) (desc : Bytes) : Phase :=
  .replied (.oauthError 400 (ascii code) desc)

namespace Server

variable (server : Server)

/-- `register`, up to its write. -/
def register : Method → Option RegisterRequest → Phase
  | .post, none =>
      badRequest "invalid_client_metadata" (utf8 "request body の JSON 解析に失敗")
  | .post, some req =>
      if req.redirectURIs = [] then
        badRequest "invalid_redirect_uri" (utf8 "redirect_uris が空")
      else
        match req.redirectURIs.find? fun u => !server.hostAllowed u with
        | some u =>
            badRequest "invalid_redirect_uri"
              (utf8 "redirect_uri のホストが MCP_ALLOWED_REDIRECT_HOSTS に無い: " ++ u)
        | none => .createClient req
  | .get, _ | .other, _ => .replied (.error 405 (utf8 "POST のみ"))

/-- `authorize`, from the parsed parameters up to `GetOAuthClient`. -/
def authorizeParams (req : AuthorizeRequest) : Phase :=
  if req.params.codeChallengeMethod ≠ ascii "S256" ∨ req.params.codeChallenge = [] then
    badRequest "invalid_request" (utf8 "PKCE(S256) が必須")
  else if req.params.resource ≠ server.selfBase ++ ascii "/mcp" then
    badRequest "invalid_target" (utf8 "resource は " ++ server.selfBase ++ utf8 "/mcp のみ対応")
  else .getClient req

/-- `authorize`, up to `GetOAuthClient`. -/
def authorize (req : AuthorizeRequest) (parsed : Bool) : Phase :=
  match req.method with
  | .post =>
      if parsed then server.authorizeParams req
      else badRequest "invalid_request" (utf8 "form 解析失敗")
  | .get =>
      if req.responseType = ascii "code" then server.authorizeParams req
      else
        badRequest "unsupported_response_type" (utf8 "response_type は code のみ対応")
  | .other => .replied (.error 405 (utf8 "GET/POST のみ"))

/-- `authCookie`, at the time `now`: the field `PC` of the token, which is an
email here. -/
def authCookie (now : Nat) (cookie : Option Bytes) : Option Bytes :=
  match cookie with
  | none => none
  | some value =>
      match server.signer.verify (now / second : Nat) value with
      | none => none
      | some tok => if server.allowed (server.toLower tok.pc) then some tok.pc else none

/-- The query values with `state`, if it is not empty. -/
def withState (state : Bytes) (query : List (Bytes × Bytes)) : List (Bytes × Bytes) :=
  query ++ if state ≠ [] then [(ascii "state", state)] else []

/-- `redirectWithError`. -/
def redirectWithError (redirectURI state errCode : Bytes) : Reply :=
  match server.parseURL redirectURI with
  | none => .serverError
  | some _ => .redirect redirectURI (withState state [(ascii "error", errCode)])

/-- `authorize`, from what `GetOAuthClient` found up to the code. -/
def authorizeClient (now : Nat) (req : AuthorizeRequest) (client : OAuthClient) : Phase :=
  if req.params.redirectURI ∉ client.redirectURIs then
    badRequest "invalid_request" (utf8 "redirect_uri が未登録")
  else
    match server.authCookie now req.cookie with
    | none => .replied (.login req.params)
    | some email =>
        if req.method = .get then .replied (.consent client.name req.params)
        else if req.decision ≠ ascii "accept" then
          .replied (server.redirectWithError req.params.redirectURI req.params.state
            (ascii "access_denied"))
        else .createCode req email now

/-- `authorize`, after the code. -/
def authorizeReply (req : AuthorizeRequest) (code : Bytes) : Reply :=
  match server.parseURL req.params.redirectURI with
  | none => .aborted
  | some _ => .redirect req.params.redirectURI (withState req.params.state [(ascii "code", code)])

/-- `token`, `tokenFromCode` and `tokenFromRefresh`, up to the first read. -/
def token : Method → Option TokenForm → Phase
  | .post, none => badRequest "invalid_request" (utf8 "form 解析失敗")
  | .post, some form =>
      if form.grantType = ascii "authorization_code" then
        if form.code = [] ∨ form.codeVerifier = [] then
          badRequest "invalid_request" (utf8 "code/code_verifier が必要")
        else .getCode form
      else if form.grantType = ascii "refresh_token" then
        if form.refreshToken = [] then
          badRequest "invalid_request" (utf8 "refresh_token が必要")
        else .getToken form
      else
        badRequest "unsupported_grant_type" (utf8 "authorization_code か refresh_token のみ対応")
  | .get, _ | .other, _ => .replied (.error 405 (utf8 "POST のみ"))

/-- The answer to a code that is not good. -/
def codeInvalid : Phase := badRequest "invalid_grant" (utf8 "code が無効です")

/-- The end of `ConsumeOAuthCode`, and the checks of `tokenFromCode`. -/
def checkCode (now : Nat) (form : TokenForm) (oc : OAuthCode) : Phase :=
  if notAfter oc.expiresAt now = false then codeInvalid
  else if form.redirectURI ≠ [] ∧ form.redirectURI ≠ oc.redirectURI then
    badRequest "invalid_grant" (utf8 "redirect_uri が一致しません")
  else if server.pkceVerify oc.codeChallenge form.codeVerifier = false then
    badRequest "invalid_grant" (utf8 "PKCE 検証失敗")
  else .issue form (grantOf oc)

/-- The answer to a refresh token that is not good. -/
def refreshInvalid : Phase := badRequest "invalid_grant" (utf8 "refresh_token が無効です")

/-- The checks of `tokenFromRefresh`. -/
def checkToken (now : Nat) (form : TokenForm) (t : OAuthToken) : Phase :=
  if t.kind ≠ refresh then refreshInvalid
  else if t.superseded then .query t.family
  else if t.notExpired now = false then
    badRequest "invalid_grant" (utf8 "refresh_token の有効期限切れ")
  else .mark form t

/-- The answer to a refresh token that has been used. -/
def reused : Phase := badRequest "invalid_grant" (utf8 "refresh_token は既に使用されています")

/-- The handler of a request, up to its first store operation. -/
def handle : Request → Phase
  | .register method body => server.register method body
  | .authorize req parsed => server.authorize req parsed
  | .token method form => Server.token method form

end Server

/-! ## Runs -/

/-- The documents, the requests, and the events so far. -/
structure State where
  clients : Bytes → Option OAuthClient := fun _ => none
  codes : Hash → Option OAuthCode := fun _ => none
  tokens : Tokens := fun _ => none
  clock : Nat := 0
  requests : RequestId → Option Phase := fun _ => none
  /-- The requests so far. -/
  active : List RequestId := []
  /-- The hashes under which tokens have been stored. -/
  used : List Hash := []
  /-- The random values drawn so far. -/
  drawn : List Bytes := []
  /-- Latest first. -/
  log : List Event := []
  /-- The families whose revocation has ended. -/
  revoked : List Bytes := []

/-- Random values for a step, in hexadecimal. -/
structure Draws where
  clientID : Bytes
  code : Bytes
  family : Bytes
  access : Bytes
  refresh : Bytes

/-- What can happen next. -/
inductive Action where
  | tick (now : Nat)
  | request (r : RequestId) (req : Request)
  /-- The next step of a request. -/
  | advance (r : RequestId) (draws : Draws) (outcome : Outcome)
  /-- `RevokeOAuthToken`, or the removal of an expired document. -/
  | removeToken (tokenHash : Hash)
  | removeCode (codeHash : Hash)

namespace State

/-- The request `r` goes on as `phase`. -/
def setRequest (s : State) (r : RequestId) (phase : Phase) : State :=
  { s with requests := Function.update s.requests r (some phase) }

theorem requests_cases {s : State} {r q : RequestId} {next phase : Phase}
    (found : (s.setRequest r next).requests q = some phase) :
    (q = r ∧ phase = next) ∨ (q ≠ r ∧ s.requests q = some phase) := by
  by_cases same : q = r
  · subst same
    simp only [setRequest, Function.update_self, Option.some.injEq] at found
    exact .inl ⟨rfl, found.symm⟩
  · simp only [setRequest, Function.update_of_ne same] at found
    exact .inr ⟨same, found⟩

/-- A value that has not been drawn before. -/
def Fresh (s : State) (drawn : Bytes) : Prop := drawn ≠ [] ∧ drawn ∉ s.drawn

instance (s : State) (drawn : Bytes) : Decidable (s.Fresh drawn) :=
  inferInstanceAs (Decidable (_ ∧ _))

/-- A write that replaces `old` by `new`, if it takes effect. -/
def written {β : Type} (outcome : Outcome) (old new : β) : β := if outcome.applied then new else old

theorem written_update {β : Type} {outcome : Outcome} {docs : Bytes → Option β} {key : Bytes}
    {new : Option β} {k : Bytes} {doc : β}
    (found : written outcome docs (Function.update docs key new) k = some doc) :
    docs k = some doc ∨ (k = key ∧ new = some doc) := by
  rw [written] at found
  split at found
  · by_cases same : k = key
    · subst same
      rw [Function.update_self] at found
      exact .inr ⟨rfl, found⟩
    · rw [Function.update_of_ne same] at found
      exact .inl found
  · exact .inl found

/-- The end of a revocation. -/
def endRevocation (s : State) (r : RequestId) (family : Bytes) : State :=
  { s.setRequest r Server.reused with revoked := family :: s.revoked }

end State

/-- The pair that `issueTokenPair` draws. -/
def drawPair (g : Grant) (draws : Draws) (now : Nat) : Pair :=
  ⟨if g.family = [] then { g with family := draws.family } else g, draws.access, draws.refresh, now⟩

/-- The values drawn for a pair. -/
def drawnFor (g : Grant) (draws : Draws) : List Bytes :=
  draws.access :: draws.refresh :: if g.family = [] then [draws.family] else []

/-- The next step of a request. -/
def advance (server : Server) (s : State) (r : RequestId) (draws : Draws) (outcome : Outcome) :
    Phase → Option State
  | .createClient req =>
      if ¬ s.Fresh draws.clientID then none
      else
        let clientID := ascii "mcp_" ++ draws.clientID
        let reply := if outcome = .ok then .registered clientID req else .serverError
        some { s.setRequest r (.replied reply) with
          clients := State.written outcome s.clients
            (Function.update s.clients clientID (some ⟨req.clientName, req.redirectURIs⟩))
          drawn := draws.clientID :: s.drawn
          log := .registered clientID req :: s.log }
  | .getClient req =>
      match if outcome = .ok then s.clients req.params.clientID else none with
      | none => some (s.setRequest r (badRequest "invalid_client" (utf8 "未登録の client_id")))
      | some client => some (s.setRequest r (.gotClient req client))
  | .gotClient req client => some (s.setRequest r (server.authorizeClient s.clock req client))
  | .createCode req email time =>
      if ¬ s.Fresh draws.code then none
      else
        let a : Accept := ⟨req, email, time, draws.code⟩
        let reply := if outcome = .ok then server.authorizeReply req draws.code else .serverError
        some { s.setRequest r (.replied reply) with
          codes := State.written outcome s.codes
            (Function.update s.codes (server.sha256Hex draws.code) (some (a.document s.clock)))
          drawn := draws.code :: s.drawn
          log := .accepted a :: s.log }
  | .getCode form =>
      match if outcome = .ok then s.codes (server.sha256Hex form.code) else none with
      | none => some (s.setRequest r Server.codeInvalid)
      | some oc => some (s.setRequest r (.deleteCode form oc))
  | .deleteCode form oc =>
      some { s.setRequest r (.gotCode form oc) with
        codes := State.written outcome s.codes
          (Function.update s.codes (server.sha256Hex form.code) none) }
  | .gotCode form oc => some (s.setRequest r (server.checkCode s.clock form oc))
  | .getToken form =>
      match if outcome = .ok then getOAuthTokenRaw s.tokens (server.sha256Hex form.refreshToken)
        else none with
      | none => some (s.setRequest r Server.refreshInvalid)
      | some t => some (s.setRequest r (.gotToken form t))
  | .gotToken form t => some (s.setRequest r (Server.checkToken s.clock form t))
  | .query family =>
      if outcome = .ok then
        some (s.setRequest r (.delete family (familyDocs s.tokens s.used family)))
      else some (s.endRevocation r family)
  | .delete family [] => some (s.endRevocation r family)
  | .delete family (h :: docs) =>
      let tokens := State.written outcome s.tokens (revokeOAuthToken s.tokens h)
      if outcome = .ok then some { s.setRequest r (.delete family docs) with tokens }
      else some { s.endRevocation r family with tokens }
  | .mark form t =>
      let next := if outcome = .ok then .issue form t.grant else .replied .serverError
      some { s.setRequest r next with
        tokens := State.written outcome s.tokens
          (markOAuthTokenSuperseded s.tokens (server.sha256Hex form.refreshToken)) }
  | .issue form g =>
      if ¬ (∀ d ∈ drawnFor g draws, s.Fresh d) ∨ ¬ (drawnFor g draws).Nodup then none
      else
        let pair := drawPair g draws s.clock
        some { s.setRequest r (.createAccess pair) with
          drawn := drawnFor g draws ++ s.drawn
          log := .issued form pair :: s.log }
  | .createAccess pair =>
      let next := if outcome = .ok then .createRefresh pair else .replied .serverError
      some { s.setRequest r next with
        tokens := State.written outcome s.tokens
          (createOAuthToken s.tokens (server.sha256Hex pair.access) (pair.grant.access pair.now))
        used := server.sha256Hex pair.access :: s.used }
  | .createRefresh pair =>
      let expiresIn := accessTTLFor pair.grant.scopes / second
      let reply :=
        if outcome = .ok then .tokens pair.access pair.refresh expiresIn pair.grant.scopes
        else .serverError
      some { s.setRequest r (.replied reply) with
        tokens := State.written outcome s.tokens
          (createOAuthToken s.tokens (server.sha256Hex pair.refresh) (pair.grant.refresh pair.now))
        used := server.sha256Hex pair.refresh :: s.used }
  | .replied _ => none

/-- The server takes a step. -/
def step (server : Server) (s : State) : Action → Option State
  | .tick now => if s.clock ≤ now then some { s with clock := now } else none
  | .request r req =>
      if (s.requests r).isSome then none
      else some { s.setRequest r (server.handle req) with active := r :: s.active }
  | .advance r draws outcome => (s.requests r).bind (advance server s r draws outcome)
  | .removeToken h => some { s with tokens := revokeOAuthToken s.tokens h }
  | .removeCode h => some { s with codes := Function.update s.codes h none }

/-! ## Verification -/

/-- `VerifiedToken`. -/
structure VerifiedToken where
  email : Bytes
  clientID : Bytes
  scopes : Bytes → Bool

/-- `GetOAuthToken`, at the time `now`. -/
def getOAuthToken (tokens : Tokens) (now : Nat) (tokenHash : Hash) : Option OAuthToken :=
  match getOAuthTokenRaw tokens tokenHash with
  | none => none
  | some t =>
      if t.superseded then none
      else if t.notExpired now = false then none
      else some t

/-- What the header of a bearer starts with. -/
def bearerPrefix : Bytes := ascii "Bearer "

/-- `Verify`, at the time `now`. -/
def Server.verify (server : Server) (tokens : Tokens) (now : Nat) (authHeader : Bytes) :
    Option VerifiedToken :=
  if ¬ bearerPrefix.isPrefixOf authHeader then none
  else
    let raw := trimSpace (authHeader.drop bearerPrefix.length)
    if raw = [] then none
    else
      match getOAuthToken tokens now (server.sha256Hex raw) with
      | none => none
      | some t =>
          if t.kind ≠ access then none
          else if server.allowed (server.toLower t.email) = false then none
          else some ⟨t.email, t.clientID, fun scope => t.scopes.contains scope⟩

/-! ## A sample server -/

/-- Some values of SHA-256. -/
def sampleDigests : List (Bytes × Bytes) :=
  [(ascii "c0de",
      [0x38, 0x03, 0xb4, 0x76, 0x09, 0xa2, 0xa4, 0x64, 0x05, 0x46, 0x59, 0xb1, 0x4a, 0x0c, 0xdf,
       0xba, 0x92, 0x83, 0x0f, 0xb4, 0x6e, 0xe7, 0x0c, 0x03, 0xa3, 0x36, 0xd5, 0x55, 0x4b, 0x9a,
       0xca, 0xd4]),
    (ascii "verifier",
      [0x88, 0xc9, 0xea, 0xe6, 0x8e, 0xb3, 0x00, 0xb2, 0x97, 0x1a, 0x2b, 0xec, 0x9e, 0x5a, 0x26,
       0xff, 0x41, 0x79, 0xfd, 0x66, 0x1d, 0x6b, 0x7d, 0x86, 0x1e, 0x4c, 0x65, 0x57, 0xb9, 0xaa,
       0xee, 0x14]),
    (ascii "acce55",
      [0x61, 0xfe, 0x5b, 0xd4, 0x99, 0xe9, 0x99, 0x4e, 0xe5, 0x62, 0xc6, 0xb4, 0x76, 0x57, 0xf8,
       0xe8, 0x74, 0xd5, 0xac, 0x94, 0x6d, 0x0b, 0x3f, 0x8a, 0xd3, 0x08, 0x8c, 0x7f, 0x87, 0xd2,
       0xd3, 0x42]),
    (ascii "4ef4e5",
      [0xda, 0x3b, 0x1c, 0xf3, 0xde, 0x32, 0xad, 0x99, 0x4e, 0xfb, 0x98, 0xcd, 0x5f, 0x8b, 0xa0,
       0xc4, 0x2a, 0x30, 0x7a, 0x14, 0x1b, 0x7a, 0xa9, 0x39, 0xfc, 0x5d, 0x36, 0x28, 0x8b, 0xa3,
       0x4b, 0xd3]),
    (ascii "acce56",
      [0x67, 0x7e, 0xca, 0x0c, 0x81, 0x54, 0x08, 0x68, 0x97, 0x46, 0xc3, 0xf0, 0x07, 0xc7, 0x72,
       0xb4, 0x0e, 0x0c, 0x00, 0xec, 0x21, 0x27, 0xfe, 0x6b, 0x95, 0x91, 0x35, 0x50, 0x7e, 0xe3,
       0x63, 0xee]),
    (ascii "4ef4e6",
      [0xa0, 0xea, 0xb4, 0x91, 0x33, 0xdb, 0x01, 0x41, 0xba, 0xb1, 0x30, 0x4b, 0x40, 0xde, 0x81,
       0x65, 0x27, 0x28, 0x24, 0x14, 0xe0, 0x5c, 0x0e, 0x29, 0x65, 0xf2, 0x19, 0xaa, 0xe5, 0xe2,
       0x63, 0x7e])]

/-- A permutation of the strings that has these values. -/
def sampleSha256 : Equiv.Perm Bytes :=
  sampleDigests.foldr (fun digest rest => (Equiv.swap digest.1 digest.2).trans rest) (Equiv.refl _)

/-- The cookie of `o@a.io`, until 43200, under the key `k`. -/
def sampleSigner : WebAuth.Signer where
  mac _ :=
    [0xef, 0x92, 0x75, 0x57, 0x28, 0xf1, 0x27, 0xed, 0x55, 0x80, 0xb1, 0x41, 0x41, 0x2b, 0x4c,
     0xfb, 0x14, 0x0d, 0xb6, 0xfa, 0x1f, 0x33, 0x91, 0x4f, 0x9d, 0x9a, 0x0c, 0x3e, 0x1e, 0x03,
     0x8e, 0x2a]
  encodeToString _ := ascii "75J1VyjxJ-1VgLFBQStM-xQNtvofM5FPnZoMPh4Djio"
  decodeString _ := some (ascii "\x7b\"pc\":\"o@a.io\",\"scope\":\"*\",\"exp\":43200\x7d")
  unmarshal _ := some ⟨ascii "o@a.io", ascii "*", 43200⟩

/-- A server of one account and one redirect host. -/
def sampleServer : Server where
  signer := sampleSigner
  allowed email := email = ascii "o@a.io"
  allowedRedirectHosts := [(ascii "a.io", ⟨[], []⟩)]
  selfBase := ascii "https://d.io"
  sha256 := sampleSha256
  base64 _ := ascii "iMnq5o6zALKXGivsnlom_0F5_WYda32GHkxlV7mq7hQ"
  parseURL _ := some ⟨ascii "https", ascii "a.io", [], ascii "/cb"⟩
  toLower := id

/-- A request of that account, who accepts. -/
def sampleRequest : AuthorizeRequest where
  method := .post
  responseType := []
  params :=
    { clientID := ascii "mcp_00"
      redirectURI := ascii "https://a.io/cb"
      scope := ascii "drover.read"
      state := []
      codeChallenge := ascii "iMnq5o6zALKXGivsnlom_0F5_WYda32GHkxlV7mq7hQ"
      codeChallengeMethod := ascii "S256"
      resource := ascii "https://d.io/mcp" }
  cookie := some (ascii
    "eyJwYyI6Im9AYS5pbyIsInNjb3BlIjoiKiIsImV4cCI6NDMyMDB9.75J1VyjxJ-1VgLFBQStM-xQNtvofM5FPnZoMPh4Djio")
  decision := ascii "accept"

/-- The exchange of the code of the sample request. -/
def sampleForm : TokenForm where
  grantType := ascii "authorization_code"
  code := ascii "c0de"
  codeVerifier := ascii "verifier"
  redirectURI := []
  refreshToken := []

/-- A registration, an accepted request and the exchange of its code. -/
def sampleRun : List Action :=
  let go (r : RequestId) : Action :=
    .advance r ⟨ascii "00", ascii "c0de", ascii "fa", ascii "acce55", ascii "4ef4e5"⟩ .ok
  [.request 0 (.register .post (some ⟨ascii "app", [ascii "https://a.io/cb"]⟩)), go 0,
    .request 1 (.authorize sampleRequest true), go 1, go 1, go 1,
    .request 2 (.token .post (some sampleForm)), go 2, go 2, go 2, go 2, go 2, go 2]

end Drover.OAuth.Endpoint
