import Drover.Data.Html
import Drover.Data.Literals
import Drover.Net.Percent
import Drover.OAuth.Endpoint
import Drover.Web.Dial
import Drover.WebAuth.Cookie

/-!
# The way through the login

Without a cookie, `/oauth/authorize` sends the browser to `/oauth/login`, with
its own parameters in `return_to`.  The login page carries `return_to` on to the
callback, and the callback, once the account is verified, sends the browser back
with a cookie.  The parameters pass through two queries and an attribute of the
page on the way.
-/

namespace Drover.OAuth.Endpoint

open Drover.Net
open Drover.Web (isCTL)

/-! ## Parameters in queries -/

/-- `parseAuthParams`. -/
def parseAuthParams (q : Values) : AuthParams where
  clientID := q.get (ascii "client_id")
  redirectURI := q.get (ascii "redirect_uri")
  scope := q.get (ascii "scope")
  state := q.get (ascii "state")
  codeChallenge := q.get (ascii "code_challenge")
  codeChallengeMethod := q.get (ascii "code_challenge_method")
  resource := q.get (ascii "resource")

/-- `authorizeQuery`. -/
def authorizeQuery (p : AuthParams) : Values :=
  let q : Values := []
  let q := q.set (ascii "response_type") (ascii "code")
  let q := q.set (ascii "client_id") p.clientID
  let q := q.set (ascii "redirect_uri") p.redirectURI
  let q := q.set (ascii "scope") p.scope
  let q := q.set (ascii "state") p.state
  let q := q.set (ascii "code_challenge") p.codeChallenge
  let q := q.set (ascii "code_challenge_method") p.codeChallengeMethod
  q.set (ascii "resource") p.resource

/-- A `GET` of `/oauth/authorize` with this query. -/
def getAuthorize (query : Bytes) (cookie : Option Bytes) : AuthorizeRequest where
  method := .get
  responseType := (parseQuery query).get (ascii "response_type")
  params := parseAuthParams (parseQuery query)
  cookie := cookie
  decision := []

theorem get_authorizeQuery (p : AuthParams) :
    (authorizeQuery p).get (ascii "response_type") = ascii "code" ∧
      parseAuthParams (authorizeQuery p) = p := by
  have distinct : ∀ {k l : Bytes}, k ≠ l → ∀ (q : Values) (v : Bytes),
      (q.set k v).get l = q.get l := fun ne q v => Values.get_set_of_ne ne q v
  have responseType : (authorizeQuery p).get (ascii "response_type") = ascii "code" := by
    simp only [authorizeQuery]
    rw [distinct (by decide), distinct (by decide), distinct (by decide), distinct (by decide),
      distinct (by decide), distinct (by decide), distinct (by decide), Values.get_set_same]
  have clientID : (authorizeQuery p).get (ascii "client_id") = p.clientID := by
    simp only [authorizeQuery]
    rw [distinct (by decide), distinct (by decide), distinct (by decide), distinct (by decide),
      distinct (by decide), distinct (by decide), Values.get_set_same]
  have redirectURI : (authorizeQuery p).get (ascii "redirect_uri") = p.redirectURI := by
    simp only [authorizeQuery]
    rw [distinct (by decide), distinct (by decide), distinct (by decide), distinct (by decide),
      distinct (by decide), Values.get_set_same]
  have scope : (authorizeQuery p).get (ascii "scope") = p.scope := by
    simp only [authorizeQuery]
    rw [distinct (by decide), distinct (by decide), distinct (by decide), distinct (by decide),
      Values.get_set_same]
  have state : (authorizeQuery p).get (ascii "state") = p.state := by
    simp only [authorizeQuery]
    rw [distinct (by decide), distinct (by decide), distinct (by decide), Values.get_set_same]
  have challenge : (authorizeQuery p).get (ascii "code_challenge") = p.codeChallenge := by
    simp only [authorizeQuery]
    rw [distinct (by decide), distinct (by decide), Values.get_set_same]
  have challengeMethod : (authorizeQuery p).get (ascii "code_challenge_method") =
      p.codeChallengeMethod := by
    simp only [authorizeQuery]
    rw [distinct (by decide), Values.get_set_same]
  have resource : (authorizeQuery p).get (ascii "resource") = p.resource := by
    simp only [authorizeQuery]
    rw [Values.get_set_same]
  refine ⟨responseType, ?_⟩
  rw [parseAuthParams, clientID, redirectURI, scope, state, challenge, challengeMethod, resource]

/-- The parameters survive their query. -/
theorem getAuthorize_encode (p : AuthParams) (cookie : Option Bytes) :
    getAuthorize (authorizeQuery p).encode cookie = ⟨.get, ascii "code", p, cookie, []⟩ := by
  have found := get_authorizeQuery p
  simp only [getAuthorize, parseAuthParams, Values.get_parseQuery_encode] at found ⊢
  rw [found.1, found.2]

/-! ## Where the login leads -/

/-- `authorizePath`. -/
def authorizePath : Bytes := ascii "/oauth/authorize"

/-- The `return_to` of `authorize`. -/
def returnTo (p : AuthParams) : Bytes := authorizePath ++ question :: (authorizeQuery p).encode

/-- The redirect of `authorize` to the login. -/
def loginLocation (p : AuthParams) : Bytes :=
  ascii "/oauth/login?return_to=" ++ queryEscape (returnTo p)

/-- `isValidReturnTo`.  A text with one slash in front has neither a scheme nor a
host; `url.Parse` fails at a control byte before the fragment and at a bad
escape in it. -/
def isValidReturnTo (returnTo : Bytes) : Bool :=
  ((authorizePath ++ [question]).isPrefixOf returnTo || returnTo = authorizePath) &&
    !(cut hash returnTo).1.any isCTL && (queryUnescape (cut hash returnTo).2).isSome

/-- The `login_uri` of `loginPage`. -/
def loginURI (returnTo : Bytes) : Bytes :=
  ascii "/oauth/login-callback?return_to=" ++ queryEscape returnTo

/-! `loginHTMLTmpl`, cut at the tag of the sign-in script and at its two values. -/

/-- The page up to the tag of the sign-in script. -/
def loginHead : Bytes :=
  utf8 r#"<!doctype html><html lang="ja"><meta charset="utf-8">
<title>drover-cloud MCP — ログイン</title>
<meta name="viewport" content="width=device-width,initial-scale=1">
<body style="font-family:system-ui;max-width:420px;margin:16vh auto;padding:0 16px;text-align:center">
<h1 style="font-size:20px">drover-cloud MCP 連携</h1>
<p style="color:#666;font-size:14px">Google アカウントでログインして、MCP クライアントの連携を許可してください。</p>
<script src="https://accounts.google.com/gsi/client" async></script>
"#

/-- The inside of the tag, up to the client id. -/
def onloadFront : Bytes := ascii "div id=\"g_id_onload\"\n     data-client_id=\""

/-- From the client id to the login URI. -/
def onloadMiddle : Bytes := ascii "\"\n     data-login_uri=\""

/-- The end of the inside. -/
def onloadRest : Bytes := ascii "\"\n     data-ux_mode=\"redirect\""

/-- The page from the end of the tag on. -/
def loginTail : Bytes :=
  utf8 r#"</div>
<div class="g_id_signin" data-type="standard" data-size="large"
     data-text="signin_with" data-shape="pill"
     style="display:inline-block;margin-top:16px"></div>
<noscript>JavaScript を有効にしてください。</noscript>
</body></html>"#

/-- The inside of the tag of the sign-in script. -/
def onloadTag (clientID uri : Bytes) : Bytes :=
  onloadFront ++ (Html.escapeString clientID ++ (onloadMiddle ++
    (Html.escapeString uri ++ onloadRest)))

/-- The page of `loginPage`. -/
def loginHTML (clientID uri : Bytes) : Bytes :=
  loginHead ++ Html.tag (onloadTag clientID uri) ++ loginTail

/-- The `Server` with what the login needs: its `clientID`, and `Verify` of its
`GoogleVerifier`, which may fail. -/
structure LoginServer extends Server where
  clientID : Bytes
  verifyGoogle : Bytes → Bytes → Option (Bytes × Bool)

/-- What the login answers. -/
inductive LoginReply where
  /-- `http.Error`. -/
  | error (status : Nat) (text : Bytes)
  | page (html : Bytes)
  /-- A redirect that sets the session cookie. -/
  | redirect (location cookie : Bytes)
  deriving DecidableEq

/-- The answer to a `return_to` that leads elsewhere. -/
def LoginReply.invalidReturnTo : LoginReply := .error 400 (ascii "invalid return_to")

/-- `loginPage`. -/
def LoginServer.loginPage (server : LoginServer) (query : Bytes) : LoginReply :=
  let returnTo := (parseQuery query).get (ascii "return_to")
  if isValidReturnTo returnTo then .page (loginHTML server.clientID (loginURI returnTo))
  else .invalidReturnTo

/-- A request to `/oauth/login-callback`. -/
structure CallbackRequest where
  method : Method
  query : Bytes
  csrfCookie : Option Bytes
  body : Bytes

/-- `FormValue`. -/
def CallbackRequest.formValue (r : CallbackRequest) (name : String) : Bytes :=
  Values.get (parseQuery r.body ++ parseQuery r.query) (ascii name)

/-- `cookieTTL`. -/
def cookieTTL : Nat := 12 * 3600 * second

/-- `accountScope`. -/
def accountScope : Bytes := ascii "*"

/-- The token of `loginCallback`, at the time `now`. -/
def accountToken (email : Bytes) (now : Nat) : WebAuth.Token :=
  ⟨email, accountScope, ((now + cookieTTL) / second : Nat)⟩

/-- The `Location` of `http.Redirect`, for a clean path of this server. -/
def hexEscapeNonASCII (s : Bytes) : Bytes :=
  s.flatMap fun b =>
    if 0x80 ≤ b then percent :: encodeHex [b] else [b]

/-- The end of `loginCallback` and of `authGoogle`, for a `POST`: the checks, and the
redirect with the cookie. -/
def LoginServer.signIn (server : LoginServer) (now : Nat) (r : CallbackRequest)
    (location : Bytes) : LoginReply :=
  let csrf := r.csrfCookie.getD []
  if csrf = [] ∨ csrf ≠ r.formValue "g_csrf_token" then .error 403 (utf8 "CSRF 検証失敗")
  else
    let cred := r.formValue "credential"
    if cred = [] then .error 400 (utf8 "credential が必要")
    else
      match server.verifyGoogle cred server.clientID with
      | none => .error 401 (utf8 "Google 認証に失敗しました")
      | some (email, verified) =>
          if email = [] ∨ verified = false then
            .error 401 (utf8 "Google 認証に失敗しました")
          else if server.allowed (server.toLower email) = false then
            .error 403 (utf8 "このアカウントは許可されていません")
          else .redirect location (server.signer.sign (accountToken email now))

/-- `loginCallback`. -/
def LoginServer.loginCallback (server : LoginServer) (now : Nat) (r : CallbackRequest) :
    LoginReply :=
  if r.method ≠ .post then .error 405 (utf8 "POST のみ")
  else
    let returnTo := (parseQuery r.query).get (ascii "return_to")
    if isValidReturnTo returnTo = false then .invalidReturnTo
    else server.signIn now r (hexEscapeNonASCII returnTo)

/-! ## What the login page holds -/

/-- The tag is that of the sign-in script. -/
def isOnload (inside : Bytes) : Bool :=
  (Html.attributes inside).lookup (ascii "id") = some (ascii "g_id_onload")

/-- The `data-login_uri` that the sign-in script finds in a page. -/
def loginURIOf (page : Bytes) : Option Bytes :=
  ((Html.tags page).find? isOnload).bind fun inside =>
    (Html.attributes inside).lookup (ascii "data-login_uri")

theorem inside_onloadTag (clientID uri : Bytes) :
    Html.Mode.tag.inside (onloadTag clientID uri) = some .tag := by
  have value : ∀ s, Html.Mode.quoted.inside (Html.escapeString s) = some .quoted := fun s =>
    Html.Mode.inside_quoted (Html.notMem_escapeString (by decide) s)
  have front : Html.Mode.tag.inside onloadFront = some .quoted := by decide
  have middle : Html.Mode.quoted.inside onloadMiddle = some .quoted := by decide
  rw [onloadTag, Html.Mode.inside_append front, Html.Mode.inside_append (value clientID),
    Html.Mode.inside_append middle, Html.Mode.inside_append (value uri)]
  decide

theorem attributes_onloadTag (clientID uri : Bytes) :
    Html.attributes (onloadTag clientID uri) =
      [(ascii "id", ascii "g_id_onload"), (ascii "data-client_id", clientID),
        (ascii "data-login_uri", uri), (ascii "data-ux_mode", ascii "redirect")] := by
  have clean : ∀ s, Html.doubleQuote ∉ Html.escapeString s :=
    Html.notMem_escapeString (by decide)
  have front : onloadFront = ascii "div id=" ++ Html.doubleQuote :: (ascii "g_id_onload" ++
      Html.doubleQuote :: (ascii "\n     data-client_id=" ++ [Html.doubleQuote])) := by decide
  have middle : onloadMiddle = Html.doubleQuote ::
      (ascii "\n     data-login_uri=" ++ [Html.doubleQuote]) := by decide
  have rest : onloadRest = Html.doubleQuote :: (ascii "\n     data-ux_mode=" ++
      Html.doubleQuote :: (ascii "redirect" ++ Html.doubleQuote :: [])) := by decide
  have whole : onloadTag clientID uri = ascii "div id=" ++ Html.doubleQuote ::
      (ascii "g_id_onload" ++ Html.doubleQuote :: (ascii "\n     data-client_id=" ++
        Html.doubleQuote :: (Html.escapeString clientID ++ Html.doubleQuote ::
          (ascii "\n     data-login_uri=" ++ Html.doubleQuote :: (Html.escapeString uri ++
            onloadRest))))) := by
    rw [onloadTag, front, middle]
    simp only [List.append_assoc, List.cons_append, List.nil_append]
  have names : Html.attributeName (ascii "div id=") = ascii "id" ∧
      Html.attributeName (ascii "\n     data-client_id=") = ascii "data-client_id" ∧
      Html.attributeName (ascii "\n     data-login_uri=") = ascii "data-login_uri" ∧
      Html.attributeName (ascii "\n     data-ux_mode=") = ascii "data-ux_mode" ∧
      Html.unescapeString (ascii "g_id_onload") = ascii "g_id_onload" ∧
      Html.unescapeString (ascii "redirect") = ascii "redirect" ∧ Html.attributes [] = [] := by
    decide +kernel
  obtain ⟨id, clientName, uriName, mode, onload, redirect, ends⟩ := names
  rw [whole, Html.attributes_cons (by decide) (by decide), Html.attributes_cons (by decide)
    (clean clientID), rest, Html.attributes_cons (by decide) (clean uri),
    Html.attributes_cons (by decide) (by decide), Html.unescapeString_escapeString,
    Html.unescapeString_escapeString, id, clientName, uriName, mode, onload, redirect, ends]

set_option maxRecDepth 10000 in
/-- What stands in front of the tag is closed, and has no such tag. -/
theorem loginHead_checked :
    Html.Closed loginHead ∧ (Html.tags loginHead).any isOnload = false := by
  rw [loginHead, utf8_ofList]
  decide +kernel

/-- The sign-in script finds the callback's address, whatever stands in it. -/
theorem loginURIOf_loginHTML (clientID uri : Bytes) :
    loginURIOf (loginHTML clientID uri) = some uri := by
  have whole := inside_onloadTag clientID uri
  have tags : Html.tags (loginHTML clientID uri) =
      Html.tags loginHead ++ onloadTag clientID uri :: Html.tags loginTail := by
    rw [loginHTML, List.append_assoc, loginHead_checked.1.tags_append,
      (Html.closed_tag whole).tags_append, Html.tags_tag whole, List.singleton_append]
  have before : (Html.tags loginHead).find? isOnload = none := by
    rw [List.find?_eq_none]
    exact List.any_eq_false.mp loginHead_checked.2
  have found : isOnload (onloadTag clientID uri) = true := by
    rw [isOnload, attributes_onloadTag]
    rfl
  rw [loginURIOf, tags, List.find?_append, before, Option.none_or, List.find?_cons, found]
  simp only [Option.bind_some, attributes_onloadTag]
  rfl

/-! ## The way back -/

/-- A query with `return_to` alone. -/
theorem parseQuery_returnTo {path : Bytes} (noQuestion : question ∉ path) (noHash : hash ∉ path)
    (returnTo : Bytes) :
    parseQuery (rawQuery (path ++ question ::
      pairText (ascii "return_to") (queryEscape returnTo))) = [(ascii "return_to", returnTo)] := by
  have keyText : Encodes (ascii "return_to") (ascii "return_to") := by
    have plain := encodes_queryEscape (ascii "return_to")
    rwa [queryEscape_of_isUnreserved (by decide)] at plain
  have valueText := encodes_queryEscape returnTo
  rw [rawQuery_append noQuestion noHash (hash_notMem_pairText keyText valueText),
    parseQuery_of_notMem (ampersand_notMem_pairText keyText valueText),
    parsePair_pairText keyText valueText]
  rfl

theorem loginLocation_eq (p : AuthParams) :
    loginLocation p = ascii "/oauth/login" ++ question ::
      pairText (ascii "return_to") (queryEscape (returnTo p)) := rfl

theorem loginURI_eq (returnTo : Bytes) :
    loginURI returnTo = ascii "/oauth/login-callback" ++ question ::
      pairText (ascii "return_to") (queryEscape returnTo) := rfl

theorem isEncoded_of_mem_returnTo {p : AuthParams} {b : UInt8} (mem : b ∈ returnTo p) :
    isEncoded b = true ∨ b ∈ authorizePath ++ [question] := by
  rw [returnTo, List.append_cons, List.mem_append] at mem
  exact mem.symm.imp_left Values.isEncoded_of_mem_encode

theorem hash_notMem_returnTo (p : AuthParams) : hash ∉ returnTo p := by
  intro mem
  rcases isEncoded_of_mem_returnTo mem with encoded | inPath
  · exact absurd encoded (by decide)
  · exact absurd inPath (by decide)

theorem isValidReturnTo_returnTo (p : AuthParams) : isValidReturnTo (returnTo p) = true := by
  have front : (authorizePath ++ [question]).isPrefixOf (returnTo p) = true := by
    have whole : returnTo p = authorizePath ++ [question] ++ (authorizeQuery p).encode :=
      List.append_cons _ _ _
    rw [List.isPrefixOf_iff_prefix, whole]
    exact List.prefix_append _ _
  have printable : (returnTo p).any isCTL = false := by
    rw [List.any_eq_false]
    intro b mem control
    obtain ⟨special, others⟩ := Web.special_of_isCTL control
    rcases isEncoded_of_mem_returnTo mem with encoded | inPath
    · rw [isEncoded, special, Bool.false_or, decide_eq_true_eq] at encoded
      exact others encoded
    · have plainPath : (authorizePath ++ [question]).any isCTL = false := by decide
      exact absurd control (List.any_eq_false.mp plainPath b inPath)
  have noFragment := cut_of_notMem (hash_notMem_returnTo p)
  have before : (cut hash (returnTo p)).1 = returnTo p := congrArg Prod.fst noFragment
  have behind : (cut hash (returnTo p)).2 = [] := congrArg Prod.snd noFragment
  rw [isValidReturnTo, front, before, printable, behind, queryUnescape, Bool.true_or]
  rfl

theorem hexEscapeNonASCII_of_lt {s : Bytes} (plain : ∀ b ∈ s, b < 0x80) :
    hexEscapeNonASCII s = s := by
  induction s with
  | nil => rfl
  | cons b s ih =>
      have first : ¬ 0x80 ≤ b := UInt8.not_le.mpr (plain b List.mem_cons_self)
      rw [hexEscapeNonASCII, List.flatMap_cons, if_neg first]
      exact congrArg (b :: ·) (ih fun c mem => plain c (List.mem_cons_of_mem b mem))

theorem hexEscapeNonASCII_returnTo (p : AuthParams) :
    hexEscapeNonASCII (returnTo p) = returnTo p := by
  apply hexEscapeNonASCII_of_lt
  intro b mem
  rcases isEncoded_of_mem_returnTo mem with encoded | inPath
  · exact lt_of_isEncoded encoded
  · have plainPath : (authorizePath ++ [question]).all (· < 0x80) = true := by decide
    exact of_decide_eq_true (List.all_eq_true.mp plainPath b inPath)

theorem rawQuery_returnTo (p : AuthParams) :
    rawQuery (returnTo p) = (authorizeQuery p).encode :=
  rawQuery_append (by decide) (by decide) fun mem =>
    absurd (Values.isEncoded_of_mem_encode mem) (by decide)

/-! ## The whole way -/

/-- The callback request of someone whom Google verifies and the server allows. -/
structure SignsIn (server : LoginServer) (r : CallbackRequest) (email : Bytes) : Prop where
  method : r.method = .post
  csrf_ne_nil : r.formValue "g_csrf_token" ≠ []
  csrfCookie : r.csrfCookie = some (r.formValue "g_csrf_token")
  credential_ne_nil : r.formValue "credential" ≠ []
  email_ne_nil : email ≠ []
  verified : server.verifyGoogle (r.formValue "credential") server.clientID = some (email, true)
  allowed : server.allowed (server.toLower email) = true

/-- A `POST` signs in those alone. -/
theorem signIn_eq_redirect_iff {server : LoginServer} {now : Nat} {r : CallbackRequest}
    (isPost : r.method = .post) {target location cookie : Bytes} :
    server.signIn now r target = .redirect location cookie ↔
      ∃ email, SignsIn server r email ∧ location = target ∧
        cookie = server.signer.sign (accountToken email now) := by
  constructor
  · intro answered
    simp only [LoginServer.signIn] at answered
    split at answered
    · cases answered
    · rename_i csrf
      split at answered
      · cases answered
      · rename_i credential
        split at answered
        · cases answered
        · rename_i email verified google
          split at answered
          · cases answered
          · rename_i isVerified
            split at answered
            · cases answered
            · rename_i isAllowed
              rw [not_or, not_not] at csrf
              rw [not_or, Bool.not_eq_false] at isVerified
              cases answered
              refine ⟨email, ⟨isPost, ?_, ?_, credential, isVerified.1, ?_, ?_⟩, rfl, rfl⟩
              · rw [← csrf.2]
                exact csrf.1
              · cases held : r.csrfCookie with
                | none =>
                    rw [held] at csrf
                    exact absurd rfl csrf.1
                | some value =>
                    rw [held] at csrf
                    exact congrArg some csrf.2
              · rw [google, isVerified.2]
              · exact Bool.not_eq_false _ ▸ isAllowed
  · rintro ⟨email, signsIn, rfl, rfl⟩
    have held : r.csrfCookie.getD [] = r.formValue "g_csrf_token" := by
      rw [signsIn.csrfCookie, Option.getD_some]
    simp [LoginServer.signIn, held, signsIn.csrf_ne_nil, signsIn.credential_ne_nil,
      signsIn.verified, signsIn.email_ne_nil, signsIn.allowed]

/-- The callback signs in those alone, and sends them where `return_to`
says, on this server's `/oauth/authorize`. -/
theorem loginCallback_eq_redirect_iff {server : LoginServer} {now : Nat} {r : CallbackRequest}
    {location cookie : Bytes} :
    server.loginCallback now r = .redirect location cookie ↔
      ∃ email, SignsIn server r email ∧
        isValidReturnTo ((parseQuery r.query).get (ascii "return_to")) = true ∧
        location = hexEscapeNonASCII ((parseQuery r.query).get (ascii "return_to")) ∧
        cookie = server.signer.sign (accountToken email now) := by
  simp only [LoginServer.loginCallback]
  constructor
  · intro answered
    split at answered
    · cases answered
    · rename_i isPost
      split at answered
      · cases answered
      · rename_i valid
        obtain ⟨email, signsIn, isTarget, isCookie⟩ :=
          (signIn_eq_redirect_iff (not_not.mp isPost)).mp answered
        exact ⟨email, signsIn, Bool.not_eq_false _ ▸ valid, isTarget, isCookie⟩
  · rintro ⟨email, signsIn, valid, isTarget, isCookie⟩
    rw [if_neg (not_not.mpr signsIn.method), if_neg (by simp [valid])]
    exact (signIn_eq_redirect_iff signsIn.method).mpr ⟨email, signsIn, isTarget, isCookie⟩

theorem authorizeParams_eq_getClient_iff {server : Server} {req : AuthorizeRequest} :
    server.authorizeParams req = .getClient req ↔
      req.params.codeChallengeMethod = ascii "S256" ∧ req.params.codeChallenge ≠ [] ∧
        req.params.resource = server.selfBase ++ ascii "/mcp" := by
  rw [Server.authorizeParams]
  constructor
  · intro asked
    split at asked
    · cases asked
    · rename_i challenge
      split at asked
      · cases asked
      · rename_i resource
        rw [not_or, not_not] at challenge
        exact ⟨challenge.1, challenge.2, not_not.mp resource⟩
  · rintro ⟨challengeMethod, challenge, resource⟩
    rw [if_neg (not_or.mpr ⟨not_not.mpr challengeMethod, challenge⟩), if_neg (not_not.mpr resource)]

theorem authorizeParams_of_authorize {server : Server} {req : AuthorizeRequest} {parsed : Bool}
    (asked : server.authorize req parsed = .getClient req) :
    server.authorizeParams req = .getClient req := by
  rw [Server.authorize] at asked
  split at asked
  · split at asked
    · exact asked
    · cases asked
  · split at asked
    · exact asked
    · cases asked
  · cases asked

theorem redirectURI_mem_of_login {server : Server} {now : Nat} {req : AuthorizeRequest}
    {client : OAuthClient}
    (sent : server.authorizeClient now req client = .replied (.login req.params)) :
    req.params.redirectURI ∈ client.redirectURIs := by
  rw [Server.authorizeClient] at sent
  split at sent
  · cases sent
  · rename_i registered
    exact not_not.mp registered

/-- The cookie of the callback is an account's cookie until it expires. -/
theorem authCookie_accountToken {server : LoginServer} {hmac : Bytes → Bytes → Bytes}
    (sum : ∀ key text, (hmac key text).length = 32) {secret email : Bytes}
    (signer : server.signer = WebAuth.newSigner hmac secret) (valid : ValidString email)
    (allowed : server.allowed (server.toLower email) = true) {signedAt later : Nat}
    (bound : (signedAt + cookieTTL) / second ≤ 9223372036854775807)
    (inTime : later ≤ signedAt + cookieTTL) :
    server.authCookie later (some (server.signer.sign (accountToken email signedAt))) =
      some email := by
  have scopeValid : ValidString (accountToken email signedAt).scope :=
    validString_of_ascii (s := accountScope) (by decide)
  have notExpired : ((later / second : Nat) : Int) ≤ (accountToken email signedAt).exp :=
    Int.ofNat_le.mpr (Nat.div_le_div_right inTime)
  have positive : (0 : Int) ≤ (accountToken email signedAt).exp := Int.natCast_nonneg _
  have verified := WebAuth.verify_sign sum secret (t := accountToken email signedAt) valid
    scopeValid (by omega) (Int.ofNat_le.mpr bound) (later / second : Nat)
  rw [if_pos (.inr notExpired), ← signer] at verified
  simp only [Server.authCookie, verified]
  exact if_pos allowed

/-- The login leads back to the same request.  A request that is sent to the
login for want of a cookie comes, through the login page and the callback, to the
consent page for the same parameters, for as long as the cookie is valid. -/
theorem login_returns {server : LoginServer} {hmac : Bytes → Bytes → Bytes}
    (sum : ∀ key text, (hmac key text).length = 32) {secret : Bytes}
    (signer : server.signer = WebAuth.newSigner hmac secret) {req : AuthorizeRequest}
    {parsed : Bool} (asked : server.authorize req parsed = .getClient req) {now : Nat}
    {client : OAuthClient}
    (sent : server.authorizeClient now req client = .replied (.login req.params)) :
    ∃ page uri, server.loginPage (rawQuery (loginLocation req.params)) = .page page ∧
      loginURIOf page = some uri ∧
      ∀ {r : CallbackRequest} {email : Bytes} {signedAt : Nat}, r.query = rawQuery uri →
        SignsIn server r email → ValidString email →
        (signedAt + cookieTTL) / second ≤ 9223372036854775807 →
        ∃ location cookie, server.loginCallback signedAt r = .redirect location cookie ∧
          (cut question location).1 = authorizePath ∧ ∀ later ≤ signedAt + cookieTTL,
            let again := getAuthorize (rawQuery location) (some cookie)
            server.authorize again true = .getClient again ∧
              server.authorizeClient later again client =
                .replied (.consent client.name req.params) := by
  have checked := authorizeParams_eq_getClient_iff.mp (authorizeParams_of_authorize asked)
  have toLogin : (parseQuery (rawQuery (loginLocation req.params))).get (ascii "return_to") =
      returnTo req.params := by
    rw [loginLocation_eq, parseQuery_returnTo (by decide) (by decide), Values.get_cons_same]
  refine ⟨loginHTML server.clientID (loginURI (returnTo req.params)), _, ?_,
    loginURIOf_loginHTML _ _, ?_⟩
  · simp only [LoginServer.loginPage, toLogin, isValidReturnTo_returnTo, if_true]
  · intro r email signedAt sameQuery signsIn valid bound
    have toCallback : (parseQuery r.query).get (ascii "return_to") = returnTo req.params := by
      rw [sameQuery, loginURI_eq, parseQuery_returnTo (by decide) (by decide),
        Values.get_cons_same]
    refine ⟨returnTo req.params, _, loginCallback_eq_redirect_iff.mpr ⟨email, signsIn, ?_, ?_, rfl⟩,
      ?_, ?_⟩
    · rw [toCallback]
      exact isValidReturnTo_returnTo _
    · rw [toCallback, hexEscapeNonASCII_returnTo]
    · rw [returnTo, cut_append (show question ∉ authorizePath by decide)]
    · intro later inTime
      rw [rawQuery_returnTo, getAuthorize_encode]
      constructor
      · rw [Server.authorize]
        simp only [if_true]
        exact authorizeParams_eq_getClient_iff.mpr checked
      · have cookie := authCookie_accountToken sum signer valid signsIn.allowed bound inTime
        rw [Server.authorizeClient, if_neg (not_not.mpr (redirectURI_mem_of_login sent)), cookie]
        simp only [if_true]

/-- The sample server, with the signer of its cookies. -/
def loginServer : LoginServer where
  toServer :=
    { sampleServer with
      signer := WebAuth.newSigner (fun _ text => sampleSigner.mac text) (ascii "k") }
  clientID := ascii "web"
  verifyGoogle _ _ := some (ascii "o@a.io", true)

/-- A callback of the sample account. -/
def sampleCallback (query : Bytes) : CallbackRequest :=
  ⟨.post, query, some (ascii "t"), ascii "g_csrf_token=t&credential=c"⟩

/-- The sample request, before its owner has a cookie. -/
theorem sampleRequest_returns :
    ∃ uri location cookie, loginServer.loginCallback 0 (sampleCallback (rawQuery uri)) =
        .redirect location cookie ∧
      loginServer.authorizeClient 0 (getAuthorize (rawQuery location) (some cookie))
          ⟨ascii "app", [ascii "https://a.io/cb"]⟩ =
        .replied (.consent (ascii "app") sampleRequest.params) := by
  have entries : parseQuery (ascii "g_csrf_token=t&credential=c") =
      [(ascii "g_csrf_token", ascii "t"), (ascii "credential", ascii "c")] := by decide +kernel
  have signsIn : ∀ query, SignsIn loginServer (sampleCallback query) (ascii "o@a.io") := by
    intro query
    have token : (sampleCallback query).formValue "g_csrf_token" = ascii "t" := by
      rw [CallbackRequest.formValue, sampleCallback, entries]
      exact Values.get_cons_same ..
    have credential : (sampleCallback query).formValue "credential" = ascii "c" := by
      rw [CallbackRequest.formValue, sampleCallback, entries]
      exact (Values.get_cons_of_ne (by decide) _ _).trans (Values.get_cons_same ..)
    exact ⟨rfl, by rw [token]; decide, by rw [token]; rfl, by rw [credential]; decide, by decide,
      rfl, rfl⟩
  obtain ⟨_, uri, -, -, returns⟩ := @login_returns loginServer (fun _ text => sampleSigner.mac text)
    (fun _ _ => rfl) (ascii "k") rfl { sampleRequest with cookie := none } true (by decide +kernel)
    0 ⟨ascii "app", [ascii "https://a.io/cb"]⟩ (by decide +kernel)
  obtain ⟨location, cookie, answered, -, consents⟩ := @returns (sampleCallback (rawQuery uri)) _ 0
    rfl (signsIn _) (validString_of_ascii (by decide)) (by decide)
  exact ⟨uri, location, cookie, answered, (consents 0 (Nat.zero_le _)).2⟩

end Drover.OAuth.Endpoint
