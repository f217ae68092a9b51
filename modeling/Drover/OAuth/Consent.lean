import Drover.OAuth.Login

/-!
# The consent page

The page that `authorize` shows to the owner: the name of the client and the
scopes as text, and a form that carries the parameters of the request in hidden
inputs.  Whatever bytes a client chose for its name and its parameters, the page
has the tags of its template alone, and the form that the owner accepts is the
request for the same parameters.
-/

namespace Drover.OAuth.Endpoint

open Drover.Net

/-! ## The page -/

/-! `consentHTMLTmpl`, cut at its three values. -/

/-- `consentHTMLTmpl`, up to the name of the client. -/
def consentHead : Bytes :=
  utf8 r#"<!doctype html><html lang="ja"><meta charset="utf-8">
<title>drover-cloud MCP — 連携の確認</title>
<meta name="viewport" content="width=device-width,initial-scale=1">
<body style="font-family:system-ui;max-width:480px;margin:10vh auto;padding:0 16px">
<h1 style="font-size:18px">"#

/-- From the name of the client to the scopes. -/
def consentWarning : Bytes :=
  utf8 r#" が drover-cloud への接続を要求しています</h1>
<p style="color:#b4401f;font-weight:bold">全 PC のコーディングエージェントセッションを操作できるようになります。</p>
<ul style="font-size:14px;color:#444">"#

/-- From the scopes to the hidden inputs. -/
def consentForm : Bytes := utf8 "</ul>\n<form method=\"post\">\n"

/-- The buttons and the end of the page. -/
def consentTail : Bytes :=
  utf8 r#"
<button type="submit" name="decision" value="accept" style="padding:10px 20px;margin-right:8px">許可する</button>
<button type="submit" name="decision" value="deny" style="padding:10px 20px">拒否する</button>
</form>
</body></html>"#

/-- What the page shows where no scope is asked for. -/
def noScopes : Bytes := utf8 "(スコープ指定なし)"

/-- One round of the loop of `scopeListHTML`. -/
def scopeItem (sc : Bytes) : Bytes := ascii "<li>" ++ Html.escapeString sc ++ ascii "</li>"

/-- `scopeListHTML`. -/
def scopeListHTML (scope : Bytes) : Bytes :=
  let items := (fields scope).flatMap scopeItem
  if items = [] then ascii "<li>" ++ noScopes ++ ascii "</li>" else items

/-- The inside of the tag of a hidden input. -/
def hiddenTag (name val : Bytes) : Bytes :=
  ascii "input type=\"hidden\" name=\"" ++ (name ++ (ascii "\" value=\"" ++
    (Html.escapeString val ++ ascii "\"")))

/-- The names of the inputs, and their values. -/
def hiddenFields (p : AuthParams) : Values :=
  [(ascii "client_id", p.clientID), (ascii "redirect_uri", p.redirectURI),
    (ascii "scope", p.scope), (ascii "state", p.state),
    (ascii "code_challenge", p.codeChallenge),
    (ascii "code_challenge_method", p.codeChallengeMethod), (ascii "resource", p.resource)]

/-- `hiddenFieldsHTML`. -/
def hiddenFieldsHTML (p : AuthParams) : Bytes :=
  (hiddenFields p).flatMap fun f => Html.tag (hiddenTag f.1 f.2)

/-- The page of `authorize`. -/
def consentHTML (clientName : Bytes) (p : AuthParams) : Bytes :=
  consentHead ++ (Html.escapeString clientName ++ (consentWarning ++ (scopeListHTML p.scope ++
    (consentForm ++ (hiddenFieldsHTML p ++ consentTail)))))

/-! ## The form -/

/-- A name that stands in its attribute as it is. -/
def IsName (name : Bytes) : Prop := Html.doubleQuote ∉ name ∧ Html.unescapeString name = name

instance (name : Bytes) : Decidable (IsName name) :=
  inferInstanceAs (Decidable (Html.doubleQuote ∉ name ∧ Html.unescapeString name = name))

theorem inside_hiddenTag {name : Bytes} (isName : IsName name) (val : Bytes) :
    Html.Mode.tag.inside (hiddenTag name val) = some .tag := by
  have front : Html.Mode.tag.inside (ascii "input type=\"hidden\" name=\"") = some .quoted := by
    decide
  have middle : Html.Mode.quoted.inside (ascii "\" value=\"") = some .quoted := by decide
  have value : Html.Mode.quoted.inside (Html.escapeString val) = some .quoted :=
    Html.Mode.inside_quoted (Html.notMem_escapeString (by decide) val)
  rw [hiddenTag, Html.Mode.inside_append front,
    Html.Mode.inside_append (Html.Mode.inside_quoted isName.1), Html.Mode.inside_append middle,
    Html.Mode.inside_append value]
  decide

theorem attributes_hiddenTag {name : Bytes} (isName : IsName name) (val : Bytes) :
    Html.attributes (hiddenTag name val) =
      [(ascii "type", ascii "hidden"), (ascii "name", name), (ascii "value", val)] := by
  have whole : hiddenTag name val = ascii "input type=" ++ Html.doubleQuote :: (ascii "hidden" ++
      Html.doubleQuote :: (ascii " name=" ++ Html.doubleQuote :: (name ++ Html.doubleQuote ::
        (ascii " value=" ++ Html.doubleQuote :: (Html.escapeString val ++
          Html.doubleQuote :: []))))) := by
    have front : ascii "input type=\"hidden\" name=\"" = ascii "input type=" ++
        Html.doubleQuote :: (ascii "hidden" ++ Html.doubleQuote :: (ascii " name=" ++
          [Html.doubleQuote])) := by decide
    have middle : ascii "\" value=\"" =
        Html.doubleQuote :: (ascii " value=" ++ [Html.doubleQuote]) := by decide
    rw [hiddenTag, front, middle]
    simp only [List.append_assoc, List.cons_append, List.nil_append]
    rfl
  have names : Html.attributeName (ascii "input type=") = ascii "type" ∧
      Html.attributeName (ascii " name=") = ascii "name" ∧
      Html.attributeName (ascii " value=") = ascii "value" ∧
      Html.unescapeString (ascii "hidden") = ascii "hidden" ∧ Html.attributes [] = [] := by
    decide +kernel
  obtain ⟨typeName, nameName, valueName, hidden, ends⟩ := names
  rw [whole, Html.attributes_cons (by decide) (by decide),
    Html.attributes_cons (by decide) isName.1, Html.attributes_cons (by decide)
    (Html.notMem_escapeString (by decide) val), Html.unescapeString_escapeString, isName.2,
    typeName, nameName, valueName, hidden, ends]

theorem entryOf_hiddenTag {name : Bytes} (isName : IsName name) (val : Bytes) :
    Html.entryOf (ascii "input") (hiddenTag name val) = some (name, val) := by
  have front : (ascii "input" ++ [0x20]).isPrefixOf (hiddenTag name val) = true := by
    have start : ascii "input type=\"hidden\" name=\"" =
        ascii "input" ++ [0x20] ++ ascii "type=\"hidden\" name=\"" := by decide
    rw [List.isPrefixOf_iff_prefix, hiddenTag, start, List.append_assoc]
    exact List.prefix_append _ _
  rw [Html.entryOf, if_pos front, attributes_hiddenTag isName]
  rfl

section

variable {fs : Values} (areNames : ∀ f ∈ fs, IsName f.1)

include areNames

theorem tags_hiddenTags :
    Html.Closed (fs.flatMap fun f => Html.tag (hiddenTag f.1 f.2)) ∧
      Html.tags (fs.flatMap fun f => Html.tag (hiddenTag f.1 f.2)) =
        fs.map (fun f => hiddenTag f.1 f.2) ∧
      Html.textFrom .data (fs.flatMap fun f => Html.tag (hiddenTag f.1 f.2)) = [] := by
  induction fs with
  | nil => exact ⟨rfl, rfl, rfl⟩
  | cons f fs ih =>
      obtain ⟨closed, tags, text⟩ := ih fun g mem => areNames g (List.mem_cons_of_mem f mem)
      have whole := inside_hiddenTag (areNames f List.mem_cons_self) f.2
      have first := Html.closed_tag whole
      rw [List.flatMap_cons]
      refine ⟨first.append closed, ?_, ?_⟩
      · rw [first.tags_append, tags, Html.tags_tag whole, List.map_cons, List.singleton_append]
      · rw [first.textFrom_append, text, Html.textFrom_tag whole, List.append_nil]

theorem entryOf_hiddenTags :
    (fs.map fun f => hiddenTag f.1 f.2).filterMap (Html.entryOf (ascii "input")) = fs := by
  induction fs with
  | nil => rfl
  | cons f fs ih =>
      rw [List.map_cons, List.filterMap_cons, entryOf_hiddenTag (areNames f List.mem_cons_self),
        ih fun g mem => areNames g (List.mem_cons_of_mem f mem)]

end

theorem isName_hiddenFields (p : AuthParams) : ∀ f ∈ hiddenFields p, IsName f.1 := by
  intro f mem
  have names : ((hiddenFields p).map Prod.fst).all (fun name => IsName name) = true := by
    have fixed : (hiddenFields p).map Prod.fst =
        [ascii "client_id", ascii "redirect_uri", ascii "scope", ascii "state",
          ascii "code_challenge", ascii "code_challenge_method", ascii "resource"] := rfl
    rw [fixed]
    decide +kernel
  exact of_decide_eq_true (List.all_eq_true.mp names f.1 (List.mem_map_of_mem mem))

/-! ## The template -/

/-- A part of the template: it closes what it opens, its text holds no
reference, and it has no inputs. -/
def isPart (s : Bytes) : Bool :=
  Html.Closed s && (Html.textFrom .data s).all (· != Html.ampersand) &&
    (Html.entries (ascii "input") s).isEmpty

/-- A part of a page that is closed, and shows neither a reference nor an input. -/
structure IsPart (s : Bytes) : Prop where
  closed : Html.Closed s
  text : Html.ampersand ∉ Html.textFrom .data s
  inputs : Html.entries (ascii "input") s = []

theorem IsPart.of_isPart {s : Bytes} (checked : isPart s = true) : IsPart s := by
  rw [isPart, Bool.and_eq_true, Bool.and_eq_true, decide_eq_true_eq] at checked
  obtain ⟨⟨closed, noReference⟩, noInputs⟩ := checked
  refine ⟨closed, fun mem => ?_, List.isEmpty_iff.mp noInputs⟩
  exact absurd rfl (bne_iff_ne.mp (List.all_eq_true.mp noReference _ mem))

set_option maxRecDepth 10000 in
/-- What is checked of the template: its parts, and its two buttons. -/
theorem template_checked :
    ([consentHead, consentWarning, consentForm, consentTail].all isPart) = true ∧
      Html.entries (ascii "button") consentTail =
        [(ascii "decision", ascii "accept"), (ascii "decision", ascii "deny")] := by
  rw [consentHead, consentWarning, consentForm, consentTail, utf8_ofList, utf8_ofList, utf8_ofList,
    utf8_ofList]
  decide +kernel

theorem isPart_of_mem {s : Bytes}
    (mem : s ∈ [consentHead, consentWarning, consentForm, consentTail]) : IsPart s :=
  .of_isPart (List.all_eq_true.mp template_checked.1 s mem)

theorem isPart_consentHead : IsPart consentHead := isPart_of_mem (by simp)
theorem isPart_consentWarning : IsPart consentWarning := isPart_of_mem (by simp)
theorem isPart_consentForm : IsPart consentForm := isPart_of_mem (by simp)
theorem isPart_consentTail : IsPart consentTail := isPart_of_mem (by simp)

/-! ### Scopes -/

/-- The tags around the scopes: one item for each, and one if there is none. -/
def scopeTags (scope : Bytes) : List Bytes :=
  (List.replicate (max 1 (fields scope).length) [ascii "li", ascii "/li"]).flatten

/-- What is shown of the scopes. -/
def scopeText (scope : Bytes) : Bytes :=
  if fields scope = [] then noScopes else (fields scope).flatten

theorem scopeItem_eq (sc : Bytes) : scopeItem sc =
    Html.tag (ascii "li") ++ (Html.escapeString sc ++ Html.tag (ascii "/li")) := by
  rw [scopeItem, List.append_assoc]
  rfl

theorem closed_li : Html.Closed (Html.tag (ascii "li")) ∧ Html.Closed (Html.tag (ascii "/li")) :=
  ⟨Html.closed_tag rfl, Html.closed_tag rfl⟩

theorem tags_scopeItems (scopes : List Bytes) :
    Html.Closed (scopes.flatMap scopeItem) ∧
      Html.tags (scopes.flatMap scopeItem) =
        (List.replicate scopes.length [ascii "li", ascii "/li"]).flatten ∧
      Html.textFrom .data (scopes.flatMap scopeItem) = scopes.flatMap Html.escapeString := by
  induction scopes with
  | nil => exact ⟨rfl, rfl, rfl⟩
  | cons sc scopes ih =>
      obtain ⟨closed, tags, text⟩ := ih
      have value := Html.closed_escapeString sc
      have item : Html.Closed (scopeItem sc) := by
        rw [scopeItem_eq]
        exact closed_li.1.append (value.append closed_li.2)
      have itemTags : Html.tags (scopeItem sc) = [ascii "li", ascii "/li"] := by
        rw [scopeItem_eq, closed_li.1.tags_append, value.tags_append, Html.tags_escapeString]
        decide
      have itemText : Html.textFrom .data (scopeItem sc) = Html.escapeString sc := by
        rw [scopeItem_eq, closed_li.1.textFrom_append, value.textFrom_append,
          Html.textFrom_escapeString, Html.textFrom_tag rfl, Html.textFrom_tag rfl,
          List.nil_append, List.append_nil]
      rw [List.flatMap_cons]
      refine ⟨item.append closed, ?_, ?_⟩
      · rw [item.tags_append, itemTags, tags, List.length_cons, List.replicate_succ,
          List.flatten_cons]
      · rw [item.textFrom_append, itemText, text, List.flatMap_cons]

theorem noScopes_plain : Html.lessThan ∉ noScopes ∧ Html.ampersand ∉ noScopes := by
  rw [noScopes]
  exact of_utf8 (p := fun s => Html.lessThan ∉ s ∧ Html.ampersand ∉ s) (by decide +kernel)

theorem unescapeString_flatMap (scopes : List Bytes) (t : Bytes) :
    Html.unescapeString (scopes.flatMap Html.escapeString ++ t) =
      scopes.flatten ++ Html.unescapeString t := by
  induction scopes with
  | nil => rfl
  | cons sc scopes ih =>
      rw [List.flatMap_cons, List.append_assoc, Html.unescapeString_escapeString_append, ih,
        List.flatten_cons, List.append_assoc]

/-- The list of the scopes is a part of the page with items alone, and shows the
scopes. -/
theorem scopeListHTML_reads (scope : Bytes) :
    Html.Closed (scopeListHTML scope) ∧ Html.tags (scopeListHTML scope) = scopeTags scope ∧
      ∀ t, Html.unescapeString (Html.textFrom .data (scopeListHTML scope) ++ t) =
        scopeText scope ++ Html.unescapeString t := by
  rw [scopeTags, scopeText, scopeListHTML]
  cases scopes : fields scope with
  | nil =>
      have value : Html.Closed noScopes := Html.after_data noScopes_plain.1
      have item : ascii "<li>" ++ noScopes ++ ascii "</li>" =
          Html.tag (ascii "li") ++ (noScopes ++ Html.tag (ascii "/li")) := by
        rw [List.append_assoc]
        rfl
      simp only [List.flatMap_nil, if_true, item, List.length_nil]
      refine ⟨closed_li.1.append (value.append closed_li.2), ?_, fun t => ?_⟩
      · rw [closed_li.1.tags_append, value.tags_append, Html.tags_of_notMem noScopes_plain.1]
        decide
      · rw [closed_li.1.textFrom_append, value.textFrom_append,
          Html.textFrom_of_notMem noScopes_plain.1, Html.textFrom_tag rfl, Html.textFrom_tag rfl,
          List.nil_append, List.append_nil, Html.unescapeString_append noScopes_plain.2]
  | cons sc rest =>
      obtain ⟨closed, tags, text⟩ := tags_scopeItems (sc :: rest)
      have nonempty : (sc :: rest).flatMap scopeItem ≠ [] := by
        rw [List.flatMap_cons, scopeItem_eq]
        exact List.cons_ne_nil _ _
      have atLeastOne : max 1 (sc :: rest).length = (sc :: rest).length :=
        max_eq_right (Nat.succ_le_of_lt (List.length_pos_of_ne_nil (List.cons_ne_nil sc rest)))
      simp only [if_neg nonempty, if_neg (List.cons_ne_nil sc rest), atLeastOne]
      refine ⟨closed, tags, fun t => ?_⟩
      rw [text, unescapeString_flatMap]

/-! ## The whole page -/

/-- The page has the tags of its template, an item for each scope and the
hidden inputs, and no others. -/
theorem tags_consentHTML (clientName : Bytes) (p : AuthParams) :
    Html.tags (consentHTML clientName p) =
      Html.tags consentHead ++ (Html.tags consentWarning ++ (scopeTags p.scope ++
        (Html.tags consentForm ++ ((hiddenFields p).map (fun f => hiddenTag f.1 f.2) ++
          Html.tags consentTail)))) := by
  obtain ⟨scopesClosed, scopes, -⟩ := scopeListHTML_reads p.scope
  obtain ⟨inputsClosed, inputs, -⟩ := tags_hiddenTags (isName_hiddenFields p)
  rw [consentHTML, isPart_consentHead.closed.tags_append,
    (Html.closed_escapeString clientName).tags_append, Html.tags_escapeString, List.nil_append,
    isPart_consentWarning.closed.tags_append, scopesClosed.tags_append, scopes,
    isPart_consentForm.closed.tags_append, hiddenFieldsHTML, inputsClosed.tags_append, inputs]

/-- The page shows the name and the scopes as they are. -/
theorem text_consentHTML (clientName : Bytes) (p : AuthParams) :
    Html.text (consentHTML clientName p) =
      Html.textFrom .data consentHead ++ (clientName ++ (Html.textFrom .data consentWarning ++
        (scopeText p.scope ++ (Html.textFrom .data consentForm ++
          Html.textFrom .data consentTail)))) := by
  obtain ⟨scopesClosed, -, scopes⟩ := scopeListHTML_reads p.scope
  obtain ⟨inputsClosed, -, inputs⟩ := tags_hiddenTags (isName_hiddenFields p)
  have tail := Html.unescapeString_append isPart_consentTail.text []
  rw [List.append_nil] at tail
  rw [Html.text, consentHTML, isPart_consentHead.closed.textFrom_append,
    (Html.closed_escapeString clientName).textFrom_append, Html.textFrom_escapeString,
    isPart_consentWarning.closed.textFrom_append, scopesClosed.textFrom_append,
    isPart_consentForm.closed.textFrom_append, hiddenFieldsHTML, inputsClosed.textFrom_append,
    inputs, List.nil_append, Html.unescapeString_append isPart_consentHead.text,
    Html.unescapeString_escapeString_append,
    Html.unescapeString_append isPart_consentWarning.text, scopes,
    Html.unescapeString_append isPart_consentForm.text, tail]
  simp only [Html.unescapeString, Html.unescapeFrom, List.append_nil]

theorem entryOf_scopeTags (scope : Bytes) :
    (scopeTags scope).filterMap (Html.entryOf (ascii "input")) = [] := by
  have items : (scopeTags scope).all fun inside => inside = ascii "li" ∨ inside = ascii "/li" := by
    rw [List.all_eq_true]
    intro inside mem
    rw [scopeTags, List.mem_flatten] at mem
    obtain ⟨pair, inList, mem⟩ := mem
    rw [List.eq_of_mem_replicate inList, List.mem_cons, List.mem_singleton] at mem
    exact decide_eq_true mem
  rw [List.filterMap_eq_nil_iff]
  intro inside mem
  rcases of_decide_eq_true (List.all_eq_true.mp items inside mem) with rfl | rfl <;> decide

/-- The form carries the parameters. -/
theorem inputs_consentHTML (clientName : Bytes) (p : AuthParams) :
    Html.entries (ascii "input") (consentHTML clientName p) = hiddenFields p := by
  have parts : ∀ {s}, IsPart s → (Html.tags s).filterMap (Html.entryOf (ascii "input")) = [] :=
    fun isPart => isPart.inputs
  rw [Html.entries, tags_consentHTML]
  simp only [List.filterMap_append, parts isPart_consentHead, parts isPart_consentWarning,
    parts isPart_consentForm, parts isPart_consentTail, entryOf_scopeTags,
    entryOf_hiddenTags (isName_hiddenFields p), List.nil_append, List.append_nil]

/-- The page has both buttons. -/
theorem buttons_consentHTML (clientName : Bytes) (p : AuthParams) :
    (ascii "decision", ascii "accept") ∈ Html.entries (ascii "button") (consentHTML clientName p) ∧
      (ascii "decision", ascii "deny") ∈
        Html.entries (ascii "button") (consentHTML clientName p) := by
  have tail : ∀ e ∈ Html.entries (ascii "button") consentTail,
      e ∈ Html.entries (ascii "button") (consentHTML clientName p) := by
    intro e mem
    rw [Html.entries, tags_consentHTML]
    simp only [List.filterMap_append, List.mem_append]
    exact .inr (.inr (.inr (.inr (.inr mem))))
  rw [template_checked.2] at tail
  exact ⟨tail _ List.mem_cons_self, tail _ (List.mem_cons_of_mem _ List.mem_cons_self)⟩

/-! ## The form comes back -/

/-- What a form sends of a value, as the browser reads it. -/
def submittedValue (browser : Browser) (v : Bytes) : Bytes := Html.submitText (browser.decode v)

/-- The body of the form of a page that is submitted with one of its buttons. -/
def submitForm (browser : Browser) (page : Bytes) (button : Bytes × Bytes) : Bytes :=
  formBody ((Html.entries (ascii "input") page ++ [button]).map fun e =>
    (submittedValue browser e.1, submittedValue browser e.2))

/-- A `POST` of `/oauth/authorize` with this body. -/
def postAuthorize (body : Bytes) (cookie : Option Bytes) : AuthorizeRequest where
  method := .post
  responseType := []
  params := parseAuthParams (parseQuery body)
  cookie := cookie
  decision := (parseQuery body).get (ascii "decision")

/-- `ParseForm`, of the body and the query, finds no error. -/
def formParses (body query : Bytes) : Bool := queryParses body && queryParses query

/-- A parameter that a browser submits as it is. -/
def Submittable (v : Bytes) : Prop := ValidString v ∧ Html.OneLine v

theorem submittedValue_of_submittable (browser : Browser) {v : Bytes}
    (submittable : Submittable v) : submittedValue browser v = v := by
  rw [submittedValue, browser.decode_valid submittable.1, Html.submitText_of_oneLine submittable.2]

theorem submittable_of_plain {v : Bytes} (plain : v.all (fun b => 0x20 ≤ b && b < 0x80) = true) :
    Submittable v := by
  have bytes := fun b mem => Bool.and_eq_true_iff.mp (List.all_eq_true.mp plain b mem)
  have ascii_ : v.all (· < 0x80) = true := List.all_eq_true.mpr fun b mem => (bytes b mem).2
  refine ⟨validString_of_ascii ascii_, ?_, ?_, ?_⟩ <;>
    exact fun mem => absurd (bytes _ mem).1 (by decide)

theorem parseQuery_submit (browser : Browser) (clientName : Bytes) {p : AuthParams}
    (submittable : ∀ f ∈ hiddenFields p, Submittable f.2) {decision : Bytes}
    (known : decision ∈ [ascii "accept", ascii "deny"]) :
    parseQuery (submitForm browser (consentHTML clientName p) (ascii "decision", decision)) =
      hiddenFields p ++ [(ascii "decision", decision)] := by
  have plainDecision : Submittable decision := by
    simp only [List.mem_cons, List.not_mem_nil, or_false] at known
    rcases known with rfl | rfl <;> exact submittable_of_plain (by decide)
  have plainKey : Submittable (ascii "decision") := submittable_of_plain (by decide)
  have plainNames : ((hiddenFields p).map Prod.fst).all
      (fun name => name.all fun b => 0x20 ≤ b && b < 0x80) = true := by
    have fixed : (hiddenFields p).map Prod.fst =
        [ascii "client_id", ascii "redirect_uri", ascii "scope", ascii "state",
          ascii "code_challenge", ascii "code_challenge_method", ascii "resource"] := rfl
    rw [fixed]
    decide +kernel
  have unchanged : (hiddenFields p ++ [(ascii "decision", decision)]).map
      (fun e => (submittedValue browser e.1, submittedValue browser e.2)) =
        hiddenFields p ++ [(ascii "decision", decision)] := by
    refine (List.map_congr_left fun e mem => ?_).trans (List.map_id _)
    rcases List.mem_append.mp mem with field | isDecision
    · have name := submittable_of_plain (List.all_eq_true.mp plainNames e.1
        (List.mem_map_of_mem field))
      rw [submittedValue_of_submittable browser name,
        submittedValue_of_submittable browser (submittable e field), id]
    · rw [List.mem_singleton.mp isDecision, submittedValue_of_submittable browser plainDecision,
        submittedValue_of_submittable browser plainKey, id]
  rw [submitForm, inputs_consentHTML, unchanged, parseQuery_formBody]

theorem get_hiddenFields (p : AuthParams) (decision : Bytes) :
    parseAuthParams (hiddenFields p ++ [(ascii "decision", decision)]) = p ∧
      Values.get (hiddenFields p ++ [(ascii "decision", decision)]) (ascii "decision") =
        decision := by
  constructor
  · rfl
  · rfl

theorem authorizeClient_eq_consent {server : Server} {now : Nat} {req : AuthorizeRequest}
    {client : OAuthClient}
    (shown : server.authorizeClient now req client =
      .replied (.consent client.name req.params)) :
    req.params.redirectURI ∈ client.redirectURIs := by
  rw [Server.authorizeClient] at shown
  split at shown
  · cases shown
  · rename_i registered
    exact not_not.mp registered

/-- What the owner sees is what is granted, if the query is well formed and the
parameters are such as a form can send.  The page that a `GET` is shown has both
buttons, and whichever is pressed, the form comes back as a request for the same
parameters: it gets a code for them if the owner accepts, and an error goes to the
client if not. -/
theorem consent_returns {server : Server} {query : Bytes} (parses : queryParses query = true)
    {cookie : Option Bytes} {now : Nat} {client : OAuthClient} {p : AuthParams}
    (isParams : (getAuthorize query cookie).params = p)
    (asked : server.authorize (getAuthorize query cookie) true =
      .getClient (getAuthorize query cookie))
    (shown : server.authorizeClient now (getAuthorize query cookie) client =
      .replied (.consent client.name p))
    (submittable : ∀ f ∈ hiddenFields p, Submittable f.2) (browser : Browser) :
    let page := consentHTML client.name p
    (∀ decision ∈ [ascii "accept", ascii "deny"],
      (ascii "decision", decision) ∈ Html.entries (ascii "button") page) ∧
    ∀ decision ∈ [ascii "accept", ascii "deny"],
      let body := submitForm browser page (ascii "decision", decision)
      let posted := postAuthorize body cookie
      posted.params = p ∧
        server.authorize posted (formParses body query) = .getClient posted ∧
        ∀ later email, server.authCookie later cookie = some email →
          server.authorizeClient later posted client =
            if decision = ascii "accept" then .createCode posted email later
            else .replied (server.redirectWithError p.redirectURI p.state
              (ascii "access_denied")) := by
  have registered : p.redirectURI ∈ client.redirectURIs := by
    rw [← isParams] at shown ⊢
    exact authorizeClient_eq_consent shown
  have checked := authorizeParams_eq_getClient_iff.mp (authorizeParams_of_authorize asked)
  rw [isParams] at checked
  refine ⟨?_, ?_⟩
  · obtain ⟨accept, deny⟩ := buttons_consentHTML client.name p
    intro decision known
    simp only [List.mem_cons, List.not_mem_nil, or_false] at known
    rcases known with rfl | rfl
    · exact accept
    · exact deny
  · intro decision known body posted
    have entries := parseQuery_submit browser client.name submittable known
    have sameParams : posted.params = p := by
      simp only [posted, postAuthorize, body, entries]
      exact (get_hiddenFields p decision).1
    have sameDecision : posted.decision = decision := by
      simp only [posted, postAuthorize, body, entries]
      exact (get_hiddenFields p decision).2
    have bodyParses : formParses body query = true := by
      rw [formParses, parses, Bool.and_true]
      exact queryParses_formBody _
    refine ⟨sameParams, ?_, fun later email authed => ?_⟩
    · have isPost : posted.method = .post := rfl
      rw [Server.authorize, isPost, bodyParses]
      simp only [if_true]
      rw [authorizeParams_eq_getClient_iff, sameParams]
      exact checked
    · have isPost : posted.method = .post := rfl
      have sameCookie : posted.cookie = cookie := rfl
      rw [Server.authorizeClient, sameParams, sameDecision, sameCookie, authed, isPost,
        if_neg (not_not.mpr registered)]
      simp only [reduceCtorEq, if_false, ite_not]

/-- The query of the sample request. -/
def sampleQuery : Bytes := (authorizeQuery sampleRequest.params).encode

theorem sampleQuery_returns :
    (postAuthorize (submitForm ⟨id, fun _ => rfl⟩
      (consentHTML (ascii "app") sampleRequest.params) (ascii "decision", ascii "accept"))
        sampleRequest.cookie).params = sampleRequest.params := by
  have same : getAuthorize sampleQuery sampleRequest.cookie =
      ⟨.get, ascii "code", sampleRequest.params, sampleRequest.cookie, []⟩ :=
    getAuthorize_encode _ _
  have plain : ((hiddenFields sampleRequest.params).all fun f =>
      f.2.all fun b => 0x20 ≤ b && b < 0x80) = true := by decide +kernel
  have returned := @consent_returns sampleServer sampleQuery (by decide +kernel)
    sampleRequest.cookie 0 ⟨ascii "app", [ascii "https://a.io/cb"]⟩ sampleRequest.params
    (by rw [same]) (by rw [same]; decide +kernel) (by rw [same]; decide +kernel)
    (fun f mem => submittable_of_plain (List.all_eq_true.mp plain f mem)) ⟨id, fun _ => rfl⟩
  exact (returned.2 (ascii "accept") List.mem_cons_self).1

/-- No client writes anything into the page.  Whatever bytes its name and its
parameters have, the tags of the page are those of the template, an item for
each scope and the seven inputs; the name and the scopes are shown as they are;
and the inputs hold the parameters. -/
theorem consent_shows (clientName : Bytes) (p : AuthParams) :
    Html.tags (consentHTML clientName p) =
        Html.tags consentHead ++ (Html.tags consentWarning ++ (scopeTags p.scope ++
          (Html.tags consentForm ++ ((hiddenFields p).map (fun f => hiddenTag f.1 f.2) ++
            Html.tags consentTail)))) ∧
      Html.text (consentHTML clientName p) =
        Html.textFrom .data consentHead ++ (clientName ++ (Html.textFrom .data consentWarning ++
          (scopeText p.scope ++ (Html.textFrom .data consentForm ++
            Html.textFrom .data consentTail)))) ∧
      Html.entries (ascii "input") (consentHTML clientName p) = hiddenFields p :=
  ⟨tags_consentHTML clientName p, text_consentHTML clientName p, inputs_consentHTML clientName p⟩

end Drover.OAuth.Endpoint
