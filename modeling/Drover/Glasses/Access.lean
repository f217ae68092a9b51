import Drover.Glasses.Core
import Drover.Net.Query
import Drover.Slave.Endpoints
import Drover.Transition.Run

/-!
# The tokens of the glasses

A handler serves four roles with a token each: it is built with those of pull and answer,
and `EnableAsk` and `EnableChat` give it the other two.  `EnableChat` compares its token with
the three others; `EnableAsk` leaves out that of the mirror.
-/

namespace Drover.Glasses

open Drover.Net (cut space)
open Drover.Slave (toLower)
open Drover.Transition

/-! ## Handlers -/

/-- `MinTokenLen`. -/
def minTokenLen : Nat := 32

/-- The interfaces that a `Store` may have besides its own. -/
structure StoreKind where
  askStore : Bool
  chatStore : Bool

/-- `Webhook`. -/
structure Webhook where
  url : Bytes
  key : Bytes

/-- The `Handler`, as its `ServeHTTP` sees it. -/
structure Access where
  store : StoreKind
  pullToken : Bytes
  answerToken : Bytes
  askToken : Bytes
  webhook : Option Webhook
  askPC : Bytes
  /-- Whether `chat` is set. -/
  chat : Bool
  mirrorToken : Bytes

/-- The error of a short token. -/
def tooShort (name : String) : Bytes := utf8 ("glasses: " ++ name ++ " が短すぎます（32 文字以上）")

/-- `NewHandler`. -/
def newHandler (store : Option StoreKind) (registry : Bool) (pullToken answerToken : Bytes) :
    Except Bytes Access :=
  match store with
  | none => .error (utf8 "glasses: store が nil です")
  | some store =>
      if registry = false then .error (utf8 "glasses: registry が nil です")
      else if pullToken.length < minTokenLen then .error (tooShort "GLASSES_PULL_TOKEN")
      else
        .ok
          { store := store
            pullToken := pullToken
            answerToken :=
              if minTokenLen ≤ answerToken.length ∧ answerToken ≠ pullToken then answerToken else []
            askToken := []
            webhook := none
            askPC := []
            chat := false
            mirrorToken := [] }

/-- `EnableAsk`: the handler afterwards, and the error. -/
def Access.enableAsk (h : Access) (token : Bytes) (webhook : Option Webhook) (defaultPC : Bytes) :
    Access × Option Bytes :=
  if token.length < minTokenLen then (h, some (tooShort "GLASSES_ASK_TOKEN"))
  else if token = h.pullToken ∨ (h.answerToken ≠ [] ∧ token = h.answerToken) then
    (h, some (utf8 "glasses: GLASSES_ASK_TOKEN は取得・投入トークンと別にしてください"))
  else if h.store.askStore = false then
    (h, some (utf8 "glasses: ストアが問い合わせに対応していません"))
  else
    match webhook with
    | none => (h, some (utf8 "glasses: webhook が未設定です"))
    | some webhook =>
        if defaultPC ≠ [] ∧ validPC defaultPC = false then
          (h, some (utf8 "glasses: GLASSES_ASK_PC が不正です"))
        else ({ h with askToken := token, webhook := some webhook, askPC := defaultPC }, none)

/-- `EnableChat`. -/
def Access.enableChat (h : Access) (mirrorToken : Bytes) : Access × Option Bytes :=
  if mirrorToken.length < minTokenLen then (h, some (tooShort "GLASSES_MIRROR_TOKEN"))
  else if mirrorToken = h.pullToken ∨ mirrorToken = h.answerToken ∨
      (h.askToken ≠ [] ∧ mirrorToken = h.askToken) then
    (h, some (utf8 "glasses: GLASSES_MIRROR_TOKEN は他のトークンと別にしてください"))
  else if h.store.chatStore = false then
    (h, some (utf8 "glasses: ストアがミラーに対応していません"))
  else ({ h with chat := true, mirrorToken := mirrorToken }, none)

/-! ## Requests -/

/-- What the bearer of an `Authorization` header is compared as; no other character folds to
one of the scheme. -/
def bearerValue (authorization : Bytes) : Option Bytes :=
  let got := trimSpace authorization
  if space ∈ got ∧ (cut space got).1.map toLower = ascii "bearer" then
    some (trimSpace (cut space got).2)
  else none

/-- `authorized`. -/
def authorized (authorization want : Bytes) : Bool := bearerValue authorization == some want

/-- What `ServeHTTP` makes of a request before it counts it. -/
inductive Admission where
  | notFound
  | methodNotAllowed (allow : Bytes)
  | unauthorized
  | admitted
  deriving DecidableEq

/-- The checks in front of an endpoint. -/
def admission (enabled : Bool) (method allow : Bytes) (isAuthorized : Bool) : Admission :=
  if enabled = false then .notFound
  else if method ≠ allow then .methodNotAllowed allow
  else if isAuthorized = false then .unauthorized
  else .admitted

/-- `http.MethodGet`. -/
def methodGet : Bytes := ascii "GET"

/-- `http.MethodPost`. -/
def methodPost : Bytes := ascii "POST"

/-- `AnswerEnabled`. -/
def Access.answerEnabled (h : Access) : Bool := h.answerToken != []

/-- `AskEnabled`. -/
def Access.askEnabled (h : Access) : Bool := h.askToken != []

/-- `ChatEnabled`. -/
def Access.chatEnabled (h : Access) : Bool := h.chat && h.mirrorToken != []

/-- `authorizedChatRead`. -/
def Access.authorizedChatRead (h : Access) (authorization : Bytes) : Bool :=
  [h.askToken, h.mirrorToken].any fun token => token != [] && authorized authorization token

/-- `serveAsk`. -/
def Access.serveAsk (h : Access) (allow method authorization : Bytes) : Admission :=
  admission h.askEnabled method allow (authorized authorization h.askToken)

/-- `serveChat`. -/
def Access.serveChat (h : Access) (allow : Bytes) (isPush : Bool) (method authorization : Bytes) :
    Admission :=
  admission h.chatEnabled method allow
    (if isPush then authorized authorization h.mirrorToken else h.authorizedChatRead authorization)

/-- The paths of `ServeHTTP`. -/
inductive Endpoint where
  | answers
  | ack
  | answer
  | ask
  | reply
  | chat
  | chatRecent
  deriving DecidableEq

/-- The path that the endpoint is mounted at. -/
def Endpoint.path : Endpoint → Bytes
  | .answers => ascii "/glasses/answers"
  | .ack => ascii "/glasses/answers/ack"
  | .answer => ascii "/glasses/answer"
  | .ask => ascii "/glasses/ask"
  | .reply => ascii "/glasses/reply"
  | .chat => ascii "/glasses/chat"
  | .chatRecent => ascii "/glasses/chat/recent"

/-- All the endpoints. -/
def endpoints : List Endpoint := [.answers, .ack, .answer, .ask, .reply, .chat, .chatRecent]

/-- `ServeHTTP`, up to its rate limits. -/
def Access.serveHTTP (h : Access) (path method authorization : Bytes) : Admission :=
  match endpoints.find? fun endpoint => endpoint.path == path with
  | some .answers => admission true method methodGet (authorized authorization h.pullToken)
  | some .ack => admission true method methodPost (authorized authorization h.pullToken)
  | some .answer =>
      admission h.answerEnabled method methodPost (authorized authorization h.answerToken)
  | some .ask => h.serveAsk methodPost method authorization
  | some .reply => h.serveAsk methodGet method authorization
  | some .chat => h.serveChat methodPost true method authorization
  | some .chatRecent => h.serveChat methodGet false method authorization
  | none => .notFound

/-! ## Roles -/

/-- What a token is for. -/
inductive Role where
  | pull
  | answer
  | ask
  | chatPush
  deriving DecidableEq

/-- The role of an endpoint; the lines of the mirror are read with the token of two. -/
def Endpoint.role : Endpoint → Option Role
  | .answers | .ack => some .pull
  | .answer => some .answer
  | .ask | .reply => some .ask
  | .chat => some .chatPush
  | .chatRecent => none

/-- A request with the header is admitted at an endpoint of the role. -/
def Access.Admits (h : Access) (role : Role) (authorization : Bytes) : Prop :=
  ∃ endpoint : Endpoint, ∃ method, endpoint.role = some role ∧
    h.serveHTTP endpoint.path method authorization = .admitted

/-- The bearer is accepted for the role. -/
def Access.Accepts (h : Access) (role : Role) (value : Bytes) : Prop :=
  ∃ authorization, bearerValue authorization = some value ∧ h.Admits role authorization

/-- No bearer is accepted for two roles. -/
def Access.RolesApart (h : Access) : Prop :=
  ∀ value role role', h.Accepts role value → h.Accepts role' value → role = role'

/-! ## What is accepted -/

/-- The token of a role. -/
def Access.token (h : Access) : Role → Bytes
  | .pull => h.pullToken
  | .answer => h.answerToken
  | .ask => h.askToken
  | .chatPush => h.mirrorToken

/-- Whether the endpoints of the role are mounted. -/
def Access.enabled (h : Access) : Role → Bool
  | .pull => true
  | .answer => h.answerEnabled
  | .ask => h.askEnabled
  | .chatPush => h.chatEnabled

theorem admission_eq_admitted_iff {enabled isAuthorized : Bool} {method allow : Bytes} :
    admission enabled method allow isAuthorized = .admitted ↔
      enabled = true ∧ method = allow ∧ isAuthorized = true := by
  rw [admission]
  split_ifs <;> simp_all

theorem find_endpoint (endpoint : Endpoint) :
    endpoints.find? (fun other => other.path == endpoint.path) = some endpoint := by
  cases endpoint <;> decide

/-- The method of an endpoint. -/
def Endpoint.method : Endpoint → Bytes
  | .answers | .reply | .chatRecent => methodGet
  | .ack | .answer | .ask | .chat => methodPost

/-- An endpoint of a role checks the token of the role. -/
theorem Access.serveHTTP_of_role (h : Access) {endpoint : Endpoint} {role : Role}
    (isRole : endpoint.role = some role) (method authorization : Bytes) :
    h.serveHTTP endpoint.path method authorization =
      admission (h.enabled role) method endpoint.method
        (authorized authorization (h.token role)) := by
  rw [serveHTTP, find_endpoint]
  cases endpoint <;> cases isRole <;> rfl

theorem exists_endpoint (role : Role) : ∃ endpoint : Endpoint, endpoint.role = some role := by
  cases role with
  | pull => exact ⟨.answers, rfl⟩
  | answer => exact ⟨.answer, rfl⟩
  | ask => exact ⟨.ask, rfl⟩
  | chatPush => exact ⟨.chat, rfl⟩

theorem Access.admits_iff (h : Access) (role : Role) (authorization : Bytes) :
    h.Admits role authorization ↔
      h.enabled role = true ∧ bearerValue authorization = some (h.token role) := by
  have isToken : authorized authorization (h.token role) = true ↔
      bearerValue authorization = some (h.token role) := by rw [authorized, beq_iff_eq]
  constructor
  · rintro ⟨endpoint, method, isRole, admitted⟩
    rw [h.serveHTTP_of_role isRole, admission_eq_admitted_iff, isToken] at admitted
    exact ⟨admitted.1, admitted.2.2⟩
  · rintro ⟨isEnabled, same⟩
    obtain ⟨endpoint, isRole⟩ := exists_endpoint role
    refine ⟨endpoint, endpoint.method, isRole, ?_⟩
    rw [h.serveHTTP_of_role isRole, admission_eq_admitted_iff, isToken]
    exact ⟨isEnabled, rfl, same⟩

/-- A bearer is accepted for a role if it is the token of the role and a header can carry
it. -/
theorem Access.accepts_iff (h : Access) (role : Role) (value : Bytes) :
    h.Accepts role value ↔ h.enabled role = true ∧ value = h.token role ∧
      ∃ authorization, bearerValue authorization = some value := by
  constructor
  · rintro ⟨authorization, carries, admits⟩
    rw [h.admits_iff, carries] at admits
    exact ⟨admits.1, Option.some.inj admits.2, authorization, carries⟩
  · rintro ⟨isEnabled, rfl, authorization, carries⟩
    exact ⟨authorization, carries, (h.admits_iff role authorization).mpr ⟨isEnabled, carries⟩⟩

/-- What a header carries has no space at its ends. -/
theorem trimmed_of_bearerValue {authorization value : Bytes}
    (carries : bearerValue authorization = some value) : Trimmed value := by
  simp only [bearerValue] at carries
  split at carries
  · cases carries
    exact trimmed_trimSpace _
  · cases carries

/-- A long value without them is carried. -/
theorem bearerValue_append {value : Bytes} (trimmed : Trimmed value)
    (long : minTokenLen ≤ value.length) : bearerValue (ascii "Bearer " ++ value) = some value := by
  have scheme : ascii "Bearer " ++ value = ascii "Bearer" ++ space :: value := rfl
  have whole : Trimmed (ascii "Bearer " ++ value) := by
    apply trimmed.append (Nat.le_trans (by decide) long)
    intro char inSpaces isPrefix
    have noLetter : ∀ char ∈ spaces, ¬ char <+: ascii "Bearer " ∧ ¬ ascii "Bearer " <+: char := by
      decide
    rcases List.prefix_or_prefix_of_prefix isPrefix (List.prefix_append _ value) with short | long
    · exact (noLetter char inSpaces).1 short
    · exact (noLetter char inSpaces).2 long
  have isCut : cut space (ascii "Bearer" ++ space :: value) = (ascii "Bearer", value) :=
    Net.cut_append (by decide) value
  simp only [bearerValue]
  rw [trimSpace_of_trimmed whole, scheme, isCut, trimSpace_of_trimmed trimmed, if_pos]
  constructor
  · simp
  · exact (by decide : (ascii "Bearer").map toLower = ascii "bearer")

/-! ## Calls -/

/-- A call of `EnableAsk` or `EnableChat`. -/
inductive Access.Call where
  | enableAsk (token : Bytes) (webhook : Option Webhook) (defaultPC : Bytes)
  | enableChat (mirrorToken : Bytes)

/-- The handler after a call, and the error. -/
def Access.perform (h : Access) : Call → Access × Option Bytes
  | .enableAsk token webhook defaultPC => h.enableAsk token webhook defaultPC
  | .enableChat mirrorToken => h.enableChat mirrorToken

/-- A handler goes on after a call that has failed. -/
def Access.step : Step Access Access.Call := fun h call => some (h.perform call).1

/-- What `EnableAsk` asks for. -/
def Access.Asks (h : Access) (token : Bytes) (webhook : Option Webhook) (defaultPC : Bytes) :
    Prop :=
  minTokenLen ≤ token.length ∧ token ≠ h.pullToken ∧ token ≠ h.answerToken ∧
    h.store.askStore = true ∧ webhook.isSome = true ∧
      (defaultPC = [] ∨ validPC defaultPC = true)

/-- What `EnableChat` asks for. -/
def Access.Chats (h : Access) (mirrorToken : Bytes) : Prop :=
  minTokenLen ≤ mirrorToken.length ∧ mirrorToken ≠ h.pullToken ∧ mirrorToken ≠ h.answerToken ∧
    mirrorToken ≠ h.askToken ∧ h.store.chatStore = true

theorem ne_nil_of_long {token : Bytes} (long : minTokenLen ≤ token.length) : token ≠ [] := by
  rintro rfl
  exact absurd long (by decide)

/-- What `EnableAsk` does: it fails and changes nothing, or sets the token. -/
theorem Access.enableAsk_cases (h : Access) (token : Bytes) (webhook : Option Webhook)
    (defaultPC : Bytes) :
    (¬ h.Asks token webhook defaultPC ∧ ∃ e, h.enableAsk token webhook defaultPC = (h, some e)) ∨
    (h.Asks token webhook defaultPC ∧ h.enableAsk token webhook defaultPC =
      ({ h with askToken := token, webhook := webhook, askPC := defaultPC }, none)) := by
  rw [enableAsk.eq_def, Asks]
  split
  · rename_i short
    exact .inl ⟨fun asks => not_le.mpr short asks.1, _, rfl⟩
  · rename_i long
    have nonempty := ne_nil_of_long (not_lt.mp long)
    split
    · rename_i same
      left
      refine ⟨?_, _, rfl⟩
      rintro ⟨-, notPull, notAnswer, -⟩
      exact same.elim notPull fun both => notAnswer both.2
    · rename_i other
      rw [not_or, not_and] at other
      have notAnswer : token ≠ h.answerToken := by
        intro same
        exact other.2 (same ▸ nonempty) same
      split
      · rename_i noStore
        exact .inl ⟨fun asks => absurd asks.2.2.2.1 (by simp [noStore]), _, rfl⟩
      · rename_i isStore
        rw [Bool.not_eq_false] at isStore
        cases webhook with
        | none => exact .inl ⟨fun asks => absurd asks.2.2.2.2.1 (by decide), _, rfl⟩
        | some webhook =>
            simp only
            split
            · rename_i invalid
              left
              refine ⟨?_, _, rfl⟩
              rintro ⟨-, -, -, -, -, valid⟩
              exact valid.elim invalid.1 fun isValid => absurd isValid (by simp [invalid.2])
            · rename_i valid
              rw [not_and, Bool.not_eq_false] at valid
              exact .inr ⟨⟨not_lt.mp long, other.1, notAnswer, isStore, rfl,
                or_iff_not_imp_left.mpr valid⟩, rfl⟩

/-- What `EnableChat` does. -/
theorem Access.enableChat_cases (h : Access) (mirrorToken : Bytes) :
    (∃ e, h.enableChat mirrorToken = (h, some e)) ∨
    (h.Chats mirrorToken ∧ h.enableChat mirrorToken =
      ({ h with chat := true, mirrorToken := mirrorToken }, none)) := by
  rw [enableChat, Chats]
  split
  · exact .inl ⟨_, rfl⟩
  · rename_i long
    have nonempty := ne_nil_of_long (not_lt.mp long)
    split
    · exact .inl ⟨_, rfl⟩
    · rename_i other
      rw [not_or, not_or, not_and] at other
      have notAsk : mirrorToken ≠ h.askToken := by
        intro same
        exact other.2.2 (same ▸ nonempty) same
      split
      · exact .inl ⟨_, rfl⟩
      · rename_i isStore
        rw [Bool.not_eq_false] at isStore
        exact .inr ⟨⟨not_lt.mp long, other.1, other.2.1, notAsk, isStore⟩, rfl⟩

/-- A call that fails changes nothing. -/
theorem Access.perform_of_error (h : Access) (call : Call) {e : Bytes}
    (failed : (h.perform call).2 = some e) : (h.perform call).1 = h := by
  cases call with
  | enableAsk token webhook defaultPC =>
      rw [perform] at failed ⊢
      rcases h.enableAsk_cases token webhook defaultPC with ⟨-, e, fails⟩ | ⟨-, opens⟩
      · rw [fails]
      · rw [opens] at failed
        cases failed
  | enableChat mirrorToken =>
      rw [perform] at failed ⊢
      rcases h.enableChat_cases mirrorToken with ⟨e, fails⟩ | ⟨-, opens⟩
      · rw [fails]
      · rw [opens] at failed
        cases failed

/-! ## Runs -/

/-- The tokens of a handler that is built and enabled. -/
structure Access.Wellformed (h : Access) : Prop where
  pull : minTokenLen ≤ h.pullToken.length
  answer : h.answerToken ≠ [] → h.answerToken ≠ h.pullToken
  ask : h.askToken ≠ [] → minTokenLen ≤ h.askToken.length ∧ h.askToken ≠ h.pullToken ∧
    h.askToken ≠ h.answerToken
  mirror : h.mirrorToken ≠ [] → h.chat = true ∧ minTokenLen ≤ h.mirrorToken.length ∧
    h.mirrorToken ≠ h.pullToken ∧ h.mirrorToken ≠ h.answerToken

theorem Access.wellformed_of_newHandler {store : Option StoreKind} {registry : Bool}
    {pullToken answerToken : Bytes} {h : Access}
    (built : newHandler store registry pullToken answerToken = .ok h) :
    h.Wellformed ∧ h.askToken = [] ∧ h.mirrorToken = [] := by
  rw [newHandler.eq_def] at built
  split at built
  · cases built
  · split at built
    · cases built
    · split at built
      · cases built
      · rename_i long
        cases built
        refine ⟨⟨not_lt.mp long, ?_, fun some => absurd rfl some, fun some => absurd rfl some⟩,
          rfl, rfl⟩
        intro isSome
        simp only at isSome ⊢
        split at isSome
        · rename_i given
          rw [if_pos given]
          exact given.2
        · exact absurd rfl isSome

theorem Access.Wellformed.perform {h : Access} (wellformed : h.Wellformed) (call : Call) :
    (h.perform call).1.Wellformed := by
  cases call with
  | enableAsk token webhook defaultPC =>
      rw [Access.perform]
      rcases h.enableAsk_cases token webhook defaultPC with ⟨-, e, fails⟩ | ⟨asks, opens⟩
      · rw [fails]
        exact wellformed
      · rw [opens]
        exact { wellformed with ask := fun _ => ⟨asks.1, asks.2.1, asks.2.2.1⟩ }
  | enableChat mirrorToken =>
      rw [Access.perform]
      rcases h.enableChat_cases mirrorToken with ⟨e, fails⟩ | ⟨chats, opens⟩
      · rw [fails]
        exact wellformed
      · rw [opens]
        exact { wellformed with mirror := fun _ => ⟨rfl, chats.1, chats.2.1, chats.2.2.1⟩ }

/-- The tokens of ask and mirror are one, and a header can carry it. -/
def Access.Clash (h : Access) : Prop :=
  h.askToken = h.mirrorToken ∧ h.askToken ≠ [] ∧ Trimmed h.askToken

/-- A token that is accepted for two roles is that of ask and mirror. -/
theorem Access.Wellformed.askToken_eq {h : Access} (wellformed : h.Wellformed) {role role' : Role}
    (isEnabled : h.enabled role = true) (isEnabled' : h.enabled role' = true)
    (same : h.token role = h.token role') (other : role ≠ role') :
    h.askToken = h.mirrorToken ∧ h.askToken ≠ [] ∧ h.token role = h.askToken := by
  obtain ⟨pull, answer, ask, mirror⟩ := wellformed
  cases role <;> cases role' <;>
    simp_all [enabled, token, answerEnabled, askEnabled, chatEnabled]

/-- The roles are apart unless the tokens clash. -/
theorem Access.Wellformed.rolesApart_iff {h : Access} (wellformed : h.Wellformed) :
    h.RolesApart ↔ ¬ h.Clash := by
  constructor
  · rintro apart ⟨same, isSome, trimmed⟩
    obtain ⟨isChat, -⟩ := wellformed.mirror (same ▸ isSome)
    have carried := bearerValue_append trimmed (wellformed.ask isSome).1
    have asks : h.Accepts .ask h.askToken := by
      rw [h.accepts_iff, enabled, askEnabled, bne_iff_ne]
      exact ⟨isSome, rfl, _, carried⟩
    have pushes : h.Accepts .chatPush h.askToken := by
      rw [h.accepts_iff, enabled, chatEnabled, isChat, Bool.true_and, bne_iff_ne]
      exact ⟨same ▸ isSome, same, _, carried⟩
    cases apart _ _ _ asks pushes
  · intro noClash value role role' accepts accepts'
    rw [h.accepts_iff] at accepts accepts'
    obtain ⟨isEnabled, isToken, authorization, carried⟩ := accepts
    obtain ⟨isEnabled', isToken', -⟩ := accepts'
    by_contra other
    have sameToken : h.token role = h.token role' := isToken.symm.trans isToken'
    obtain ⟨same, isSome, isAsk⟩ := wellformed.askToken_eq isEnabled isEnabled' sameToken other
    have trimmed := trimmed_of_bearerValue carried
    rw [isToken, isAsk] at trimmed
    exact noClash ⟨same, isSome, trimmed⟩

/-- The call is no `EnableAsk` with the token of the mirror that passes what it checks; no token
with a space at an end is accepted. -/
def Access.Separates (h : Access) : Call → Prop
  | .enableAsk token webhook defaultPC =>
      ¬ (token = h.mirrorToken ∧ token ≠ [] ∧ trimSpace token = token ∧
        h.store.askStore = true ∧ webhook.isSome = true ∧
        (defaultPC = [] ∨ validPC defaultPC = true))
  | .enableChat _ => True

instance (h : Access) : (call : Access.Call) → Decidable (h.Separates call)
  | .enableAsk .. => inferInstanceAs (Decidable (¬ _))
  | .enableChat _ => isTrue trivial

/-- One call keeps the roles apart exactly if it separates them. -/
theorem Access.Wellformed.perform_rolesApart_iff {h : Access} (wellformed : h.Wellformed)
    (apart : h.RolesApart) (call : Call) :
    (h.perform call).1.RolesApart ↔ h.Separates call := by
  rw [(wellformed.perform call).rolesApart_iff]
  rw [wellformed.rolesApart_iff] at apart
  cases call with
  | enableAsk token webhook defaultPC =>
      rw [Access.perform, Separates, not_iff_not, trimSpace_eq_self_iff]
      rcases h.enableAsk_cases token webhook defaultPC with ⟨notAsks, e, fails⟩ | ⟨asks, opens⟩
      · rw [fails]
        apply iff_of_false apart
        rintro ⟨same, isSome, -, rest⟩
        obtain ⟨-, long, notPull, notAnswer⟩ := wellformed.mirror (same ▸ isSome)
        rw [← same] at long notPull notAnswer
        exact notAsks ⟨long, notPull, notAnswer, rest⟩
      · rw [opens]
        constructor
        · rintro ⟨same, isSome, trimmed⟩
          exact ⟨same, isSome, trimmed, asks.2.2.2⟩
        · rintro ⟨same, isSome, trimmed, -⟩
          exact ⟨same, isSome, trimmed⟩
  | enableChat mirrorToken =>
      rw [Access.perform, Separates, iff_true]
      rcases h.enableChat_cases mirrorToken with ⟨e, fails⟩ | ⟨chats, opens⟩
      · rw [fails]
        exact apart
      · rw [opens]
        rintro ⟨same, -⟩
        exact chats.2.2.2.1 same.symm

/-- A call that fails leaves what is accepted for each role. -/
def Access.FailsCleanly (h : Access) (call : Call) : Prop :=
  (h.perform call).2.isSome = true →
    ∀ role value, (h.perform call).1.Accepts role value ↔ h.Accepts role value

/-- Glasses tokens keep their roles apart over a run exactly if no `EnableAsk` takes the
token of the mirror, and a call that fails changes nothing. -/
theorem roles {store : Option StoreKind} {registry : Bool} {pullToken answerToken : Bytes}
    {h : Access} (built : newHandler store registry pullToken answerToken = .ok h)
    (calls : List Access.Call) :
    (Always Access.step Access.RolesApart h calls ↔
      Along Access.step Access.Separates h calls) ∧
    Along Access.step Access.FailsCleanly h calls := by
  obtain ⟨wellformed, noAsk, -⟩ := Access.wellformed_of_newHandler built
  constructor
  · have apart : h.RolesApart := by
      rw [wellformed.rolesApart_iff]
      rintro ⟨-, isSome, -⟩
      exact isSome noAsk
    apply @always_iff_along _ _ Access.step (fun _ _ => True) Access.Separates Access.Wellformed
    · rintro before call after wellformed - taken
      cases taken
      exact wellformed.perform call
    · rintro before call after wellformed apart - taken
      cases taken
      exact wellformed.perform_rolesApart_iff apart call
    · exact wellformed
    · exact apart
    · exact along_of_forall (fun _ _ _ => trivial) h
  · apply along_of_forall
    intro call _ before failed role value
    obtain ⟨e, isError⟩ := Option.isSome_iff_exists.mp failed
    rw [before.perform_of_error call isError]

/-- Tokens of a test. -/
def sampleToken (b : UInt8) : Bytes := List.replicate minTokenLen b

/-- A webhook with a key. -/
def sampleWebhook : Webhook := ⟨ascii "https://example.com/hook", ascii "key"⟩

/-- The handler of the two tokens, before anything is enabled. -/
def sampleAccess : Access :=
  ⟨⟨true, true⟩, sampleToken 0x70, sampleToken 0x61, [], none, [], false, []⟩

theorem sampleAccess_built :
    newHandler (some ⟨true, true⟩) true (sampleToken 0x70) (sampleToken 0x61) = .ok sampleAccess :=
  rfl

/-- As the relay enables them: the questions first, then the mirror. -/
theorem roles_sample :
    Always Access.step Access.RolesApart sampleAccess
      [.enableAsk (sampleToken 0x71) (some sampleWebhook) [], .enableChat (sampleToken 0x71),
        .enableChat (sampleToken 0x6d)] :=
  (roles sampleAccess_built _).1.mpr (by decide)

/-- The mirror first, then the questions with its token. -/
theorem mirror_token_asks :
    newHandler (some ⟨true, true⟩) true (sampleToken 0x70) (sampleToken 0x61) =
        .ok sampleAccess ∧
      ¬ Always Access.step Access.RolesApart sampleAccess
        [.enableChat (sampleToken 0x6d),
          .enableAsk (sampleToken 0x6d) (some sampleWebhook) []] := by
  constructor
  · exact sampleAccess_built
  · intro always
    have apart := (always.2 _ rfl).2 _ rfl
    have wellformed := (Access.wellformed_of_newHandler sampleAccess_built).1
    have trimmed : Trimmed (sampleToken 0x6d) := trimSpace_eq_self_iff.mp (by decide)
    exact ((wellformed.perform _).perform _).rolesApart_iff.mp apart ⟨rfl, by decide, trimmed⟩

end Drover.Glasses
