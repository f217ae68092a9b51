import Drover.Glasses.Access

/-!
# The glasses as they are mounted

`mountGlasses` builds the handler from the environment and enables the questions
before the mirror, so that each token is compared with those in front of it.
-/

namespace Drover.Glasses

/-! ## The environment -/

/-- What is read of a parsed URL: its scheme, its host, and what `String` writes. -/
structure ParsedURL where
  scheme : Bytes
  host : Bytes
  text : Bytes

/-- The variables of the glasses; one that is not set is empty. -/
structure Env where
  pullToken : Bytes
  answerToken : Bytes
  askToken : Bytes
  webhookURL : Bytes
  webhookKey : Bytes
  askPC : Bytes
  mirrorToken : Bytes

section

variable (parseURL : Bytes → Option ParsedURL)

/-- `NewWebhook`, unless it fails. -/
def newWebhook (rawURL key : Bytes) : Option Webhook :=
  match parseURL (trimSpace rawURL) with
  | none => none
  | some u =>
      if u.scheme ≠ ascii "https" ∨ u.host = [] then none
      else if trimSpace key = [] then none
      else some ⟨u.text, trimSpace key⟩

/-- `enableGlassesAsk`. -/
def enableGlassesAsk (env : Env) (h : Access) : Access :=
  if env.askToken = [] then h
  else
    match newWebhook parseURL env.webhookURL env.webhookKey with
    | none => h
    | some webhook => (h.enableAsk env.askToken (some webhook) env.askPC).1

/-- `enableGlassesChat`. -/
def enableGlassesChat (env : Env) (h : Access) : Access :=
  if env.mirrorToken = [] then h else (h.enableChat env.mirrorToken).1

/-- `mountGlasses`: the handler, if there is one. -/
def mountGlasses (store : Option StoreKind) (state : Bool) (env : Env) : Option Access :=
  if store = none ∨ state = false then none
  else if env.pullToken.length < minTokenLen then none
  else
    match newHandler store true env.pullToken env.answerToken with
    | .error _ => none
    | .ok h => some (enableGlassesChat env (enableGlassesAsk parseURL env h))

end

/-! ## What is enabled -/

section

variable (parseURL : Bytes → Option ParsedURL) (store : StoreKind) (env : Env)

/-- When the handler takes answers. -/
def Env.Answers : Prop :=
  minTokenLen ≤ env.answerToken.length ∧ env.answerToken ≠ env.pullToken

instance : Decidable env.Answers := inferInstanceAs (Decidable (_ ∧ _))

/-- When it takes questions. -/
def Env.Asks : Prop :=
  minTokenLen ≤ env.askToken.length ∧ env.askToken ≠ env.pullToken ∧
    (env.Answers → env.askToken ≠ env.answerToken) ∧ store.askStore = true ∧
      (newWebhook parseURL env.webhookURL env.webhookKey).isSome = true ∧
        (env.askPC = [] ∨ validPC env.askPC = true)

instance : Decidable (env.Asks parseURL store) := inferInstanceAs (Decidable (_ ∧ _))

/-- When it takes lines of the mirror. -/
def Env.Mirrors : Prop :=
  minTokenLen ≤ env.mirrorToken.length ∧ env.mirrorToken ≠ env.pullToken ∧
    (env.Answers → env.mirrorToken ≠ env.answerToken) ∧
      (env.Asks parseURL store → env.mirrorToken ≠ env.askToken) ∧ store.chatStore = true

instance : Decidable (env.Mirrors parseURL store) := inferInstanceAs (Decidable (_ ∧ _))

/-- The roles that the environment enables. -/
def Env.Enables : Role → Prop
  | .pull => True
  | .answer => env.Answers
  | .ask => env.Asks parseURL store
  | .chatPush => env.Mirrors parseURL store

/-- The token of a role. -/
def Env.token : Role → Bytes
  | .pull => env.pullToken
  | .answer => env.answerToken
  | .ask => env.askToken
  | .chatPush => env.mirrorToken

/-- The handler before the mirror is enabled. -/
structure AskMounted (h : Access) : Prop where
  wellformed : h.Wellformed
  isStore : h.store = store
  pull : h.pullToken = env.pullToken
  answer : h.answerToken = if env.Answers then env.answerToken else []
  ask : h.askToken = if env.Asks parseURL store then env.askToken else []
  mirror : h.mirrorToken = []

/-- The handler that is mounted. -/
structure Mounted (h : Access) : Prop where
  wellformed : h.Wellformed
  pull : h.pullToken = env.pullToken
  answer : h.answerToken = if env.Answers then env.answerToken else []
  ask : h.askToken = if env.Asks parseURL store then env.askToken else []
  mirror : h.mirrorToken = if env.Mirrors parseURL store then env.mirrorToken else []

end

section

variable {parseURL : Bytes → Option ParsedURL} {store : StoreKind} {env : Env} {h : Access}

/-- A long token differs from an optional one if it does where there is one. -/
theorem ne_ite_iff {token other : Bytes} {P : Prop} [Decidable P]
    (long : minTokenLen ≤ token.length) :
    (token ≠ if P then other else []) ↔ (P → token ≠ other) := by
  by_cases holds : P
  · rw [if_pos holds]
    exact ⟨fun ne _ => ne, fun ne => ne holds⟩
  · rw [if_neg holds]
    exact iff_of_true (ne_nil_of_long long) fun isP => absurd isP holds

theorem newHandler_mounted (built : newHandler (some store) true env.pullToken env.answerToken =
    .ok h) : h.Wellformed ∧ h.store = store ∧ h.pullToken = env.pullToken ∧
      (h.answerToken = if env.Answers then env.answerToken else []) ∧ h.askToken = [] ∧
        h.mirrorToken = [] := by
  obtain ⟨wellformed, noAsk, noMirror⟩ := Access.wellformed_of_newHandler built
  rw [newHandler] at built
  split at built
  · cases built
  · split at built
    · cases built
    · cases built
      exact ⟨wellformed, rfl, rfl, rfl, noAsk, noMirror⟩

theorem askMounted (built : newHandler (some store) true env.pullToken env.answerToken = .ok h) :
    AskMounted parseURL store env (enableGlassesAsk parseURL env h) := by
  obtain ⟨wellformed, isStore, pull, answer, noAsk, noMirror⟩ := newHandler_mounted built
  have unchanged (notAsks : ¬ env.Asks parseURL store) : AskMounted parseURL store env h :=
    ⟨wellformed, isStore, pull, answer, by rw [if_neg notAsks, noAsk], noMirror⟩
  rw [enableGlassesAsk]
  split
  · rename_i unset
    refine unchanged fun asks => ?_
    exact ne_nil_of_long asks.1 unset
  · cases given : newWebhook parseURL env.webhookURL env.webhookKey with
    | none =>
        refine unchanged fun asks => ?_
        have isSome := asks.2.2.2.2.1
        rw [given] at isSome
        cases isSome
    | some webhook =>
        have asks_iff : h.Asks env.askToken (some webhook) env.askPC ↔ env.Asks parseURL store := by
          rw [Access.Asks, Env.Asks, pull, answer, isStore, given]
          constructor
          · rintro ⟨long, notPull, notAnswer, rest⟩
            exact ⟨long, notPull, (ne_ite_iff long).mp notAnswer, rest⟩
          · rintro ⟨long, notPull, notAnswer, rest⟩
            exact ⟨long, notPull, (ne_ite_iff long).mpr notAnswer, rest⟩
        have kept := wellformed.perform (.enableAsk env.askToken (some webhook) env.askPC)
        rw [Access.perform] at kept
        rcases h.enableAsk_cases env.askToken (some webhook) env.askPC with
          ⟨notAsks, e, fails⟩ | ⟨asks, opens⟩
        · simp only [fails]
          exact unchanged fun asks => notAsks (asks_iff.mpr asks)
        · simp only [opens] at kept ⊢
          exact ⟨kept, isStore, pull, answer, (if_pos (asks_iff.mp asks)).symm, noMirror⟩

/-- What `EnableChat` asks for is enough. -/
theorem enableChat_of_chats {mirrorToken : Bytes} (chats : h.Chats mirrorToken) :
    h.enableChat mirrorToken = ({ h with chat := true, mirrorToken := mirrorToken }, none) := by
  obtain ⟨long, notPull, notAnswer, notAsk, isStore⟩ := chats
  have apart : ¬ (mirrorToken = h.pullToken ∨ mirrorToken = h.answerToken ∨
      (h.askToken ≠ [] ∧ mirrorToken = h.askToken)) := by
    rw [not_or, not_or]
    exact ⟨notPull, notAnswer, fun both => notAsk both.2⟩
  rw [Access.enableChat, if_neg (not_lt.mpr long), if_neg apart, isStore]
  rfl

theorem AskMounted.chat (asked : AskMounted parseURL store env h) :
    Mounted parseURL store env (enableGlassesChat env h) := by
  have unchanged (notMirrors : ¬ env.Mirrors parseURL store) : Mounted parseURL store env h :=
    ⟨asked.wellformed, asked.pull, asked.answer, asked.ask, by rw [if_neg notMirrors, asked.mirror]⟩
  rw [enableGlassesChat]
  split
  · rename_i unset
    refine unchanged fun mirrors => ?_
    exact ne_nil_of_long mirrors.1 unset
  · have chats_iff : h.Chats env.mirrorToken ↔ env.Mirrors parseURL store := by
      rw [Access.Chats, Env.Mirrors, asked.pull, asked.answer, asked.ask, asked.isStore]
      constructor
      · rintro ⟨long, notPull, notAnswer, notAsk, isStore⟩
        exact ⟨long, notPull, (ne_ite_iff long).mp notAnswer, (ne_ite_iff long).mp notAsk, isStore⟩
      · rintro ⟨long, notPull, notAnswer, notAsk, isStore⟩
        exact ⟨long, notPull, (ne_ite_iff long).mpr notAnswer, (ne_ite_iff long).mpr notAsk,
          isStore⟩
    by_cases mirrors : env.Mirrors parseURL store
    · have kept := asked.wellformed.perform (.enableChat env.mirrorToken)
      rw [Access.perform] at kept
      rw [enableChat_of_chats (chats_iff.mpr mirrors)] at kept ⊢
      exact ⟨kept, asked.pull, asked.answer, asked.ask, (if_pos mirrors).symm⟩
    · rcases h.enableChat_cases env.mirrorToken with ⟨e, fails⟩ | ⟨chats, opens⟩
      · rw [fails]
        exact unchanged mirrors
      · exact absurd (chats_iff.mp chats) mirrors

/-- The questions and the mirror have different tokens. -/
theorem Mounted.rolesApart (mounted : Mounted parseURL store env h) : h.RolesApart := by
  rw [mounted.wellformed.rolesApart_iff]
  rintro ⟨same, isSome, -⟩
  have asks : env.Asks parseURL store := by
    by_contra notAsks
    exact isSome (mounted.ask.trans (if_neg notAsks))
  have mirrors : env.Mirrors parseURL store := by
    by_contra notMirrors
    exact isSome (same.trans (mounted.mirror.trans (if_neg notMirrors)))
  rw [mounted.ask, mounted.mirror, if_pos asks, if_pos mirrors] at same
  exact mirrors.2.2.2.1 asks same.symm

theorem ite_ne_nil_iff {token : Bytes} {P : Prop} [Decidable P]
    (long : P → minTokenLen ≤ token.length) : ((if P then token else []) != []) = true ↔ P := by
  rw [bne_iff_ne]
  by_cases holds : P
  · rw [if_pos holds]
    exact iff_of_true (ne_nil_of_long (long holds)) holds
  · rw [if_neg holds]
    exact iff_of_false (fun ne => ne rfl) holds

/-- A role is open if the environment enables it, with the environment's token. -/
theorem Mounted.enabled_iff (mounted : Mounted parseURL store env h) (role : Role) :
    (h.enabled role = true ↔ env.Enables parseURL store role) ∧
      (env.Enables parseURL store role → h.token role = env.token role) := by
  cases role with
  | pull => exact ⟨iff_of_true rfl trivial, fun _ => mounted.pull⟩
  | answer =>
      refine ⟨?_, fun answers => mounted.answer.trans (if_pos answers)⟩
      rw [Access.enabled, Access.answerEnabled, mounted.answer]
      exact ite_ne_nil_iff fun answers => answers.1
  | ask =>
      refine ⟨?_, fun asks => mounted.ask.trans (if_pos asks)⟩
      rw [Access.enabled, Access.askEnabled, mounted.ask]
      exact ite_ne_nil_iff fun asks => asks.1
  | chatPush =>
      refine ⟨?_, fun mirrors => mounted.mirror.trans (if_pos mirrors)⟩
      have open_ : (h.mirrorToken != []) = true ↔ env.Mirrors parseURL store := by
        rw [mounted.mirror]
        exact ite_ne_nil_iff fun mirrors => mirrors.1
      rw [Access.enabled, Access.chatEnabled, Bool.and_eq_true]
      constructor
      · exact fun both => open_.mp both.2
      · intro mirrors
        have isSome := open_.mpr mirrors
        exact ⟨(mounted.wellformed.mirror (bne_iff_ne.mp isSome)).1, isSome⟩

/-- The deployed roles.  Without a store, a state or a long token of pull nothing
is mounted; and whatever the environment is otherwise, a bearer is accepted for a
role of the mounted handler exactly if the environment enables the role and the
bearer is its token, and no bearer is accepted for two roles. -/
theorem mounted_roles (parseURL : Bytes → Option ParsedURL) (store : Option StoreKind)
    (state : Bool) (env : Env) :
    (mountGlasses parseURL store state env = none ↔
      store = none ∨ state = false ∨ env.pullToken.length < minTokenLen) ∧
    ∀ kind h, store = some kind → mountGlasses parseURL store state env = some h →
      h.RolesApart ∧ ∀ role value, h.Accepts role value ↔
        env.Enables parseURL kind role ∧ value = env.token role ∧
          ∃ authorization, bearerValue authorization = some value := by
  by_cases missing : store = none ∨ state = false
  · have unmounted : mountGlasses parseURL store state env = none := by
      rw [mountGlasses, if_pos missing]
    constructor
    · exact iff_of_true unmounted (missing.imp_right .inl)
    · rintro kind h - mounted
      cases unmounted.symm.trans mounted
  · obtain ⟨kind, rfl⟩ := Option.ne_none_iff_exists'.mp fun isNone => missing (.inl isNone)
    by_cases short : env.pullToken.length < minTokenLen
    · have unmounted : mountGlasses parseURL (some kind) state env = none := by
        rw [mountGlasses, if_neg missing, if_pos short]
      constructor
      · exact iff_of_true unmounted (.inr (.inr short))
      · rintro kind' h - mounted
        cases unmounted.symm.trans mounted
    · obtain ⟨h, built⟩ :
          ∃ h, newHandler (some kind) true env.pullToken env.answerToken = .ok h := by
        rw [newHandler, if_neg (by decide), if_neg short]
        exact ⟨_, rfl⟩
      have isMounted : mountGlasses parseURL (some kind) state env =
          some (enableGlassesChat env (enableGlassesAsk parseURL env h)) := by
        rw [mountGlasses, if_neg missing, if_neg short, built]
      constructor
      · rw [isMounted]
        refine iff_of_false (fun isNone => by cases isNone) ?_
        rintro (isNone | noState | isShort)
        · cases isNone
        · exact missing (.inr noState)
        · exact short isShort
      · rintro kind' h' same mounted
        cases same
        have mountedFields := (@askMounted parseURL kind env h built).chat
        rw [isMounted, Option.some.injEq] at mounted
        rw [mounted] at mountedFields
        refine ⟨mountedFields.rolesApart, fun role value => ?_⟩
        obtain ⟨isEnabled, isToken⟩ := mountedFields.enabled_iff role
        rw [h'.accepts_iff, isEnabled]
        constructor
        · rintro ⟨enables, rfl, carried⟩
          exact ⟨enables, isToken enables, carried⟩
        · rintro ⟨enables, rfl, carried⟩
          exact ⟨enables, (isToken enables).symm, carried⟩

end

end Drover.Glasses
