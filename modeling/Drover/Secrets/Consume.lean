import Drover.Data.Names
import Drover.Protocol.TakeOnce

/-!
# One-time secrets

`ConsumePairing` and `ConsumeOAuthCode` take a document once: they get it,
delete it whether or not that succeeds, and only then check its expiry.  Two
calls that both get the document before it is gone both return it, so one
enroll code can enroll two PCs and one authorization code can yield two token
pairs.
-/

namespace Drover.Secrets

open Drover.Protocol Drover.Transition
open TakeState

/-- A document of `pairings`; `expiresAt` is the time `time.Parse` reads from
`expires_at`, in nanoseconds, or `none` where it fails. -/
structure Pairing where
  pc : Bytes
  scope : Bytes
  expiresAt : Option Nat
  deriving DecidableEq

/-- `OAuthCode`, as `DataTo` decodes a document of `oauth_codes`. -/
structure OAuthCode where
  clientID : Bytes
  email : Bytes
  scopes : List Bytes
  codeChallenge : Bytes
  redirectURI : Bytes
  resource : Bytes
  expiresAt : Option Nat
  deriving DecidableEq

/-- `perr != nil || time.Now().After(t)` rejects. -/
def notAfter (expiresAt : Option Nat) (now : Nat) : Bool :=
  match expiresAt with
  | none => false
  | some t => decide (now ≤ t)

theorem notAfter_of_le {expiresAt : Option Nat} {t t' : Nat} (le : t ≤ t')
    (still : notAfter expiresAt t' = true) : notAfter expiresAt t = true := by
  cases expiresAt with
  | none => cases still
  | some e =>
      rw [notAfter, decide_eq_true_iff] at still ⊢
      exact Nat.le_trans le still

/-- `ConsumePairing`. -/
def consumePairing : Expiring Pairing where
  live p now := notAfter p.expiresAt now
  expires _ _ _ le still := notAfter_of_le le still

/-- `ConsumeOAuthCode`; a document is `none` where `DataTo` fails. -/
def consumeOAuthCode : Expiring (Option OAuthCode) where
  live doc now :=
    match doc with
    | none => false
    | some oc => notAfter oc.expiresAt now
  expires doc _ _ le still := by
    cases doc with
    | none => cases still
    | some oc => exact notAfter_of_le le still

/-! ## Enrolling -/

/-- What `enroll` reads besides the code, and how its other steps end: `bind` is
the result of `BindSlave`, `none` where it fails. -/
structure EnrollRequest where
  pc : Bytes
  secretFails : Bool
  bind : Option Bool
  deriving DecidableEq

/-- What `enroll` answers. -/
inductive EnrollReply where
  | refused (status : Nat)
  /-- A shared PC, with its refresh secret. -/
  | slave (pc : Bytes)
  | master
  deriving DecidableEq

/-- `enroll`, from the result of `ConsumePairing` on. -/
def enroll (r : EnrollRequest) (consumed : Option Pairing) : EnrollReply :=
  match consumed with
  | none => .refused 401
  | some p =>
      if p.scope ≠ ascii "enroll" ∧ p.scope ≠ ascii "enroll-slave" then .refused 401
      else if p.scope = ascii "enroll-slave" then
        if r.pc = [] then .refused 400
        else if ValidPCName r.pc = false then .refused 400
        else if r.secretFails then .refused 500
        else
          match r.bind with
          | none => .refused 500
          | some false => .refused 409
          | some true => .slave r.pc
      else .master

/-- The call has enrolled a PC. -/
def Enrolled (requests : CallId → EnrollRequest) (s : TakeState Pairing) (k : CallId) : Prop :=
  ∃ result, s.calls k = .returned result ∧ ∀ status, enroll (requests k) result ≠ .refused status

/-! ## Tokens for a code -/

/-- What `tokenFromCode` reads besides the code, and whether the token pair can
be made and stored. -/
structure TokenRequest where
  verifier : Bytes
  redirectURI : Bytes
  issueFails : Bool
  deriving DecidableEq

/-- What `tokenFromCode` answers. -/
inductive TokenReply where
  | invalidGrant
  | serverError
  | pair (email clientID : Bytes) (scopes : List Bytes)
  deriving DecidableEq

/-- `pkceVerify`, for the S256 transformation of the verifier. -/
def pkceVerify (s256 : Bytes → Bytes) (codeChallenge verifier : Bytes) : Bool :=
  if codeChallenge = [] ∨ verifier = [] then false else s256 verifier = codeChallenge

/-- `tokenFromCode`, from the result of `ConsumeOAuthCode` on. -/
def tokenFromCode (s256 : Bytes → Bytes) (r : TokenRequest) (consumed : Option (Option OAuthCode)) :
    TokenReply :=
  match consumed with
  | some (some oc) =>
      if r.redirectURI ≠ [] ∧ r.redirectURI ≠ oc.redirectURI then .invalidGrant
      else if pkceVerify s256 oc.codeChallenge r.verifier = false then .invalidGrant
      else if r.issueFails then .serverError
      else .pair oc.email oc.clientID oc.scopes
  | _ => .invalidGrant

/-- The call has issued a token pair. -/
def Issued (s256 : Bytes → Bytes) (requests : CallId → TokenRequest)
    (s : TakeState (Option OAuthCode)) (k : CallId) : Prop :=
  ∃ result email clientID scopes, s.calls k = .returned result ∧
    tokenFromCode s256 (requests k) result = .pair email clientID scopes

theorem Enrolled.returned {requests : CallId → EnrollRequest} {s : TakeState Pairing} {k : CallId}
    (enrolled : Enrolled requests s k) : ∃ p, s.calls k = .returned (some p) := by
  obtain ⟨result, returned, accepted⟩ := enrolled
  cases result with
  | none => exact absurd rfl (accepted 401)
  | some p => exact ⟨p, returned⟩

theorem Issued.returned {s256 : Bytes → Bytes} {requests : CallId → TokenRequest}
    {s : TakeState (Option OAuthCode)} {k : CallId} (issued : Issued s256 requests s k) :
    ∃ oc, s.calls k = .returned (some oc) := by
  obtain ⟨result, email, clientID, scopes, returned, pair⟩ := issued
  cases result with
  | none => cases pair
  | some oc => exact ⟨oc, returned⟩

/-! ## At most once -/

/-- In every state of the run at most one call has returned the secret, and at
most one has used it. -/
def ConsumedOnce {D : Type} (S : Expiring D) (Used : TakeState D → CallId → Prop) (doc : Option D)
    (clock : Nat) (actions : List TakeAction) : Prop :=
  Always (takeStep S) (fun s => AtMostOne s ∧ ∀ j k, Used s j → Used s k → j = k)
    (init doc clock) actions

theorem consumedOnce_of_alone {D : Type} {S : Expiring D} {Used : TakeState D → CallId → Prop}
    (returned : ∀ s k, Used s k → ∃ d, s.calls k = .returned (some d)) {doc : Option D}
    {clock : Nat}
    {actions : List TakeAction} (alone : Along (takeStep S) (Alone S) (init doc clock) actions) :
    ConsumedOnce S Used doc clock actions := by
  refine (atMostOne_of_alone S doc clock alone).imp fun s once => ⟨once, fun j k usedJ usedK => ?_⟩
  obtain ⟨d, resultJ⟩ := returned s j usedJ
  obtain ⟨e, resultK⟩ := returned s k usedK
  exact once j k d e resultJ resultK

/-- One-time secrets are consumed at most once in every run in which no Get
finds the document still good after another call has found it.  Any other Get
can be followed by a second use. -/
theorem secrets_consumed_once (clock : Nat) (s256 : Bytes → Bytes) :
    (∀ doc requests actions,
        Along (takeStep consumePairing) (Alone consumePairing) (init doc clock) actions →
          ConsumedOnce consumePairing (Enrolled requests) doc clock actions) ∧
      (∀ doc requests actions,
        Along (takeStep consumeOAuthCode) (Alone consumeOAuthCode) (init doc clock) actions →
          ConsumedOnce consumeOAuthCode (Issued s256 requests) doc clock actions) ∧
      (∀ doc actions s a s', exec (takeStep consumePairing) (init doc clock) actions = some s →
        takeStep consumePairing s a = some s' → ¬ Alone consumePairing s a →
          ∃ more s'', exec (takeStep consumePairing) s' more = some s'' ∧ ¬ AtMostOne s'') ∧
      (∀ doc actions s a s', exec (takeStep consumeOAuthCode) (init doc clock) actions = some s →
        takeStep consumeOAuthCode s a = some s' → ¬ Alone consumeOAuthCode s a →
          ∃ more s'', exec (takeStep consumeOAuthCode) s' more = some s'' ∧ ¬ AtMostOne s'') :=
  ⟨fun _ _ _ alone => consumedOnce_of_alone (fun _ _ used => used.returned) alone,
    fun _ _ _ alone => consumedOnce_of_alone (fun _ _ used => used.returned) alone,
    fun _ _ _ _ _ run taken crowded => race_of_not_alone _ run taken crowded,
    fun _ _ _ _ _ run taken crowded => race_of_not_alone _ run taken crowded⟩

/-- An enroll code for a shared PC. -/
def slaveCode : Pairing := ⟨[], ascii "enroll-slave", some 900⟩

/-- Calls 0 and 1 enroll different PCs. -/
def slaveRequests (k : CallId) : EnrollRequest :=
  ⟨if k = 0 then ascii "alpha" else ascii "beta", false, some true⟩

/-- A call takes the code before the next one looks. -/
def orderlyRun : List TakeAction :=
  [.get 0 false, .delete 0 false, .check 0 10, .get 1 false]

theorem orderlyRun_consumedOnce :
    ConsumedOnce consumePairing (Enrolled slaveRequests) (some slaveCode) 0 orderlyRun :=
  (secrets_consumed_once 0 id).1 _ _ _ (by decide)

/-- Both calls get the code before either deletes it. -/
def raceRun : List TakeAction :=
  [.get 0 false, .get 1 false, .delete 0 false, .delete 1 false, .check 0 10, .check 1 11]

/-- One code enrolls two PCs. -/
theorem code_enrolls_twice :
    (exec (takeStep consumePairing) (init (some slaveCode) 0) raceRun).map (fun s =>
        (s.calls 0, s.calls 1)) = some (.returned (some slaveCode), .returned (some slaveCode)) ∧
      enroll (slaveRequests 0) (some slaveCode) = .slave (ascii "alpha") ∧
      enroll (slaveRequests 1) (some slaveCode) = .slave (ascii "beta") ∧
      ¬ ConsumedOnce consumePairing (Enrolled slaveRequests) (some slaveCode) 0 raceRun := by
  refine ⟨by decide, by decide, by decide, fun once => ?_⟩
  obtain ⟨s, run⟩ :
      ∃ s, exec (takeStep consumePairing) (init (some slaveCode) 0) raceRun = some s :=
    Option.isSome_iff_exists.mp (by decide)
  have calls : (s.calls 0, s.calls 1) =
      (.returned (some slaveCode), .returned (some slaveCode)) := by
    have both : (exec (takeStep consumePairing) (init (some slaveCode) 0) raceRun).map (fun s =>
        (s.calls 0, s.calls 1)) =
      some (.returned (some slaveCode), .returned (some slaveCode)) := by
      decide
    rw [run] at both
    exact Option.some.inj both
  rw [Prod.mk.injEq] at calls
  exact absurd ((once.last run).1 0 1 _ _ calls.1 calls.2) (by decide)

end Drover.Secrets
