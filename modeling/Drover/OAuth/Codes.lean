import Drover.OAuth.Refinement
import Drover.Protocol.TakeOnce
import Drover.Transition.Follow

/-!
# One authorization code

`Drover.Secrets` follows the calls that take a code; at the token endpoint they are some
of the requests.  Every run of the endpoint takes a code as a run of that model does: a
request that presents it is at the same point there, unless it has found the code
expired, which the other call has not found.  So the code leads to one pair of tokens if
it is deleted when it is found, and found by one request at a time.
-/

namespace Drover.OAuth.Endpoint

open Drover.Protocol Drover.Transition
open Drover.Secrets (OAuthCode TokenReply notAfter)

/-! ## What a request does with the code -/

/-- `tokenFromCode` presents the code with the hash. -/
def TokenForm.Redeems (server : Server) (codeHash : Hash) (form : TokenForm) : Prop :=
  ¬ form.IsRefresh ∧ server.sha256Hex form.code = codeHash

instance (server : Server) (codeHash : Hash) (form : TokenForm) :
    Decidable (form.Redeems server codeHash) :=
  inferInstanceAs (Decidable (_ ∧ _))

/-- The request has nothing to do with the code. -/
def Phase.Elsewhere (server : Server) (codeHash : Hash) : Phase → Prop
  | .getCode form | .deleteCode form _ | .gotCode form _ | .issue form _ =>
      ¬ form.Redeems server codeHash
  | .getToken form | .gotToken form _ | .mark form _ => form.IsRefresh
  | _ => True

/-- The request is about to read the code. -/
def Phase.gets (server : Server) (codeHash : Hash) : Phase → Bool
  | .getCode form => form.Redeems server codeHash
  | _ => false

/-- The request is about to delete the code. -/
def Phase.deletes (server : Server) (codeHash : Hash) : Phase → Bool
  | .deleteCode form _ => form.Redeems server codeHash
  | _ => false

/-- The request is about to store a code. -/
def Phase.creates : Phase → Bool
  | .createCode .. => true
  | _ => false

/-- The request has drawn its pair, or been refused. -/
def Phase.Done : Phase → Prop
  | .createAccess _ | .createRefresh _ | .replied _ => True
  | _ => False

/-- The answer of `Secrets` to the form, for a code that has been consumed. -/
def Server.answerTo (server : Server) (form : TokenForm) (oc : OAuthCode) : TokenReply :=
  Secrets.tokenFromCode server.pkceChallengeFromVerifier
    ⟨form.codeVerifier, form.redirectURI, false⟩ (some (some oc))

/-- A request is as far as a call of `Secrets`. -/
inductive Redeeming (server : Server) (codeHash : Hash) (clock : Nat) :
    Option Phase → Protocol.Phase (Option OAuthCode) → Prop
  | absent : Redeeming server codeHash clock none .start
  | elsewhere {phase : Phase} (elsewhere : phase.Elsewhere server codeHash) :
      Redeeming server codeHash clock (some phase) .start
  | start {form : TokenForm} (redeems : form.Redeems server codeHash) :
      Redeeming server codeHash clock (some (.getCode form)) .start
  | got {form : TokenForm} (redeems : form.Redeems server codeHash) (oc : OAuthCode) :
      Redeeming server codeHash clock (some (.deleteCode form oc)) (.got (some oc))
  | deleted {form : TokenForm} (redeems : form.Redeems server codeHash) (oc : OAuthCode) :
      Redeeming server codeHash clock (some (.gotCode form oc)) (.deleted (some oc))
  /-- The request has found the code expired. -/
  | late {phase : Phase} {form : TokenForm} {oc : OAuthCode}
      (redeems : form.Redeems server codeHash) (expired : notAfter oc.expiresAt clock = false)
      (isLate : phase = .deleteCode form oc ∨ phase = .gotCode form oc) :
      Redeeming server codeHash clock (some phase) (.returned none)
  | issue {form : TokenForm} {oc : OAuthCode} (redeems : form.Redeems server codeHash)
      (pair : server.answerTo form oc = .pair oc.email oc.clientID oc.scopes) :
      Redeeming server codeHash clock (some (.issue form (grantOf oc))) (.returned (some (some oc)))
  | done {phase : Phase} {consumed : Option (Option OAuthCode)} (done : phase.Done) :
      Redeeming server codeHash clock (some phase) (.returned consumed)

/-- The requests that take the code have come as far as the endpoint; they are alone with
it if `alone` holds. -/
structure FollowsCode (server : Server) (codeHash : Hash) (alone : Prop) (s : State)
    (t : TakeState (Option OAuthCode)) : Prop where
  doc : ∀ oc, s.codes codeHash = some oc → t.doc = some (some oc)
  clock : t.clock ≤ s.clock
  requests : ∀ r, Redeeming server codeHash s.clock (s.requests r) (t.calls r)
  active : ∀ r phase, s.requests r = some phase → r ∈ s.active
  readers : alone → t.doc ≠ none → ∀ r ∈ t.readers, ∃ oc, t.calls r = .got oc
  issued : ∀ form pair, .issued form pair ∈ s.log → form.Redeems server codeHash →
    ∃ r oc phase, t.calls r = .returned (some (some oc)) ∧ s.requests r = some phase ∧ phase.Done

/-! ## The condition -/

/-- The code is not made again. -/
def KeepsCode (server : Server) (codeHash : Hash) (s : State) : Action → Prop
  | .advance r draws _ =>
      ∀ phase ∈ s.requests r, phase.creates = true → server.sha256Hex draws.code ≠ codeHash
  | _ => True

/-- The code is deleted when that is tried, and a request finds it good only if no other
one has found it and not deleted it yet. -/
def RedeemsAlone (server : Server) (codeHash : Hash) (s : State) : Action → Prop
  | .advance r _ outcome =>
      ∀ phase ∈ s.requests r,
        (phase.deletes server codeHash = true → outcome.applied = true) ∧
          (phase.gets server codeHash = true → outcome = .ok →
            ∀ oc ∈ s.codes codeHash, notAfter oc.expiresAt s.clock = true →
              ∀ q ∈ s.active, ∀ other ∈ s.requests q, other.deletes server codeHash = false)
  | _ => True

instance (server : Server) (codeHash : Hash) (s : State) :
    (a : Action) → Decidable (KeepsCode server codeHash s a)
  | .advance r _ _ => inferInstanceAs (Decidable (∀ phase ∈ s.requests r, _))
  | .tick _ | .request .. | .removeToken _ | .removeCode _ => isTrue trivial

instance (server : Server) (codeHash : Hash) (s : State) :
    (a : Action) → Decidable (RedeemsAlone server codeHash s a)
  | .advance r _ _ => inferInstanceAs (Decidable (∀ phase ∈ s.requests r, _))
  | .tick _ | .request .. | .removeToken _ | .removeCode _ => isTrue trivial

/-- The calls that take the code follow the step to `s'`, and are alone with it if the
step is. -/
def CanRedeem (server : Server) (codeHash : Hash) (alone : Prop)
    (t : TakeState (Option OAuthCode)) (s' : State) : Prop :=
  LeadsTo (takeStep Secrets.consumeOAuthCode) (Alone Secrets.consumeOAuthCode) alone t
    (FollowsCode server codeHash alone s')

section

variable {server : Server} {codeHash : Hash} {clock : Nat} {phase : Phase} {form : TokenForm}

theorem pkceVerify_secrets (server : Server) (codeChallenge verifier : Bytes) :
    Secrets.pkceVerify server.pkceChallengeFromVerifier codeChallenge verifier =
      server.pkceVerify codeChallenge verifier := by
  rw [Secrets.pkceVerify, Server.pkceVerify]
  by_cases challenge : codeChallenge = [] <;> by_cases isVerifier : verifier = [] <;>
    simp [challenge, isVerifier]

/-- The checks of the code are those of `Secrets`. -/
theorem checkCode_cases (now : Nat) (form : TokenForm) (oc : OAuthCode) :
    notAfter oc.expiresAt now = false ∧ server.checkCode now form oc = Server.codeInvalid ∨
      notAfter oc.expiresAt now = true ∧
        (server.answerTo form oc = .pair oc.email oc.clientID oc.scopes ∧
            server.checkCode now form oc = .issue form (grantOf oc) ∨
          server.answerTo form oc = .invalidGrant ∧ (server.checkCode now form oc).Done) := by
  rw [Server.checkCode, Server.answerTo, Secrets.tokenFromCode, pkceVerify_secrets]
  split
  · rename_i expired
    exact .inl ⟨expired, rfl⟩
  · rename_i live
    rw [Bool.not_eq_false] at live
    refine .inr ⟨live, ?_⟩
    split
    · exact .inr ⟨rfl, trivial⟩
    · split
      · exact .inr ⟨rfl, trivial⟩
      · exact .inl ⟨rfl, rfl⟩

theorem Phase.Done.elsewhere (done : phase.Done) : phase.Elsewhere server codeHash := by
  cases phase with
  | createAccess | createRefresh | replied => exact trivial
  | createClient | getClient | gotClient | createCode | getCode | deleteCode | gotCode | getToken
  | gotToken | query | delete | mark | issue => exact done.elim

theorem Phase.Plain.elsewhere (plain : phase.Plain) : phase.Elsewhere server codeHash := by
  cases phase with
  | createClient | getClient | gotClient | createCode | replied => exact trivial
  | getCode | deleteCode | gotCode | getToken | gotToken | query | delete | mark | issue
  | createAccess | createRefresh => exact plain.elim

theorem elsewhere_checkToken (now : Nat) (isRefresh : form.IsRefresh) (t : OAuthToken) :
    (Server.checkToken now form t).Elsewhere server codeHash := by
  rw [Server.checkToken]
  split
  · exact trivial
  · split
    · exact trivial
    · split
      · exact trivial
      · exact isRefresh

/-! ## Steps elsewhere -/

/-- The request goes on, and nothing else of what is followed changes. -/
structure Moves (s s' : State) (r : RequestId) (next : Phase) : Prop where
  requests : s'.requests = (s.setRequest r next).requests
  clock : s'.clock = s.clock
  active : s'.active = s.active

variable {s s' : State} {r : RequestId} {draws : Draws} {outcome : Store.Outcome}

/-- A request that has nothing to do with the code stays so. -/
theorem elsewhere_advance (elsewhere : phase.Elsewhere server codeHash)
    (other : phase.creates = true → server.sha256Hex draws.code ≠ codeHash)
    (taken : Endpoint.advance server s r draws outcome phase = some s') :
    ∃ next, Moves s s' r next ∧ next.Elsewhere server codeHash ∧ (phase.Done → next.Done) ∧
      ∀ oc, s'.codes codeHash = some oc → s.codes codeHash = some oc := by
  cases phase with
  | createClient req =>
      rw [Endpoint.advance] at taken
      split at taken
      · cases taken
      · cases taken
        exact ⟨_, ⟨rfl, rfl, rfl⟩, trivial, False.elim, fun _ => id⟩
  | getClient req =>
      rw [Endpoint.advance] at taken
      split at taken
      all_goals
        cases taken
        exact ⟨_, ⟨rfl, rfl, rfl⟩, trivial, False.elim, fun _ => id⟩
  | gotClient req client =>
      cases taken
      exact ⟨_, ⟨rfl, rfl, rfl⟩, (plain_authorizeClient ..).elsewhere, False.elim, fun _ => id⟩
  | createCode req email time =>
      rw [Endpoint.advance] at taken
      split at taken
      · cases taken
      · cases taken
        refine ⟨_, ⟨rfl, rfl, rfl⟩, ?_, False.elim, fun oc found => ?_⟩
        · split <;> exact trivial
        · rcases State.written_update found with old | ⟨same, -⟩
          · exact old
          · exact absurd same.symm (other rfl)
  | getCode form =>
      rw [Endpoint.advance] at taken
      split at taken
      · cases taken
        exact ⟨_, ⟨rfl, rfl, rfl⟩, trivial, False.elim, fun _ => id⟩
      · cases taken
        exact ⟨_, ⟨rfl, rfl, rfl⟩, elsewhere, False.elim, fun _ => id⟩
  | deleteCode form oc =>
      cases taken
      refine ⟨_, ⟨rfl, rfl, rfl⟩, elsewhere, False.elim, fun oc' found => ?_⟩
      rcases State.written_update found with old | ⟨-, gone⟩
      · exact old
      · cases gone
  | gotCode form oc =>
      cases taken
      refine ⟨_, ⟨rfl, rfl, rfl⟩, ?_, False.elim, fun _ => id⟩
      rcases checkCode_cases s.clock form oc with
        ⟨-, isReply⟩ | ⟨-, ⟨-, isIssue⟩ | ⟨-, done⟩⟩
      · rw [isReply]
        exact trivial
      · rw [isIssue]
        exact elsewhere
      · exact done.elsewhere
  | getToken form =>
      rw [Endpoint.advance] at taken
      split at taken
      · cases taken
        exact ⟨_, ⟨rfl, rfl, rfl⟩, trivial, False.elim, fun _ => id⟩
      · cases taken
        exact ⟨_, ⟨rfl, rfl, rfl⟩, elsewhere, False.elim, fun _ => id⟩
  | gotToken form t =>
      cases taken
      exact ⟨_, ⟨rfl, rfl, rfl⟩, elsewhere_checkToken s.clock elsewhere t, False.elim, fun _ => id⟩
  | query family =>
      rw [Endpoint.advance] at taken
      split at taken
      all_goals
        cases taken
        exact ⟨_, ⟨rfl, rfl, rfl⟩, trivial, False.elim, fun _ => id⟩
  | delete family docs =>
      cases docs with
      | nil =>
          cases taken
          exact ⟨_, ⟨rfl, rfl, rfl⟩, trivial, False.elim, fun _ => id⟩
      | cons h docs =>
          rw [Endpoint.advance] at taken
          split at taken
          all_goals
            cases taken
            exact ⟨_, ⟨rfl, rfl, rfl⟩, trivial, False.elim, fun _ => id⟩
  | mark form t =>
      cases taken
      refine ⟨_, ⟨rfl, rfl, rfl⟩, ?_, False.elim, fun _ => id⟩
      split
      · exact fun redeems => redeems.1 elsewhere
      · exact trivial
  | issue form g =>
      rw [Endpoint.advance] at taken
      split at taken
      · cases taken
      · cases taken
        exact ⟨_, ⟨rfl, rfl, rfl⟩, trivial, False.elim, fun _ => id⟩
  | createAccess pair | createRefresh pair =>
      cases taken
      refine ⟨_, ⟨rfl, rfl, rfl⟩, ?_, fun _ => ?_, fun _ => id⟩
      · split <;> exact trivial
      · split <;> exact trivial
  | replied reply => cases taken

/-! ## Both models -/

variable {alone : Prop} {t t' : TakeState (Option OAuthCode)} {next : Phase}
  {call : Protocol.Phase (Option OAuthCode)} {a : Action}

/-- An expired code stays expired. -/
theorem Redeeming.later {now : Nat} {phase : Option Phase}
    (redeeming : Redeeming server codeHash clock phase call) (later : clock ≤ now) :
    Redeeming server codeHash now phase call := by
  cases redeeming with
  | absent => exact .absent
  | elsewhere elsewhere => exact .elsewhere elsewhere
  | start redeems => exact .start redeems
  | got redeems oc => exact .got redeems oc
  | deleted redeems oc => exact .deleted redeems oc
  | late redeems expired isLate =>
      refine .late redeems ?_ isLate
      rw [← Bool.not_eq_true] at expired ⊢
      exact fun live => expired (Secrets.notAfter_of_le later live)
  | issue redeems pair => exact .issue redeems pair
  | done done => exact .done done

/-- A request goes on, and the call that follows it. -/
theorem FollowsCode.set (follows : FollowsCode server codeHash alone s t)
    (found : s.requests r = some phase) (moves : Moves s s' r next)
    (calls : t'.calls = (t.setCall r call).calls)
    (doc : ∀ oc, s'.codes codeHash = some oc → t'.doc = some (some oc))
    (clock : t'.clock ≤ s.clock)
    (redeeming : Redeeming server codeHash s.clock (some next) call)
    (readers : alone → t'.doc ≠ none → ∀ k ∈ t'.readers,
      k = r ∧ (∃ oc, call = .got oc) ∨ k ≠ r ∧ k ∈ t.readers ∧ t.doc ≠ none)
    (done : phase.Done → call = t.calls r ∧ next.Done)
    (issued : ∀ form pair, .issued form pair ∈ s'.log → form.Redeems server codeHash →
      .issued form pair ∈ s.log ∨ (∃ oc, call = .returned (some (some oc))) ∧ next.Done) :
    FollowsCode server codeHash alone s' t' := by
  have isNext : s'.requests r = some next := by
    rw [moves.requests]
    exact Function.update_self ..
  have isCall : t'.calls r = call := by
    rw [calls]
    exact TakeState.calls_setCall_same ..
  have others {q : RequestId} (other : q ≠ r) :
      s'.requests q = s.requests q ∧ t'.calls q = t.calls q := by
    rw [moves.requests, calls]
    exact ⟨Function.update_of_ne other .., TakeState.calls_setCall_of_ne _ other⟩
  constructor
  case doc => exact doc
  case clock => exact moves.clock ▸ clock
  case requests =>
    intro q
    rw [moves.clock]
    by_cases same : q = r
    · rw [same, isNext, isCall]
      exact redeeming
    · rw [(others same).1, (others same).2]
      exact follows.requests q
  case active =>
    intro q phase' isPhase
    rw [moves.active]
    by_cases same : q = r
    · exact same ▸ follows.active r phase found
    · exact follows.active q phase' ((others same).1 ▸ isPhase)
  case readers =>
    intro isAlone present k isReader
    rcases readers isAlone present k isReader with ⟨rfl, oc, isGot⟩ | ⟨other, old, present⟩
    · exact ⟨oc, isCall.trans isGot⟩
    · rw [(others other).2]
      exact follows.readers isAlone present k old
  case issued =>
    intro form pair mem redeems
    rcases issued form pair mem redeems with old | ⟨⟨oc, returned⟩, done⟩
    · obtain ⟨q, oc, phase', returned, isPhase, isDone⟩ := follows.issued form pair old redeems
      by_cases same : q = r
      · subst same
        cases found.symm.trans isPhase
        obtain ⟨sameCall, done⟩ := done isDone
        exact ⟨q, oc, next, by rw [isCall, sameCall, returned], isNext, done⟩
      · exact ⟨q, oc, phase', by rw [(others same).2, returned], by rw [(others same).1, isPhase],
          isDone⟩
    · exact ⟨r, oc, next, isCall.trans returned, isNext, done⟩

/-- A request goes on, and takes nothing. -/
theorem FollowsCode.stay (follows : FollowsCode server codeHash alone s t)
    (found : s.requests r = some phase) (moves : Moves s s' r next)
    (codes : ∀ oc, s'.codes codeHash = some oc → s.codes codeHash = some oc)
    (redeeming : Redeeming server codeHash s.clock (some next) (t.calls r))
    (done : phase.Done → next.Done)
    (issued : ∀ form pair, .issued form pair ∈ s'.log → form.Redeems server codeHash →
      .issued form pair ∈ s.log ∨ (∃ oc, t.calls r = .returned (some (some oc))) ∧ next.Done) :
    FollowsCode server codeHash alone s' t := by
  refine follows.set found moves ?_ ?_ follows.clock redeeming ?_ ?_ issued
  · exact (Function.update_eq_self r t.calls).symm
  · exact fun oc isStored => follows.doc oc (codes oc isStored)
  · intro isAlone present k isReader
    by_cases same : k = r
    · exact .inl ⟨same, same ▸ follows.readers isAlone present k isReader⟩
    · exact .inr ⟨same, isReader, present⟩
  · exact fun isDone => ⟨rfl, done isDone⟩

/-- A request that has nothing to do with the code goes on. -/
theorem FollowsCode.elsewhere (follows : FollowsCode server codeHash alone s t)
    (found : s.requests r = some phase) (elsewhere : phase.Elsewhere server codeHash)
    (start : t.calls r = .start)
    (other : phase.creates = true → server.sha256Hex draws.code ≠ codeHash)
    (taken : Endpoint.advance server s r draws outcome phase = some s') :
    FollowsCode server codeHash alone s' t := by
  obtain ⟨next, moves, nextElsewhere, done, codes⟩ := elsewhere_advance elsewhere other taken
  refine follows.stay found moves codes (start ▸ .elsewhere nextElsewhere) done ?_
  intro form pair mem redeems
  rcases issued_of_advance taken mem with old | ⟨⟨g, rfl⟩, -⟩
  · exact .inl old
  · exact absurd redeems elsewhere

/-- A request that has drawn its pair, or been refused, goes on. -/
theorem FollowsCode.done (follows : FollowsCode server codeHash alone s t)
    (found : s.requests r = some phase) (done : phase.Done)
    {consumed : Option (Option OAuthCode)} (returned : t.calls r = .returned consumed)
    (taken : Endpoint.advance server s r draws outcome phase = some s') :
    FollowsCode server codeHash alone s' t := by
  have notCreating : ¬ phase.creates = true := by
    intro creates
    cases phase with
    | createCode => exact done.elim
    | _ => cases creates
  obtain ⟨next, moves, -, stays, codes⟩ :=
    elsewhere_advance done.elsewhere (fun creates => absurd creates notCreating) taken
  refine follows.stay found moves codes (returned ▸ .done (stays done)) stays ?_
  intro form pair mem redeems
  rcases issued_of_advance taken mem with old | ⟨⟨g, rfl⟩, -⟩
  · exact .inl old
  · exact done.elim

/-- Whoever has not just found the code is none of its readers. -/
theorem FollowsCode.reader_ne (follows : FollowsCode server codeHash alone s t) (isAlone : alone)
    (present : t.doc ≠ none) (notGot : ∀ oc, t.calls r ≠ .got oc) {k : RequestId}
    (isReader : k ∈ t.readers) : k ≠ r := by
  rintro rfl
  obtain ⟨oc, isGot⟩ := follows.readers isAlone present k isReader
  exact notGot oc isGot

/-- There is no reader if no request is about to delete the code. -/
theorem FollowsCode.no_reader (follows : FollowsCode server codeHash alone s t) (isAlone : alone)
    (present : t.doc ≠ none)
    (noOther : ∀ q ∈ s.active, ∀ other ∈ s.requests q, other.deletes server codeHash = false) :
    t.readers = [] := by
  refine List.eq_nil_iff_forall_not_mem.mpr fun q isReader => ?_
  obtain ⟨d, isGot⟩ := follows.readers isAlone present q isReader
  have redeeming := follows.requests q
  rw [isGot] at redeeming
  generalize isPhase : s.requests q = phase at redeeming
  cases redeeming with
  | got redeems oc =>
      have deletes := noOther q (follows.active q _ isPhase) _ isPhase
      rw [Phase.deletes, decide_eq_false_iff_not] at deletes
      exact deletes redeems

/-- The Get of the code. -/
theorem FollowsCode.get (follows : FollowsCode server codeHash alone s t)
    (found : s.requests r = some (.getCode form)) (redeems : form.Redeems server codeHash)
    (start : t.calls r = .start)
    (sole : alone → RedeemsAlone server codeHash s (.advance r draws outcome))
    (taken : Endpoint.advance server s r draws outcome (.getCode form) = some s') :
    CanRedeem server codeHash alone t s' := by
  have notGot (oc) : t.calls r ≠ .got oc := by
    rw [start]
    rintro ⟨⟩
  have misses {next : Phase} (isNext : s.setRequest r next = s')
      (redeeming : Redeeming server codeHash s.clock (some next) (.returned none)) :
      CanRedeem server codeHash alone t s' := by
    subst isNext
    have missed : takeStep Secrets.consumeOAuthCode t (.get r true) =
        some (t.setCall r (.returned none)) := by
      simp only [takeStep, start]
      rfl
    refine LeadsTo.single missed (fun _ => trivial) (follows.set found ⟨rfl, rfl, rfl⟩ rfl
      follows.doc follows.clock redeeming ?_ False.elim fun _ _ mem _ => .inl mem)
    exact fun isAlone present k isReader =>
      .inr ⟨follows.reader_ne isAlone present notGot isReader, isReader, present⟩
  rw [Endpoint.advance, redeems.2] at taken
  split at taken
  · exact misses (Option.some.inj taken) (.done trivial)
  · rename_i oc isRead
    have isOk : outcome = .ok := by
      by_contra failed
      rw [if_neg failed] at isRead
      cases isRead
    rw [if_pos isOk] at isRead
    have doc := follows.doc oc isRead
    cases live : notAfter oc.expiresAt s.clock with
    | false => exact misses (Option.some.inj taken) (.late redeems live (.inl rfl))
    | true =>
        cases taken
        have taken : takeStep Secrets.consumeOAuthCode t (.get r false) =
            some { t.setCall r (.got (some oc)) with readers := r :: t.readers } := by
          simp only [takeStep, start, doc]
          rfl
        apply LeadsTo.single taken
        · intro isAlone d _ _
          have noOther := (sole isAlone _ found).2 (decide_eq_true redeems) isOk oc isRead live
          exact follows.no_reader isAlone (doc ▸ Option.some_ne_none _) noOther
        · refine follows.set found ⟨rfl, rfl, rfl⟩ rfl follows.doc follows.clock (.got redeems oc)
            ?_ False.elim fun _ _ mem _ => .inl mem
          intro isAlone present k isReader
          rcases List.mem_cons.mp isReader with same | old
          · exact .inl ⟨same, some oc, rfl⟩
          · exact .inr ⟨follows.reader_ne isAlone present notGot old, old, present⟩

/-- The Delete of the code. -/
theorem FollowsCode.delete {oc : OAuthCode} (follows : FollowsCode server codeHash alone s t)
    (found : s.requests r = some (.deleteCode form oc)) (redeems : form.Redeems server codeHash)
    (got : t.calls r = .got (some oc))
    (sole : alone → RedeemsAlone server codeHash s (.advance r draws outcome))
    (taken : Endpoint.advance server s r draws outcome (.deleteCode form oc) = some s') :
    CanRedeem server codeHash alone t s' := by
  cases taken
  have taken : takeStep Secrets.consumeOAuthCode t (.delete r !outcome.applied) =
      some { t.setCall r (.deleted (some oc)) with
        doc := if !outcome.applied then t.doc else none } := by
    simp only [takeStep, got]
  refine LeadsTo.single taken (fun _ => trivial) (follows.set found ⟨rfl, rfl, rfl⟩ rfl ?_
    follows.clock (.deleted redeems oc) ?_ False.elim fun _ _ mem _ => .inl mem)
  · intro oc' isStored
    change State.written outcome s.codes (Function.update s.codes (server.sha256Hex form.code) none)
      codeHash = some oc' at isStored
    rw [State.written] at isStored
    cases applied : outcome.applied with
    | true =>
        rw [applied, if_pos rfl, ← redeems.2, Function.update_self] at isStored
        cases isStored
    | false =>
        rw [applied] at isStored
        exact follows.doc oc' isStored
  · intro isAlone present
    have applied := (sole isAlone _ found).1 (decide_eq_true redeems)
    rw [applied] at present
    exact absurd rfl present

/-- The look at the clock, and the checks of the form. -/
theorem FollowsCode.check {oc : OAuthCode} (follows : FollowsCode server codeHash alone s t)
    (found : s.requests r = some (.gotCode form oc)) (redeems : form.Redeems server codeHash)
    (deleted : t.calls r = .deleted (some oc))
    (taken : Endpoint.advance server s r draws outcome (.gotCode form oc) = some s') :
    CanRedeem server codeHash alone t s' := by
  cases taken
  have taken : takeStep Secrets.consumeOAuthCode t (.check r s.clock) =
      some { t.setCall r
        (.returned (if notAfter oc.expiresAt s.clock then some (some oc) else none)) with
        clock := s.clock } := by
    simp only [takeStep, deleted]
    rw [if_pos follows.clock]
    rfl
  refine LeadsTo.single taken (fun _ => trivial) (follows.set found ⟨rfl, rfl, rfl⟩ rfl follows.doc
    (Nat.le_refl _) ?_ ?_ False.elim fun _ _ mem _ => .inl mem)
  · rcases checkCode_cases s.clock form oc with
      ⟨expired, isReply⟩ | ⟨live, ⟨pair, isIssue⟩ | ⟨-, done⟩⟩
    · rw [isReply]
      exact .done trivial
    · rw [isIssue, live]
      exact .issue redeems pair
    · exact .done done
  · intro isAlone present k isReader
    refine .inr ⟨follows.reader_ne isAlone present (fun oc isGot => ?_) isReader, isReader, present⟩
    cases deleted.symm.trans isGot

/-- A request goes on with a code that has expired. -/
theorem FollowsCode.late {oc : OAuthCode} (follows : FollowsCode server codeHash alone s t)
    (found : s.requests r = some phase) (redeems : form.Redeems server codeHash)
    (expired : notAfter oc.expiresAt s.clock = false)
    (isLate : phase = .deleteCode form oc ∨ phase = .gotCode form oc)
    (returned : t.calls r = .returned none)
    (taken : Endpoint.advance server s r draws outcome phase = some s') :
    FollowsCode server codeHash alone s' t := by
  rcases isLate with rfl | rfl
  · cases taken
    refine follows.stay found ⟨rfl, rfl, rfl⟩ (fun oc' isStored => ?_)
      (returned ▸ .late redeems expired (.inr rfl)) False.elim fun _ _ mem _ => .inl mem
    rcases State.written_update isStored with old | ⟨-, gone⟩
    · exact old
    · cases gone
  · cases taken
    refine follows.stay found ⟨rfl, rfl, rfl⟩ (fun _ => id) (returned ▸ .done ?_) False.elim
      fun _ _ mem _ => .inl mem
    rcases checkCode_cases s.clock form oc with ⟨-, isReply⟩ | ⟨live, -⟩
    · rw [isReply]
      exact trivial
    · cases expired.symm.trans live

/-- The draw of the pair. -/
theorem FollowsCode.issue {g : Grant} {oc : OAuthCode}
    (follows : FollowsCode server codeHash alone s t)
    (found : s.requests r = some (.issue form g))
    (returned : t.calls r = .returned (some (some oc)))
    (taken : Endpoint.advance server s r draws outcome (.issue form g) = some s') :
    FollowsCode server codeHash alone s' t := by
  have log (form' : TokenForm) (pair : Pair) (mem : .issued form' pair ∈ s'.log) :=
    issued_of_advance taken mem
  rw [Endpoint.advance] at taken
  split at taken
  · cases taken
  · cases taken
    exact follows.stay found ⟨rfl, rfl, rfl⟩ (fun _ => id) (returned ▸ .done trivial) False.elim
      fun form' pair mem _ => (log form' pair mem).imp_right fun _ => ⟨⟨oc, returned⟩, trivial⟩

/-- A request goes on. -/
theorem FollowsCode.advance (follows : FollowsCode server codeHash alone s t)
    (found : s.requests r = some phase)
    (keeps : KeepsCode server codeHash s (.advance r draws outcome))
    (sole : alone → RedeemsAlone server codeHash s (.advance r draws outcome))
    (taken : Endpoint.advance server s r draws outcome phase = some s') :
    CanRedeem server codeHash alone t s' := by
  have redeeming := follows.requests r
  rw [found] at redeeming
  generalize isCall : t.calls r = call at redeeming
  cases redeeming with
  | elsewhere elsewhere =>
      exact LeadsTo.stay (follows.elsewhere found elsewhere isCall (keeps phase found) taken)
  | start redeems => exact follows.get found redeems isCall sole taken
  | got redeems oc => exact follows.delete found redeems isCall sole taken
  | deleted redeems oc => exact follows.check found redeems isCall taken
  | late redeems expired isLate =>
      exact LeadsTo.stay (follows.late found redeems expired isLate isCall taken)
  | issue redeems pair => exact LeadsTo.stay (follows.issue found isCall taken)
  | done done => exact LeadsTo.stay (follows.done found done isCall taken)

/-- A request begins. -/
theorem FollowsCode.begin {req : Request} (follows : FollowsCode server codeHash alone s t)
    (unused : s.requests r = none) :
    FollowsCode server codeHash alone
      { s.setRequest r (server.handle req) with active := r :: s.active } t := by
  have start : t.calls r = .start := by
    have redeeming := follows.requests r
    rw [unused] at redeeming
    generalize t.calls r = call at redeeming
    cases redeeming
    rfl
  have first : Redeeming server codeHash s.clock (some (server.handle req)) .start := by
    rcases handle_cases server req with ⟨form, isRefresh, handled⟩ | ⟨form, isCode, handled⟩ | plain
    · rw [handled]
      exact .elsewhere isRefresh
    · rw [handled]
      by_cases redeems : form.Redeems server codeHash
      · exact .start redeems
      · exact .elsewhere redeems
    · exact .elsewhere plain.elsewhere
  constructor
  case doc => exact follows.doc
  case clock => exact follows.clock
  case requests =>
    intro q
    change Redeeming _ _ _ (Function.update s.requests r (some (server.handle req)) q) _
    by_cases same : q = r
    · rw [same, Function.update_self, start]
      exact first
    · rw [Function.update_of_ne same]
      exact follows.requests q
  case active =>
    intro q phase isPhase
    rcases State.requests_cases isPhase with ⟨rfl, -⟩ | ⟨-, old⟩
    · exact List.mem_cons_self
    · exact List.mem_cons_of_mem _ (follows.active q phase old)
  case readers => exact follows.readers
  case issued =>
    intro form pair mem redeems
    obtain ⟨q, oc, phase, returned, isPhase, done⟩ := follows.issued form pair mem redeems
    have other : q ≠ r := by
      rintro rfl
      cases unused.symm.trans isPhase
    exact ⟨q, oc, phase, returned, (Function.update_of_ne other ..).trans isPhase, done⟩

/-- Every step of the endpoint is followed. -/
theorem FollowsCode.step (follows : FollowsCode server codeHash alone s t)
    (keeps : KeepsCode server codeHash s a) (sole : alone → RedeemsAlone server codeHash s a)
    (taken : Endpoint.step server s a = some s') : CanRedeem server codeHash alone t s' := by
  cases a with
  | tick now =>
      rw [Endpoint.step] at taken
      split at taken
      · rename_i later
        cases taken
        exact LeadsTo.stay { follows with
          clock := follows.clock.trans later
          requests := fun r => (follows.requests r).later later }
      · cases taken
  | request r req =>
      rw [Endpoint.step] at taken
      split at taken
      · cases taken
      · rename_i unused
        cases taken
        exact LeadsTo.stay (follows.begin (Option.not_isSome_iff_eq_none.mp unused))
  | advance r draws outcome =>
      obtain ⟨phase, found, advanced⟩ := Option.bind_eq_some_iff.mp taken
      exact follows.advance found keeps sole advanced
  | removeToken h =>
      cases taken
      exact LeadsTo.stay { follows with }
  | removeCode h =>
      cases taken
      refine LeadsTo.stay { follows with doc := fun oc isStored => follows.doc oc ?_ }
      change Function.update s.codes h none codeHash = some oc at isStored
      by_cases same : codeHash = h
      · rw [same, Function.update_self] at isStored
        cases isStored
      · rwa [Function.update_of_ne same] at isStored

end

/-! ## Every run -/

/-- Nobody has read the code yet. -/
structure Unread (server : Server) (codeHash : Hash) (s : State) : Prop where
  requests : ∀ r phase, s.requests r = some phase →
    phase.Elsewhere server codeHash ∨ phase.gets server codeHash = true
  active : ∀ r phase, s.requests r = some phase → r ∈ s.active
  issued : ∀ form pair, .issued form pair ∈ s.log → ¬ form.Redeems server codeHash

/-- At most one pair has been drawn for the code. -/
def State.OnePair (server : Server) (codeHash : Hash) (s : State) : Prop :=
  ∀ form form' pair pair', .issued form pair ∈ s.log → .issued form' pair' ∈ s.log →
    form.Redeems server codeHash → form'.Redeems server codeHash → pair = pair'

/-- What has been taken of the code so far, alone if `alone` holds. -/
structure Taken (server : Server) (codeHash : Hash) (start : State) (alone : Prop) (s : State) :
    Prop where
  followed : LeadsTo (takeStep Secrets.consumeOAuthCode) (Alone Secrets.consumeOAuthCode) alone
    (.init ((start.codes codeHash).map some) start.clock) (FollowsCode server codeHash alone s)
  onePair : alone → s.OnePair server codeHash

section

variable {server : Server} {codeHash : Hash} {start s s' : State} {alone : Prop} {a : Action}

theorem Unread.taken (unread : Unread server codeHash start) :
    Taken server codeHash start alone start where
  followed := by
    apply LeadsTo.stay
    constructor
    case doc =>
      intro oc isStored
      rw [TakeState.init, isStored]
      rfl
    case clock => exact Nat.le_refl _
    case requests =>
      intro r
      cases isPhase : start.requests r with
      | none => exact .absent
      | some phase =>
          rcases unread.requests r phase isPhase with elsewhere | gets
          · exact .elsewhere elsewhere
          · cases phase with
            | getCode form => exact .start (of_decide_eq_true gets)
            | _ => cases gets
    case active => exact unread.active
    case readers =>
      intro _ _ k isReader
      cases isReader
    case issued => exact fun form pair mem redeems => absurd redeems (unread.issued form pair mem)
  onePair _ form _ pair _ mem _ redeems _ := absurd redeems (unread.issued form pair mem)

/-- A request that draws a pair for the code is the first one. -/
theorem FollowsCode.undrawn {t : TakeState (Option OAuthCode)}
    (follows : FollowsCode server codeHash alone s t) (once : t.AtMostOne) {r : RequestId}
    {form form' : TokenForm} {g : Grant} {pair : Pair} (found : s.requests r = some (.issue form g))
    (redeems : form.Redeems server codeHash) (redeems' : form'.Redeems server codeHash) :
    .issued form' pair ∉ s.log := by
  intro mem
  obtain ⟨q, oc, phase, returned, isPhase, done⟩ := follows.issued form' pair mem redeems'
  have redeeming := follows.requests r
  rw [found] at redeeming
  generalize isCall : t.calls r = call at redeeming
  cases redeeming with
  | elsewhere elsewhere => exact elsewhere redeems
  | issue _ _ =>
      cases once q r _ _ returned isCall
      cases found.symm.trans isPhase
      exact done
  | late _ _ isLate => rcases isLate with isLate | isLate <;> cases isLate
  | done isDone => exact isDone

theorem Taken.step (taken : Taken server codeHash start alone s)
    (keeps : KeepsCode server codeHash s a) (sole : alone → RedeemsAlone server codeHash s a)
    (stepped : Endpoint.step server s a = some s') : Taken server codeHash start alone s' := by
  refine ⟨taken.followed.trans id fun _ follows => follows.step keeps sole stepped, ?_⟩
  intro isAlone form form' pair pair' mem mem' redeems redeems'
  obtain ⟨takes, t, run, once, follows⟩ := taken.followed
  have atMostOne : t.AtMostOne := (atMostOne_of_alone _ _ _ (once isAlone)).last run
  rcases issued_of_step stepped mem with old | ⟨⟨r, g, found⟩, log⟩
  · rcases issued_of_step stepped mem' with old' | ⟨⟨r, g, found⟩, -⟩
    · exact taken.onePair isAlone form form' pair pair' old old' redeems redeems'
    · exact absurd old (follows.undrawn atMostOne found redeems' redeems)
  · rw [log, List.mem_cons] at mem'
    rcases mem' with new | old'
    · cases new
      rfl
    · exact absurd old' (follows.undrawn atMostOne found redeems redeems')

end

/-- The token endpoint takes a code as the calls of `Secrets` do, in every run in which the
code is not made again.  So the code leads to one pair at most, if it is deleted when it is
found and found good by one request at a time. -/
theorem codes_refined (server : Server) (codeHash : Hash) {start : State}
    (unread : Unread server codeHash start) {actions : List Action}
    (keeps : Along (step server) (KeepsCode server codeHash) start actions) :
    Always (step server) (fun s => ∃ takes t, exec (takeStep Secrets.consumeOAuthCode)
        (.init ((start.codes codeHash).map some) start.clock) takes = some t ∧
          FollowsCode server codeHash False s t) start actions ∧
      (Along (step server) (RedeemsAlone server codeHash) start actions →
        Always (step server) (State.OnePair server codeHash) start actions) := by
  constructor
  · have taken : Always (step server) (Taken server codeHash start False) start actions :=
      always_of_preserved (fun _ _ _ taken keeps stepped =>
        taken.step keeps False.elim stepped) unread.taken keeps
    apply taken.imp
    intro s taken
    obtain ⟨takes, t, run, -, follows⟩ := taken.followed
    exact ⟨takes, t, run, follows⟩
  · intro sole
    have taken : Always (step server) (Taken server codeHash start True) start actions :=
      always_of_preserved (fun _ _ _ taken both stepped =>
        taken.step both.1 (fun _ => both.2) stepped) unread.taken (keeps.and sole)
    exact taken.imp fun s taken => taken.onePair trivial

/-- A server with the code of `sampleRequest`. -/
def codeStart : State :=
  { codes := Function.update (fun _ => none) (sampleServer.sha256Hex (ascii "c0de"))
      (some ((⟨sampleRequest, ascii "o@a.io", 0, ascii "c0de"⟩ : Accept).document 0)) }

/-- Request 2 takes the code and gets its pair, and request 3 presents the code again. -/
def redeemedActions : List Action :=
  let go (r : RequestId) : Action :=
    .advance r ⟨ascii "00", ascii "c0de", ascii "fa", ascii "acce55", ascii "4ef4e5"⟩ .ok
  [.request 2 (.token .post (some sampleForm)), go 2, go 2, go 2, go 2, go 2, go 2,
    .request 3 (.token .post (some sampleForm)), go 3]

/-- Only request 2 gets a pair. -/
theorem redeemed_code_refused :
    ∃ s takes t, exec (step sampleServer) codeStart redeemedActions = some s ∧
      s.OnePair sampleServer (sampleServer.sha256Hex (ascii "c0de")) ∧ s.log.length = 1 ∧
      s.requests 3 = some Server.codeInvalid ∧
      exec (takeStep Secrets.consumeOAuthCode)
        (.init ((codeStart.codes (sampleServer.sha256Hex (ascii "c0de"))).map some)
          codeStart.clock) takes = some t ∧
      FollowsCode sampleServer (sampleServer.sha256Hex (ascii "c0de")) False s t := by
  have ends : (exec (step sampleServer) codeStart redeemedActions).any (fun s =>
      s.log.length = 1 ∧ s.requests 3 = some Server.codeInvalid) = true := by decide +kernel
  have keeps : Along (step sampleServer)
      (KeepsCode sampleServer (sampleServer.sha256Hex (ascii "c0de"))) codeStart
      redeemedActions := by
    decide +kernel
  have sole : Along (step sampleServer)
      (RedeemsAlone sampleServer (sampleServer.sha256Hex (ascii "c0de"))) codeStart
      redeemedActions := by
    decide +kernel
  have unread : Unread sampleServer (sampleServer.sha256Hex (ascii "c0de")) codeStart :=
    ⟨fun _ _ found => (Option.some_ne_none _ found.symm).elim,
      fun _ _ found => (Option.some_ne_none _ found.symm).elim,
      fun _ _ mem => absurd mem List.not_mem_nil⟩
  rw [Option.any_eq_true] at ends
  obtain ⟨s, run, facts⟩ := ends
  obtain ⟨one, refused⟩ := of_decide_eq_true facts
  have refined := codes_refined sampleServer (sampleServer.sha256Hex (ascii "c0de")) unread keeps
  obtain ⟨takes, t, taken, follows⟩ := refined.1.last run
  exact ⟨s, takes, t, run, (refined.2 sole).last run, one, refused, taken, follows⟩

end Drover.OAuth.Endpoint
