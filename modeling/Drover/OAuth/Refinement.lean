import Drover.OAuth.Provenance
import Drover.OAuth.Revocation
import Drover.OAuth.Rotation
import Drover.Transition.Follow

/-!
# The rotation of the authorization server

`Drover.OAuth` follows the refresh tokens alone, the endpoint all of its requests.  As
long as the storage works, every run of the endpoint is one of the rotation with the
same tokens: a request is what the other model has in its place, or has not come to a
token yet.  So the rotation of the endpoint is single-use under the same condition.
-/

namespace Drover.OAuth.Endpoint

open Drover.Transition

/-! ## The condition -/

/-- The storage works. -/
def Works : Action → Prop
  | .advance _ _ outcome => outcome = .ok
  | _ => True

instance : (a : Action) → Decidable (Works a)
  | .advance _ _ outcome => inferInstanceAs (Decidable (outcome = .ok))
  | .tick _ | .request .. | .removeToken _ | .removeCode _ => isTrue trivial

/-- The form is for `tokenFromRefresh`. -/
def TokenForm.IsRefresh (form : TokenForm) : Prop := form.grantType = ascii "refresh_token"

instance (form : TokenForm) : Decidable form.IsRefresh :=
  inferInstanceAs (Decidable (form.grantType = _))

/-- The hash of the refresh token that is presented. -/
def Server.presented (server : Server) (form : TokenForm) : Hash :=
  server.sha256Hex form.refreshToken

/-- The refresh token that the request has read as good and not yet marked. -/
def Phase.reading (server : Server) (clock : Nat) : Phase → Option Hash
  | .gotToken form t =>
      if t.Live ∧ t.notExpired clock = true then some (server.presented form) else none
  | .mark form _ => some (server.presented form)
  | _ => none

/-- The form whose refresh token the request is about to read. -/
def Phase.reads : Phase → Option TokenForm
  | .getToken form => some form
  | _ => none

/-- A request reads a good refresh token only if no other request has read it
so and not yet marked it. -/
def Exclusive (server : Server) (s : State) : Action → Prop
  | .advance r _ _ =>
      ∀ reader ∈ s.requests r, ∀ form ∈ reader.reads,
        ∀ t ∈ s.tokens (server.presented form), t.Live → t.notExpired s.clock = true →
          ∀ q ∈ s.active, ∀ phase ∈ s.requests q,
            phase.reading server s.clock ≠ some (server.presented form)
  | _ => True

instance (server : Server) (s : State) : (a : Action) → Decidable (Exclusive server s a)
  | .advance r _ _ => inferInstanceAs (Decidable (∀ reader ∈ s.requests r, _))
  | .tick _ | .request .. | .removeToken _ | .removeCode _ => isTrue trivial

/-- A refresh token of the family that is neither superseded nor deleted. -/
def State.LiveIn (s : State) (family : Bytes) (h : Hash) : Prop :=
  ∃ t, s.tokens h = some t ∧ t.Live ∧ t.family = family

/-- Each refresh token has led to one pair at most. -/
def State.Once (s : State) : Prop :=
  ∀ form form' pair pair', .issued form pair ∈ s.log → .issued form' pair' ∈ s.log →
    form.IsRefresh → form'.IsRefresh → form.refreshToken = form'.refreshToken → pair = pair'

/-- Each refresh token has led to at most one pair, and each family has at most one
live refresh token. -/
structure State.SingleUse (s : State) : Prop where
  once : s.Once
  family : ∀ family h h', s.LiveIn family h → s.LiveIn family h' → h = h'

/-! ## Values that are drawn -/

/-- The tokens that the request still has to store. -/
def Phase.owed : Phase → List Bytes
  | .createAccess pair => [pair.access, pair.refresh]
  | .createRefresh pair => [pair.refresh]
  | _ => []

/-- What is to be stored has been drawn for one request, and is not stored yet. -/
structure Drawing (server : Server) (s : State) : Prop where
  used : ∀ h ∈ s.used, ∃ d ∈ s.drawn, h = server.sha256Hex d
  drawn : ∀ r phase, s.requests r = some phase → ∀ d ∈ phase.owed,
    d ∈ s.drawn ∧ server.sha256Hex d ∉ s.used
  nodup : ∀ r phase, s.requests r = some phase → phase.owed.Nodup
  apart : ∀ r q phase phase', s.requests r = some phase → s.requests q = some phase' → r ≠ q →
    phase.owed.Disjoint phase'.owed

section

variable {server : Server} {s s' : State} {r : RequestId} {phase next : Phase}

/-- A request goes on and owes no more than it did, or what nobody else does. -/
theorem Drawing.setRequest (drawing : Drawing server s)
    (owes : ∀ d ∈ next.owed, d ∈ s.drawn ∧ server.sha256Hex d ∉ s.used)
    (nodup : next.owed.Nodup)
    (apart : ∀ q phase, q ≠ r → s.requests q = some phase → next.owed.Disjoint phase.owed) :
    Drawing server (s.setRequest r next) where
  used := drawing.used
  drawn q phase now := by
    rcases State.requests_cases now with ⟨-, rfl⟩ | ⟨-, old⟩
    · exact owes
    · exact drawing.drawn q phase old
  nodup q phase now := by
    rcases State.requests_cases now with ⟨-, rfl⟩ | ⟨-, old⟩
    · exact nodup
    · exact drawing.nodup q phase old
  apart p q phase phase' now now' other := by
    rcases State.requests_cases now with ⟨rfl, rfl⟩ | ⟨isOther, old⟩ <;>
      rcases State.requests_cases now' with ⟨rfl, rfl⟩ | ⟨isOther', old'⟩
    · exact absurd rfl other
    · exact apart q phase' isOther' old'
    · exact (apart p phase isOther old).symm
    · exact drawing.apart p q phase phase' old old' other

/-- More values are drawn. -/
theorem Drawing.draw (drawing : Drawing server s) {drawn : List Bytes}
    (more : s.drawn ⊆ drawn) : Drawing server { s with drawn } :=
  { drawing with
    used := fun h mem => (drawing.used h mem).imp fun _ both => ⟨more both.1, both.2⟩
    drawn := fun q phase found d mem =>
      (drawing.drawn q phase found d mem).imp_left fun isDrawn => more isDrawn }

/-- Only the requests, the hashes and the values that were drawn matter. -/
theorem Drawing.same (drawing : Drawing server s) (requests : s'.requests = s.requests)
    (used : s'.used = s.used) (drawn : s'.drawn = s.drawn) : Drawing server s' := by
  constructor
  · rw [used, drawn]
    exact drawing.used
  · rw [requests, used, drawn]
    exact drawing.drawn
  · rw [requests]
    exact drawing.nodup
  · rw [requests]
    exact drawing.apart

/-- A request goes on and owes nothing; more values may be drawn. -/
theorem Drawing.quiet (drawing : Drawing server s)
    (requests : s'.requests = (s.setRequest r next).requests) (quiet : next.owed = [])
    (used : s'.used = s.used) (more : s.drawn ⊆ s'.drawn) : Drawing server s' := by
  have set : Drawing server ({ s with drawn := s'.drawn }.setRequest r next) := by
    apply (drawing.draw more).setRequest
    all_goals simp [quiet]
  exact set.same requests used rfl

/-- A request stores the first token that it owes. -/
theorem Drawing.store (drawing : Drawing server s)
    (noCollision : Function.Injective server.sha256) (found : s.requests r = some phase) {d : Bytes}
    (requests : s'.requests = (s.setRequest r next).requests) (owes : phase.owed = d :: next.owed)
    (used : s'.used = server.sha256Hex d :: s.used) (drawn : s'.drawn = s.drawn) :
    Drawing server s' := by
  have owed := drawing.drawn r phase found
  have nodup := drawing.nodup r phase found
  rw [owes] at owed nodup
  rw [List.forall_mem_cons] at owed
  rw [List.nodup_cons] at nodup
  have later : Drawing server (s.setRequest r next) := by
    apply drawing.setRequest owed.2 nodup.2
    intro q phase' other old
    have apart := drawing.apart r q phase phase' found old other.symm
    rw [owes, List.disjoint_cons_left] at apart
    exact apart.2
  have stored : Drawing server
      { s.setRequest r next with used := server.sha256Hex d :: s.used } := by
    refine { later with used := ?_, drawn := ?_ }
    · exact List.forall_mem_cons.mpr ⟨⟨d, owed.1.1, rfl⟩, drawing.used⟩
    · intro q phase' now d' mem
      refine ⟨(later.drawn q phase' now d' mem).1, ?_⟩
      rw [List.mem_cons, not_or]
      refine ⟨fun same => ?_, (later.drawn q phase' now d' mem).2⟩
      rw [Server.sha256Hex_injective noCollision same] at mem
      rcases State.requests_cases now with ⟨-, rfl⟩ | ⟨other, old⟩
      · exact nodup.1 mem
      · have apart := drawing.apart r q phase phase' found old other.symm
        rw [owes, List.disjoint_cons_left] at apart
        exact apart.1 mem
  exact stored.same requests used drawn

/-- A request draws what it is to store. -/
theorem Drawing.issue (drawing : Drawing server s)
    (noCollision : Function.Injective server.sha256) {g : Grant} {draws : Draws} {now : Nat}
    (fresh : ∀ d ∈ drawnFor g draws, s.Fresh d) (nodup : (drawnFor g draws).Nodup)
    (requests : s'.requests = (s.setRequest r (.createAccess (drawPair g draws now))).requests)
    (used : s'.used = s.used) (drawn : s'.drawn = drawnFor g draws ++ s.drawn) :
    Drawing server s' := by
  have unused : ∀ d ∈ drawnFor g draws, server.sha256Hex d ∉ s.used := by
    intro d mem isUsed
    obtain ⟨d', isDrawn, same⟩ := drawing.used _ isUsed
    rw [Server.sha256Hex_injective noCollision same] at mem
    exact (fresh d' mem).2 isDrawn
  have owed : ∀ d ∈ (Phase.createAccess (drawPair g draws now)).owed, d ∈ drawnFor g draws := by
    intro d mem
    rw [Phase.owed, drawPair, List.mem_pair] at mem
    rw [drawnFor, List.mem_cons, List.mem_cons]
    exact mem.imp_right .inl
  have grown := drawing.draw (List.subset_append_right (drawnFor g draws) s.drawn)
  suffices set : Drawing server (State.setRequest { s with drawn := drawnFor g draws ++ s.drawn } r
      (.createAccess (drawPair g draws now))) from set.same requests used drawn
  apply grown.setRequest
  · exact fun d mem => ⟨List.mem_append_left _ (owed d mem), unused d (owed d mem)⟩
  · rw [drawnFor, List.nodup_cons, List.mem_cons, not_or] at nodup
    exact List.nodup_cons.mpr ⟨fun same => nodup.1.1 (List.mem_singleton.mp same),
      List.nodup_singleton _⟩
  · intro q phase other old d mem mem'
    exact (fresh d (owed d mem)).2 (drawing.drawn q phase old d mem').1

end

/-! ## The same step -/

/-- The request has not come to a refresh token, or has ended. -/
def Phase.Outside : Phase → Prop
  | .createClient _ | .getClient _ | .gotClient .. | .createCode .. | .replied _ => True
  | .getCode form | .deleteCode form _ | .gotCode form _ => ¬ form.IsRefresh
  | .issue form g => ¬ form.IsRefresh ∧ g.family = []
  | _ => False

/-- The phases of a request in the two models. -/
inductive Matches (server : Server) : Phase → Option OAuth.Phase → Prop
  | outside {phase : Phase} (outside : phase.Outside) : Matches server phase none
  | present {form : TokenForm} (isRefresh : form.IsRefresh) :
      Matches server (.getToken form) (some (.present (server.presented form)))
  | got {form : TokenForm} (isRefresh : form.IsRefresh) (t : OAuthToken) :
      Matches server (.gotToken form t) (some (.got (server.presented form) t))
  | query (family : Bytes) : Matches server (.query family) (some (.query family))
  | delete (family : Bytes) (docs : List Hash) :
      Matches server (.delete family docs) (some (.delete docs))
  | mark {form : TokenForm} (isRefresh : form.IsRefresh) (t : OAuthToken) :
      Matches server (.mark form t) (some (.mark (server.presented form) t.grant))
  | issue {form : TokenForm} {g : Grant} (isRefresh : form.IsRefresh) (named : g.family ≠ []) :
      Matches server (.issue form g) (some (.draw (some (server.presented form)) g))
  | createAccess (pair : Pair) (parent : Option Hash) :
      Matches server (.createAccess pair) (some (.issue parent pair.grant pair.now))
  | createRefresh (pair : Pair) (parent : Option Hash) :
      Matches server (.createRefresh pair) (some (.issueRefresh parent pair.grant pair.now))
  | replied (reply : Reply) (reply' : OAuth.Reply) :
      Matches server (.replied reply) (some (.replied reply'))

/-- The refresh token that the pair of a request is for, once it has been drawn. -/
def parentOf : OAuth.Phase → Option Hash
  | .issue parent _ _ | .issueRefresh parent _ _ => parent
  | _ => none

/-- A pair has been drawn for the refresh token. -/
def DrawnFor (t : OAuth.State) (h : Hash) : Prop :=
  h ∈ t.issued ∨ ∃ r phase, t.requests r = some phase ∧ parentOf phase = some h

/-- The rotation has come as far as the endpoint. -/
structure Follows (server : Server) (s : State) (t : OAuth.State) : Prop where
  tokens : t.tokens = s.tokens
  clock : t.clock = s.clock
  used : t.used = s.used
  families : ∀ family ∈ t.families, family ∈ s.drawn
  free : ∀ r, s.requests r = none → t.requests r = none
  phases : ∀ r phase, s.requests r = some phase → Matches server phase (t.requests r)
  active : ∀ r phase, s.requests r = some phase → r ∈ s.active
  issued : ∀ form pair, .issued form pair ∈ s.log → form.IsRefresh →
    DrawnFor t (server.presented form)

/-- The request has not come to a code or a token, or has ended. -/
def Phase.Plain : Phase → Prop
  | .createClient _ | .getClient _ | .gotClient .. | .createCode .. | .replied _ => True
  | _ => False

theorem Phase.Plain.outside {phase : Phase} (plain : phase.Plain) :
    phase.Outside ∧ phase.owed = [] := by
  cases phase with
  | createClient | getClient | gotClient | createCode | replied => exact ⟨trivial, rfl⟩
  | getCode | deleteCode | gotCode | getToken | gotToken | query | delete | mark | issue
  | createAccess | createRefresh => exact plain.elim

/-- What a request does first. -/
theorem handle_cases (server : Server) (req : Request) :
    (∃ form : TokenForm, form.IsRefresh ∧ server.handle req = .getToken form) ∨
      (∃ form : TokenForm, ¬ form.IsRefresh ∧ server.handle req = .getCode form) ∨
        (server.handle req).Plain := by
  cases req with
  | register method body =>
      right; right
      rw [Server.handle, Server.register.eq_def]
      split
      · trivial
      · split
        · trivial
        · split <;> trivial
      · trivial
      · trivial
  | authorize req parsed =>
      right; right
      have params : (server.authorizeParams req).Plain := by
        rw [Server.authorizeParams]
        split
        · trivial
        · split <;> trivial
      rw [Server.handle, Server.authorize]
      split
      · split
        · exact params
        · trivial
      · split
        · exact params
        · trivial
      · trivial
  | token method form =>
      rw [Server.handle, Server.token.eq_def]
      split
      · exact .inr (.inr trivial)
      · split
        · rename_i isCode
          split
          · exact .inr (.inr trivial)
          · refine .inr (.inl ⟨_, fun isRefresh => ?_, rfl⟩)
            exact absurd (isCode.symm.trans isRefresh) (by decide)
        · split
          · rename_i isRefresh
            split
            · exact .inr (.inr trivial)
            · exact .inl ⟨_, isRefresh, rfl⟩
          · exact .inr (.inr trivial)
      · exact .inr (.inr trivial)
      · exact .inr (.inr trivial)

theorem outside_handle (server : Server) (req : Request) :
    (∃ form : TokenForm, form.IsRefresh ∧ server.handle req = .getToken form) ∨
      (server.handle req).Outside ∧ (server.handle req).owed = [] := by
  rcases handle_cases server req with refresh | ⟨form, isCode, handled⟩ | plain
  · exact .inl refresh
  · rw [handled]
    exact .inr ⟨isCode, rfl⟩
  · exact .inr plain.outside

theorem plain_authorizeClient (server : Server) (now : Nat) (req : AuthorizeRequest)
    (client : OAuthClient) : (server.authorizeClient now req client).Plain := by
  rw [Server.authorizeClient]
  split
  · trivial
  · split
    · trivial
    · split
      · trivial
      · split <;> trivial

theorem outside_checkCode (server : Server) (now : Nat) {form : TokenForm}
    (isCode : ¬ form.IsRefresh) (oc : Secrets.OAuthCode) :
    (server.checkCode now form oc).Outside ∧ (server.checkCode now form oc).owed = [] := by
  rw [Server.checkCode]
  split
  · exact ⟨trivial, rfl⟩
  · split
    · exact ⟨trivial, rfl⟩
    · split
      · exact ⟨trivial, rfl⟩
      · exact ⟨⟨isCode, rfl⟩, rfl⟩

/-- A token that passes the checks has a family. -/
theorem Server.named_of_mark {server : Server} {log : List Event} {form : TokenForm}
    {t : OAuthToken} (sound : server.PhaseSound log (.mark form t)) : t.family ≠ [] := by
  obtain ⟨isRefresh, empty | ⟨pair, a, descends, ⟨-, same⟩ | ⟨-, same⟩⟩⟩ := sound
  · rw [isRefresh] at empty
    exact absurd empty (by decide)
  · rw [same] at isRefresh
    exact absurd isRefresh (by change access ≠ refresh; decide)
  · rw [same]
    exact descends.grant.1

section

variable {server : Server} {s s' : State} {t : OAuth.State} {r : RequestId} {phase next : Phase}
  {phase' next' : OAuth.Phase}

theorem State.free_cases {q : RequestId} (isFree : (s.setRequest r next).requests q = none) :
    q ≠ r ∧ s.requests q = none := by
  by_cases same : q = r
  · simp only [State.setRequest, same, Function.update_self, reduceCtorEq] at isFree
  · simp only [State.setRequest, Function.update_of_ne same] at isFree
    exact ⟨same, isFree⟩

/-- A request that goes on keeps its pair, or has none yet. -/
theorem DrawnFor.setRequest {h : Hash} (drawn : DrawnFor t h) (found : t.requests r = some phase')
    (goesOn : parentOf phase' = none ∨ parentOf phase' = parentOf next') :
    DrawnFor (t.setRequest r next') h := by
  apply drawn.imp id
  rintro ⟨q, phase, isPhase, isParent⟩
  by_cases same : q = r
  · rw [same, found] at isPhase
    cases isPhase
    rcases goesOn with none | kept
    · rw [none] at isParent
      cases isParent
    · exact ⟨r, next', Function.update_self .., kept ▸ isParent⟩
  · exact ⟨q, phase, (OAuth.State.requests_setRequest_of_ne t next' same).trans isPhase, isParent⟩

/-- A request that starts takes nothing away. -/
theorem DrawnFor.begin {h : Hash} (drawn : DrawnFor t h) (isFree : t.requests r = none) :
    DrawnFor (t.setRequest r next') h := by
  apply drawn.imp id
  rintro ⟨q, phase, isPhase, isParent⟩
  have other : q ≠ r := by
    rintro rfl
    rw [isFree] at isPhase
    cases isPhase
  exact ⟨q, phase, (OAuth.State.requests_setRequest_of_ne t next' other).trans isPhase, isParent⟩

/-- A request goes on in both models. -/
theorem Follows.setRequest (follows : Follows server s t) (isActive : r ∈ s.active)
    (goesOn : Matches server next (some next'))
    (drawn : ∀ h, DrawnFor t h → DrawnFor (t.setRequest r next') h) :
    Follows server (s.setRequest r next) (t.setRequest r next') where
  tokens := follows.tokens
  clock := follows.clock
  used := follows.used
  families := follows.families
  free q isFree := by
    obtain ⟨other, old⟩ := State.free_cases isFree
    exact (OAuth.State.requests_setRequest_of_ne t next' other).trans (follows.free q old)
  phases q phase' now := by
    rcases State.requests_cases now with ⟨rfl, rfl⟩ | ⟨other, old⟩
    · exact (congrArg (Matches server phase') (Function.update_self q _ t.requests)).mpr goesOn
    · exact (OAuth.State.requests_setRequest_of_ne t next' other).symm ▸ follows.phases q phase' old
  active q phase' now := by
    rcases State.requests_cases now with ⟨rfl, -⟩ | ⟨-, old⟩
    · exact isActive
    · exact follows.active q phase' old
  issued form pair mem isRefresh := drawn _ (follows.issued form pair mem isRefresh)

/-- A request goes on outside of the other model. -/
theorem Follows.stay (follows : Follows server s t) (isActive : r ∈ s.active)
    (goesOn : Matches server next (t.requests r)) : Follows server (s.setRequest r next) t where
  tokens := follows.tokens
  clock := follows.clock
  used := follows.used
  families := follows.families
  free q isFree := follows.free q (State.free_cases isFree).2
  phases q phase' now := by
    rcases State.requests_cases now with ⟨rfl, rfl⟩ | ⟨-, old⟩
    · exact goesOn
    · exact follows.phases q phase' old
  active q phase' now := by
    rcases State.requests_cases now with ⟨rfl, -⟩ | ⟨-, old⟩
    · exact isActive
    · exact follows.active q phase' old
  issued := follows.issued

end

/-! ## Every step -/

/-- The rotation can follow the step to `s'`, and meets its condition if the step does. -/
def CanFollow (server : Server) (s : State) (a : Action) (t : OAuth.State) (s' : State) : Prop :=
  LeadsTo OAuth.step OAuth.Exclusive (Exclusive server s a) t (Follows server s')

section

variable {server : Server} {s s' : State} {t : OAuth.State} {r : RequestId} {a : Action}
  {phase next : Phase} {draws : Draws}

theorem canFollow_stay (follows : Follows server s' t) : CanFollow server s a t s' :=
  .stay follows

theorem canFollow_step (a' : OAuth.Action) (t' : OAuth.State) (taken : OAuth.step t a' = some t')
    (exclusive : Exclusive server s a → OAuth.Exclusive t a') (follows : Follows server s' t') :
    CanFollow server s a t s' :=
  .single taken exclusive follows

/-- The condition is about requests that are about to read a token only. -/
theorem exclusive_of_phase {phase' : OAuth.Phase} {fresh : Hash}
    (found : t.requests r = some phase') (notPresent : ∀ hash, phase' ≠ .present hash) :
    OAuth.Exclusive t (.advance r fresh) := by
  rw [OAuth.Exclusive, found]
  cases phase' with
  | present hash => exact absurd rfl (notPresent hash)
  | got | query | delete | mark | draw | issue | issueRefresh | replied => exact trivial

/-- A token that is read in the other model is read here. -/
theorem Follows.reading (follows : Follows server s t) {q : RequestId} {p : Hash × Grant}
    (pending : t.pending q = some p) :
    ∃ phase, s.requests q = some phase ∧ phase.reading server s.clock = some p.1 := by
  obtain ⟨phase', found', isPending⟩ := Option.bind_eq_some_iff.mp pending
  cases found : s.requests q with
  | none =>
      rw [follows.free q found] at found'
      cases found'
  | some phase =>
      refine ⟨phase, rfl, ?_⟩
      have same := follows.phases q phase found
      rw [found'] at same
      rw [follows.clock] at isPending
      cases same with
      | got isRefresh tok =>
          rw [OAuth.Phase.pending, Option.ite_none_right_eq_some, Option.some.injEq] at isPending
          rw [Phase.reading, if_pos isPending.1, ← isPending.2]
      | mark isRefresh tok =>
          cases isPending
          rfl
      | present | query | delete | issue | createAccess | createRefresh | replied =>
          cases isPending

theorem Follows.exclusive (follows : Follows server s t) {form : TokenForm} (draws : Draws)
    (outcome : Store.Outcome) (fresh : Hash) (found : s.requests r = some (.getToken form))
    (found' : t.requests r = some (.present (server.presented form)))
    (exclusive : Exclusive server s (.advance r draws outcome)) :
    OAuth.Exclusive t (.advance r fresh) := by
  rw [OAuth.Exclusive, found']
  intro tok isStored live good q _ p pending same
  rw [follows.tokens] at isStored
  rw [follows.clock] at good
  obtain ⟨phase, isPhase, reading⟩ := follows.reading pending
  exact exclusive _ found form rfl tok isStored live good q (follows.active q phase isPhase) phase
    isPhase (reading.trans (congrArg some same))

/-- A request reads a token. -/
theorem Follows.getToken (follows : Follows server s t) {form : TokenForm}
    (found : s.requests r = some (.getToken form))
    (taken : advance server s r draws .ok (.getToken form) = some s') :
    CanFollow server s (.advance r draws .ok) t s' := by
  have same := follows.phases r _ found
  have isActive := follows.active r _ found
  generalize isPhase : t.requests r = phase' at same
  cases same with
  | outside outside => exact outside.elim
  | present isRefresh =>
      have exclusive := follows.exclusive draws .ok [] found isPhase
      rw [advance, if_pos rfl] at taken
      split at taken
      · rename_i missing
        cases taken
        refine canFollow_step (.advance r []) _ ?_ exclusive
          (follows.setRequest isActive (.replied _ .invalidGrant)
            fun _ drawn => drawn.setRequest isPhase (.inl rfl))
        simp only [OAuth.step, OAuth.State.advance, isPhase, follows.tokens, Server.presented,
          missing]
      · rename_i tok stored
        cases taken
        refine canFollow_step (.advance r []) _ ?_ exclusive
          (follows.setRequest isActive (.got isRefresh tok)
            fun _ drawn => drawn.setRequest isPhase (.inl rfl))
        simp only [OAuth.step, OAuth.State.advance, isPhase, follows.tokens, Server.presented,
          stored]

/-- The checks of a token. -/
theorem matches_checkToken (server : Server) {form : TokenForm} (isRefresh : form.IsRefresh)
    (clock : Nat) (tok : OAuthToken) :
    ∃ next', Matches server (Server.checkToken clock form tok) (some next') ∧
      ∀ t r fresh, t.clock = clock → t.requests r = some (.got (server.presented form) tok) →
        OAuth.step t (.advance r fresh) = some (t.setRequest r next') := by
  rw [Server.checkToken]
  split
  · rename_i other
    refine ⟨_, .replied _ .invalidGrant, fun t r fresh _ found => ?_⟩
    simp only [OAuth.step, OAuth.State.advance, found, if_pos other]
  · rename_i kind
    split
    · rename_i superseded
      refine ⟨_, .query tok.family, fun t r fresh _ found => ?_⟩
      simp only [OAuth.step, OAuth.State.advance, found, if_neg kind, if_pos superseded]
    · rename_i notSuperseded
      split
      · rename_i expired
        refine ⟨_, .replied _ .invalidGrant, fun t r fresh isClock found => ?_⟩
        simp only [OAuth.step, OAuth.State.advance, found, isClock, if_neg kind,
          if_neg notSuperseded, if_pos expired]
      · rename_i good
        refine ⟨_, .mark isRefresh tok, fun t r fresh isClock found => ?_⟩
        simp only [OAuth.step, OAuth.State.advance, found, isClock, if_neg kind,
          if_neg notSuperseded, if_neg good]

/-- A request that is not about to read a token goes on in both models. -/
theorem Follows.advance (follows : Follows server s t) {phase' next' : OAuth.Phase} (fresh : Hash)
    (found : s.requests r = some phase) (isPhase : t.requests r = some phase')
    (notPresent : ∀ hash, phase' ≠ .present hash) (goesOn : Matches server next (some next'))
    (drawn : parentOf phase' = none ∨ parentOf phase' = parentOf next')
    (taken : OAuth.step t (.advance r fresh) = some (t.setRequest r next')) :
    CanFollow server s a t (s.setRequest r next) :=
  canFollow_step _ _ taken (fun _ => exclusive_of_phase isPhase notPresent)
    (follows.setRequest (follows.active r phase found) goesOn
      fun _ before => before.setRequest isPhase drawn)

/-- A request checks its token. -/
theorem Follows.gotToken (follows : Follows server s t) {form : TokenForm} {tok : OAuthToken}
    (found : s.requests r = some (.gotToken form tok)) :
    CanFollow server s a t (s.setRequest r (Server.checkToken s.clock form tok)) := by
  have same := follows.phases r _ found
  generalize isPhase : t.requests r = phase' at same
  cases same with
  | outside outside => exact outside.elim
  | got isRefresh tok =>
      obtain ⟨next', goesOn, step⟩ := matches_checkToken server isRefresh s.clock tok
      exact follows.advance [] found isPhase (fun _ => OAuth.Phase.noConfusion) goesOn (.inl rfl)
        (step t r [] follows.clock isPhase)

/-- A request asks for the documents of a family. -/
theorem Follows.query (follows : Follows server s t) {family : Bytes}
    (found : s.requests r = some (.query family)) :
    CanFollow server s a t
      (s.setRequest r (.delete family (familyDocs s.tokens s.used family))) := by
  have same := follows.phases r _ found
  generalize isPhase : t.requests r = phase' at same
  cases same with
  | outside outside => exact outside.elim
  | query family =>
      refine follows.advance [] found isPhase (fun _ => OAuth.Phase.noConfusion)
        (.delete family _) (.inl rfl) ?_
      simp only [OAuth.step, OAuth.State.advance, isPhase, follows.tokens, follows.used]

/-- A request has deleted the documents of a family. -/
theorem Follows.endRevocation (follows : Follows server s t) {family : Bytes}
    (found : s.requests r = some (.delete family [])) :
    CanFollow server s a t (s.endRevocation r family) := by
  have same := follows.phases r _ found
  generalize isPhase : t.requests r = phase' at same
  cases same with
  | outside outside => exact outside.elim
  | delete family docs =>
      have next : Follows server (s.setRequest r Server.reused)
          (t.setRequest r (.replied .invalidGrant)) :=
        follows.setRequest (follows.active r _ found) (.replied _ _)
          fun _ drawn => drawn.setRequest isPhase (.inl rfl)
      refine canFollow_step (.advance r []) _ ?_
        (fun _ => exclusive_of_phase isPhase fun _ => OAuth.Phase.noConfusion) { next with }
      simp only [OAuth.step, OAuth.State.advance, isPhase]

/-- A request deletes a document of a family. -/
theorem Follows.delete (follows : Follows server s t) {family : Bytes} {h : Hash}
    {docs : List Hash} (found : s.requests r = some (.delete family (h :: docs))) :
    CanFollow server s a t
      { s.setRequest r (.delete family docs) with tokens := revokeOAuthToken s.tokens h } := by
  have same := follows.phases r _ found
  generalize isPhase : t.requests r = phase' at same
  cases same with
  | outside outside => exact outside.elim
  | delete family docs' =>
      have next : Follows server (s.setRequest r (.delete family docs))
          (t.setRequest r (.delete docs)) :=
        follows.setRequest (follows.active r _ found) (.delete family docs)
          fun _ drawn => drawn.setRequest isPhase (.inl rfl)
      refine canFollow_step (.advance r [])
        ({ t.setRequest r (.delete docs) with tokens := revokeOAuthToken t.tokens h }) ?_
        (fun _ => exclusive_of_phase isPhase fun _ => OAuth.Phase.noConfusion)
        { next with tokens := congrArg (revokeOAuthToken · h) follows.tokens }
      simp only [OAuth.step, OAuth.State.advance, isPhase]

/-- A request marks its token. -/
theorem Follows.mark (follows : Follows server s t) {form : TokenForm} {tok : OAuthToken}
    (found : s.requests r = some (.mark form tok)) (named : tok.family ≠ []) :
    CanFollow server s a t
      { s.setRequest r (.issue form tok.grant) with
        tokens := markOAuthTokenSuperseded s.tokens (server.presented form) } := by
  have same := follows.phases r _ found
  generalize isPhase : t.requests r = phase' at same
  cases same with
  | outside outside => exact outside.elim
  | mark isRefresh tok =>
      have next : Follows server (s.setRequest r (.issue form tok.grant))
          (t.setRequest r (.draw (some (server.presented form)) tok.grant)) :=
        follows.setRequest (follows.active r _ found) (.issue isRefresh named)
          fun _ drawn => drawn.setRequest isPhase (.inl rfl)
      refine canFollow_step (.advance r [])
        ({ t.setRequest r (.draw (some (server.presented form)) tok.grant) with
          tokens := markOAuthTokenSuperseded t.tokens (server.presented form) }) ?_
        (fun _ => exclusive_of_phase isPhase fun _ => OAuth.Phase.noConfusion)
        { next with
          tokens := congrArg (markOAuthTokenSuperseded · (server.presented form)) follows.tokens }
      simp only [OAuth.step, OAuth.State.advance, isPhase]

/-- A request stores its access token. -/
theorem Follows.createAccess (follows : Follows server s t) {pair : Pair}
    (found : s.requests r = some (.createAccess pair))
    (unused : server.sha256Hex pair.access ∉ s.used) :
    CanFollow server s a t
      { s.setRequest r (.createRefresh pair) with
        tokens := createOAuthToken s.tokens (server.sha256Hex pair.access)
          (pair.grant.access pair.now)
        used := server.sha256Hex pair.access :: s.used } := by
  have same := follows.phases r _ found
  generalize isPhase : t.requests r = phase' at same
  cases same with
  | outside outside => exact outside.elim
  | createAccess pair parent =>
      have next : Follows server (s.setRequest r (.createRefresh pair))
          (t.setRequest r (.issueRefresh parent pair.grant pair.now)) :=
        follows.setRequest (follows.active r _ found) (.createRefresh pair parent)
          fun _ drawn => drawn.setRequest isPhase (.inr rfl)
      rw [← follows.used] at unused
      refine canFollow_step (.advance r (server.sha256Hex pair.access))
        ({ t.setRequest r (.issueRefresh parent pair.grant pair.now) with
          tokens := createOAuthToken t.tokens (server.sha256Hex pair.access)
            (pair.grant.access pair.now)
          used := server.sha256Hex pair.access :: t.used }) ?_
        (fun _ => exclusive_of_phase isPhase fun _ => OAuth.Phase.noConfusion)
        { next with
          tokens := congrArg (createOAuthToken · _ _) follows.tokens
          used := congrArg (_ :: ·) follows.used }
      simp only [OAuth.step, OAuth.State.advance, isPhase, if_neg unused]

/-- A request stores its refresh token, and answers. -/
theorem Follows.createRefresh (follows : Follows server s t) {pair : Pair} {reply : Reply}
    (found : s.requests r = some (.createRefresh pair))
    (unused : server.sha256Hex pair.refresh ∉ s.used) :
    CanFollow server s a t
      { s.setRequest r (.replied reply) with
        tokens := createOAuthToken s.tokens (server.sha256Hex pair.refresh)
          (pair.grant.refresh pair.now)
        used := server.sha256Hex pair.refresh :: s.used } := by
  have same := follows.phases r _ found
  generalize isPhase : t.requests r = phase' at same
  cases same with
  | outside outside => exact outside.elim
  | createRefresh pair parent =>
      have spent : Follows server s { t with issued := parent.toList ++ t.issued } :=
        { follows with
          issued := fun form pair mem isRefresh =>
            (follows.issued form pair mem isRefresh).imp_left (List.mem_append_right _) }
      have next : Follows server (s.setRequest r (.replied reply))
          (({ t with issued := parent.toList ++ t.issued } : OAuth.State).setRequest r
            (.replied .pair)) := by
        apply spent.setRequest (follows.active r _ found) (.replied _ _)
        rintro h (mem | ⟨q, phase, isNow, isParent⟩)
        · exact .inl mem
        · by_cases same : q = r
          · cases (same ▸ isNow : t.requests r = some phase).symm.trans isPhase
            exact .inl (List.mem_append_left _ (Option.mem_toList.mpr isParent))
          · exact .inr ⟨q, phase,
              (OAuth.State.requests_setRequest_of_ne _ _ same).trans isNow, isParent⟩
      rw [← follows.used] at unused
      refine canFollow_step (.advance r (server.sha256Hex pair.refresh))
        ({ t.setRequest r (.replied .pair) with
          tokens := createOAuthToken t.tokens (server.sha256Hex pair.refresh)
            (pair.grant.refresh pair.now)
          used := server.sha256Hex pair.refresh :: t.used
          issued := parent.toList ++ t.issued }) ?_
        (fun _ => exclusive_of_phase isPhase fun _ => OAuth.Phase.noConfusion)
        { next with
          tokens := congrArg (createOAuthToken · _ _) follows.tokens
          used := congrArg (_ :: ·) follows.used }
      simp only [OAuth.step, OAuth.State.advance, isPhase, if_neg unused]

/-- A request draws the first pair of a family. -/
theorem Follows.exchange (follows : Follows server s t) {form : TokenForm} {g : Grant}
    (isActive : r ∈ s.active) (isCode : ¬ form.IsRefresh) (unnamed : g.family = [])
    (isFree : t.requests r = none) (fresh : ∀ d ∈ drawnFor g draws, s.Fresh d) :
    CanFollow server s a t
      { s.setRequest r (.createAccess (drawPair g draws s.clock)) with
        drawn := drawnFor g draws ++ s.drawn
        log := .issued form (drawPair g draws s.clock) :: s.log } := by
  have drawsFamily : draws.family ∈ drawnFor g draws := by
    rw [drawnFor, if_pos unnamed]
    exact List.mem_cons_of_mem _ (List.mem_cons_of_mem _ (List.mem_singleton_self _))
  obtain ⟨named, newFamily⟩ := fresh _ drawsFamily
  let grant : Grant := { g with family := draws.family }
  have pair : (drawPair g draws s.clock).grant = grant := by rw [drawPair, if_pos unnamed]
  have begun : Follows server { s with drawn := drawnFor g draws ++ s.drawn }
      { t with active := r :: t.active, families := draws.family :: t.families } :=
    { follows with
      families := List.forall_mem_cons.mpr ⟨List.mem_append_left _ drawsFamily,
        fun family mem => List.mem_append_right _ (follows.families family mem)⟩ }
  have goesOn : Matches server _ _ := .createAccess (drawPair g draws s.clock) none
  rw [pair] at goesOn
  have next := begun.setRequest isActive goesOn fun _ drawn => drawn.begin isFree
  refine ⟨[.exchange r grant, .advance r []], _, ?_, fun _ => ?_,
    { next with issued := fun form' pair' mem isRefresh => ?_ }⟩
  · have unused : draws.family ∉ t.families := fun mem => newFamily (follows.families _ mem)
    simp only [exec, OAuth.step, OAuth.State.advance, OAuth.State.setRequest, isFree, grant, unused,
      named, Option.isSome_none, Bool.false_eq_true, or_self, if_false, Option.bind_some,
      Function.update_self, Function.update_idem, follows.clock]
    rfl
  · intro middle taken
    refine ⟨trivial, fun last _ => ⟨?_, trivial⟩⟩
    rw [OAuth.step] at taken
    split at taken
    · cases taken
    · cases taken
      exact exclusive_of_phase (Function.update_self ..) fun _ => OAuth.Phase.noConfusion
  · rcases List.mem_cons.mp mem with new | old
    · cases new
      exact absurd isRefresh isCode
    · exact next.issued form' pair' old isRefresh

/-- A request draws its pair. -/
theorem Follows.issue (follows : Follows server s t) {form : TokenForm} {g : Grant}
    (found : s.requests r = some (.issue form g)) (fresh : ∀ d ∈ drawnFor g draws, s.Fresh d) :
    CanFollow server s a t
      { s.setRequest r (.createAccess (drawPair g draws s.clock)) with
        drawn := drawnFor g draws ++ s.drawn
        log := .issued form (drawPair g draws s.clock) :: s.log } := by
  have same := follows.phases r _ found
  have isActive := follows.active r _ found
  generalize isPhase : t.requests r = phase' at same
  cases same with
  | outside outside => exact follows.exchange isActive outside.1 outside.2 isPhase fresh
  | issue isRefresh named =>
      have pair : (drawPair g draws s.clock).grant = g := by rw [drawPair, if_neg named]
      have next : Follows server (s.setRequest r (.createAccess (drawPair g draws s.clock)))
          (t.setRequest r (.issue (some (server.presented form)) g s.clock)) := by
        apply follows.setRequest isActive _ fun _ drawn => drawn.setRequest isPhase (.inl rfl)
        have matches_ : Matches server _ _ :=
          .createAccess (drawPair g draws s.clock) (some (server.presented form))
        rwa [pair] at matches_
      refine canFollow_step (.advance r []) _ ?_
        (fun _ => exclusive_of_phase isPhase fun _ => OAuth.Phase.noConfusion)
        { next with
          families := fun family mem => List.mem_append_right _ (follows.families family mem)
          issued := ?_ }
      · simp only [OAuth.step, OAuth.State.advance, isPhase, follows.clock]
      · intro form' pair' mem isRefresh'
        rcases List.mem_cons.mp mem with new | old
        · cases new
          exact .inr ⟨r, _, Function.update_self .., rfl⟩
        · exact next.issued form' pair' old isRefresh'

/-- The other model knows nothing of a request that has not come to a token. -/
theorem Matches.eq_none {p : Option OAuth.Phase} (matches_ : Matches server phase p)
    (outside : phase.Outside) (goesOn : ∀ reply, phase ≠ .replied reply) : p = none := by
  cases matches_ with
  | outside => rfl
  | issue isRefresh => exact absurd isRefresh outside.1
  | replied reply => exact absurd rfl (goesOn reply)
  | present | got | query | delete | mark | createAccess | createRefresh => exact outside.elim

theorem Follows.outside (follows : Follows server s t) (found : s.requests r = some phase)
    (isOutside : phase.Outside) (goesOn : ∀ reply, phase ≠ .replied reply)
    (next_ : next.Outside) : Follows server (s.setRequest r next) t := by
  apply follows.stay (follows.active r phase found)
  rw [(follows.phases r phase found).eq_none isOutside goesOn]
  exact .outside next_

/-- The form of a request that is about a code. -/
def Phase.codeForm : Phase → Option TokenForm
  | .getCode form | .deleteCode form _ | .gotCode form _ => some form
  | _ => none

theorem Matches.isCode {p : Option OAuth.Phase} {form : TokenForm}
    (matches_ : Matches server phase p) (isForm : phase.codeForm = some form) :
    ¬ form.IsRefresh := by
  cases matches_ with
  | @outside phase outside =>
      cases phase with
      | getCode | deleteCode | gotCode =>
          cases isForm
          exact outside
      | createClient | getClient | gotClient | createCode | getToken | gotToken | query | delete
      | mark | issue | createAccess | createRefresh | replied => cases isForm
  | present | got | query | delete | mark | issue | createAccess | createRefresh | replied =>
      cases isForm

/-- More values are drawn, but no pair. -/
theorem Follows.draw (follows : Follows server s t) (drawn : List Bytes) {e : Event}
    (noPair : ∀ form pair, e ≠ .issued form pair) {clients : Bytes → Option OAuthClient}
    {codes : Hash → Option Secrets.OAuthCode} :
    Follows server { s with clients, codes, drawn := drawn ++ s.drawn, log := e :: s.log } t :=
  { follows with
    families := fun family mem => List.mem_append_right _ (follows.families family mem)
    issued := fun form pair mem isRefresh =>
      follows.issued form pair ((List.mem_cons.mp mem).resolve_left fun same =>
        noPair form pair same.symm) isRefresh }

/-- The next step of a request. -/
theorem Follows.advanced (follows : Follows server s t) (drawing : Drawing server s)
    (sound : Sound server s) (noCollision : Function.Injective server.sha256)
    (found : s.requests r = some phase)
    (taken : Endpoint.advance server s r draws .ok phase = some s') :
    CanFollow server s (.advance r draws .ok) t s' ∧ Drawing server s' := by
  cases phase with
  | createClient req =>
      rw [Endpoint.advance] at taken
      split at taken
      · cases taken
      · cases taken
        refine ⟨canFollow_stay (Follows.draw ?_ [draws.clientID] fun _ _ => Event.noConfusion),
          drawing.quiet rfl rfl rfl (List.subset_cons_self ..)⟩
        exact follows.outside found trivial (fun _ => Phase.noConfusion) trivial
  | createCode req email time =>
      rw [Endpoint.advance] at taken
      split at taken
      · cases taken
      · cases taken
        refine ⟨canFollow_stay (Follows.draw ?_ [draws.code] fun _ _ => Event.noConfusion),
          drawing.quiet rfl rfl rfl (List.subset_cons_self ..)⟩
        exact follows.outside found trivial (fun _ => Phase.noConfusion) trivial
  | getClient req =>
      rw [Endpoint.advance, if_pos rfl] at taken
      split at taken
      all_goals
        cases taken
        exact ⟨canFollow_stay (follows.outside found trivial (fun _ => Phase.noConfusion) trivial),
          drawing.quiet rfl rfl rfl (List.Subset.refl _)⟩
  | gotClient req client =>
      cases taken
      obtain ⟨outside, quiet⟩ := (plain_authorizeClient server s.clock req client).outside
      exact ⟨canFollow_stay (follows.outside found trivial (fun _ => Phase.noConfusion) outside),
        drawing.quiet rfl quiet rfl (List.Subset.refl _)⟩
  | getCode form =>
      have isCode := (follows.phases r _ found).isCode rfl
      rw [Endpoint.advance, if_pos rfl] at taken
      split at taken
      · cases taken
        exact ⟨canFollow_stay (follows.outside found isCode (fun _ => Phase.noConfusion) trivial),
          drawing.quiet rfl rfl rfl (List.Subset.refl _)⟩
      · cases taken
        exact ⟨canFollow_stay (follows.outside found isCode (fun _ => Phase.noConfusion) isCode),
          drawing.quiet rfl rfl rfl (List.Subset.refl _)⟩
  | deleteCode form oc =>
      have isCode := (follows.phases r _ found).isCode rfl
      cases taken
      have next : Follows server (s.setRequest r (.gotCode form oc)) t :=
        follows.outside found isCode (fun _ => Phase.noConfusion) isCode
      exact ⟨canFollow_stay { next with },
        drawing.quiet (r := r) rfl rfl rfl (List.Subset.refl _)⟩
  | gotCode form oc =>
      have isCode := (follows.phases r _ found).isCode rfl
      cases taken
      obtain ⟨outside, quiet⟩ := outside_checkCode server s.clock isCode oc
      exact ⟨canFollow_stay (follows.outside found isCode (fun _ => Phase.noConfusion) outside),
        drawing.quiet rfl quiet rfl (List.Subset.refl _)⟩
  | getToken form =>
      refine ⟨follows.getToken found taken, ?_⟩
      rw [Endpoint.advance, if_pos rfl] at taken
      split at taken
      all_goals
        cases taken
        exact drawing.quiet rfl rfl rfl (List.Subset.refl _)
  | gotToken form tok =>
      cases taken
      refine ⟨follows.gotToken found, drawing.quiet rfl ?_ rfl (List.Subset.refl _)⟩
      rw [Server.checkToken]
      split
      · rfl
      · split
        · rfl
        · split <;> rfl
  | query family =>
      rw [Endpoint.advance, if_pos rfl] at taken
      cases taken
      exact ⟨follows.query found, drawing.quiet rfl rfl rfl (List.Subset.refl _)⟩
  | delete family docs =>
      cases docs with
      | nil =>
          cases taken
          exact ⟨follows.endRevocation found, drawing.quiet rfl rfl rfl (List.Subset.refl _)⟩
      | cons h docs =>
          rw [Endpoint.advance, if_pos rfl] at taken
          cases taken
          exact ⟨follows.delete found, drawing.quiet rfl rfl rfl (List.Subset.refl _)⟩
  | mark form tok =>
      rw [Endpoint.advance, if_pos rfl] at taken
      cases taken
      exact ⟨follows.mark found (Server.named_of_mark (sound.phases r _ found)),
        drawing.quiet rfl rfl rfl (List.Subset.refl _)⟩
  | issue form g =>
      rw [Endpoint.advance] at taken
      split at taken
      · cases taken
      · rename_i fresh
        rw [not_or, not_not, not_not] at fresh
        cases taken
        exact ⟨follows.issue found fresh.1,
          drawing.issue noCollision fresh.1 fresh.2 rfl rfl rfl⟩
  | createAccess pair =>
      rw [Endpoint.advance, if_pos rfl] at taken
      cases taken
      have unused := (drawing.drawn r _ found pair.access List.mem_cons_self).2
      exact ⟨follows.createAccess found unused,
        drawing.store noCollision found rfl rfl rfl rfl⟩
  | createRefresh pair =>
      rw [Endpoint.advance, if_pos rfl] at taken
      cases taken
      have unused := (drawing.drawn r _ found pair.refresh List.mem_cons_self).2
      exact ⟨follows.createRefresh found unused,
        drawing.store noCollision found rfl rfl rfl rfl⟩
  | replied reply => cases taken

/-- The rotation follows every step of the endpoint, as long as the storage works. -/
theorem Follows.step (follows : Follows server s t) (drawing : Drawing server s)
    (sound : Sound server s) (noCollision : Function.Injective server.sha256) (works : Works a)
    (taken : Endpoint.step server s a = some s') :
    CanFollow server s a t s' ∧ Drawing server s' := by
  cases a with
  | tick now =>
      rw [Endpoint.step] at taken
      split at taken
      · rename_i later
        cases taken
        refine ⟨canFollow_step (.tick now) { t with clock := now } ?_ (fun _ => trivial)
          { follows with clock := rfl }, { drawing with }⟩
        rw [OAuth.step, follows.clock, if_pos later]
      · cases taken
  | request r req =>
      rw [Endpoint.step] at taken
      split at taken
      · cases taken
      · rename_i unused
        rw [Option.not_isSome_iff_eq_none] at unused
        cases taken
        have isFree := follows.free r unused
        rcases outside_handle server req with ⟨form, isRefresh, handled⟩ | ⟨outside, quiet⟩
        · have begun : Follows server { s with active := r :: s.active }
              { t with active := r :: t.active } :=
            { follows with
              active := fun q phase found => List.mem_cons_of_mem _ (follows.active q phase found) }
          have next := begun.setRequest List.mem_cons_self (.present isRefresh)
            fun _ drawn => drawn.begin isFree
          rw [handled]
          refine ⟨canFollow_step (.present r (server.presented form)) _ ?_ (fun _ => trivial)
            { next with }, drawing.quiet rfl rfl rfl (List.Subset.refl _)⟩
          rw [OAuth.step, isFree, if_neg (by simp)]
          rfl
        · have begun : Follows server { s with active := r :: s.active } t :=
            { follows with
              active := fun q phase found => List.mem_cons_of_mem _ (follows.active q phase found) }
          have goesOn : Matches server (server.handle req) (t.requests r) := by
            rw [isFree]
            exact .outside outside
          have next := begun.stay List.mem_cons_self goesOn
          exact ⟨canFollow_stay { next with },
            drawing.quiet rfl quiet rfl (List.Subset.refl _)⟩
  | advance r draws outcome =>
      cases works
      obtain ⟨phase, found, advanced⟩ := Option.bind_eq_some_iff.mp taken
      exact follows.advanced drawing sound noCollision found advanced
  | removeToken h =>
      cases taken
      exact ⟨canFollow_step (.remove h) _ rfl (fun _ => trivial)
        { follows with tokens := congrArg (revokeOAuthToken · h) follows.tokens },
        { drawing with }⟩
  | removeCode h =>
      cases taken
      exact ⟨canFollow_stay { follows with }, { drawing with }⟩

/-! ## One pair for each token -/

theorem issued_of_advance {outcome : Store.Outcome} {form : TokenForm} {pair : Pair}
    (taken : Endpoint.advance server s r draws outcome phase = some s')
    (mem : .issued form pair ∈ s'.log) :
    .issued form pair ∈ s.log ∨
      (∃ g, phase = .issue form g) ∧ s'.log = .issued form pair :: s.log := by
  have later (e : Event) (noPair : e ≠ .issued form pair) (log : s'.log = e :: s.log) :
      .issued form pair ∈ s.log := by
    rw [log, List.mem_cons] at mem
    exact mem.resolve_left noPair.symm
  cases phase with
  | createClient req | createCode req email time =>
      rw [Endpoint.advance] at taken
      split at taken
      · cases taken
      · cases taken
        exact .inl (later _ Event.noConfusion rfl)
  | getClient req | getCode form' | getToken form' | query family =>
      rw [Endpoint.advance] at taken
      split at taken
      all_goals
        cases taken
        exact .inl mem
  | delete family docs =>
      cases docs with
      | nil =>
          cases taken
          exact .inl mem
      | cons h docs =>
          rw [Endpoint.advance] at taken
          split at taken
          all_goals
            cases taken
            exact .inl mem
  | issue form' g =>
      rw [Endpoint.advance] at taken
      split at taken
      · cases taken
      · cases taken
        rcases List.mem_cons.mp mem with new | old
        · cases new
          exact .inr ⟨⟨g, rfl⟩, rfl⟩
        · exact .inl old
  | gotClient | deleteCode | gotCode | gotToken | mark | createAccess | createRefresh =>
      cases taken
      exact .inl mem
  | replied reply => cases taken

/-- A pair that is new in the log is drawn in the step. -/
theorem issued_of_step {form : TokenForm} {pair : Pair}
    (taken : Endpoint.step server s a = some s') (mem : .issued form pair ∈ s'.log) :
    .issued form pair ∈ s.log ∨
      (∃ r g, s.requests r = some (.issue form g)) ∧ s'.log = .issued form pair :: s.log := by
  cases a with
  | tick now =>
      rw [Endpoint.step] at taken
      split at taken
      · cases taken
        exact .inl mem
      · cases taken
  | request r req =>
      rw [Endpoint.step] at taken
      split at taken
      · cases taken
      · cases taken
        exact .inl mem
  | advance r draws outcome =>
      obtain ⟨phase, found, advanced⟩ := Option.bind_eq_some_iff.mp taken
      rcases issued_of_advance advanced mem with old | ⟨⟨g, rfl⟩, log⟩
      · exact .inl old
      · exact .inr ⟨⟨r, g, found⟩, log⟩
  | removeToken h | removeCode h =>
      cases taken
      exact .inl mem

/-- A request that is about to draw its pair is the first one for its token. -/
theorem Follows.undrawn (follows : Follows server s t) (inv : Inv t) {form form' : TokenForm}
    {g : Grant} {pair : Pair} (found : s.requests r = some (.issue form g))
    (isRefresh : form.IsRefresh) (isRefresh' : form'.IsRefresh)
    (same : form'.refreshToken = form.refreshToken) : .issued form' pair ∉ s.log := by
  intro mem
  have isPhase := follows.phases r _ found
  generalize isPhase' : t.requests r = phase' at isPhase
  cases isPhase with
  | outside outside => exact outside.1 isRefresh
  | issue _ named =>
      have issuing : t.issuing r = some (some (server.presented form), g) :=
        OAuth.State.issuing_of_found isPhase'
      have drawn := follows.issued form' pair mem isRefresh'
      rw [Server.presented, same] at drawn
      rcases drawn with spent | ⟨q, phase, isOther, isParent⟩
      · exact inv.notYet r _ _ issuing rfl spent
      · have issuing' : ∃ p, t.issuing q = some p ∧ p.1 = some (server.presented form) := by
          cases phase with
          | issue parent g' now =>
              exact ⟨_, OAuth.State.issuing_of_found isOther, isParent⟩
          | issueRefresh parent g' now =>
              exact ⟨_, OAuth.State.issuing_of_found isOther, isParent⟩
          | present | got | query | delete | mark | draw | replied => cases isParent
        obtain ⟨p, isIssuing, isSame⟩ := issuing'
        have same := inv.issuer r q _ p _ issuing isIssuing rfl isSame
        rw [← same, isPhase'] at isOther
        cases isOther
        cases isParent

theorem Follows.once (follows : Follows server s t) (inv : Inv t) (once : s.Once)
    (taken : Endpoint.step server s a = some s') : s'.Once := by
  intro form form' pair pair' mem mem' isRefresh isRefresh' same
  rcases issued_of_step taken mem with old | ⟨⟨r, g, found⟩, log⟩
  · rcases issued_of_step taken mem' with old' | ⟨⟨r, g, found⟩, -⟩
    · exact once form form' pair pair' old old' isRefresh isRefresh' same
    · exact absurd old (follows.undrawn inv found isRefresh' isRefresh same)
  · rw [log, List.mem_cons] at mem'
    rcases mem' with new | old'
    · cases new
      rfl
    · exact absurd old' (follows.undrawn inv found isRefresh isRefresh' same.symm)

end

/-! ## Every run -/

/-- The rotation has come as far as the endpoint, exclusively if `alone` holds, and all that
is stored and drawn is accounted for. -/
structure Linked (server : Server) (alone : Prop) (s : State) : Prop where
  sound : Sound server s
  drawing : Drawing server s
  followed : LeadsTo OAuth.step OAuth.Exclusive alone OAuth.State.init (Follows server s)

section

variable {server : Server} {alone : Prop} {s s' : State} {a : Action}

theorem Linked.step (linked : Linked server alone s)
    (noCollision : Function.Injective server.sha256) (works : Works a)
    (exclusive : alone → Exclusive server s a) (taken : Endpoint.step server s a = some s') :
    Linked server alone s' := by
  have next (t) (follows : Follows server s t) :=
    follows.step linked.drawing linked.sound noCollision works taken
  obtain ⟨-, t, -, -, follows⟩ := linked.followed
  exact ⟨linked.sound.step noCollision taken, (next t follows).2,
    linked.followed.trans exclusive fun t follows => (next t follows).1⟩

/-- The invariant of the rotation holds where the endpoint has come alone. -/
theorem Linked.inv (linked : Linked server True s) : ∃ t, Inv t ∧ Follows server s t := by
  obtain ⟨rotations, t, run, exclusive, follows⟩ := linked.followed
  exact ⟨t, (always_of_preserved (fun _ _ _ inv met taken => Inv.step inv met taken) inv_init
    (exclusive trivial)).last run, follows⟩

end

end Drover.OAuth.Endpoint
