import Drover.OAuth.Tokens
import Drover.Transition.Run
import Mathlib.Data.Fintype.EquivFin

/-!
# Refresh-token rotation

Requests to the token endpoint, one store operation a step.  A refresh request
reads its token, and marks it as superseded in a later, unconditional write
before it issues the next pair.  Two requests that read the token before either
has marked it both issue a pair; `refresh_single_use` says that rotation is
single-use as long as no two do.
-/

namespace Drover.OAuth

open Drover.Transition

/-- The requests by number. -/
abbrev RequestId := Nat

/-- What a request is answered with. -/
inductive Reply where
  | invalidGrant
  | pair
  deriving DecidableEq

/-- What a request does next. -/
inductive Phase where
  /-- `GetOAuthTokenRaw`. -/
  | present (hash : Hash)
  /-- The checks of `tokenFromRefresh`. -/
  | got (hash : Hash) (t : OAuthToken)
  /-- The query of `RevokeOAuthTokenFamily`. -/
  | query (family : Bytes)
  /-- Its deletes. -/
  | delete (docs : List Hash)
  /-- `MarkOAuthTokenSuperseded`. -/
  | mark (hash : Hash) (g : Grant)
  /-- `issueTokenPair`: the time of the pair; `parent` is the refresh token that was
  presented, if any. -/
  | draw (parent : Option Hash) (g : Grant)
  /-- `issueTokenPair`: the access token. -/
  | issue (parent : Option Hash) (g : Grant) (now : Nat)
  /-- `issueTokenPair`: the refresh token. -/
  | issueRefresh (parent : Option Hash) (g : Grant) (now : Nat)
  | replied (reply : Reply)
  deriving DecidableEq

/-- The store, the clock, the requests, and what has been drawn and issued so
far. -/
structure State where
  tokens : Tokens
  clock : Nat
  requests : RequestId → Option Phase
  active : List RequestId
  used : List Hash
  families : List Bytes
  /-- The presented tokens of the pairs issued to refresh requests. -/
  issued : List Hash

/-- No token is stored, and no request runs. -/
def State.init : State := ⟨fun _ => none, 0, fun _ => none, [], [], [], []⟩

/-- What can happen next. -/
inductive Action where
  | tick (now : Nat)
  /-- An `authorization_code` request whose code was accepted; the family is the
  new one that it draws. -/
  | exchange (r : RequestId) (g : Grant)
  /-- A `refresh_token` request. -/
  | present (r : RequestId) (hash : Hash)
  /-- The next step of a request; `fresh` is the hash of the token it draws, if
  it draws one. -/
  | advance (r : RequestId) (fresh : Hash)
  /-- `RevokeOAuthToken`, or the removal of an expired document. -/
  | remove (hash : Hash)

/-- The request `r` goes on as `phase`. -/
def State.setRequest (s : State) (r : RequestId) (phase : Phase) : State :=
  { s with requests := Function.update s.requests r (some phase) }

/-- The next step of a request. -/
def State.advance (s : State) (r : RequestId) (fresh : Hash) : Option State :=
  match s.requests r with
  | none => none
  | some (.present hash) =>
      match getOAuthTokenRaw s.tokens hash with
      | none => some (s.setRequest r (.replied .invalidGrant))
      | some t => some (s.setRequest r (.got hash t))
  | some (.got hash t) =>
      if t.kind ≠ refresh then some (s.setRequest r (.replied .invalidGrant))
      else if t.superseded then some (s.setRequest r (.query t.family))
      else if t.notExpired s.clock = false then some (s.setRequest r (.replied .invalidGrant))
      else some (s.setRequest r (.mark hash t.grant))
  | some (.query family) => some (s.setRequest r (.delete (familyDocs s.tokens s.used family)))
  | some (.delete []) => some (s.setRequest r (.replied .invalidGrant))
  | some (.delete (h :: docs)) =>
      some { s.setRequest r (.delete docs) with tokens := revokeOAuthToken s.tokens h }
  | some (.mark hash g) =>
      some { s.setRequest r (.draw (some hash) g) with
        tokens := markOAuthTokenSuperseded s.tokens hash }
  | some (.draw parent g) => some (s.setRequest r (.issue parent g s.clock))
  | some (.issue parent g now) =>
      if fresh ∈ s.used then none
      else some { s.setRequest r (.issueRefresh parent g now) with
        tokens := createOAuthToken s.tokens fresh (g.access now)
        used := fresh :: s.used }
  | some (.issueRefresh parent g now) =>
      if fresh ∈ s.used then none
      else some { s.setRequest r (.replied .pair) with
        tokens := createOAuthToken s.tokens fresh (g.refresh now)
        used := fresh :: s.used
        issued := parent.toList ++ s.issued }
  | some (.replied _) => none

/-- The system takes a step. -/
def step (s : State) : Action → Option State
  | .tick now => if s.clock ≤ now then some { s with clock := now } else none
  | .exchange r g =>
      if (s.requests r).isSome ∨ g.family ∈ s.families ∨ g.family = [] then none
      else some { s.setRequest r (.draw none g) with
        active := r :: s.active
        families := g.family :: s.families }
  | .present r hash =>
      if (s.requests r).isSome then none
      else some { s.setRequest r (.present hash) with active := r :: s.active }
  | .advance r fresh => s.advance r fresh
  | .remove hash => some { s with tokens := revokeOAuthToken s.tokens hash }

/-! ## Pending and issuing requests -/

/-- The refresh token that the request has read as good and not yet marked, and
the grant it will issue. -/
def Phase.pending (clock : Nat) : Phase → Option (Hash × Grant)
  | .got hash t => if t.Live ∧ t.notExpired clock = true then some (hash, t.grant) else none
  | .mark hash g => some (hash, g)
  | _ => none

/-- The pair the request is issuing. -/
def Phase.issuing : Phase → Option (Option Hash × Grant)
  | .draw parent g | .issue parent g _ | .issueRefresh parent g _ => some (parent, g)
  | _ => none

namespace State

/-- The good token that the request has read and not yet marked, with its grant. -/
def pending (s : State) (r : RequestId) : Option (Hash × Grant) :=
  (s.requests r).bind (Phase.pending s.clock)

/-- The pair that the request is issuing. -/
def issuing (s : State) (r : RequestId) : Option (Option Hash × Grant) :=
  (s.requests r).bind Phase.issuing

/-- No request is in flight. -/
def Quiescent (s : State) : Prop :=
  ∀ r phase, s.requests r = some phase → ∃ reply, phase = .replied reply

/-- A refresh token of the family that is neither superseded nor deleted. -/
def LiveIn (s : State) (family : Bytes) (h : Hash) : Prop :=
  ∃ t, s.tokens h = some t ∧ t.Live ∧ t.family = family

/-- Each refresh token has led to at most one pair, and when no request is in
flight each family has at most one live refresh token. -/
structure SingleUse (s : State) : Prop where
  issued : s.issued.Nodup
  family : s.Quiescent → ∀ family h h', s.LiveIn family h → s.LiveIn family h' → h = h'

end State

open State

/-- A request reads a good refresh token only if no other request has read it
so and not yet marked it. -/
def Exclusive (s : State) : Action → Prop
  | .advance r _ =>
      match s.requests r with
      | some (.present hash) =>
          ∀ t ∈ s.tokens hash, t.Live → t.notExpired s.clock = true →
            ∀ r' ∈ s.active, ∀ p ∈ s.pending r', p.1 ≠ hash
      | _ => True
  | _ => True

instance (s : State) (a : Action) : Decidable (Exclusive s a) := by
  unfold Exclusive
  split
  · split <;> infer_instance
  · infer_instance

/-! ## What a step can do -/

namespace State

variable {s : State} {r q : RequestId} {phase : Phase}

theorem pending_of_found (found : s.requests r = some phase) :
    s.pending r = phase.pending s.clock := by
  rw [pending, found, Option.bind_some]

theorem issuing_of_found (found : s.requests r = some phase) : s.issuing r = phase.issuing := by
  rw [issuing, found, Option.bind_some]

@[simp]
theorem pending_setRequest_same (s : State) (r : RequestId) (phase : Phase) :
    (s.setRequest r phase).pending r = phase.pending s.clock :=
  pending_of_found (by simp [setRequest])

@[simp]
theorem issuing_setRequest_same (s : State) (r : RequestId) (phase : Phase) :
    (s.setRequest r phase).issuing r = phase.issuing :=
  issuing_of_found (by simp [setRequest])

theorem requests_setRequest_of_ne (s : State) (phase : Phase) (other : q ≠ r) :
    (s.setRequest r phase).requests q = s.requests q :=
  Function.update_of_ne other ..

theorem requests_cases (s : State) (r : RequestId) (phase : Phase) {found : Phase}
    (now : (s.setRequest r phase).requests q = some found) :
    (q = r ∧ found = phase) ∨ (q ≠ r ∧ s.requests q = some found) := by
  by_cases same : q = r
  · subst same
    simp only [setRequest, Function.update_self, Option.some.injEq] at now
    exact .inl ⟨rfl, now.symm⟩
  · simp only [setRequest, Function.update_of_ne same] at now
    exact .inr ⟨same, now⟩

theorem pending_cases (s : State) (r : RequestId) (phase : Phase) {p : Hash × Grant}
    (now : (s.setRequest r phase).pending q = some p) :
    (q = r ∧ phase.pending s.clock = some p) ∨ (q ≠ r ∧ s.pending q = some p) := by
  by_cases same : q = r
  · subst same
    rw [pending_setRequest_same] at now
    exact .inl ⟨rfl, now⟩
  · simp only [pending, setRequest, Function.update_of_ne same] at now
    exact .inr ⟨same, now⟩

theorem issuing_cases (s : State) (r : RequestId) (phase : Phase) {p : Option Hash × Grant}
    (now : (s.setRequest r phase).issuing q = some p) :
    (q = r ∧ phase.issuing = some p) ∨ (q ≠ r ∧ s.issuing q = some p) := by
  by_cases same : q = r
  · subst same
    rw [issuing_setRequest_same] at now
    exact .inl ⟨rfl, now⟩
  · simp only [issuing, setRequest, Function.update_of_ne same] at now
    exact .inr ⟨same, now⟩

/-- The request goes on to a phase that is not pending. -/
theorem pending_back (notPending : phase.pending s.clock = none) {p : Hash × Grant}
    (now : (s.setRequest r phase).pending q = some p) : q ≠ r ∧ s.pending q = some p := by
  rcases pending_cases s r phase now with ⟨-, new⟩ | old
  · rw [notPending] at new
    cases new
  · exact old

/-- The request goes on to a phase that is not issuing. -/
theorem issuing_back (notIssuing : phase.issuing = none) {p : Option Hash × Grant}
    (now : (s.setRequest r phase).issuing q = some p) : q ≠ r ∧ s.issuing q = some p := by
  rcases issuing_cases s r phase now with ⟨-, new⟩ | old
  · rw [notIssuing] at new
    cases new
  · exact old

end State

theorem Phase.pending_of_le {phase : Phase} {clock now : Nat} (le : clock ≤ now)
    {p : Hash × Grant} (pending : phase.pending now = some p) : phase.pending clock = some p := by
  cases phase with
  | got hash t =>
      rw [Phase.pending, Option.ite_none_right_eq_some] at pending ⊢
      exact ⟨⟨pending.1.1, t.notExpired_of_le le pending.1.2⟩, pending.2⟩
  | mark hash g => exact pending
  | present | query | delete | draw | issue | issueRefresh | replied => cases pending

/-- A step after which nothing is live, pending or issuing that was not so
before. -/
structure Shrinks (s s' : State) : Prop where
  live : ∀ h t, s'.tokens h = some t → t.Live → s.tokens h = some t
  stored : ∀ h t, s'.tokens h = some t → (∃ t, s.tokens h = some t) ∨ h ∈ s'.used
  pending : ∀ r p, s'.pending r = some p → s.pending r = some p
  issuing : ∀ r p, s'.issuing r = some p → s.issuing r = some p
  used : s.used ⊆ s'.used
  families : s'.families = s.families
  issued : s'.issued = s.issued
  active : s.active ⊆ s'.active
  known : ∀ r phase, s'.requests r = some phase →
    (∃ phase, s.requests r = some phase) ∨ r ∈ s'.active

/-- What a step can do: besides shrinking, a request reads a good token, marks
it, issues the next one, or is a new family's first. -/
inductive Effect (s : State) : Action → State → Prop
  | shrinks {a : Action} {s' : State} (shrinks : Shrinks s s') : Effect s a s'
  | reads {r : RequestId} {fresh hash : Hash} {t : OAuthToken}
      (present : s.requests r = some (.present hash)) (found : s.tokens hash = some t)
      (live : t.Live) (good : t.notExpired s.clock = true) :
      Effect s (.advance r fresh) (s.setRequest r (.got hash t))
  | marks {r : RequestId} {fresh hash : Hash} {g : Grant}
      (mark : s.requests r = some (.mark hash g)) :
      Effect s (.advance r fresh)
        { s.setRequest r (.draw (some hash) g) with
          tokens := markOAuthTokenSuperseded s.tokens hash }
  | issues {r : RequestId} {fresh : Hash} {parent : Option Hash} {g : Grant} {now : Nat}
      (issue : s.requests r = some (.issueRefresh parent g now)) (unused : fresh ∉ s.used) :
      Effect s (.advance r fresh)
        { s.setRequest r (.replied .pair) with
          tokens := createOAuthToken s.tokens fresh (g.refresh now)
          used := fresh :: s.used
          issued := parent.toList ++ s.issued }
  | exchanges {r : RequestId} {g : Grant} (free : s.requests r = none)
      (unused : g.family ∉ s.families) :
      Effect s (.exchange r g)
        { s.setRequest r (.draw none g) with
          active := r :: s.active
          families := g.family :: s.families }

/-- A request goes on without becoming pending or issuing. -/
theorem shrinks_setRequest {s : State} {r : RequestId} {phase : Phase}
    (found : ∃ phase, s.requests r = some phase)
    (pending : ∀ p, phase.pending s.clock = some p → s.pending r = some p)
    (issuing : ∀ p, phase.issuing = some p → s.issuing r = some p) :
    Shrinks s (s.setRequest r phase) where
  live _ _ found _ := found
  stored _ t found := .inl ⟨t, found⟩
  pending q p now := by
    rcases pending_cases s r phase now with ⟨rfl, new⟩ | ⟨-, old⟩
    · exact pending p new
    · exact old
  issuing q p now := by
    rcases issuing_cases s r phase now with ⟨rfl, new⟩ | ⟨-, old⟩
    · exact issuing p new
    · exact old
  used := List.Subset.refl _
  families := rfl
  issued := rfl
  active := List.Subset.refl _
  known q now' now := by
    rcases requests_cases s r phase now with ⟨rfl, -⟩ | ⟨-, old⟩
    · exact .inl found
    · exact .inl ⟨now', old⟩

theorem shrinks_quiet {s : State} {r : RequestId} {phase : Phase}
    (found : ∃ phase, s.requests r = some phase) (pending : phase.pending s.clock = none)
    (issuing : phase.issuing = none) : Shrinks s (s.setRequest r phase) := by
  apply shrinks_setRequest found
  · intro p now
    rw [pending] at now
    cases now
  · intro p now
    rw [issuing] at now
    cases now

theorem shrinks_replied {s : State} {r : RequestId} (found : ∃ phase, s.requests r = some phase)
    (reply : Reply) : Shrinks s (s.setRequest r (.replied reply)) :=
  shrinks_quiet found rfl rfl

/-- A request goes on with the pair that it is issuing. -/
theorem shrinks_issuing {s : State} {r : RequestId} {phase next : Phase}
    (found : s.requests r = some phase) (pending : next.pending s.clock = none)
    (issuing : next.issuing = phase.issuing) : Shrinks s (s.setRequest r next) := by
  apply shrinks_setRequest ⟨_, found⟩
  · intro p now
    rw [pending] at now
    cases now
  · intro p now
    rw [issuing_of_found found, ← issuing]
    exact now

/-- The store loses a document. -/
theorem Shrinks.revoke {s s' : State} (shrinks : Shrinks s s') (revoked : Hash) :
    Shrinks s { s' with tokens := revokeOAuthToken s'.tokens revoked } := by
  have kept : ∀ h t, revokeOAuthToken s'.tokens revoked h = some t → s'.tokens h = some t := by
    intro h t found
    by_cases same : h = revoked
    · rw [same, revokeOAuthToken_same] at found
      cases found
    · rwa [revokeOAuthToken_of_ne same] at found
  exact { shrinks with
    live := fun h t found => shrinks.live h t (kept h t found)
    stored := fun h t found => shrinks.stored h t (kept h t found) }

/-- The store gains an access token. -/
theorem Shrinks.create {s s' : State} (shrinks : Shrinks s s') (fresh : Hash) (g : Grant)
    (now : Nat) :
    Shrinks s { s' with
      tokens := createOAuthToken s'.tokens fresh (g.access now), used := fresh :: s'.used } := by
  refine { shrinks with
    live := fun h t found live => ?_
    stored := fun h t found => ?_
    used := List.subset_cons_of_subset _ shrinks.used }
  · change createOAuthToken s'.tokens fresh (g.access now) h = some t at found
    by_cases same : h = fresh
    · rw [same, createOAuthToken_same] at found
      cases found
      exact absurd live.1 (by change ¬ access = refresh; decide)
    · rw [createOAuthToken_of_ne same] at found
      exact shrinks.live h t found live
  · change createOAuthToken s'.tokens fresh (g.access now) h = some t at found
    by_cases same : h = fresh
    · exact .inr (same ▸ List.mem_cons_self)
    · rw [createOAuthToken_of_ne same] at found
      exact (shrinks.stored h t found).imp_right (List.mem_cons_of_mem _)

theorem effect_of_step {s s' : State} {a : Action} (taken : step s a = some s') :
    Effect s a s' := by
  cases a with
  | tick now =>
      rw [step] at taken
      split at taken
      · rename_i le
        cases taken
        refine .shrinks ⟨fun _ _ found _ => found, fun _ t found => .inl ⟨t, found⟩, ?_,
          fun _ _ issuing => issuing, List.Subset.refl _, rfl, rfl, List.Subset.refl _,
          fun _ phase found => .inl ⟨phase, found⟩⟩
        intro r p pending
        obtain ⟨phase, found, isPending⟩ := Option.bind_eq_some_iff.mp pending
        exact Option.bind_eq_some_iff.mpr ⟨phase, found, Phase.pending_of_le le isPending⟩
      · cases taken
  | exchange r g =>
      rw [step] at taken
      split at taken
      · cases taken
      · rename_i free
        rw [not_or, not_or, Option.not_isSome_iff_eq_none] at free
        cases taken
        exact .exchanges free.1 free.2.1
  | present r hash =>
      rw [step] at taken
      split at taken
      · cases taken
      · cases taken
        refine .shrinks ⟨fun _ _ found _ => found, fun _ t found => .inl ⟨t, found⟩, ?_, ?_,
          List.Subset.refl _, rfl, rfl, List.subset_cons_self _ _, ?_⟩
        · intro q p pending
          rcases pending_cases s r (.present hash) pending with ⟨-, new⟩ | ⟨-, old⟩
          · cases new
          · exact old
        · intro q p issuing
          rcases issuing_cases s r (.present hash) issuing with ⟨-, new⟩ | ⟨-, old⟩
          · cases new
          · exact old
        · intro q phase found
          rcases requests_cases s r (.present hash) found with ⟨same, -⟩ | ⟨-, old⟩
          · exact .inr (same ▸ List.mem_cons_self)
          · exact .inl ⟨phase, old⟩
  | remove hash =>
      cases taken
      have same : Shrinks s s := ⟨fun _ _ found _ => found, fun _ t found => .inl ⟨t, found⟩,
        fun _ _ pending => pending, fun _ _ issuing => issuing, List.Subset.refl _, rfl, rfl,
        List.Subset.refl _, fun _ phase found => .inl ⟨phase, found⟩⟩
      exact .shrinks (same.revoke hash)
  | advance r fresh =>
      rw [step, State.advance] at taken
      cases phase : s.requests r with
      | none => rw [phase] at taken; cases taken
      | some p =>
          rw [phase] at taken
          cases p with
          | present hash =>
              simp only [getOAuthTokenRaw] at taken
              split at taken
              · cases taken
                exact .shrinks (shrinks_replied ⟨_, phase⟩ _)
              · rename_i t found
                cases taken
                by_cases good : t.Live ∧ t.notExpired s.clock = true
                · exact .reads phase found good.1 good.2
                · apply Effect.shrinks
                  apply shrinks_quiet ⟨_, phase⟩
                  · rw [Phase.pending, if_neg good]
                  · rfl
          | got hash t =>
              simp only at taken
              split at taken
              · cases taken
                exact .shrinks (shrinks_replied ⟨_, phase⟩ _)
              · rename_i isRefresh
                split at taken
                · cases taken
                  exact .shrinks (shrinks_quiet ⟨_, phase⟩ rfl rfl)
                · rename_i notSuperseded
                  split at taken
                  · cases taken
                    exact .shrinks (shrinks_replied ⟨_, phase⟩ _)
                  · rename_i good
                    cases taken
                    apply Effect.shrinks
                    apply shrinks_setRequest ⟨_, phase⟩
                    · intro p pending
                      rw [pending_of_found phase, Phase.pending,
                        if_pos ⟨⟨not_not.mp isRefresh, Bool.eq_false_iff.mpr notSuperseded⟩,
                          eq_true_of_ne_false good⟩]
                      exact pending
                    · intro p issuing
                      cases issuing
          | query family =>
              cases taken
              exact .shrinks (shrinks_quiet ⟨_, phase⟩ rfl rfl)
          | delete docs =>
              cases docs with
              | nil =>
                  cases taken
                  exact .shrinks (shrinks_replied ⟨_, phase⟩ _)
              | cons h docs =>
                  cases taken
                  have shrinks : Shrinks s (s.setRequest r (.delete docs)) :=
                    shrinks_quiet ⟨_, phase⟩ rfl rfl
                  exact .shrinks (shrinks.revoke h)
          | mark hash g =>
              cases taken
              exact .marks phase
          | draw parent g =>
              cases taken
              exact .shrinks (shrinks_issuing phase rfl rfl)
          | issue parent g now =>
              simp only at taken
              split at taken
              · cases taken
              · cases taken
                have shrinks : Shrinks s (s.setRequest r (.issueRefresh parent g now)) :=
                  shrinks_issuing phase rfl rfl
                exact .shrinks (shrinks.create fresh g now)
          | issueRefresh parent g now =>
              simp only at taken
              split at taken
              · cases taken
              · rename_i unused
                cases taken
                exact .issues phase unused
          | replied reply => cases taken

/-! ## One head per family -/

/-- What carries a family on: a refresh token that is live or has been read as
good, or a request that is issuing the next one. -/
inductive Head (s : State) (family : Bytes) : Hash ⊕ RequestId → Prop
  | live {h : Hash} (live : s.LiveIn family h) : Head s family (.inl h)
  | pending {r : RequestId} {p : Hash × Grant} (pending : s.pending r = some p)
      (same : p.2.family = family) : Head s family (.inl p.1)
  | issuing {r : RequestId} {p : Option Hash × Grant} (issuing : s.issuing r = some p)
      (same : p.2.family = family) : Head s family (.inr r)

/-- A pair has been issued, or is being issued, for the refresh token. -/
def Spent (s : State) (h : Hash) : Prop :=
  h ∈ s.issued ∨ ∃ r p, s.issuing r = some p ∧ p.1 = some h

/-- What holds in every state of a run. -/
structure Inv (s : State) : Prop where
  active : ∀ r phase, s.requests r = some phase → r ∈ s.active
  stored : ∀ h t, s.tokens h = some t → h ∈ s.used
  pendingUsed : ∀ r p, s.pending r = some p → p.1 ∈ s.used
  spentUsed : ∀ h, Spent s h → h ∈ s.used
  known : ∀ family x, Head s family x → family ∈ s.families
  head : ∀ family x y, Head s family x → Head s family y → x = y
  reader : ∀ r q p p', s.pending r = some p → s.pending q = some p' → p.1 = p'.1 → r = q
  spent : ∀ h, Spent s h → (∀ t, s.tokens h = some t → ¬ t.Live) ∧
    ∀ r p, s.pending r = some p → p.1 ≠ h
  issuer : ∀ r q p p' h, s.issuing r = some p → s.issuing q = some p' → p.1 = some h →
    p'.1 = some h → r = q
  notYet : ∀ r p h, s.issuing r = some p → p.1 = some h → h ∉ s.issued
  issued : s.issued.Nodup

theorem inv_init : Inv State.init where
  active _ _ found := by cases found
  stored _ _ found := by cases found
  pendingUsed _ _ pending := by cases pending
  spentUsed _ spent := by
    rcases spent with mem | ⟨r, p, issuing, -⟩
    · cases mem
    · cases issuing
  known _ _ head := by
    cases head with
    | live live => obtain ⟨t, found, -⟩ := live; cases found
    | pending pending => cases pending
    | issuing issuing => cases issuing
  head _ _ _ head := by
    cases head with
    | live live => obtain ⟨t, found, -⟩ := live; cases found
    | pending pending => cases pending
    | issuing issuing => cases issuing
  reader _ _ _ _ pending := by cases pending
  spent _ spent := by
    rcases spent with mem | ⟨r, p, issuing, -⟩
    · cases mem
    · cases issuing
  issuer _ _ _ _ _ issuing := by cases issuing
  notYet _ _ _ issuing := by cases issuing
  issued := List.nodup_nil

theorem Shrinks.liveIn {s s' : State} (shrinks : Shrinks s s') {family : Bytes} {h : Hash}
    (live : s'.LiveIn family h) : s.LiveIn family h := by
  obtain ⟨t, found, isLive, same⟩ := live
  exact ⟨t, shrinks.live h t found isLive, isLive, same⟩

theorem Shrinks.head {s s' : State} (shrinks : Shrinks s s') {family : Bytes} {x : Hash ⊕ RequestId}
    (head : Head s' family x) : Head s family x := by
  cases head with
  | live live => exact .live (shrinks.liveIn live)
  | pending pending same => exact .pending (shrinks.pending _ _ pending) same
  | issuing issuing same => exact .issuing (shrinks.issuing _ _ issuing) same

theorem Shrinks.spent {s s' : State} (shrinks : Shrinks s s') {h : Hash} (spent : Spent s' h) :
    Spent s h := by
  rcases spent with mem | ⟨r, p, issuing, same⟩
  · exact .inl (shrinks.issued ▸ mem)
  · exact .inr ⟨r, p, shrinks.issuing r p issuing, same⟩

theorem Shrinks.inv {s s' : State} (shrinks : Shrinks s s') (inv : Inv s) : Inv s' where
  active r phase found := (shrinks.known r phase found).elim
    (fun ⟨phase', before⟩ => shrinks.active (inv.active r phase' before)) id
  stored h t found := (shrinks.stored h t found).elim
    (fun ⟨t', before⟩ => shrinks.used (inv.stored h t' before)) id
  pendingUsed r p pending := shrinks.used (inv.pendingUsed r p (shrinks.pending r p pending))
  spentUsed h spent := shrinks.used (inv.spentUsed h (shrinks.spent spent))
  known family x head := shrinks.families ▸ inv.known family x (shrinks.head head)
  head family x y headX headY := inv.head family x y (shrinks.head headX) (shrinks.head headY)
  reader r q p p' pendingR pendingQ same :=
    inv.reader r q p p' (shrinks.pending r p pendingR) (shrinks.pending q p' pendingQ) same
  spent h spent := by
    obtain ⟨notLive, notPending⟩ := inv.spent h (shrinks.spent spent)
    exact ⟨fun t found live => notLive t (shrinks.live h t found live) live,
      fun r p pending => notPending r p (shrinks.pending r p pending)⟩
  issuer r q p p' h issuingR issuingQ :=
    inv.issuer r q p p' h (shrinks.issuing r p issuingR) (shrinks.issuing q p' issuingQ)
  notYet r p h issuing same :=
    shrinks.issued ▸ inv.notYet r p h (shrinks.issuing r p issuing) same
  issued := shrinks.issued ▸ inv.issued

theorem State.active_of_pending {s : State} (inv : Inv s) {r : RequestId} {p : Hash × Grant}
    (pending : s.pending r = some p) : r ∈ s.active := by
  obtain ⟨phase, found, -⟩ := Option.bind_eq_some_iff.mp pending
  exact inv.active r phase found

theorem Inv.active_setRequest {s : State} (inv : Inv s) {r : RequestId} {before : Phase}
    (found : s.requests r = some before) (phase : Phase) :
    ∀ q now, (s.setRequest r phase).requests q = some now → q ∈ s.active := by
  intro q now isNow
  rcases requests_cases s r phase isNow with ⟨rfl, -⟩ | ⟨-, old⟩
  · exact inv.active q before found
  · exact inv.active q now old

/-- In one family `after` takes the place of `before`, and no other head is new. -/
def Moved (s s' : State) (family : Bytes) (before after : Hash ⊕ RequestId) : Prop :=
  ∀ f x, Head s' f x → (x = after ∧ family = f) ∨ (x ≠ before ∧ Head s f x)

theorem Moved.known {s s' : State} {family : Bytes} {before after : Hash ⊕ RequestId}
    (moved : Moved s s' family before after) (inv : Inv s) (was : Head s family before) :
    ∀ f x, Head s' f x → f ∈ s.families := by
  intro f x head
  rcases moved f x head with ⟨-, rfl⟩ | ⟨-, old⟩
  · exact inv.known _ _ was
  · exact inv.known f x old

theorem Moved.head {s s' : State} {family : Bytes} {before after : Hash ⊕ RequestId}
    (moved : Moved s s' family before after) (inv : Inv s) (was : Head s family before) :
    ∀ f x y, Head s' f x → Head s' f y → x = y := by
  intro f x y headX headY
  rcases moved f x headX with ⟨rfl, rfl⟩ | ⟨otherX, oldX⟩
  · rcases moved _ y headY with ⟨rfl, -⟩ | ⟨otherY, oldY⟩
    · rfl
    · exact absurd (inv.head _ _ _ oldY was) otherY
  · rcases moved f y headY with ⟨-, rfl⟩ | ⟨-, oldY⟩
    · exact absurd (inv.head _ _ _ oldX was) otherX
    · exact inv.head f x y oldX oldY

/-- A request reads a good token that no other request has read. -/
theorem Inv.reads {s : State} (inv : Inv s) {r : RequestId} {hash : Hash} {t : OAuthToken}
    (present : s.requests r = some (.present hash)) (found : s.tokens hash = some t) (live : t.Live)
    (exclusive : ∀ q p, s.pending q = some p → p.1 ≠ hash) :
    Inv (s.setRequest r (.got hash t)) := by
  have pendings : ∀ q p, (s.setRequest r (.got hash t)).pending q = some p →
      (q = r ∧ p = (hash, t.grant)) ∨ s.pending q = some p := by
    intro q p pending
    rcases pending_cases s r (.got hash t) pending with ⟨rfl, new⟩ | ⟨-, old⟩
    · rw [Phase.pending, Option.ite_none_right_eq_some, Option.some.injEq] at new
      exact .inl ⟨rfl, new.2.symm⟩
    · exact .inr old
  have issuings : ∀ q p, (s.setRequest r (.got hash t)).issuing q = some p →
      s.issuing q = some p := fun q p issuing => (issuing_back rfl issuing).2
  have heads : ∀ family x, Head (s.setRequest r (.got hash t)) family x → Head s family x := by
    intro family x head
    cases head with
    | live live => exact .live live
    | @pending q p pending same =>
        rcases pendings q p pending with ⟨-, rfl⟩ | old
        · exact .live ⟨t, found, live, same⟩
        · exact .pending old same
    | issuing issuing same => exact .issuing (issuings _ _ issuing) same
  have spents : ∀ h, Spent (s.setRequest r (.got hash t)) h → Spent s h := fun h spent =>
    spent.imp_right fun ⟨q, p, issuing, same⟩ => ⟨q, p, issuings q p issuing, same⟩
  constructor
  case active => exact inv.active_setRequest present _
  case stored => exact inv.stored
  case pendingUsed =>
    intro q p pending
    rcases pendings q p pending with ⟨-, rfl⟩ | old
    · exact inv.stored hash t found
    · exact inv.pendingUsed q p old
  case spentUsed => exact fun h spent => inv.spentUsed h (spents h spent)
  case known => exact fun family x head => inv.known family x (heads family x head)
  case head =>
    intro family x y headX headY
    exact inv.head family x y (heads family x headX) (heads family y headY)
  case reader =>
    intro q q' p p' pending pending' same
    rcases pendings q p pending with ⟨rfl, rfl⟩ | old <;>
      rcases pendings q' p' pending' with ⟨rfl, rfl⟩ | old'
    · rfl
    · exact absurd same.symm (exclusive q' p' old')
    · exact absurd same (exclusive q p old)
    · exact inv.reader q q' p p' old old' same
  case spent =>
    intro h spent
    obtain ⟨notLive, notPending⟩ := inv.spent h (spents h spent)
    refine ⟨notLive, fun q p pending => ?_⟩
    rcases pendings q p pending with ⟨-, rfl⟩ | old
    · rintro rfl
      exact notLive t found live
    · exact notPending q p old
  case issuer =>
    intro q q' p p' h issuing issuing'
    exact inv.issuer q q' p p' h (issuings q p issuing) (issuings q' p' issuing')
  case notYet => exact fun q p h issuing => inv.notYet q p h (issuings q p issuing)
  case issued => exact inv.issued

/-- The request marks the token and goes on to issue the next pair. -/
theorem Inv.marks {s : State} (inv : Inv s) {r : RequestId} {hash : Hash} {g : Grant}
    (mark : s.requests r = some (.mark hash g)) :
    Inv { s.setRequest r (.draw (some hash) g) with
      tokens := markOAuthTokenSuperseded s.tokens hash } := by
  have wasPending : s.pending r = some (hash, g) := pending_of_found mark
  have wasHead : Head s g.family (.inl hash) := .pending wasPending rfl
  have notSpent : ¬ Spent s hash := fun spent => (inv.spent hash spent).2 r _ wasPending rfl
  have tokens : ∀ h t, markOAuthTokenSuperseded s.tokens hash h = some t → t.Live →
      h ≠ hash ∧ s.tokens h = some t := by
    intro h t found live
    by_cases same : h = hash
    · rw [same, markOAuthTokenSuperseded_same, Option.some.injEq] at found
      rw [← found] at live
      cases live.2
    · rw [markOAuthTokenSuperseded_of_ne same] at found
      exact ⟨same, found⟩
  have pendings : ∀ q p, (s.setRequest r (.draw (some hash) g)).pending q = some p →
      p.1 ≠ hash ∧ s.pending q = some p := by
    intro q p pending
    obtain ⟨other, old⟩ := pending_back rfl pending
    exact ⟨fun same => other (inv.reader q r p _ old wasPending same), old⟩
  have issuings : ∀ q p, (s.setRequest r (.draw (some hash) g)).issuing q = some p →
      (q = r ∧ p = (some hash, g)) ∨ s.issuing q = some p := by
    intro q p issuing
    rcases issuing_cases s r (.draw (some hash) g) issuing with ⟨same, new⟩ | ⟨-, old⟩
    · exact .inl ⟨same, (Option.some.inj new).symm⟩
    · exact .inr old
  have moved : Moved s { s.setRequest r (.draw (some hash) g) with
      tokens := markOAuthTokenSuperseded s.tokens hash } g.family (.inl hash) (.inr r) := by
    intro family x head
    cases head with
    | live live =>
        obtain ⟨t, found, isLive, same⟩ := live
        obtain ⟨other, old⟩ := tokens _ t found isLive
        exact .inr ⟨fun eq => other (Sum.inl.inj eq), .live ⟨t, old, isLive, same⟩⟩
    | @pending q p pending same =>
        obtain ⟨other, old⟩ := pendings q p pending
        exact .inr ⟨fun eq => other (Sum.inl.inj eq), .pending old same⟩
    | @issuing q p issuing same =>
        rcases issuings q p issuing with ⟨rfl, rfl⟩ | old
        · exact .inl ⟨rfl, same⟩
        · exact .inr ⟨Sum.inr_ne_inl, .issuing old same⟩
  have spents : ∀ h, Spent { s.setRequest r (.draw (some hash) g) with
      tokens := markOAuthTokenSuperseded s.tokens hash } h → h = hash ∨ Spent s h := by
    rintro h (mem | ⟨q, p, issuing, same⟩)
    · exact .inr (.inl mem)
    · rcases issuings q p issuing with ⟨-, rfl⟩ | old
      · exact .inl (Option.some.inj same).symm
      · exact .inr (.inr ⟨q, p, old, same⟩)
  constructor
  case active => exact inv.active_setRequest mark _
  case stored =>
    intro h t found
    change markOAuthTokenSuperseded s.tokens hash h = some t at found
    by_cases same : h = hash
    · exact same ▸ inv.pendingUsed r _ wasPending
    · rw [markOAuthTokenSuperseded_of_ne same] at found
      exact inv.stored h t found
  case pendingUsed => exact fun q p pending => inv.pendingUsed q p (pendings q p pending).2
  case spentUsed =>
    intro h spent
    rcases spents h spent with rfl | old
    · exact inv.pendingUsed r _ wasPending
    · exact inv.spentUsed h old
  case known => exact moved.known inv wasHead
  case head => exact moved.head inv wasHead
  case reader =>
    intro q q' p p' pending pending'
    exact inv.reader q q' p p' (pendings q p pending).2 (pendings q' p' pending').2
  case spent =>
    intro h spent
    constructor
    · intro t found live
      obtain ⟨other, old⟩ := tokens h t found live
      rcases spents h spent with same | before
      · exact other same
      · exact (inv.spent h before).1 t old live
    · intro q p pending
      obtain ⟨other, old⟩ := pendings q p pending
      rcases spents h spent with rfl | before
      · exact other
      · exact (inv.spent h before).2 q p old
  case issuer =>
    intro q q' p p' h issuing issuing' same same'
    rcases issuings q p issuing with ⟨rfl, rfl⟩ | old <;>
      rcases issuings q' p' issuing' with ⟨rfl, rfl⟩ | old'
    · rfl
    · cases same
      exact absurd (.inr ⟨q', p', old', same'⟩) notSpent
    · cases same'
      exact absurd (.inr ⟨q, p, old, same⟩) notSpent
    · exact inv.issuer q q' p p' h old old' same same'
  case notYet =>
    intro q p h issuing same
    rcases issuings q p issuing with ⟨-, rfl⟩ | old
    · cases same
      exact fun mem => notSpent (.inl mem)
    · exact inv.notYet q p h old same
  case issued => exact inv.issued

/-- The request issues the refresh token of its pair. -/
theorem Inv.issues {s : State} (inv : Inv s) {r : RequestId} {fresh : Hash} {parent : Option Hash}
    {g : Grant} {now : Nat} (issue : s.requests r = some (.issueRefresh parent g now))
    (unused : fresh ∉ s.used) :
    Inv { s.setRequest r (.replied .pair) with
      tokens := createOAuthToken s.tokens fresh (g.refresh now)
      used := fresh :: s.used
      issued := parent.toList ++ s.issued } := by
  have wasIssuing : s.issuing r = some (parent, g) := issuing_of_found issue
  have wasHead : Head s g.family (.inr r) := .issuing wasIssuing rfl
  have tokens : ∀ h t, createOAuthToken s.tokens fresh (g.refresh now) h = some t →
      (h = fresh ∧ t.family = g.family) ∨ s.tokens h = some t := by
    intro h t found
    by_cases same : h = fresh
    · rw [same, createOAuthToken_same, Option.some.injEq] at found
      exact .inl ⟨same, found ▸ rfl⟩
    · rw [createOAuthToken_of_ne same] at found
      exact .inr found
  have pendings : ∀ q p, (s.setRequest r (.replied .pair)).pending q = some p →
      s.pending q = some p := fun q p pending => (pending_back rfl pending).2
  have issuings : ∀ q p, (s.setRequest r (.replied .pair)).issuing q = some p →
      q ≠ r ∧ s.issuing q = some p := fun q p issuing => issuing_back rfl issuing
  have moved : Moved s { s.setRequest r (.replied .pair) with
      tokens := createOAuthToken s.tokens fresh (g.refresh now)
      used := fresh :: s.used
      issued := parent.toList ++ s.issued } g.family (.inr r) (.inl fresh) := by
    intro family x head
    cases head with
    | live live =>
        obtain ⟨t, found, isLive, same⟩ := live
        rcases tokens _ t found with ⟨rfl, new⟩ | old
        · exact .inl ⟨rfl, new.symm.trans same⟩
        · exact .inr ⟨Sum.inl_ne_inr, .live ⟨t, old, isLive, same⟩⟩
    | pending pending same => exact .inr ⟨Sum.inl_ne_inr, .pending (pendings _ _ pending) same⟩
    | @issuing q p issuing same =>
        obtain ⟨other, old⟩ := issuings q p issuing
        exact .inr ⟨fun eq => other (Sum.inr.inj eq), .issuing old same⟩
  have spents : ∀ h, Spent { s.setRequest r (.replied .pair) with
      tokens := createOAuthToken s.tokens fresh (g.refresh now)
      used := fresh :: s.used
      issued := parent.toList ++ s.issued } h → Spent s h := by
    rintro h (mem | ⟨q, p, issuing, same⟩)
    · rcases List.mem_append.mp mem with new | old
      · exact .inr ⟨r, _, wasIssuing, Option.mem_toList.mp new⟩
      · exact .inl old
    · exact .inr ⟨q, p, (issuings q p issuing).2, same⟩
  constructor
  case active => exact inv.active_setRequest issue _
  case stored =>
    intro h t found
    rcases tokens h t found with ⟨rfl, -⟩ | old
    · exact List.mem_cons_self
    · exact List.mem_cons_of_mem _ (inv.stored h t old)
  case pendingUsed =>
    intro q p pending
    exact List.mem_cons_of_mem _ (inv.pendingUsed q p (pendings q p pending))
  case spentUsed =>
    intro h spent
    exact List.mem_cons_of_mem _ (inv.spentUsed h (spents h spent))
  case known => exact moved.known inv wasHead
  case head => exact moved.head inv wasHead
  case reader =>
    intro q q' p p' pending pending'
    exact inv.reader q q' p p' (pendings q p pending) (pendings q' p' pending')
  case spent =>
    intro h spent
    have before := spents h spent
    obtain ⟨notLive, notPending⟩ := inv.spent h before
    constructor
    · intro t found live
      rcases tokens h t found with ⟨rfl, -⟩ | old
      · exact unused (inv.spentUsed h before)
      · exact notLive t old live
    · exact fun q p pending => notPending q p (pendings q p pending)
  case issuer =>
    intro q q' p p' h issuing issuing'
    exact inv.issuer q q' p p' h (issuings q p issuing).2 (issuings q' p' issuing').2
  case notYet =>
    intro q p h issuing same mem
    obtain ⟨other, old⟩ := issuings q p issuing
    rcases List.mem_append.mp mem with new | before
    · exact other (inv.issuer q r p _ h old wasIssuing same (Option.mem_toList.mp new))
    · exact inv.notYet q p h old same before
  case issued =>
    change (parent.toList ++ s.issued).Nodup
    cases parent with
    | none => exact inv.issued
    | some h => exact List.nodup_cons.mpr ⟨inv.notYet r _ h wasIssuing rfl, inv.issued⟩

/-- A request starts a new family. -/
theorem Inv.exchanges {s : State} (inv : Inv s) {r : RequestId} {g : Grant}
    (unused : g.family ∉ s.families) :
    Inv { s.setRequest r (.draw none g) with
      active := r :: s.active
      families := g.family :: s.families } := by
  have pendings : ∀ q p, (s.setRequest r (.draw none g)).pending q = some p →
      s.pending q = some p := fun q p pending => (pending_back rfl pending).2
  have issuings : ∀ q p, (s.setRequest r (.draw none g)).issuing q = some p →
      (q = r ∧ p = (none, g)) ∨ s.issuing q = some p := by
    intro q p issuing
    rcases issuing_cases s r (.draw none g) issuing with ⟨same, new⟩ | ⟨-, old⟩
    · exact .inl ⟨same, (Option.some.inj new).symm⟩
    · exact .inr old
  -- A request that issues for a presented token did so before.
  have rotations : ∀ q p h, (s.setRequest r (.draw none g)).issuing q = some p → p.1 = some h →
      s.issuing q = some p := by
    intro q p h issuing same
    rcases issuings q p issuing with ⟨-, rfl⟩ | old
    · cases same
    · exact old
  have heads : ∀ family x, Head { s.setRequest r (.draw none g) with
      active := r :: s.active
      families := g.family :: s.families } family x →
        (x = .inr r ∧ g.family = family) ∨ Head s family x := by
    intro family x head
    cases head with
    | live live => exact .inr (.live live)
    | pending pending same => exact .inr (.pending (pendings _ _ pending) same)
    | @issuing q p issuing same =>
        rcases issuings q p issuing with ⟨rfl, rfl⟩ | old
        · exact .inl ⟨rfl, same⟩
        · exact .inr (.issuing old same)
  have noHead : ∀ x, ¬ Head s g.family x := fun x head => unused (inv.known _ x head)
  have spents : ∀ h, Spent { s.setRequest r (.draw none g) with
      active := r :: s.active
      families := g.family :: s.families } h → Spent s h := fun h spent =>
    spent.imp_right fun ⟨q, p, issuing, same⟩ => ⟨q, p, rotations q p h issuing same, same⟩
  constructor
  case active =>
    intro q phase isFound
    rcases requests_cases s r (.draw none g) isFound with ⟨rfl, -⟩ | ⟨-, old⟩
    · exact List.mem_cons_self
    · exact List.mem_cons_of_mem _ (inv.active q phase old)
  case stored => exact inv.stored
  case pendingUsed => exact fun q p pending => inv.pendingUsed q p (pendings q p pending)
  case spentUsed => exact fun h spent => inv.spentUsed h (spents h spent)
  case known =>
    intro family x head
    rcases heads family x head with ⟨-, rfl⟩ | old
    · exact List.mem_cons_self
    · exact List.mem_cons_of_mem _ (inv.known family x old)
  case head =>
    intro family x y headX headY
    rcases heads family x headX with ⟨rfl, rfl⟩ | oldX
    · rcases heads _ y headY with ⟨rfl, -⟩ | oldY
      · rfl
      · exact absurd oldY (noHead y)
    · rcases heads family y headY with ⟨-, rfl⟩ | oldY
      · exact absurd oldX (noHead x)
      · exact inv.head family x y oldX oldY
  case reader =>
    intro q q' p p' pending pending'
    exact inv.reader q q' p p' (pendings q p pending) (pendings q' p' pending')
  case spent =>
    intro h spent
    obtain ⟨notLive, notPending⟩ := inv.spent h (spents h spent)
    exact ⟨notLive, fun q p pending => notPending q p (pendings q p pending)⟩
  case issuer =>
    intro q q' p p' h issuing issuing' same same'
    exact inv.issuer q q' p p' h (rotations q p h issuing same) (rotations q' p' h issuing' same')
      same same'
  case notYet =>
    intro q p h issuing same
    exact inv.notYet q p h (rotations q p h issuing same) same
  case issued => exact inv.issued

/-- A step that meets the condition keeps the invariant. -/
theorem Inv.step {s s' : State} {a : Action} (inv : Inv s) (exclusive : Exclusive s a)
    (taken : step s a = some s') : Inv s' := by
  cases effect_of_step taken with
  | shrinks shrinks => exact shrinks.inv inv
  | reads present found live good =>
      apply inv.reads present found live
      intro q p pending
      rw [Exclusive, present] at exclusive
      exact exclusive _ found live good q (active_of_pending inv pending) p pending
  | marks mark => exact inv.marks mark
  | issues issue unused => exact inv.issues issue unused
  | exchanges free unused => exact inv.exchanges unused

theorem Inv.singleUse {s : State} (inv : Inv s) : SingleUse s where
  issued := inv.issued
  family _ family h h' live live' :=
    Sum.inl.inj (inv.head family (.inl h) (.inl h') (.live live) (.live live'))

/-! ## Why the condition is needed -/

theorem exists_unused (used : List Hash) : ∃ fresh, fresh ∉ used :=
  (Infinite.exists_notMem_finset used.toFinset).imp fun _ unused mem =>
    unused (List.mem_toFinset.mpr mem)

theorem finishes_of_mark {s : State} {r : RequestId} {hash : Hash} {g : Grant}
    (mark : s.requests r = some (.mark hash g)) :
    ∃ more s', exec step s more = some s' ∧ s'.issued = hash :: s.issued ∧ s'.clock = s.clock ∧
      ∀ q, q ≠ r → s'.requests q = s.requests q := by
  obtain ⟨fresh, unused⟩ := exists_unused s.used
  obtain ⟨next, stillUnused⟩ := exists_unused (fresh :: s.used)
  refine ⟨[.advance r [], .advance r [], .advance r fresh, .advance r next], ?_⟩
  simp only [exec, step, State.advance, mark, setRequest, Function.update_self, unused,
    stillUnused, if_false, Option.bind_some]
  exact ⟨_, rfl, rfl, rfl, fun q other => by simp only [Function.update_of_ne other]⟩

/-- A request that has read a good refresh token can go on to issue its pair,
whatever the others have done. -/
theorem finishes {s : State} {r : RequestId} {hash : Hash} {g : Grant}
    (pending : s.pending r = some (hash, g)) :
    ∃ more s', exec step s more = some s' ∧ s'.issued = hash :: s.issued ∧ s'.clock = s.clock ∧
      ∀ q, q ≠ r → s'.requests q = s.requests q := by
  obtain ⟨phase, found, isPending⟩ := Option.bind_eq_some_iff.mp pending
  cases phase with
  | mark _ _ =>
      cases isPending
      exact finishes_of_mark found
  | got _ t =>
      rw [Phase.pending, Option.ite_none_right_eq_some, Option.some.injEq] at isPending
      obtain ⟨⟨live, good⟩, eq⟩ := isPending
      cases eq
      have checked : step s (.advance r []) = some (s.setRequest r (.mark hash t.grant)) := by
        simp [step, State.advance, found, live.1, live.2, good]
      obtain ⟨more, s', run, issued, clock, others⟩ :=
        finishes_of_mark (s := s.setRequest r (.mark hash t.grant)) (Function.update_self ..)
      refine ⟨.advance r [] :: more, s', ?_, issued, clock, fun q other => ?_⟩
      · rw [exec, checked, Option.bind_some, run]
      · rw [others q other, requests_setRequest_of_ne s _ other]
  | present | query | delete | draw | issue | issueRefresh | replied => cases isPending

/-- A step that breaks the condition can be followed by two pairs for one
refresh token. -/
theorem race_of_not_exclusive {s s' : State} {a : Action} (taken : step s a = some s')
    (crowded : ¬ Exclusive s a) :
    ∃ more s'', exec step s' more = some s'' ∧ ¬ SingleUse s'' := by
  cases a with
  | tick | exchange | present | remove => exact absurd trivial crowded
  | advance r fresh =>
      rw [Exclusive] at crowded
      split at crowded
      · rename_i hash present
        push Not at crowded
        obtain ⟨t, found, live, good, q, -, p, pendingQ, rfl⟩ := crowded
        have read : s' = s.setRequest r (.got p.1 t) := by
          simp only [step, State.advance, present, getOAuthTokenRaw] at taken
          rw [Option.mem_def.mp found] at taken
          exact (Option.some.inj taken).symm
        have other : q ≠ r := by
          rintro rfl
          rw [pending_of_found present] at pendingQ
          cases pendingQ
        have pendingR : s'.pending r = some (p.1, t.grant) := by
          rw [read, pending_setRequest_same, Phase.pending, if_pos ⟨live, good⟩]
        obtain ⟨first, s₁, run₁, issued₁, clock₁, others₁⟩ := finishes pendingR
        have stillPending : s₁.pending q = some (p.1, p.2) := by
          rw [State.pending, others₁ q other, clock₁, read, requests_setRequest_of_ne s _ other]
          exact pendingQ
        obtain ⟨second, s₂, run₂, issued₂, -, -⟩ := finishes stillPending
        refine ⟨first ++ second, s₂, (exec_append run₁ second).trans run₂, fun single => ?_⟩
        have nodup := single.issued
        rw [issued₂, issued₁] at nodup
        exact (List.nodup_cons.mp nodup).1 List.mem_cons_self
      · exact absurd trivial crowded

/-- Rotation is single-use in every run in which no request reads a good
refresh token that another request has read and not yet marked.  Any other
such read can be followed by two pairs for that token. -/
theorem refresh_single_use (actions : List Action) :
    (Along step Exclusive State.init actions → Always step SingleUse State.init actions) ∧
      ∀ s a s', exec step State.init actions = some s → step s a = some s' →
        ¬ Exclusive s a → ∃ more s'', exec step s' more = some s'' ∧ ¬ SingleUse s'' :=
  ⟨fun along => (always_of_preserved (fun _ _ _ inv met taken => inv.step met taken) inv_init
      along).imp fun _ inv => inv.singleUse,
    fun _ _ _ _ taken crowded => race_of_not_exclusive taken crowded⟩

/-- What a code for one connector grants. -/
def connectorGrant : Grant :=
  ⟨ascii "a@example.com", ascii "connector", [ascii "drover.read"], ascii "family"⟩

/-- Request 0 exchanges a code; `refresh0` is its refresh token. -/
def exchangeRun : List Action :=
  [.exchange 0 connectorGrant, .advance 0 [], .advance 0 (ascii "access0"),
    .advance 0 (ascii "refresh0")]

/-- Request 1 rotates the token, and request 2 presents it again. -/
def reuseRun : List Action :=
  exchangeRun ++
    [.present 1 (ascii "refresh0"), .advance 1 [], .advance 1 [], .advance 1 [], .advance 1 [],
      .advance 1 (ascii "access1"), .advance 1 (ascii "refresh1"),
      .present 2 (ascii "refresh0"), .advance 2 [], .advance 2 []]

theorem reuseRun_singleUse : Always step SingleUse State.init reuseRun :=
  (refresh_single_use _).1 (by decide)

/-- Requests 1 and 2 both get the token before either marks it. -/
def raceRun : List Action :=
  exchangeRun ++
    [.present 1 (ascii "refresh0"), .present 2 (ascii "refresh0"), .advance 1 [], .advance 2 [],
      .advance 1 [], .advance 2 [], .advance 1 [], .advance 2 [], .advance 1 [], .advance 2 [],
      .advance 1 (ascii "access1"), .advance 1 (ascii "refresh1"),
      .advance 2 (ascii "access2"), .advance 2 (ascii "refresh2")]

/-- One refresh token leads to two pairs, and the family ends with two live
refresh tokens. -/
theorem token_rotates_twice :
    (exec step State.init raceRun).map (fun s =>
        (s.active.map s.requests, s.issued, s.tokens (ascii "refresh1"),
          s.tokens (ascii "refresh2"))) =
      some ([some (.replied .pair), some (.replied .pair), some (.replied .pair)],
        [ascii "refresh0", ascii "refresh0"],
        some (connectorGrant.refresh 0), some (connectorGrant.refresh 0)) ∧
      ¬ ∀ actions, Always step SingleUse State.init actions := by
  have issued : (exec step State.init raceRun).map (fun s => s.issued) =
      some [ascii "refresh0", ascii "refresh0"] := by decide
  refine ⟨by decide, fun always => ?_⟩
  obtain ⟨s, run, eq⟩ := Option.map_eq_some_iff.mp issued
  have nodup := ((always raceRun).last run).issued
  rw [eq] at nodup
  exact absurd nodup (by decide)

end Drover.OAuth
