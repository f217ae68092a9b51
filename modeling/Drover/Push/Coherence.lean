import Drover.Push.Steps
import Drover.Push.Transparent

/-!
# Coherence of the cache under concurrent calls

The cache is locked for each access, but a push remembers what it has read or
written in a step of its own, and a delete forgets before it deletes.  Between
these steps other calls run.  `Timely` says what they must not do in between; it
is exactly what keeps every entry either in agreement with its document or about
to be overwritten by one that agrees.
-/

namespace Drover.Push

open Drover.Transition

variable {α : Type}

/-! ## What a call is about to do -/

/-- What a push is about to remember. -/
def Request.pending : Request α → Option (Path × PushEntry)
  | .push q =>
      match q.phase, q.todo with
      | .remember e, session :: _ => some (q.path session, e)
      | _, _ => none
  | _ => none

/-- The document that a call is about to delete. -/
def Request.deleting : Request α → Option Path
  | .deleteSession pc id .delete => some (pc, id)
  | .deletePC pc (.delete (id :: _)) => some (pc, id)
  | _ => none

namespace State

/-- What the call `r` is about to remember. -/
def pending (s : State α) (r : Nat) : Option (Path × PushEntry) :=
  (s.requests r).bind Request.pending

/-- The document that the call `r` is about to delete. -/
def deleting (s : State α) (r : Nat) : Option Path := (s.requests r).bind Request.deleting

/-- A push other than `but` is about to remember what the document of `path` holds. -/
def Settles (s : State α) (but : Option Nat) (path : Path) : Prop :=
  ∃ r < s.count, some r ≠ but ∧ ∃ p ∈ s.pending r, p.1 = path ∧ s.client.Holds path p.2

instance (s : State α) (but : Option Nat) (path : Path) : Decidable (s.Settles but path) :=
  inferInstanceAs (Decidable (∃ r < s.count, _))

end State

/-- Every entry of the cache has the hash and the version of its document, which
exists. -/
def Coherent (s : Client α) : Prop :=
  ∀ k e, s.entries k = some e → ∃ path, key path = k ∧ s.Holds path e

/-- All operations succeed and nobody else writes. -/
def Undisturbed : Label α → Prop
  | .get _ ok => ok = true
  | .write _ _ outcome | .delete _ outcome => outcome = .ok
  | .parent _ _ applied => applied = true
  | .external _ _ => False
  | _ => True

/-- A push remembers what the document still holds, or another push is about to
remember that; and a document is deleted only while it has no entry. -/
def Timely (s : State α) : Label α → Prop
  | .remember r => ∀ p ∈ s.pending r, s.client.Holds p.1 p.2 ∨ s.Settles (some r) p.1
  | .delete r _ => ∀ path ∈ s.deleting r, s.client.entries (key path) = none
  | _ => True

instance : (label : Label α) → Decidable (Undisturbed label)
  | .get _ ok => inferInstanceAs (Decidable (ok = true))
  | .write _ _ outcome | .delete _ outcome => inferInstanceAs (Decidable (outcome = .ok))
  | .parent _ _ applied => inferInstanceAs (Decidable (applied = true))
  | .external _ _ => isFalse id
  | .push _ _ _ | .deleteSession _ _ | .deletePC _ | .lookup _ | .remember _ | .forget _
  | .list _ _ => isTrue trivial

instance (s : State α) : (label : Label α) → Decidable (Timely s label)
  | .remember r => inferInstanceAs (Decidable (∀ p ∈ s.pending r, _))
  | .delete r _ => inferInstanceAs (Decidable (∀ path ∈ s.deleting r, _))
  | .push _ _ _ | .deleteSession _ _ | .deletePC _ | .lookup _ | .get _ _ | .write _ _ _
  | .forget _ | .list _ _ | .parent _ _ _ | .external _ _ => isTrue trivial

/-- Every entry agrees with its document, or a push is about to overwrite it by
one that does. -/
def Settled (s : State α) : Prop :=
  ∀ path e, s.client.entries (key path) = some e → s.client.Holds path e ∨ s.Settles none path

/-! ## Field lemmas -/

theorem State.pending_setRequest (s : State α) (r other : Nat) (request : Request α) :
    (s.setRequest r request).pending other =
      if other = r then request.pending else s.pending other := by
  by_cases same : other = r
  · subst same
    simp [State.pending, State.setRequest]
  · simp [State.pending, State.setRequest, same]

theorem State.pending_of_found {s : State α} {r : Nat} {request : Request α}
    (found : s.requests r = some request) : s.pending r = request.pending := by
  rw [State.pending, found, Option.bind_some]

theorem State.pending_remember {s : State α} {r : Nat} {q : PushCall α} {session : Fields α}
    {rest : List (Fields α)} {e : PushEntry} (found : s.requests r = some (.push q))
    (at_ : q.phase = .remember e) (round : q.todo = session :: rest) :
    s.pending r = some (q.path session, e) := by
  rw [pending_of_found found, Request.pending, at_, round]

theorem Client.Holds.congr {s next : Client α} {path : Path} {e : PushEntry}
    (same : next.sessions path = s.sessions path) (holds : s.Holds path e) : next.Holds path e := by
  rwa [Client.Holds, same]

theorem Client.not_holds_of_absent {s : Client α} {path : Path} {e : PushEntry}
    (absent : s.sessions path = none) : ¬ s.Holds path e := by
  rintro ⟨d, found, -⟩
  rw [absent] at found
  cases found

/-! ## One step -/

/-- Calls other than `r` are still about to remember what they were. -/
theorem State.Settles.setRequest {s b : State α} {r : Nat} {path : Path} {but : Option Nat}
    (settles : s.Settles but path) (other : s.pending r = none ∨ but = some r)
    (requests : b.requests = s.requests) (count : s.count ≤ b.count)
    (sessions : b.client.sessions path = s.client.sessions path) (request : Request α) :
    (b.setRequest r request).Settles none path := by
  obtain ⟨r', bound, ne, p, pends, onPath, holds⟩ := settles
  have moved : r' ≠ r := by
    rintro rfl
    rcases other with idle | excepted
    · rw [idle] at pends
      cases pends
    · exact ne excepted.symm
  refine ⟨r', Nat.lt_of_lt_of_le bound count, by simp, p, ?_, onPath, ?_⟩
  · rw [pending_setRequest, if_neg moved, State.pending, requests]
    exact pends
  · exact holds.congr sessions

/-- A step of a call that was not about to remember anything, which at most drops
entries, keeps the entries settled. -/
theorem Settled.setRequest {s b : State α} {r : Nat} (settled : Settled s)
    (idle : s.pending r = none) (requests : b.requests = s.requests)
    (count : s.count ≤ b.count) (sessions : b.client.sessions = s.client.sessions)
    (entries : ∀ k e, b.client.entries k = some e → s.client.entries k = some e)
    (request : Request α) : Settled (b.setRequest r request) := by
  intro path e entry
  rcases settled path e (entries _ e entry) with holds | settles
  · exact .inl (holds.congr (by rw [← sessions]; rfl))
  · exact .inr (settles.setRequest (.inl idle) requests count (by rw [sessions]) request)

/-- A push that has just written is about to remember what it wrote. -/
theorem Settled.write {s b : State α} {r : Nat} {path : Path} {doc : Fields α}
    (settled : Settled s) (idle : s.pending r = none) (bound : r < s.count)
    (requests : b.requests = s.requests) (count : b.count = s.count)
    (entries : b.client.entries = s.client.entries)
    (sessions : b.client.sessions = Function.update s.client.sessions path (some doc))
    {request : Request α} {e : PushEntry} (pends : request.pending = some (path, e))
    (hash : stringField doc contentHashKey = e.hash) (ver : int64Field doc version = e.version) :
    Settled (b.setRequest r request) := by
  intro other e' entry
  by_cases same : other = path
  · subst same
    apply Or.inr
    refine ⟨r, by simpa [State.setRequest, count] using bound, by simp, (other, e), ?_, rfl, ?_⟩
    · rw [State.pending_setRequest, if_pos rfl, pends]
      exact Option.mem_def.mpr rfl
    · exact ⟨doc, by simp [State.setRequest, sessions], hash, ver⟩
  · have untouched : b.client.sessions other = s.client.sessions other := by
      rw [sessions, Function.update_of_ne same]
    have before : s.client.entries (key other) = some e' := by
      rw [← entries]
      exact entry
    rcases settled other e' before with holds | settles
    · exact .inl (holds.congr untouched)
    · exact .inr (settles.setRequest (.inl idle) requests (Nat.le_of_eq count.symm) untouched
        request)

/-- A push settles by what it remembers exactly if this is what the document
holds, or another push settles later. -/
theorem Settled.remember_iff {s : State α} {r : Nat} {path : Path} {e : PushEntry}
    (settled : Settled s) (pends : s.pending r = some (path, e)) {request : Request α}
    (noneLeft : request.pending = none) :
    Settled ({ s with client := s.client.set (key path) e }.setRequest r request) ↔
      s.client.Holds path e ∨ s.Settles (some r) path := by
  constructor
  · intro after
    have entry : ({ s with client := s.client.set (key path) e }.setRequest r
        request).client.entries (key path) = some e := Function.update_self ..
    rcases after path e entry with holds | ⟨r', bound, -, p, pends', onPath, holds⟩
    · exact .inl (holds.congr rfl)
    · apply Or.inr
      rw [State.pending_setRequest] at pends'
      split at pends'
      · rw [noneLeft] at pends'
        cases pends'
      · rename_i moved
        exact ⟨r', bound, fun same => moved (Option.some.inj same), p, pends', onPath,
          holds.congr rfl⟩
  · intro timely other e' entry
    by_cases same : other = path
    · subst same
      have e'Eq : e' = e := by
        have self : some e' = some e := entry.symm.trans (Function.update_self ..)
        exact Option.some.inj self
      subst e'Eq
      exact timely.imp (fun holds => holds.congr rfl) fun settles =>
        settles.setRequest (.inr rfl) (b := { s with client := s.client.set (key other) e' })
          rfl (Nat.le_refl _) rfl request
    · have before : s.client.entries (key other) = some e' := by
        have kept : ({ s with client := s.client.set (key path) e }.setRequest r
            request).client.entries (key other) = s.client.entries (key other) :=
          Function.update_of_ne (key_ne same) ..
        rw [← kept, entry]
      rcases settled other e' before with holds | ⟨r', bound, -, p, pends', onPath, holds⟩
      · exact .inl (holds.congr rfl)
      · -- the push that moves was about to settle another path
        have moved : some r' ≠ some r := by
          rintro moved
          cases moved
          rw [pends] at pends'
          cases pends'
          exact same onPath.symm
        have settles : s.Settles (some r) other :=
          ⟨r', bound, moved, p, pends', onPath, holds⟩
        exact .inr (settles.setRequest (.inr rfl)
          (b := { s with client := s.client.set (key path) e }) rfl (Nat.le_refl _) rfl request)

/-- A delete keeps the entries settled exactly if the document has none. -/
theorem Settled.delete_iff {s : State α} {r : Nat} {path : Path} (settled : Settled s)
    (idle : s.pending r = none) (request : Request α) :
    Settled ((s.putDoc path none).setRequest r request) ↔ s.client.entries (key path) = none := by
  have gone : ((s.putDoc path none).setRequest r request).client.sessions path = none :=
    Function.update_self ..
  constructor
  · intro after
    rw [Option.eq_none_iff_forall_ne_some]
    intro e entry
    rcases after path e entry with holds | ⟨-, -, -, p, -, -, holds⟩
    · exact Client.not_holds_of_absent gone holds
    · exact Client.not_holds_of_absent gone holds
  · intro forgotten other e entry
    by_cases same : other = path
    · subst same
      have clash : none = some e := forgotten.symm.trans entry
      cases clash
    · have untouched : (s.putDoc path none).client.sessions other = s.client.sessions other :=
        Function.update_of_ne same ..
      rcases settled other e entry with holds | settles
      · exact .inl (holds.congr untouched)
      · exact .inr (settles.setRequest (.inl idle) (b := s.putDoc path none) rfl
          (Nat.le_refl _) untouched request)

/-- One step keeps the entries settled exactly if it is timely. -/
theorem Effect.settled_iff {cfg : Config α} {s next : State α} {label : Label α}
    (effect : Effect cfg s label next) (ordered : Ordered s) (settled : Settled s)
    (undisturbed : Undisturbed label) : Settled next ↔ Timely s label := by
  have started : s.pending s.count = none := by
    rw [State.pending]
    cases found : s.requests s.count with
    | none => rfl
    | some q => exact absurd (ordered.numbered s.count q found) (Nat.lt_irrefl _)
  have idle : ∀ {r q}, s.requests r = some (.push q) → (∀ e, q.phase ≠ .remember e) →
      s.pending r = none := by
    intro r q found elsewhere
    rw [State.pending_of_found found, Request.pending]
    split
    · rename_i at_ _
      exact absurd at_ (elsewhere _)
    · rfl
  cases effect with
  | push pc now sessions =>
      exact iff_of_true (settled.setRequest (b := { s with
        client := { s.client with clock := now }, count := s.count + 1 }) started rfl
          (Nat.le_succ _) rfl (fun _ _ => id) _) trivial
  | deleteSession pc session =>
      exact iff_of_true (settled.setRequest (b := { s with count := s.count + 1 }) started rfl
        (Nat.le_succ _) rfl (fun _ _ => id) _) trivial
  | deletePC pc =>
      exact iff_of_true (settled.setRequest (b := { s with count := s.count + 1 }) started rfl
        (Nat.le_succ _) rfl (fun _ _ => id) _) trivial
  | changes found at_ noneLeft | hit found at_ round remembers | miss found at_ round misses =>
      exact iff_of_true (settled.setRequest (idle found (by simp [at_])) rfl (Nat.le_refl _) rfl
        (fun _ _ => id) _) trivial
  | unchanged found at_ noneLeft =>
      exact iff_of_true (settled.setRequest (b := { s with
        client := { s.client with returned := _ } }) (idle found (by simp [at_])) rfl
          (Nat.le_refl _) rfl (fun _ _ => id) _) trivial
  | verified found at_ round doc same | differs found at_ round doc other =>
      exact iff_of_true (settled.setRequest (b := { s with
        client := { s.client with gets := s.client.gets + 1 }, observed := _ })
          (idle found (by simp [at_])) rfl (Nat.le_refl _) rfl (fun _ _ => id) _) trivial
  | absent found at_ round noDoc | getFailed found at_ round =>
      exact iff_of_true (settled.setRequest (b := { s with
        client := { s.client with gets := s.client.gets + 1 } }) (idle found (by simp [at_])) rfl
          (Nat.le_refl _) rfl (fun _ _ => id) _) trivial
  | @write r q session rest snap stamp outcome found at_ round =>
      have done : outcome = .ok := undisturbed
      subst done
      refine iff_of_true ?_ trivial
      refine settled.write (b := ((s.putDoc (q.path session) (some (document session snap.next
        (contentHash cfg.digest session) stamp))).observe (q.path session) _ q.now))
        (idle found (by simp [at_])) (ordered.numbered r _ found) rfl rfl rfl rfl
        (e := q.entry cfg session snap.next) ?_ (stringField_document ..) (int64Field_document ..)
      simp [Request.pending, round, PushCall.path]
  | remember found at_ round =>
      have pends := State.pending_remember found at_ round
      apply (settled.remember_iff pends rfl).trans
      constructor
      · intro timely p mem
        rw [pends] at mem
        cases mem
        exact timely
      · exact fun timely => timely _ pends
  | forget found at_ round =>
      exact iff_of_true (settled.setRequest (b := { s with client := s.client.forget _ })
        (idle found (by simp [at_])) rfl (Nat.le_refl _) rfl
          (fun _ _ => Client.entries_of_forget) _) trivial
  | forgetSession found =>
      exact iff_of_true (settled.setRequest (b := { s with client := s.client.forget _ })
        (by rw [State.pending_of_found found]; rfl) rfl (Nat.le_refl _) rfl
          (fun _ _ => Client.entries_of_forget) _) trivial
  | @forgetPC r pc found =>
      exact iff_of_true (settled.setRequest (b := { s with client := s.client.forgetPC pc.text })
        (by rw [State.pending_of_found found]; rfl) rfl (Nat.le_refl _) rfl
          (fun _ _ => Client.entries_of_forgetPC) _) trivial
  | list found =>
      exact iff_of_true (settled.setRequest (by rw [State.pending_of_found found]; rfl) rfl
        (Nat.le_refl _) rfl (fun _ _ => id) _) trivial
  | @delete r pc session outcome found =>
      have done : outcome = .ok := undisturbed
      subst done
      have idle : s.pending r = none := by rw [State.pending_of_found found]; rfl
      apply (settled.delete_iff idle _).trans
      simp [Timely, State.deleting, found, Request.deleting]
  | @deleteListed r pc session rest outcome found =>
      have done : outcome = .ok := undisturbed
      subst done
      have idle : s.pending r = none := by rw [State.pending_of_found found]; rfl
      apply (settled.delete_iff idle _).trans
      simp [Timely, State.deleting, found, Request.deleting]
  | parent stamp applied pcs found at_ =>
      exact iff_of_true (settled.setRequest (b := { s with
        client := { s.client with pcs, returned := _ } }) (idle found (by simp [at_])) rfl
          (Nat.le_refl _) rfl (fun _ _ => id) _) trivial
  | parentPC stamp applied pcs found =>
      exact iff_of_true (settled.setRequest (b := { s with client := { s.client with pcs } })
        (by rw [State.pending_of_found found]; rfl) rfl (Nat.le_refl _) rfl
          (fun _ _ => id) _) trivial
  | external path doc => exact undisturbed.elim

/-! ## Runs -/

theorem settled_opened (pcs : PCName → Option (Fields α)) (sessions : Path → Option (Fields α))
    (clock : Int) : Settled (opened pcs sessions clock) := by
  intro path e entry
  cases entry

/-- Without disturbance, every entry agrees with its document or is about to,
exactly in the runs whose steps are timely. -/
theorem settled_iff_timely (cfg : Config α) (pcs : PCName → Option (Fields α))
    (sessions : Path → Option (Fields α)) (clock : Int) {labels : List (Label α)}
    (undisturbed : ∀ label ∈ labels, Undisturbed label) :
    Always (interleave cfg) Settled (opened pcs sessions clock) labels ↔
      Along (interleave cfg) Timely (opened pcs sessions clock) labels := by
  have preserved : ∀ s label next, Ordered s → Undisturbed label →
      interleave cfg s label = some next → Ordered next :=
    fun _ _ _ ordered _ taken => (effect_of_interleave taken).ordered ordered
  have one : ∀ s label next, Ordered s → Settled s → Undisturbed label →
      interleave cfg s label = some next → (Settled next ↔ Timely s label) :=
    fun _ _ _ ordered settled calm taken =>
      (effect_of_interleave taken).settled_iff ordered settled calm
  exact always_iff_along preserved one (ordered_opened pcs sessions clock)
    (settled_opened pcs sessions clock) (along_of_forall_mem undisturbed _)

theorem Settled.coherent {s : State α} (settled : Settled s) (ordered : Ordered s)
    (quiescent : s.Quiescent) : Coherent s.client := by
  intro k e entry
  obtain ⟨path, rfl⟩ := ordered.keyed k e entry
  refine ⟨path, rfl, ?_⟩
  rcases settled path e entry with holds | ⟨r, bound, -, p, pends, -⟩
  · exact holds
  · obtain ⟨q, found, pends⟩ := Option.bind_eq_some_iff.mp pends
    have noneLeft := quiescent r bound q found
    cases q with
    | push q =>
        simp only [Request.pending] at pends
        split at pends
        · rename_i at_ _
          simp [Request.finished, at_] at noneLeft
        · cases pends
    | deleteSession | deletePC => cases pends

/-- In every undisturbed run whose steps are timely, the cache is coherent
whenever no call is in flight. -/
theorem coherent_of_timely (cfg : Config α) (pcs : PCName → Option (Fields α))
    (sessions : Path → Option (Fields α)) (clock : Int) {labels : List (Label α)}
    (undisturbed : ∀ label ∈ labels, Undisturbed label)
    (timely : Along (interleave cfg) Timely (opened pcs sessions clock) labels) :
    Always (interleave cfg) (fun s => s.Quiescent → Coherent s.client)
      (opened pcs sessions clock) labels := by
  have both : Always (interleave cfg) (fun s => Ordered s ∧ Settled s)
      (opened pcs sessions clock) labels := by
    refine always_of_preserved ?_ ⟨ordered_opened pcs sessions clock,
      settled_opened pcs sessions clock⟩ ((along_of_forall_mem undisturbed _).and timely)
    rintro s label next ⟨ordered, settled⟩ ⟨calm, timely⟩ taken
    have effect := effect_of_interleave taken
    exact ⟨effect.ordered ordered, (effect.settled_iff ordered settled calm).mpr timely⟩
  exact both.imp fun s holds quiescent => holds.2.coherent holds.1 quiescent

/-- A delete forgets the session before the push remembers it, and deletes the
document after. -/
def overlapping : List (Label Unit) :=
  [.push host 0 [session], .deleteSession host (ascii "s1"), .lookup 0, .get 0 true,
    .write 0 [] .ok, .forget 1, .remember 0, .delete 1 .ok, .lookup 0, .parent 0 [] true]

/-- Both calls have returned, and the cache has an entry without a document. -/
theorem overlapping_incoherent :
    (∀ label ∈ overlapping, Undisturbed label) ∧
      ¬ Always (interleave hostConfig) (fun s => s.Quiescent → Coherent s.client)
        (opened (fun _ => none) (fun _ => none) 0) overlapping := by
  refine ⟨by decide, fun always => ?_⟩
  have final : (exec (interleave hostConfig) (opened (fun _ => none) (fun _ => none) 0)
      overlapping).map (fun s => (decide s.Quiescent,
        (s.client.entries (key (host, ascii "s1"))).isSome,
        (s.client.sessions (host, ascii "s1")).isSome)) = some (true, true, false) := by decide
  obtain ⟨s, run, shape⟩ := Option.map_eq_some_iff.mp final
  simp only [Prod.mk.injEq, decide_eq_true_eq] at shape
  obtain ⟨quiescent, remembered, deleted⟩ := shape
  obtain ⟨e, entry⟩ := Option.isSome_iff_exists.mp remembered
  obtain ⟨path, same, d, found, -⟩ := always.last run quiescent _ e entry
  rw [key_injective same] at found
  rw [Option.mem_def.mp found] at deleted
  cases deleted

/-- The same two calls with the push first to remember. -/
def overlappingInTime : List (Label Unit) :=
  [.push host 0 [session], .deleteSession host (ascii "s1"), .lookup 0, .get 0 true,
    .write 0 [] .ok, .remember 0, .forget 1, .delete 1 .ok, .lookup 0, .parent 0 [] true]

theorem overlappingInTime_coherent :
    Always (interleave hostConfig) (fun s => s.Quiescent → Coherent s.client)
      (opened (fun _ => none) (fun _ => none) 0) overlappingInTime :=
  coherent_of_timely hostConfig (fun _ => none) (fun _ => none) 0 (by decide) (by decide)

end Drover.Push
