import Drover.Push.Steps
import Drover.Push.Transparent

/-!
# How stale a push can be

A push that returns without an error has seen, for each session of its list, the
content hash of the session in its document less than `verifyEvery` ago; the
documents may have changed since, by other writers.  So the first push that comes
`verifyEvery` after the last look at a document puts the document right.

The entries of the cache are tied to `observed`, the log of what the client has
read and written.
-/

namespace Drover.Push

open Drover.Transition

variable {α : Type}

/-! ## The two statements -/

/-- The pushes come one after another, and the clock does not go back.  Deletes and
other writers may come in between at any time. -/
def Sequential (s : State α) : Label α → Prop
  | .push _ now _ => s.Quiescent ∧ s.client.clock ≤ now
  | _ => True

instance (s : State α) : (label : Label α) → Decidable (Sequential s label)
  | .push _ now _ => inferInstanceAs (Decidable (s.Quiescent ∧ s.client.clock ≤ now))
  | .deleteSession _ _ | .deletePC _ | .lookup _ | .get _ _ | .write _ _ _ | .remember _
  | .forget _ | .list _ _ | .delete _ _ | .parent _ _ _ | .external _ _ => isTrue trivial

/-- The client has seen the hash of the session in its document less than
`verifyEvery` before the push, or during it. -/
def State.Seen (cfg : Config α) (s : State α) (q : PushCall α) (session : Fields α) : Prop :=
  ∃ o ∈ s.observed, o.path = q.path session ∧ o.hash = contentHash cfg.digest session ∧
    q.now - cfg.verifyEvery < o.time ∧ o.time ≤ q.now

/-- Every push that has returned without an error has seen all its sessions. -/
def Bounded (cfg : Config α) (s : State α) : Prop :=
  ∀ r q, s.requests r = some (.push q) → q.phase = .returned false →
    ∀ session ∈ q.sessions, s.Seen cfg q session

/-- The call that takes a step. -/
def Label.call : Label α → Option Nat
  | .lookup r | .get r _ | .write r _ _ | .remember r | .forget r | .list r _ | .delete r _
  | .parent r _ _ => some r
  | .push _ _ _ | .deleteSession _ _ | .deletePC _ | .external _ _ => none

/-- The client has not looked at the document within `verifyEvery` before `now`. -/
def State.Overdue (cfg : Config α) (s : State α) (now : Int) (path : Path) : Prop :=
  ∀ o ∈ s.observed, o.path = path → o.time + cfg.verifyEvery ≤ now

/-! ## The log behind the cache -/

section

variable {cfg : Config α} {s b t : State α} {q : PushCall α} {r : Nat}

/-- What a push has seen so far. -/
structure PushCall.Logged (cfg : Config α) (s : State α) (q : PushCall α) : Prop where
  current : (Request.push q).finished = false → q.now = s.client.clock
  seen : ∀ session ∈ q.sessions, session ∈ q.todo ∨ s.Seen cfg q session
  remembers : ∀ ⦃e session rest⦄, q.phase = .remember e → q.todo = session :: rest →
    e.hash = contentHash cfg.digest session ∧ e.verifiedAt = q.now ∧
      (⟨q.path session, e.hash, q.now⟩ : Observation) ∈ s.observed
  noneLeft : q.phase = .parent ∨ q.phase = .returned false → q.todo = []

/-- Every entry was seen in its document when it was verified. -/
structure Log (cfg : Config α) (s : State α) : Prop where
  entries : ∀ ⦃path e⦄, s.client.entries (key path) = some e →
    (⟨path, e.hash, e.verifiedAt⟩ : Observation) ∈ s.observed
  past : ∀ o ∈ s.observed, o.time ≤ s.client.clock
  pushes : ∀ ⦃r q⦄, s.requests r = some (.push q) → q.Logged cfg s

theorem State.Seen.grow (grow : s.observed ⊆ t.observed) {session : Fields α}
    (seen : s.Seen cfg q session) : t.Seen cfg q session := by
  obtain ⟨o, mem, rest⟩ := seen
  exact ⟨o, grow mem, rest⟩

theorem PushCall.Logged.grow (logged : q.Logged cfg s) (grow : s.observed ⊆ t.observed)
    (clock : (Request.push q).finished = false → t.client.clock = s.client.clock) :
    q.Logged cfg t where
  current unfinished := (logged.current unfinished).trans (clock unfinished).symm
  seen session mem := (logged.seen session mem).imp_right (.grow grow)
  remembers e session rest at_ round := by
    obtain ⟨hash, verifiedAt, mem⟩ := logged.remembers at_ round
    exact ⟨hash, verifiedAt, grow mem⟩
  noneLeft := logged.noneLeft

/-- A step of one call that only adds to the log keeps what the others have seen. -/
theorem Log.setRequest (log : Log cfg s) (requests : b.requests = s.requests)
    (grow : s.observed ⊆ b.observed)
    (clock : ∀ ⦃r q⦄, s.requests r = some (.push q) → (Request.push q).finished = false →
      b.client.clock = s.client.clock)
    (entries : ∀ ⦃path e⦄, b.client.entries (key path) = some e →
      (⟨path, e.hash, e.verifiedAt⟩ : Observation) ∈ b.observed)
    (past : ∀ o ∈ b.observed, o.time ≤ b.client.clock) {request : Request α}
    (moved : ∀ q, request = .push q → q.Logged cfg b) :
    Log cfg (b.setRequest r request) where
  entries _ _ entry := entries entry
  past := past
  pushes r' q found := by
    by_cases same : r' = r
    · subst same
      simp only [State.setRequest, Function.update_self, Option.some.injEq] at found
      exact (moved q found).grow (List.Subset.refl _) fun _ => rfl
    · simp only [State.setRequest, Function.update_of_ne same, requests] at found
      exact (log.pushes found).grow grow (clock found)

/-- The same when neither the log nor the clock changes, and the cache at most
loses entries. -/
theorem Log.setRequest_quiet (log : Log cfg s) (requests : b.requests = s.requests)
    (observed : b.observed = s.observed) (clock : b.client.clock = s.client.clock)
    (entries : ∀ ⦃k e⦄, b.client.entries k = some e → s.client.entries k = some e)
    {request : Request α} (moved : ∀ q, request = .push q → q.Logged cfg s) :
    Log cfg (b.setRequest r request) := by
  have grow : s.observed ⊆ b.observed := by rw [observed]; exact List.Subset.refl _
  apply log.setRequest requests grow
  · exact fun _ _ _ _ => clock
  · exact fun path e entry => grow (log.entries (entries entry))
  · rw [observed, clock]
    exact log.past
  · exact fun q eq => (moved q eq).grow grow fun _ => clock

/-- A push that goes on inside its round, at another instruction. -/
theorem PushCall.Logged.goto (logged : q.Logged cfg s)
    (unfinished : (Request.push q).finished = false) {phase : PushPhase α} (changed : Nat)
    (inside : phase ≠ .parent ∧ phase ≠ .returned false)
    (remembers : ∀ ⦃e session rest⦄, phase = .remember e → q.todo = session :: rest →
      e.hash = contentHash cfg.digest session ∧ e.verifiedAt = q.now ∧
        (⟨q.path session, e.hash, q.now⟩ : Observation) ∈ s.observed) :
    PushCall.Logged cfg s { q with phase, changed } where
  current _ := logged.current unfinished
  seen := logged.seen
  remembers := remembers
  noneLeft noneLeft := (noneLeft.elim inside.1 inside.2).elim

/-- A push that leaves its loop. -/
theorem PushCall.Logged.leave (logged : q.Logged cfg s)
    (unfinished : (Request.push q).finished = false) (noneLeft : q.todo = [])
    {phase : PushPhase α} (outside : phase = .parent ∨ phase = .returned false) :
    PushCall.Logged cfg s { q with phase } where
  current _ := logged.current unfinished
  seen := logged.seen
  remembers e session rest at_ _ := by rcases outside with rfl | rfl <;> cases at_
  noneLeft _ := noneLeft

/-- A push that has seen the session of its round goes on to the next one. -/
theorem PushCall.Logged.advance (logged : q.Logged cfg s)
    (unfinished : (Request.push q).finished = false) {session : Fields α}
    {rest : List (Fields α)} (round : q.todo = session :: rest)
    (seen : s.Seen cfg q session) :
    PushCall.Logged cfg s { q with todo := rest, phase := .lookup } where
  current _ := logged.current unfinished
  seen other mem := by
    rcases logged.seen other mem with waiting | before
    · rw [round, List.mem_cons] at waiting
      rcases waiting with rfl | waiting
      · exact .inr seen
      · exact .inl waiting
    · exact .inr before
  remembers _ _ _ at_ _ := by cases at_
  noneLeft noneLeft := by rcases noneLeft with noneLeft | noneLeft <;> cases noneLeft

theorem Log.append (log : Log cfg s) {o : Observation} (now : o.time = s.client.clock) :
    ∀ o' ∈ s.observed ++ [o], o'.time ≤ s.client.clock := by
  intro o' mem
  rw [List.mem_append, List.mem_singleton] at mem
  rcases mem with mem | rfl
  · exact log.past o' mem
  · exact Int.le_of_eq now

/-- A push that sees a hash in its round, and goes on inside it. -/
theorem Log.observe (log : Log cfg s) (found : s.requests r = some (.push q))
    (unfinished : (Request.push q).finished = false) {o : Observation} (now : o.time = q.now)
    (requests : b.requests = s.requests) (observed : b.observed = s.observed ++ [o])
    (entries : b.client.entries = s.client.entries) (clock : b.client.clock = s.client.clock)
    {phase : PushPhase α} {changed : Nat} (inside : phase ≠ .parent ∧ phase ≠ .returned false)
    (remembers : ∀ ⦃e session rest⦄, phase = .remember e → q.todo = session :: rest →
      e.hash = contentHash cfg.digest session ∧ e.verifiedAt = q.now ∧
        ⟨q.path session, e.hash, q.now⟩ = o) :
    Log cfg (b.setRequest r (.push { q with phase, changed })) := by
  have logged := log.pushes found
  have grow : s.observed ⊆ b.observed := by
    rw [observed]
    exact List.subset_append_left _ _
  apply log.setRequest requests grow fun _ _ _ _ => clock
  · intro path e entry
    rw [entries] at entry
    exact grow (log.entries entry)
  · rw [observed, clock]
    exact log.append (now.trans (logged.current unfinished))
  · rintro q' ⟨⟩
    apply (logged.grow grow fun _ => clock).goto unfinished changed inside
    intro e session rest at_ round
    obtain ⟨hash, verifiedAt, isSeen⟩ := remembers at_ round
    refine ⟨hash, verifiedAt, ?_⟩
    rw [observed, isSeen]
    exact List.mem_append_right _ (List.mem_singleton_self o)

theorem Effect.log {label : Label α} (effect : Effect cfg s label t)
    (positive : 0 < cfg.verifyEvery) (sequential : Sequential s label) (ordered : Ordered s)
    (log : Log cfg s) : Log cfg t := by
  -- a push at an instruction inside its round has not returned
  have running : ∀ {q : PushCall α}, (∀ failed, q.phase ≠ .returned failed) →
      (Request.push q).finished = false := by
    intro q going
    cases at_ : q.phase with
    | returned failed => exact absurd at_ (going failed)
    | _ => simp [Request.finished, at_]
  cases effect with
  | push pc now sessions =>
      obtain ⟨quiescent, later⟩ := sequential
      apply log.setRequest (b := { s with
        client := { s.client with clock := now }, count := s.count + 1 }) rfl (List.Subset.refl _)
      · intro r q found unfinished
        rw [quiescent r (ordered.numbered r _ found) _ found] at unfinished
        cases unfinished
      · exact fun path e entry => log.entries entry
      · exact fun o mem => Int.le_trans (log.past o mem) later
      · rintro q ⟨⟩
        constructor
        case current => exact fun _ => rfl
        case seen => exact fun session mem => .inl mem
        case remembers =>
          intro e session rest at_
          cases at_
        case noneLeft => rintro (noneLeft | noneLeft) <;> cases noneLeft
  | deleteSession pc session =>
      exact log.setRequest_quiet (b := { s with count := s.count + 1 }) rfl rfl rfl
        (fun _ _ => id) fun q eq => by cases eq
  | deletePC pc =>
      exact log.setRequest_quiet (b := { s with count := s.count + 1 }) rfl rfl rfl
        (fun _ _ => id) fun q eq => by cases eq
  | changes found at_ noneLeft =>
      refine log.setRequest_quiet rfl rfl rfl (fun _ _ => id) ?_
      rintro q ⟨⟩
      exact (log.pushes found).leave (running (by simp [at_])) noneLeft (.inl rfl)
  | @unchanged r q found at_ noneLeft =>
      refine log.setRequest_quiet (b := { s with
        client := { s.client with returned := q.changed :: s.client.returned } })
          rfl rfl rfl (fun _ _ => id) ?_
      rintro q ⟨⟩
      exact (log.pushes found).leave (running (by simp [at_])) noneLeft (.inr rfl)
  | @hit r q session rest found at_ round remembers =>
      refine log.setRequest_quiet rfl rfl rfl (fun _ _ => id) ?_
      rintro q' ⟨⟩
      have unfinished := running (q := q) (by simp [at_])
      have logged := log.pushes found
      obtain ⟨e, entry, hash, recent⟩ := Client.remembers_eq_true_iff.mp remembers
      have mem := @log.entries (q.path session) e entry
      have seen : s.Seen cfg q session := by
        refine ⟨_, mem, rfl, hash, ?_, ?_⟩
        · simp only
          omega
        · rw [logged.current unfinished]
          exact log.past _ mem
      have advanced := logged.advance unfinished round seen
      rwa [← at_] at advanced
  | miss found at_ round misses =>
      refine log.setRequest_quiet rfl rfl rfl (fun _ _ => id) ?_
      rintro q' ⟨⟩
      exact (log.pushes found).goto (running (by simp [at_])) _ (by simp) (by simp)
  | @verified r q session d rest found at_ round doc same =>
      refine log.observe (b := { s with
        client := { s.client with gets := s.client.gets + 1 },
        observed := s.observed ++ [⟨q.path session, stringField d contentHashKey, q.now⟩] })
          found (running (by simp [at_])) rfl rfl rfl rfl rfl (by simp) ?_
      intro e head tail eq round'
      rw [round, List.cons.injEq] at round'
      obtain ⟨rfl, -⟩ := round'
      cases eq
      refine ⟨rfl, rfl, ?_⟩
      simp [same, PushCall.entry]
  | @differs r q session d rest found at_ round doc other =>
      exact log.observe (b := { s with
        client := { s.client with gets := s.client.gets + 1 },
        observed := s.observed ++ [⟨q.path session, stringField d contentHashKey, q.now⟩] })
          found (running (by simp [at_])) rfl rfl rfl rfl rfl (by simp) (by simp)
  | absent found at_ round noDoc | getFailed found at_ round =>
      refine log.setRequest_quiet (b := { s with
        client := { s.client with gets := s.client.gets + 1 } }) rfl rfl rfl (fun _ _ => id) ?_
      rintro q' ⟨⟩
      exact (log.pushes found).goto (running (by simp [at_])) _ (by simp) (by simp)
  | @write r q session rest snap stamp outcome found at_ round =>
      have unfinished := running (q := q) (by simp [at_])
      rw [writeStep]
      split
      · refine log.observe
          (b := (s.putDoc (q.path session) _).observe (q.path session) _ q.now)
          found unfinished rfl rfl rfl rfl rfl (by split <;> simp) ?_
        intro e head tail eq round'
        rw [round, List.cons.injEq] at round'
        obtain ⟨rfl, -⟩ := round'
        split at eq
        · cases eq
          refine ⟨rfl, rfl, ?_⟩
          simp [PushCall.entry, stringField_document]
        · cases eq
      · rename_i lost
        refine log.setRequest_quiet rfl rfl rfl (fun _ _ => id) ?_
        rintro q' ⟨⟩
        have failed : outcome ≠ .ok := by
          rintro rfl
          exact lost rfl
        exact (log.pushes found).goto unfinished _ (by simp [failed]) (by simp [failed])
  | @remember r q session rest e found at_ round =>
      have unfinished := running (q := q) (by simp [at_])
      have logged := log.pushes found
      obtain ⟨hash, verifiedAt, mem⟩ := logged.remembers at_ round
      refine log.setRequest (b := { s with client := s.client.set (key (q.path session)) e }) rfl
        (List.Subset.refl _) (fun _ _ _ _ => rfl) ?_ log.past ?_
      · intro path e' entry
        by_cases same : path = q.path session
        · subst same
          simp only [Client.set, Function.update_self, Option.some.injEq] at entry
          subst entry
          rwa [verifiedAt]
        · simp only [Client.set, Function.update_of_ne (key_ne same)] at entry
          exact log.entries entry
      · rintro q' ⟨⟩
        have seen : s.Seen cfg q session :=
          ⟨_, mem, rfl, hash, by simp only; omega, Int.le_refl _⟩
        exact (logged.advance unfinished round seen).grow (List.Subset.refl _) fun _ => rfl
  | forget found at_ round =>
      refine log.setRequest_quiet (b := { s with client := s.client.forget _ }) rfl rfl rfl
        (fun _ _ => Client.entries_of_forget) ?_
      rintro q' ⟨⟩
      exact (log.pushes found).goto (running (by simp [at_])) _ (by simp) (by simp)
  | forgetSession found =>
      exact log.setRequest_quiet (b := { s with client := s.client.forget _ }) rfl rfl rfl
        (fun _ _ => Client.entries_of_forget) fun q eq => by cases eq
  | forgetPC found =>
      exact log.setRequest_quiet (b := { s with client := s.client.forgetPC _ }) rfl rfl rfl
        (fun _ _ => Client.entries_of_forgetPC) fun q eq => by cases eq
  | list found => exact log.setRequest_quiet rfl rfl rfl (fun _ _ => id) fun q eq => by cases eq
  | delete outcome found | deleteListed outcome found =>
      split
      · exact log.setRequest_quiet (b := s.putDoc _ none) rfl rfl rfl (fun _ _ => id)
          fun q eq => by cases eq
      · exact log.setRequest_quiet rfl rfl rfl (fun _ _ => id) fun q eq => by cases eq
  | @parent r q stamp applied pcs found at_ =>
      refine log.setRequest_quiet (b := { s with
        client := { s.client with pcs, returned := q.changed :: s.client.returned } })
          rfl rfl rfl (fun _ _ => id) ?_
      rintro q ⟨⟩
      have logged := log.pushes found
      exact logged.leave (running (by simp [at_])) (logged.noneLeft (.inl at_)) (.inr rfl)
  | parentPC stamp applied pcs found =>
      exact log.setRequest_quiet (b := { s with client := { s.client with pcs } }) rfl rfl rfl
        (fun _ _ => id) fun q eq => by cases eq
  | external path doc =>
      exact ⟨log.entries, log.past, fun r q found =>
        (log.pushes found).grow (List.Subset.refl _) fun _ => rfl⟩

theorem Log.bounded (log : Log cfg s) : Bounded cfg s := by
  intro r q found noneLeft session mem
  have logged := log.pushes found
  rcases logged.seen session mem with waiting | seen
  · rw [logged.noneLeft (.inr noneLeft)] at waiting
    cases waiting
  · exact seen

/-! ## The repair -/

/-- A push of `pushed` that began in `first` is on its way: the rounds done have
put every overdue document right, and the entries of the others are as they were. -/
structure PushCall.Repairs (cfg : Config α) (first : State α) (pushed : List (Fields α))
    (client : Client α) (q : PushCall α) (done : List (Fields α)) : Prop where
  split : pushed = done ++ q.todo
  entries : ∀ session ∈ q.todo, client.entries (key (q.path session)) =
    first.client.entries (key (q.path session))
  repaired : ∀ session ∈ done, first.Overdue cfg q.now (q.path session) →
    client.hashAt (q.path session) = some (contentHash cfg.digest session)
  holds : ∀ ⦃e session rest⦄, q.phase = .remember e → q.todo = session :: rest →
    client.hashAt (q.path session) = some (contentHash cfg.digest session)
  noneLeft : q.phase = .parent ∨ q.phase = .returned false → q.todo = []

/-- The push has failed, or it repairs. -/
def State.Repairing (cfg : Config α) (s first : State α) (r : Nat) (pc : PCName) (now : Int)
    (pushed : List (Fields α)) : Prop :=
  ∃ q, s.requests r = some (.push q) ∧ q.pc = pc ∧ q.now = now ∧
    (q.phase = .returned true ∨ ∃ done, q.Repairs cfg first pushed s.client done)

/-- Two sessions of a list with distinct keys, one done and one to do. -/
theorem key_ne_of_nodup {pushed done rest : List (Fields α)} {session other : Fields α}
    (distinct : (pushed.map sessionKey).Nodup) (split : pushed = done ++ session :: rest)
    (mem : other ∈ done ∨ other ∈ rest) : sessionKey other ≠ sessionKey session := by
  rw [split, List.map_append, List.map_cons, List.nodup_append, List.nodup_cons] at distinct
  obtain ⟨-, ⟨absent, -⟩, apart⟩ := distinct
  rcases mem with mem | mem
  · exact apart _ (List.mem_map_of_mem mem) _ (List.mem_cons_self ..)
  · exact fun same => absent (same ▸ List.mem_map_of_mem mem)

theorem Client.hashAt_put_self (client : Client α) {path : Path} (d : Fields α) :
    Client.hashAt { client with sessions := Function.update client.sessions path (some d) } path =
      some (stringField d contentHashKey) :=
  hashAt_of_found (Function.update_self ..)

theorem Client.hashAt_put_of_ne {client : Client α} {path other : Path} {doc : Option (Fields α)}
    (ne : other ≠ path) :
    Client.hashAt { client with sessions := Function.update client.sessions path doc } other =
      client.hashAt other := by
  simp only [hashAt, Function.update_of_ne ne]

section

variable {first : State α} {pushed done rest : List (Fields α)} {client other : Client α}
  {session : Fields α}

/-- A step inside a round, which leaves the cache and the documents alone. -/
theorem PushCall.Repairs.goto (repairs : q.Repairs cfg first pushed client done)
    (entries : other.entries = client.entries) (sessions : other.sessions = client.sessions)
    {phase : PushPhase α} (changed : Nat)
    (holds : ∀ ⦃e session rest⦄, phase = .remember e → q.todo = session :: rest →
      client.hashAt (q.path session) = some (contentHash cfg.digest session))
    (noneLeft : phase = .parent ∨ phase = .returned false → q.todo = []) :
    PushCall.Repairs cfg first pushed other { q with phase, changed } done where
  split := repairs.split
  entries session mem := (congrFun entries _).trans (repairs.entries session mem)
  repaired session mem overdue := by
    rw [Client.hashAt, sessions]
    exact repairs.repaired session mem overdue
  holds e session rest at_ round := by
    rw [Client.hashAt, sessions]
    exact holds at_ round
  noneLeft := noneLeft

/-- The end of a round after which the document of its session is right, if it was
overdue. -/
theorem PushCall.Repairs.advance (repairs : q.Repairs cfg first pushed client done)
    (round : q.todo = session :: rest)
    (entries : ∀ session ∈ rest, other.entries (key (q.path session)) =
      client.entries (key (q.path session)))
    (sessions : other.sessions = client.sessions)
    (right : first.Overdue cfg q.now (q.path session) →
      client.hashAt (q.path session) = some (contentHash cfg.digest session)) :
    PushCall.Repairs cfg first pushed other { q with todo := rest, phase := .lookup }
      (done ++ [session]) where
  split := by rw [repairs.split, round, List.append_assoc, List.singleton_append]
  entries session mem := (entries session mem).trans
    (repairs.entries session (by rw [round]; exact List.mem_cons_of_mem _ mem))
  repaired visited mem overdue := by
    rw [Client.hashAt, sessions]
    rw [List.mem_append, List.mem_singleton] at mem
    rcases mem with mem | rfl
    · exact repairs.repaired visited mem overdue
    · exact right overdue
  holds _ _ _ at_ _ := by cases at_
  noneLeft noneLeft := by rcases noneLeft with noneLeft | noneLeft <;> cases noneLeft

/-- An overdue session is not remembered recently enough. -/
theorem PushCall.Repairs.not_overdue (repairs : q.Repairs cfg first pushed s.client done)
    (log : Log cfg first) (round : q.todo = session :: rest)
    (remembers : s.client.remembers cfg q.pc q.now session = true) :
    ¬ first.Overdue cfg q.now (q.path session) := by
  intro overdue
  obtain ⟨e, entry, -, recent⟩ := Client.remembers_eq_true_iff.mp remembers
  have kept := repairs.entries session (by rw [round]; exact List.mem_cons_self ..)
  have old := overdue _ (log.entries (kept.symm.trans entry)) rfl
  simp only at old
  omega

theorem Effect.repairing {label : Label α} {pc : PCName} {now : Int}
    (effect : Effect cfg s label t) (own : label.call = some r)
    (distinct : (pushed.map sessionKey).Nodup) (log : Log cfg first)
    (repairing : s.Repairing cfg first r pc now pushed) :
    t.Repairing cfg first r pc now pushed := by
  obtain ⟨q, found', rfl, rfl, progress⟩ := repairing
  have moved : ∀ {q' : PushCall α} {client : Client α} {observed : List Observation}
      {held : Path → List (Fields α)}, q'.pc = q.pc → q'.now = q.now →
      (q'.phase = .returned true ∨ ∃ done, q'.Repairs cfg first pushed client done) →
      (State.setRequest ⟨client, s.requests, s.count, observed, held⟩ r (.push q')).Repairing
        cfg first r q.pc q.now pushed :=
    fun pcEq nowEq progress => ⟨_, Function.update_self .., pcEq, nowEq, progress⟩
  -- the call is a push that has not returned
  have going : ∀ {q' : PushCall α}, s.requests r = some (.push q') →
      (∀ failed, q'.phase ≠ .returned failed) →
        q' = q ∧ ∃ done, q.Repairs cfg first pushed s.client done := by
    intro q' found running
    obtain rfl : q' = q := by simpa using found.symm.trans found'
    exact ⟨rfl, progress.resolve_left (running true)⟩
  cases effect with
  | push | deleteSession | deletePC | external => cases own
  | changes found at_ noneLeft | unchanged found at_ noneLeft =>
      cases own
      obtain ⟨rfl, done, repairs⟩ := going found (by simp [at_])
      refine moved rfl rfl (.inr ⟨done, ?_⟩)
      exact repairs.goto (by rfl) (by rfl) _ (by simp) fun _ => noneLeft
  | hit found at_ round remembers =>
      cases own
      obtain ⟨rfl, done, repairs⟩ := going found (by simp [at_])
      have advanced := repairs.advance round (fun _ _ => rfl) rfl fun overdue =>
        absurd overdue (repairs.not_overdue log round remembers)
      rw [← at_] at advanced
      exact moved rfl rfl (.inr ⟨_, advanced⟩)
  | miss found at_ round misses =>
      cases own
      obtain ⟨rfl, done, repairs⟩ := going found (by simp [at_])
      refine moved rfl rfl (.inr ⟨done, ?_⟩)
      exact repairs.goto (by rfl) (by rfl) _ (by simp) (by simp)
  | @verified _ q' session d rest found at_ round doc same =>
      cases own
      obtain ⟨rfl, done, repairs⟩ := going found (by simp [at_])
      refine moved rfl rfl (.inr ⟨done, ?_⟩)
      refine repairs.goto (by rfl) (by rfl) _ ?_ (by simp)
      intro e head tail _ round'
      rw [round, List.cons.injEq] at round'
      obtain ⟨rfl, -⟩ := round'
      rw [Client.hashAt_of_found doc, same]
  | differs found at_ round doc other =>
      cases own
      obtain ⟨rfl, done, repairs⟩ := going found (by simp [at_])
      refine moved rfl rfl (.inr ⟨done, ?_⟩)
      exact repairs.goto (by rfl) (by rfl) _ (by simp) (by simp)
  | absent found at_ round noDoc | getFailed found at_ round =>
      cases own
      obtain ⟨rfl, done, repairs⟩ := going found (by simp [at_])
      refine moved rfl rfl (.inr ⟨done, ?_⟩)
      exact repairs.goto (by rfl) (by rfl) _ (by simp) (by simp)
  | @write _ q' session rest snap stamp outcome found at_ round =>
      cases own
      obtain ⟨rfl, done, repairs⟩ := going found (by simp [at_])
      have apart : ∀ visited ∈ done, q'.path visited ≠ q'.path session := fun visited mem same =>
        key_ne_of_nodup distinct (round ▸ repairs.split) (.inl mem) (Prod.ext_iff.mp same).2
      rw [writeStep]
      split
      · refine moved rfl rfl (.inr ⟨done, repairs.split, repairs.entries, ?_, ?_, ?_⟩)
        · intro visited mem overdue
          exact (Client.hashAt_put_of_ne (apart visited mem)).trans
            (repairs.repaired visited mem overdue)
        · intro e head tail _ round'
          rw [round, List.cons.injEq] at round'
          obtain ⟨rfl, -⟩ := round'
          exact (Client.hashAt_put_self _ _).trans (by rw [stringField_document])
        · split <;> simp
      · rename_i lost
        have failed : outcome ≠ .ok := by
          rintro rfl
          exact lost rfl
        refine moved rfl rfl (.inr ⟨done, ?_⟩)
        exact repairs.goto (by rfl) (by rfl) _ (by simp [failed]) (by simp [failed])
  | @remember _ q' session rest e found at_ round =>
      cases own
      obtain ⟨rfl, done, repairs⟩ := going found (by simp [at_])
      refine moved rfl rfl (.inr ⟨_, repairs.advance round (fun visited mem => ?_) rfl fun _ =>
        repairs.holds at_ round⟩)
      have apart := key_ne_of_nodup distinct (round ▸ repairs.split) (.inr mem)
      exact Function.update_of_ne (key_ne fun same => apart (Prod.ext_iff.mp same).2) ..
  | forget found at_ round =>
      cases own
      obtain ⟨rfl, -⟩ := going found (by simp [at_])
      exact moved rfl rfl (.inl rfl)
  | forgetSession found | forgetPC found | list found | delete _ found | deleteListed _ found
  | parentPC _ _ _ found =>
      cases own
      rw [found] at found'
      cases found'
  | parent stamp applied pcs found at_ =>
      cases own
      obtain ⟨rfl, done, repairs⟩ := going found (by simp [at_])
      refine moved rfl rfl (.inr ⟨done, ?_⟩)
      exact repairs.goto (by rfl) (by rfl) _ (by simp) fun _ => repairs.noneLeft (.inl at_)

end

/-! ## The claim of the code -/

theorem log_opened (cfg : Config α) (pcs : PCName → Option (Fields α))
    (sessions : Path → Option (Fields α)) (clock : Int) : Log cfg (opened pcs sessions clock) where
  entries _ _ entry := by cases entry
  past _ mem := by cases mem
  pushes _ _ found := by cases found

theorem log_always (positive : 0 < cfg.verifyEvery) {pcs : PCName → Option (Fields α)}
    {sessions : Path → Option (Fields α)} {clock : Int} {labels : List (Label α)}
    (sequential : Along (interleave cfg) Sequential (opened pcs sessions clock) labels) :
    Always (interleave cfg) (fun s => Ordered s ∧ Log cfg s) (opened pcs sessions clock) labels :=
  by
  refine always_of_preserved ?_ ⟨ordered_opened .., log_opened ..⟩ sequential
  rintro s label next ⟨ordered, log⟩ met taken
  have effect := effect_of_interleave taken
  exact ⟨effect.ordered ordered, effect.log positive met ordered log⟩

/-- A push that runs alone and returns without an error puts every overdue document
of its list right. -/
theorem Log.repaired (log : Log cfg s) {pc : PCName} {now : Int} {pushed : List (Fields α)}
    (distinct : (pushed.map sessionKey).Nodup) {steps : List (Label α)}
    (alone : ∀ label ∈ steps, label.call = some s.count)
    (run : exec (interleave cfg) s (.push pc now pushed :: steps) = some t)
    (found : t.requests s.count = some (.push q)) (noneLeft : q.phase = .returned false)
    {session : Fields α} (mem : session ∈ pushed)
    (overdue : s.Overdue cfg now (pc, sessionKey session)) :
    t.client.hashAt (pc, sessionKey session) = some (contentHash cfg.digest session) := by
  obtain ⟨begun, taken, rest⟩ := (exec_cons_eq_some_iff ..).mp run
  have start : begun.Repairing cfg s s.count pc now pushed := by
    cases taken
    refine ⟨_, Function.update_self .., rfl, rfl, .inr ⟨[], rfl, fun _ _ => rfl, ?_, ?_, ?_⟩⟩
    · intro visited mem
      cases mem
    · intro e head tail at_
      cases at_
    · rintro (at_ | at_) <;> cases at_
  have always : Always (interleave cfg) (fun next => next.Repairing cfg s s.count pc now pushed)
      begun steps := by
    refine always_of_preserved ?_ start (along_of_forall_mem alone _)
    exact fun _ _ _ repairing own taken =>
      (effect_of_interleave taken).repairing own distinct log repairing
  obtain ⟨q', found', rfl, rfl, progress⟩ := always.last rest
  obtain rfl : q = q' := by simpa using found.symm.trans found'
  obtain ⟨done, repairs⟩ := progress.resolve_left (by simp [noneLeft])
  have all := repairs.split
  rw [repairs.noneLeft (.inr noneLeft), List.append_nil] at all
  exact repairs.repaired session (all ▸ mem) overdue

end

/-- In every run whose pushes come one after another, a push that returns without
an error has seen each of its sessions less than `verifyEvery` ago; and one that
comes `verifyEvery` after the last look at a document puts it right. -/
theorem push_staleness_bounded (cfg : Config α) (positive : 0 < cfg.verifyEvery)
    (pcs : PCName → Option (Fields α)) (sessions : Path → Option (Fields α)) (clock : Int)
    (labels : List (Label α))
    (sequential : Along (interleave cfg) Sequential (opened pcs sessions clock) labels) :
    Always (interleave cfg) (Bounded cfg) (opened pcs sessions clock) labels ∧
      ∀ s, exec (interleave cfg) (opened pcs sessions clock) labels = some s →
        ∀ pc now pushed steps t q, (pushed.map sessionKey).Nodup →
          (∀ label ∈ steps, label.call = some s.count) →
          exec (interleave cfg) s (.push pc now pushed :: steps) = some t →
          t.requests s.count = some (.push q) → q.phase = .returned false →
          ∀ session ∈ pushed, s.Overdue cfg now (pc, sessionKey session) →
            t.client.hashAt (pc, sessionKey session) = some (contentHash cfg.digest session) := by
  have always := log_always positive sequential
  constructor
  · exact always.imp fun _ both => both.2.bounded
  · intro s run pc now pushed steps t q distinct alone call found noneLeft session mem overdue
    exact (always.last run).2.repaired distinct alone call found noneLeft mem overdue

/-- A session is pushed, and another writer deletes its document. -/
def pushedThenDeleted : List (Label Unit) :=
  [.push host 0 [session], .lookup 0, .get 0 true, .write 0 [] .ok, .remember 0, .lookup 0,
    .parent 0 [] true, .external (host, ascii "s1") none]

/-- The rest of a push that finds no document. -/
def recreates : List (Label Unit) :=
  [.lookup 1, .get 1 true, .write 1 [] .ok, .remember 1, .lookup 1, .parent 1 [] true]

/-- The push that comes `verifyEvery` later has the document again. -/
theorem deleted_session_repaired :
    Always (interleave hostConfig) (Bounded hostConfig)
        (opened (fun _ => none) (fun _ => none) 0) pushedThenDeleted ∧
      ∃ s t, exec (interleave hostConfig) (opened (fun _ => none) (fun _ => none) 0)
          pushedThenDeleted = some s ∧
        s.client.hashAt (host, ascii "s1") = none ∧
        exec (interleave hostConfig) s (.push host hostConfig.verifyEvery [session] :: recreates) =
          some t ∧
        t.client.hashAt (host, ascii "s1") = some (contentHash hostConfig.digest session) := by
  obtain ⟨bounded, repaired⟩ := push_staleness_bounded hostConfig (by decide) (fun _ => none)
    (fun _ => none) 0 pushedThenDeleted (by decide)
  refine ⟨bounded, _, _, rfl, by decide, rfl, ?_⟩
  apply repaired _ rfl host hostConfig.verifyEvery [session] recreates _ _ (by decide) (by decide)
    rfl rfl rfl session (List.mem_singleton.mpr rfl)
  rw [State.Overdue]
  decide

end Drover.Push
