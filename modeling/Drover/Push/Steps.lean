import Drover.Push.Cache
import Drover.Store.Documents

/-!
# Pushes and deletes, one operation at a time

The calls of one client as goroutines: a cache access, a Firestore request and
the end of a round are steps of their own, so that a run of the system is an
interleaving of any number of calls.  The label of a step carries what the
environment decides: whether a request fails, whether a failed write has taken
effect, and what other writers do to the documents.

`observed` and `held` are kept for the proofs only: which content hash the client
has seen in which document when, and which documents a path has held.

`Effect` names the branches of a step with their guards; the invariants are proved
by cases on it.
-/

namespace Drover.Push

open Drover.Transition
open Drover.Store (Outcome)

variable {α : Type}

/-- What `ref.Get` brought back. -/
inductive Snapshot (α : Type) where
  | failed
  | absent
  | found (d : Fields α)

/-- The version a push writes after its read. -/
def Snapshot.next : Snapshot α → Int64
  | .found d => int64Field d version + 1
  | .failed | .absent => 1

/-- Program counter of `pushSessions`. -/
inductive PushPhase (α : Type) where
  /-- top of a round, `push.get` is next -/
  | lookup
  /-- `ref.Get` is next -/
  | get
  /-- `ref.Set` is next -/
  | write (snap : Snapshot α)
  /-- `push.set` is next, which ends the round -/
  | remember (e : PushEntry)
  /-- `push.forget` is next, after a failed write -/
  | forget
  /-- the merge into `pcs/{pc}` is next -/
  | parent
  | returned (failed : Bool)

/-- A `pushSessions` call; `todo` are the rounds that are left, the current one
first. -/
structure PushCall (α : Type) where
  pc : PCName
  now : Int
  sessions : List (Fields α)
  todo : List (Fields α)
  changed : Nat := 0
  phase : PushPhase α := .lookup

/-- Program counter of `DeleteSessionFor`. -/
inductive DeletePhase where
  | forget
  | delete
  | returned (failed : Bool)
  deriving DecidableEq

/-- Program counter of `DeletePCByID`; the documents under `slaves` and `wake` that
it deletes as well are not modelled here. -/
inductive DeletePCPhase where
  | forget
  | list
  /-- the documents that the listing returned and that are still to be deleted -/
  | delete (ids : List Bytes)
  | returned
  deriving DecidableEq

/-- A call in progress, or one that has returned. -/
inductive Request (α : Type) where
  | push (q : PushCall α)
  | deleteSession (pc : PCName) (id : Bytes) (phase : DeletePhase)
  | deletePC (pc : PCName) (phase : DeletePCPhase)

/-- The document of `path` had this content hash when the client read or wrote it
at `time`. -/
structure Observation where
  path : Path
  hash : Bytes
  time : Int
  deriving DecidableEq

/-- A client with its calls. -/
structure State (α : Type) where
  client : Client α
  requests : Nat → Option (Request α) := fun _ => none
  count : Nat := 0
  observed : List Observation := []
  held : Path → List (Fields α)

/-- What can happen next. -/
inductive Label (α : Type) where
  | push (pc : PCName) (now : Int) (sessions : List (Fields α))
  | deleteSession (pc : PCName) (id : Bytes)
  | deletePC (pc : PCName)
  | lookup (r : Nat)
  | get (r : Nat) (ok : Bool)
  | write (r : Nat) (stamp : Bytes) (outcome : Outcome)
  | remember (r : Nat)
  | forget (r : Nat)
  | list (r : Nat) (ids : List Bytes)
  | delete (r : Nat) (outcome : Outcome)
  | parent (r : Nat) (stamp : Bytes) (applied : Bool)
  | external (path : Path) (doc : Option (Fields α))

/-- The document and the cache entry of a path agree. -/
def Client.Holds (s : Client α) (path : Path) (e : PushEntry) : Prop :=
  ∃ d ∈ s.sessions path, stringField d contentHashKey = e.hash ∧ int64Field d version = e.version

instance (s : Client α) (path : Path) (e : PushEntry) : Decidable (s.Holds path e) :=
  match found : s.sessions path with
  | none => isFalse (by simp [Client.Holds, found])
  | some d => decidable_of_iff
      (stringField d contentHashKey = e.hash ∧ int64Field d version = e.version)
      (by simp [Client.Holds, found])

/-- The document of the current round. -/
def PushCall.path (q : PushCall α) (session : Fields α) : Path := (q.pc, sessionKey session)

/-- The entry that a push remembers for a version. -/
def PushCall.entry (cfg : Config α) (q : PushCall α) (session : Fields α) (ver : Int64) :
    PushEntry :=
  ⟨contentHash cfg.digest session, ver, q.now⟩

/-- The request has returned. -/
def Request.finished : Request α → Bool
  | .push q => match q.phase with
      | .returned _ => true
      | _ => false
  | .deleteSession _ _ phase => match phase with
      | .returned _ => true
      | _ => false
  | .deletePC _ phase => phase = .returned

namespace State

/-- No call is in flight. -/
def Quiescent (s : State α) : Prop := ∀ r < s.count, ∀ q ∈ s.requests r, q.finished = true

instance (s : State α) : Decidable s.Quiescent := inferInstanceAs (Decidable (∀ r < s.count, _))

/-- Let a call go on. -/
def setRequest (s : State α) (r : Nat) (request : Request α) : State α :=
  { s with requests := Function.update s.requests r (some request) }

/-- The push `r` goes on as `q`. -/
def setPush (s : State α) (r : Nat) (q : PushCall α) : State α := s.setRequest r (.push q)

/-- A call begins. -/
def begin (s : State α) (request : Request α) : State α :=
  { s.setRequest s.count request with count := s.count + 1 }

/-- Replace the document of a path, or remove it. -/
def putDoc (s : State α) (path : Path) (doc : Option (Fields α)) : State α :=
  { s with
    client := { s.client with sessions := Function.update s.client.sessions path doc }
    held := Function.update s.held path (s.held path ++ doc.toList) }

/-- The client has seen the content hash of a document. -/
def observe (s : State α) (path : Path) (d : Fields α) (time : Int) : State α :=
  { s with observed := s.observed ++ [⟨path, stringField d contentHashKey, time⟩] }

/-- `pushSessions` returns. -/
def returnPush (s : State α) (r : Nat) (q : PushCall α) : State α :=
  { s.setPush r { q with phase := .returned false } with
    client := { s.client with returned := q.changed :: s.client.returned } }

end State

/-- A new client on a store. -/
def opened (pcs : PCName → Option (Fields α)) (sessions : Path → Option (Fields α)) (clock : Int) :
    State α where
  client := ⟨fun _ => none, 0, pcs, sessions, clock, []⟩
  held path := (sessions path).toList

/-- The top of a round of `pushSessions`, or the end of the loop. -/
def lookupStep (cfg : Config α) (s : State α) (r : Nat) (q : PushCall α) : State α :=
  match q.todo with
  | [] => if 0 < q.changed then s.setPush r { q with phase := .parent } else s.returnPush r q
  | session :: rest =>
      if s.client.remembers cfg q.pc q.now session then s.setPush r { q with todo := rest }
      else s.setPush r { q with phase := .get }

/-- `ref.Get` and the comparison of the hashes. -/
def getStep (cfg : Config α) (s : State α) (r : Nat) (q : PushCall α) (session : Fields α)
    (ok : Bool) : State α :=
  let s := { s with client := { s.client with gets := s.client.gets + 1 } }
  let changed := { q with changed := q.changed + 1 }
  if ok then
    match s.client.sessions (q.path session) with
    | some d =>
        let s := s.observe (q.path session) d q.now
        if stringField d contentHashKey = contentHash cfg.digest session then
          s.setPush r { q with phase := .remember (q.entry cfg session (int64Field d version)) }
        else s.setPush r { changed with phase := .write (.found d) }
    | none => s.setPush r { changed with phase := .write .absent }
  else s.setPush r { changed with phase := .write .failed }

/-- `ref.Set`. -/
def writeStep (cfg : Config α) (s : State α) (r : Nat) (q : PushCall α) (session : Fields α)
    (snap : Snapshot α) (stamp : Bytes) (outcome : Outcome) : State α :=
  let doc := document session snap.next (contentHash cfg.digest session) stamp
  let s :=
    if outcome.applied then
      (s.putDoc (q.path session) (some doc)).observe (q.path session) doc q.now
    else s
  s.setPush r { q with
    phase := if outcome = .ok then .remember (q.entry cfg session snap.next) else .forget }

/-- One step of the client or of another writer; `none` when the labelled
operation is not the next one of that call. -/
def interleave (cfg : Config α) : Step (State α) (Label α)
  | s, .push pc now sessions =>
      some { s.begin (.push { pc, now, sessions, todo := sessions }) with
        client := { s.client with clock := now } }
  | s, .deleteSession pc id =>
      some (s.begin (.deleteSession pc id (if id = [] then .returned false else .forget)))
  | s, .deletePC pc => some (s.begin (.deletePC pc .forget))
  | s, .lookup r =>
      match s.requests r with
      | some (.push q) =>
          match q.phase with
          | .lookup => some (lookupStep cfg s r q)
          | _ => none
      | _ => none
  | s, .get r ok =>
      match s.requests r with
      | some (.push q) =>
          match q.phase, q.todo with
          | .get, session :: _ => some (getStep cfg s r q session ok)
          | _, _ => none
      | _ => none
  | s, .write r stamp outcome =>
      match s.requests r with
      | some (.push q) =>
          match q.phase, q.todo with
          | .write snap, session :: _ => some (writeStep cfg s r q session snap stamp outcome)
          | _, _ => none
      | _ => none
  | s, .remember r =>
      match s.requests r with
      | some (.push q) =>
          match q.phase, q.todo with
          | .remember e, session :: rest =>
              some ({ s with client := s.client.set (key (q.path session)) e }.setPush r
                { q with todo := rest, phase := .lookup })
          | _, _ => none
      | _ => none
  | s, .forget r =>
      match s.requests r with
      | some (.push q) =>
          match q.phase, q.todo with
          | .forget, session :: _ =>
              some ({ s with client := s.client.forget (key (q.path session)) }.setPush r
                { q with phase := .returned true })
          | _, _ => none
      | some (.deleteSession pc id .forget) =>
          some ({ s with client := s.client.forget (key (pc, id)) }.setRequest r
            (.deleteSession pc id .delete))
      | some (.deletePC pc .forget) =>
          some ({ s with client := s.client.forgetPC pc.text }.setRequest r
            (.deletePC pc (if pc.text = [] then .returned else .list)))
      | _ => none
  | s, .list r ids =>
      match s.requests r with
      | some (.deletePC pc .list) =>
          if ∀ id ∈ ids, (s.client.sessions (pc, id)).isSome = true then
            some (s.setRequest r (.deletePC pc (.delete ids)))
          else none
      | _ => none
  | s, .delete r outcome =>
      match s.requests r with
      | some (.deleteSession pc id .delete) =>
          let s := if outcome.applied then s.putDoc (pc, id) none else s
          some (s.setRequest r (.deleteSession pc id (.returned (outcome != .ok))))
      | some (.deletePC pc (.delete (id :: rest))) =>
          let s := if outcome.applied then s.putDoc (pc, id) none else s
          some (s.setRequest r (.deletePC pc (.delete rest)))
      | _ => none
  | s, .parent r stamp applied =>
      match s.requests r with
      | some (.push q) =>
          match q.phase with
          | .parent =>
              let pcs :=
                if applied then
                  Function.update s.client.pcs q.pc (some (parent q.pc stamp (s.client.pcs q.pc)))
                else s.client.pcs
              some ({ s with client := { s.client with pcs } }.returnPush r q)
          | _ => none
      | some (.deletePC pc (.delete [])) =>
          let pcs := if applied then Function.update s.client.pcs pc none else s.client.pcs
          some ({ s with client := { s.client with pcs } }.setRequest r (.deletePC pc .returned))
      | _ => none
  | s, .external path doc => some (s.putDoc path doc)

/-! ## Inversion of the step function -/

/-- The branches of `interleave`.  `session` is the session of the current round. -/
inductive Effect (cfg : Config α) (s : State α) : Label α → State α → Prop
  | push (pc : PCName) (now : Int) (sessions : List (Fields α)) :
      Effect cfg s (.push pc now sessions)
        { s.begin (.push { pc, now, sessions, todo := sessions }) with
          client := { s.client with clock := now } }
  | deleteSession (pc : PCName) (id : Bytes) :
      Effect cfg s (.deleteSession pc id)
        (s.begin (.deleteSession pc id (if id = [] then .returned false else .forget)))
  | deletePC (pc : PCName) : Effect cfg s (.deletePC pc) (s.begin (.deletePC pc .forget))
  | changes {r : Nat} {q : PushCall α} (found : s.requests r = some (.push q))
      (at_ : q.phase = .lookup) (noneLeft : q.todo = []) :
      Effect cfg s (.lookup r) (s.setPush r { q with phase := .parent })
  | unchanged {r : Nat} {q : PushCall α} (found : s.requests r = some (.push q))
      (at_ : q.phase = .lookup) (noneLeft : q.todo = []) :
      Effect cfg s (.lookup r) (s.returnPush r q)
  | hit {r : Nat} {q : PushCall α} {session : Fields α} {rest : List (Fields α)}
      (found : s.requests r = some (.push q)) (at_ : q.phase = .lookup)
      (round : q.todo = session :: rest)
      (remembers : s.client.remembers cfg q.pc q.now session = true) :
      Effect cfg s (.lookup r) (s.setPush r { q with todo := rest })
  | miss {r : Nat} {q : PushCall α} {session : Fields α} {rest : List (Fields α)}
      (found : s.requests r = some (.push q)) (at_ : q.phase = .lookup)
      (round : q.todo = session :: rest)
      (misses : s.client.remembers cfg q.pc q.now session = false) :
      Effect cfg s (.lookup r) (s.setPush r { q with phase := .get })
  | verified {r : Nat} {q : PushCall α} {session d : Fields α} {rest : List (Fields α)}
      (found : s.requests r = some (.push q)) (at_ : q.phase = .get)
      (round : q.todo = session :: rest) (doc : s.client.sessions (q.path session) = some d)
      (same : stringField d contentHashKey = contentHash cfg.digest session) :
      Effect cfg s (.get r true)
        (({ s with client := { s.client with gets := s.client.gets + 1 } }.observe
          (q.path session) d q.now).setPush r
          { q with phase := .remember (q.entry cfg session (int64Field d version)) })
  | differs {r : Nat} {q : PushCall α} {session d : Fields α} {rest : List (Fields α)}
      (found : s.requests r = some (.push q)) (at_ : q.phase = .get)
      (round : q.todo = session :: rest) (doc : s.client.sessions (q.path session) = some d)
      (other : stringField d contentHashKey ≠ contentHash cfg.digest session) :
      Effect cfg s (.get r true)
        (({ s with client := { s.client with gets := s.client.gets + 1 } }.observe
          (q.path session) d q.now).setPush r
          { q with changed := q.changed + 1, phase := .write (.found d) })
  | absent {r : Nat} {q : PushCall α} {session : Fields α} {rest : List (Fields α)}
      (found : s.requests r = some (.push q)) (at_ : q.phase = .get)
      (round : q.todo = session :: rest) (noDoc : s.client.sessions (q.path session) = none) :
      Effect cfg s (.get r true)
        ({ s with client := { s.client with gets := s.client.gets + 1 } }.setPush r
          { q with changed := q.changed + 1, phase := .write .absent })
  | getFailed {r : Nat} {q : PushCall α} {session : Fields α} {rest : List (Fields α)}
      (found : s.requests r = some (.push q)) (at_ : q.phase = .get)
      (round : q.todo = session :: rest) :
      Effect cfg s (.get r false)
        ({ s with client := { s.client with gets := s.client.gets + 1 } }.setPush r
          { q with changed := q.changed + 1, phase := .write .failed })
  | write {r : Nat} {q : PushCall α} {session : Fields α} {rest : List (Fields α)}
      {snap : Snapshot α} (stamp : Bytes) (outcome : Outcome)
      (found : s.requests r = some (.push q)) (at_ : q.phase = .write snap)
      (round : q.todo = session :: rest) :
      Effect cfg s (.write r stamp outcome) (writeStep cfg s r q session snap stamp outcome)
  | remember {r : Nat} {q : PushCall α} {session : Fields α} {rest : List (Fields α)}
      {e : PushEntry} (found : s.requests r = some (.push q)) (at_ : q.phase = .remember e)
      (round : q.todo = session :: rest) :
      Effect cfg s (.remember r)
        ({ s with client := s.client.set (key (q.path session)) e }.setPush r
          { q with todo := rest, phase := .lookup })
  | forget {r : Nat} {q : PushCall α} {session : Fields α} {rest : List (Fields α)}
      (found : s.requests r = some (.push q)) (at_ : q.phase = .forget)
      (round : q.todo = session :: rest) :
      Effect cfg s (.forget r)
        ({ s with client := s.client.forget (key (q.path session)) }.setPush r
          { q with phase := .returned true })
  | forgetSession {r : Nat} {pc : PCName} {id : Bytes}
      (found : s.requests r = some (.deleteSession pc id .forget)) :
      Effect cfg s (.forget r)
        ({ s with client := s.client.forget (key (pc, id)) }.setRequest r
          (.deleteSession pc id .delete))
  | forgetPC {r : Nat} {pc : PCName} (found : s.requests r = some (.deletePC pc .forget)) :
      Effect cfg s (.forget r)
        ({ s with client := s.client.forgetPC pc.text }.setRequest r
          (.deletePC pc (if pc.text = [] then .returned else .list)))
  | list {r : Nat} {pc : PCName} {ids : List Bytes}
      (found : s.requests r = some (.deletePC pc .list)) :
      Effect cfg s (.list r ids) (s.setRequest r (.deletePC pc (.delete ids)))
  | delete {r : Nat} {pc : PCName} {id : Bytes} (outcome : Outcome)
      (found : s.requests r = some (.deleteSession pc id .delete)) :
      Effect cfg s (.delete r outcome)
        ((if outcome.applied then s.putDoc (pc, id) none else s).setRequest r
          (.deleteSession pc id (.returned (outcome != .ok))))
  | deleteListed {r : Nat} {pc : PCName} {id : Bytes} {rest : List Bytes} (outcome : Outcome)
      (found : s.requests r = some (.deletePC pc (.delete (id :: rest)))) :
      Effect cfg s (.delete r outcome)
        ((if outcome.applied then s.putDoc (pc, id) none else s).setRequest r
          (.deletePC pc (.delete rest)))
  | parent {r : Nat} {q : PushCall α} (stamp : Bytes) (applied : Bool)
      (pcs : PCName → Option (Fields α)) (found : s.requests r = some (.push q))
      (at_ : q.phase = .parent) :
      Effect cfg s (.parent r stamp applied)
        ({ s with client := { s.client with pcs } }.returnPush r q)
  | parentPC {r : Nat} {pc : PCName} (stamp : Bytes) (applied : Bool)
      (pcs : PCName → Option (Fields α))
      (found : s.requests r = some (.deletePC pc (.delete []))) :
      Effect cfg s (.parent r stamp applied)
        ({ s with client := { s.client with pcs } }.setRequest r (.deletePC pc .returned))
  | external (path : Path) (doc : Option (Fields α)) :
      Effect cfg s (.external path doc) (s.putDoc path doc)

theorem effect_of_interleave {cfg : Config α} {s next : State α} {label : Label α}
    (taken : interleave cfg s label = some next) : Effect cfg s label next := by
  cases label with
  | push pc now sessions =>
      cases taken
      exact .push pc now sessions
  | deleteSession pc id =>
      cases taken
      exact .deleteSession pc id
  | deletePC pc =>
      cases taken
      exact .deletePC pc
  | lookup r =>
      simp only [interleave] at taken
      split at taken
      case h_1 q found =>
        split at taken
        case h_1 at_ =>
          cases taken
          rw [lookupStep]
          split
          case h_1 noneLeft =>
            split
            · exact .changes found at_ noneLeft
            · exact .unchanged found at_ noneLeft
          case h_2 session rest round =>
            split
            case isTrue remembers => exact .hit found at_ round remembers
            case isFalse misses => exact .miss found at_ round (by simpa using misses)
        case h_2 => cases taken
      case h_2 => cases taken
  | get r ok =>
      simp only [interleave] at taken
      split at taken
      case h_1 q found =>
        split at taken
        case h_1 session rest at_ round =>
          cases taken
          rw [getStep]
          cases ok with
          | false => exact .getFailed found at_ round
          | true =>
              simp only [if_true]
              split
              case h_1 d doc =>
                split
                case isTrue same => exact .verified found at_ round doc same
                case isFalse other => exact .differs found at_ round doc other
              case h_2 noDoc => exact .absent found at_ round noDoc
        case h_2 => cases taken
      case h_2 => cases taken
  | write r stamp outcome =>
      simp only [interleave] at taken
      split at taken
      case h_1 q found =>
        split at taken
        case h_1 snap session rest at_ round =>
          cases taken
          exact .write stamp outcome found at_ round
        case h_2 => cases taken
      case h_2 => cases taken
  | remember r =>
      simp only [interleave] at taken
      split at taken
      case h_1 q found =>
        split at taken
        case h_1 e session rest at_ round =>
          cases taken
          exact .remember found at_ round
        case h_2 => cases taken
      case h_2 => cases taken
  | forget r =>
      simp only [interleave] at taken
      split at taken
      case h_1 q found =>
        split at taken
        case h_1 session rest at_ round =>
          cases taken
          exact .forget found at_ round
        case h_2 => cases taken
      case h_2 pc id found =>
        cases taken
        exact .forgetSession found
      case h_3 pc found =>
        cases taken
        exact .forgetPC found
      case h_4 => cases taken
  | list r ids =>
      simp only [interleave] at taken
      split at taken
      case h_1 pc found =>
        split at taken
        · cases taken
          exact .list found
        · cases taken
      case h_2 => cases taken
  | delete r outcome =>
      simp only [interleave] at taken
      split at taken
      case h_1 pc id found =>
        cases taken
        exact .delete outcome found
      case h_2 pc id rest found =>
        cases taken
        exact .deleteListed outcome found
      case h_3 => cases taken
  | parent r stamp applied =>
      simp only [interleave] at taken
      split at taken
      case h_1 q found =>
        split at taken
        case h_1 at_ =>
          cases taken
          exact .parent stamp applied _ found at_
        case h_2 => cases taken
      case h_2 pc found =>
        cases taken
        exact .parentPC stamp applied _ found
      case h_3 => cases taken
  | external path doc =>
      cases taken
      exact .external path doc

/-! ## Order -/

/-- Entries belong to paths, and calls are numbered in the order they begin. -/
structure Ordered (s : State α) : Prop where
  keyed : ∀ k e, s.client.entries k = some e → ∃ path, key path = k
  numbered : ∀ r q, s.requests r = some q → r < s.count

theorem Ordered.setRequest {s b : State α} {r : Nat} (ordered : Ordered s)
    (bound : r < b.count) (requests : b.requests = s.requests) (count : s.count ≤ b.count)
    (keyed : ∀ k e, b.client.entries k = some e → ∃ path, key path = k)
    (request : Request α) : Ordered (b.setRequest r request) where
  keyed := keyed
  numbered r' q found := by
    by_cases same : r' = r
    · exact same ▸ bound
    · simp only [State.setRequest, Function.update_of_ne same, requests] at found
      exact Nat.lt_of_lt_of_le (ordered.numbered r' q found) count

theorem Effect.ordered {cfg : Config α} {s next : State α} {label : Label α}
    (effect : Effect cfg s label next) (ordered : Ordered s) : Ordered next := by
  have going : ∀ {r q} {client : Client α} {observed held} (request : Request α),
      s.requests r = some q →
      (∀ k e, client.entries k = some e → s.client.entries k = some e) →
        Ordered (State.setRequest ⟨client, s.requests, s.count, observed, held⟩ r request) := by
    intro r q client observed held request found kept
    exact ordered.setRequest (b := ⟨client, s.requests, s.count, observed, held⟩)
      (ordered.numbered _ _ found) rfl (Nat.le_refl _)
      (fun k e entry => ordered.keyed k e (kept k e entry)) request
  cases effect with
  | push pc now sessions =>
      exact ordered.setRequest (b := { s with
        client := { s.client with clock := now }, count := s.count + 1 }) (Nat.lt_succ_self _) rfl
          (Nat.le_succ _) ordered.keyed _
  | deleteSession pc session =>
      exact ordered.setRequest (b := { s with count := s.count + 1 }) (Nat.lt_succ_self _) rfl
        (Nat.le_succ _) ordered.keyed _
  | deletePC pc =>
      exact ordered.setRequest (b := { s with count := s.count + 1 }) (Nat.lt_succ_self _) rfl
        (Nat.le_succ _) ordered.keyed _
  | changes found | hit found | miss found | unchanged found | verified found | differs found
  | absent found | getFailed found | list found | parent _ _ _ found | parentPC _ _ _ found =>
      exact going _ found fun _ _ => id
  | write stamp outcome found =>
      rw [writeStep]
      split <;> exact going _ found fun _ _ => id
  | @remember r q session rest e found at_ round =>
      refine ordered.setRequest (b := { s with client := s.client.set _ e })
        (ordered.numbered _ _ found) rfl (Nat.le_refl _) (fun k e' entry => ?_) _
      by_cases same : k = key (q.path session)
      · exact ⟨_, same.symm⟩
      · simp only [Client.set, Function.update_of_ne same] at entry
        exact ordered.keyed k e' entry
  | forget found | forgetSession found => exact going _ found fun _ _ => Client.entries_of_forget
  | forgetPC found => exact going _ found fun _ _ => Client.entries_of_forgetPC
  | delete outcome found | deleteListed outcome found =>
      split <;> exact going _ found fun _ _ => id
  | external path doc => exact ⟨ordered.keyed, ordered.numbered⟩

theorem ordered_opened (pcs : PCName → Option (Fields α)) (sessions : Path → Option (Fields α))
    (clock : Int) : Ordered (opened pcs sessions clock) where
  keyed _ _ entry := by cases entry
  numbered _ _ found := by cases found

end Drover.Push
