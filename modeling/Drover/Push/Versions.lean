import Drover.Protocol.Versioned
import Drover.Push.Steps
import Drover.Push.Transparent
import Mathlib.Data.Int.Order.Basic

/-!
# The versions of a session document

A reader of a session document relies on its version to notice changes.  The
version that a push writes is computed from the read before it, and a read that
fails counts as one that found nothing: the push then writes version 1 over the
document that is there.  Apart from the end of the `int64` range this is the only
way for a version to go back or to hide a change.
-/

namespace Drover.Push

open Drover.Transition
open Drover.Protocol
open Drover.Store (Outcome)

variable {α : Type}

/-- What `contentHash` digests: the fields other than these three. -/
def content (m : Fields α) : Fields α :=
  fun k => if k = version ∨ k = updatedAt ∨ k = contentHashKey then none else m k

/-- The stored version. -/
def ver (d : Fields α) : Int := (int64Field d version).toInt

/-- Every session document has gone forward. -/
def VersionsForward (s : State α) : Prop := ∀ path, Forward ver content (s.held path)

/-- A document as a push leaves it. -/
structure Written (cfg : Config α) (d : Fields α) : Prop where
  hashed : stringField d contentHashKey = contentHash cfg.digest d
  positive : 1 ≤ ver d

/-- There are only pushes, one after another. -/
def PushesOnly (s : State α) : Label α → Prop
  | .push _ _ _ => s.Quiescent
  | .deleteSession _ _ | .deletePC _ | .external _ _ => False
  | _ => True

/-- Writing the session over `d` after this read keeps the versions going forward. -/
def Snapshot.Keeps (session d : Fields α) : Snapshot α → Prop
  | .failed => content d = content session ∧ ver d = 1
  | .absent => True
  | .found _ => int64Field d version ≠ Int64.maxValue

/-- No write takes effect on a document whose read has failed, except one that
changes nothing in version 1, nor on a document with the last version there is. -/
def Keeps (s : State α) : Label α → Prop
  | .write r _ outcome => outcome.applied = true → ∀ q snap session rest d,
      s.requests r = some (.push q) → q.phase = .write snap → q.todo = session :: rest →
        s.client.sessions (q.path session) = some d → snap.Keeps session d
  | _ => True

instance (s : State α) : (label : Label α) → Decidable (PushesOnly s label)
  | .push _ _ _ => inferInstanceAs (Decidable s.Quiescent)
  | .deleteSession _ _ | .deletePC _ | .external _ _ => isFalse id
  | .lookup _ | .get _ _ | .write _ _ _ | .remember _ | .forget _ | .list _ _ | .delete _ _
  | .parent _ _ _ => isTrue trivial

/-! ## Documents -/

theorem content_document (session : Fields α) (v : Int64) (hash stamp : Bytes) :
    content (document session v hash stamp) = content session := by
  funext k
  by_cases meta_ : k = version ∨ k = updatedAt ∨ k = contentHashKey
  · simp only [content, if_pos meta_]
  · simp only [content, if_neg meta_]
    rw [not_or, not_or] at meta_
    simp [document, Function.update_of_ne meta_.1, Function.update_of_ne meta_.2.1,
      Function.update_of_ne meta_.2.2]

theorem ver_document (session : Fields α) (v : Int64) (hash stamp : Bytes) :
    ver (document session v hash stamp) = v.toInt := by
  rw [ver, int64Field_document]

theorem contentHash_eq (digest : Fields α → Bytes) (m : Fields α) :
    contentHash digest m = digest (content m) := rfl

theorem toInt_lt_succ_iff (v : Int64) : v.toInt < (v + 1).toInt ↔ v ≠ Int64.maxValue := by
  have low := v.le_toInt
  have high := v.toInt_lt
  have one : (1 : Int64).toInt = 1 := by decide
  have top : Int64.maxValue.toInt = 2 ^ 63 - 1 := by decide
  rw [ne_eq, ← Int64.toInt_inj, Int64.toInt_add, one, top]
  constructor
  · intro grows eq
    rw [eq] at grows
    exact absurd grows (by decide)
  · intro ne
    rw [Int.bmod_eq_of_le (by omega) (by omega)]
    omega

/-! ## One writer -/

/-- The read of a push still describes the document. -/
def Snapshot.Current (cfg : Config α) (s : State α) (path : Path) (session : Fields α) :
    Snapshot α → Prop
  | .failed => True
  | .absent => s.client.sessions path = none
  | .found d => s.client.sessions path = some d ∧
      stringField d contentHashKey ≠ contentHash cfg.digest session

/-- The documents are the last ones their paths have held, as pushes leave them. -/
structure Documents (cfg : Config α) (s : State α) : Prop where
  held : ∀ path, (s.held path).getLast? = s.client.sessions path
  hashed : ∀ ⦃path d⦄, s.client.sessions path = some d →
    stringField d contentHashKey = contentHash cfg.digest d
  first : ∀ ⦃path d⦄, (s.held path).head? = some d → 1 ≤ ver d

/-- While pushes come one after another, what a push has read stays true. -/
structure OneWriter (cfg : Config α) (s : State α) : Prop where
  ordered : Ordered s
  docs : Documents cfg s
  pushes : ∀ ⦃r request⦄, s.requests r = some request → ∃ q, request = .push q
  alone : ∀ ⦃r request r' request'⦄, s.requests r = some request → request.finished = false →
    s.requests r' = some request' → request'.finished = false → r = r'
  current : ∀ ⦃r q snap session rest⦄, s.requests r = some (.push q) → q.phase = .write snap →
    q.todo = session :: rest → snap.Current cfg s (q.path session) session

section

variable {cfg : Config α} {s b t : State α} {q q' : PushCall α} {r : Nat}

theorem Documents.congr (docs : Documents cfg s) (held : b.held = s.held)
    (sessions : b.client.sessions = s.client.sessions) : Documents cfg b where
  held path := by
    rw [held, sessions]
    exact docs.held path
  hashed path d found := docs.hashed (sessions ▸ found)
  first path d head := docs.first (held ▸ head)

/-- What a push writes over what it has read. -/
theorem Documents.write (docs : Documents cfg s) {path : Path} {session : Fields α}
    {snap : Snapshot α} (current : snap.Current cfg s path session) (stamp : Bytes) :
    Documents cfg (s.putDoc path
      (some (document session snap.next (contentHash cfg.digest session) stamp))) where
  held other := by
    by_cases same : other = path
    · subst same
      simp [State.putDoc]
    · simpa [State.putDoc, Function.update_of_ne same] using docs.held other
  hashed other d found := by
    by_cases same : other = path
    · subst same
      simp only [State.putDoc, Function.update_self, Option.some.injEq] at found
      rw [← found, stringField_document, contentHash_eq, contentHash_eq, content_document]
    · simp only [State.putDoc, Function.update_of_ne same] at found
      exact docs.hashed found
  first other d head := by
    by_cases same : other = path
    · subst same
      simp only [State.putDoc, Function.update_self, Option.toList_some] at head
      cases before : s.held other with
      | cons oldest rest =>
          rw [before, List.cons_append, List.head?_cons] at head
          apply docs.first
          rw [before, List.head?_cons]
          exact head
      | nil =>
          rw [before, List.nil_append, List.head?_cons, Option.some.injEq] at head
          rw [← head, ver_document]
          cases snap with
          | failed | absent =>
              change 1 ≤ (1 : Int64).toInt
              decide
          | found d =>
              have latest := docs.held other
              rw [before, current.1] at latest
              cases latest
    · simp only [State.putDoc, Function.update_of_ne same] at head
      exact docs.first head

/-- A push takes a step while all others have finished. -/
theorem OneWriter.setPush (one : OneWriter cfg s) (ordered : Ordered (b.setPush r q'))
    (requests : b.requests = s.requests) (docs : Documents cfg b)
    (others : ∀ r' request, r' ≠ r → s.requests r' = some request → request.finished = true)
    (current : ∀ ⦃snap session rest⦄, q'.phase = .write snap → q'.todo = session :: rest →
      snap.Current cfg b (q'.path session) session) : OneWriter cfg (b.setPush r q') := by
  have found_cases : ∀ {r' request}, (b.setPush r q').requests r' = some request →
      (r' = r ∧ request = .push q') ∨ (r' ≠ r ∧ s.requests r' = some request) := by
    intro r' request found
    by_cases same : r' = r
    · subst same
      simp only [State.setPush, State.setRequest, Function.update_self, Option.some.injEq] at found
      exact .inl ⟨rfl, found.symm⟩
    · simp only [State.setPush, State.setRequest, Function.update_of_ne same, requests] at found
      exact .inr ⟨same, found⟩
  have busy : ∀ {r' request}, (b.setPush r q').requests r' = some request →
      request.finished = false → r' = r := by
    intro r' request found unfinished
    rcases found_cases found with ⟨same, -⟩ | ⟨ne, before⟩
    · exact same
    · rw [others r' request ne before] at unfinished
      cases unfinished
  constructor
  case ordered => exact ordered
  case docs => exact docs.congr rfl rfl
  case pushes =>
    intro r' request found
    rcases found_cases found with ⟨-, rfl⟩ | ⟨-, before⟩
    · exact ⟨q', rfl⟩
    · exact one.pushes before
  case alone =>
    intro r₁ first r₂ second found unfinished found' unfinished'
    exact (busy found unfinished).trans (busy found' unfinished').symm
  case current =>
    intro r' q'' snap session rest found at_ round
    rcases found_cases found with ⟨-, eq⟩ | ⟨ne, before⟩
    · cases eq
      exact current at_ round
    · have noneLeft := others r' _ ne before
      simp [Request.finished, at_] at noneLeft

/-- The others have finished while one push has not. -/
theorem OneWriter.others (one : OneWriter cfg s) (found : s.requests r = some (.push q))
    (going : ∀ failed, q.phase ≠ .returned failed) :
    ∀ r' request, r' ≠ r → s.requests r' = some request → request.finished = true := by
  intro r' request ne found'
  have unfinished : (Request.push q).finished = false := by
    cases at_ : q.phase with
    | returned failed => exact absurd at_ (going failed)
    | _ => simp [Request.finished, at_]
  by_contra busy
  rw [Bool.not_eq_true] at busy
  exact ne (one.alone found' busy found unfinished)

theorem Effect.oneWriter {label : Label α} (effect : Effect cfg s label t)
    (only : PushesOnly s label) (one : OneWriter cfg s) : OneWriter cfg t := by
  have ordered := effect.ordered one.ordered
  cases effect with
  | push pc now sessions =>
      refine one.setPush (b := { s with
        client := { s.client with clock := now }, count := s.count + 1 }) ordered rfl
          (one.docs.congr rfl rfl) ?_ ?_
      · intro r request _ found
        exact only r (one.ordered.numbered r request found) request found
      · intro snap session rest at_
        cases at_
  | deleteSession | deletePC | external => exact only.elim
  | changes found at_ noneLeft | hit found at_ round remembers | miss found at_ round misses =>
      exact one.setPush ordered rfl one.docs (one.others found (by simp [at_])) (by simp [at_])
  | @unchanged r q found at_ noneLeft =>
      exact one.setPush (b := { s with client :=
        { s.client with returned := q.changed :: s.client.returned } }) ordered rfl
          (one.docs.congr rfl rfl) (one.others found (by simp [at_])) (by simp)
  | @verified r q session d rest found at_ round doc same =>
      exact one.setPush (b := { s with
        client := { s.client with gets := s.client.gets + 1 },
        observed := s.observed ++ [⟨q.path session, stringField d contentHashKey, q.now⟩] }) ordered
          rfl (one.docs.congr rfl rfl) (one.others found (by simp [at_])) (by simp)
  | @differs r q session d rest found at_ round doc other =>
      refine one.setPush (b := { s with
        client := { s.client with gets := s.client.gets + 1 },
        observed := s.observed ++ [⟨q.path session, stringField d contentHashKey, q.now⟩] }) ordered
          rfl (one.docs.congr rfl rfl) (one.others found (by simp [at_])) ?_
      intro snap head tail eq round'
      cases eq
      rw [round, List.cons.injEq] at round'
      obtain ⟨rfl, -⟩ := round'
      exact ⟨doc, other⟩
  | @absent r q session rest found at_ round noDoc =>
      refine one.setPush (b := { s with client := { s.client with gets := s.client.gets + 1 } })
        ordered rfl (one.docs.congr rfl rfl) (one.others found (by simp [at_])) ?_
      intro snap head tail eq round'
      cases eq
      rw [round, List.cons.injEq] at round'
      obtain ⟨rfl, -⟩ := round'
      exact noDoc
  | getFailed found at_ round =>
      refine one.setPush (b := { s with client := { s.client with gets := s.client.gets + 1 } })
        ordered rfl (one.docs.congr rfl rfl) (one.others found (by simp [at_])) ?_
      intro snap head tail eq round'
      cases eq
      trivial
  | @write r q session rest snap stamp outcome found at_ round =>
      have others := one.others found (by simp [at_])
      rw [writeStep] at ordered ⊢
      split at ordered
      · rename_i applied
        rw [if_pos applied]
        refine one.setPush ordered rfl ?_ others ?_
        · exact (one.docs.write (one.current found at_ round) stamp).congr rfl rfl
        · intro snap' head tail eq
          split at eq <;> cases eq
      · rename_i lost
        rw [if_neg lost]
        apply one.setPush ordered rfl one.docs others
        intro snap' head tail eq
        split at eq <;> cases eq
  | @remember r q session rest e found at_ round =>
      exact one.setPush (b := { s with client := s.client.set (key (q.path session)) e })
        ordered rfl
        (one.docs.congr rfl rfl) (one.others found (by simp [at_])) (by simp)
  | @forget r q session rest found at_ round =>
      exact one.setPush (b := { s with client := s.client.forget (key (q.path session)) }) ordered
        rfl (one.docs.congr rfl rfl) (one.others found (by simp [at_])) (by simp)
  | forgetSession found | forgetPC found | list found | delete _ found | deleteListed _ found
  | parentPC _ _ _ found =>
      obtain ⟨q, eq⟩ := one.pushes found
      cases eq
  | @parent r q stamp applied pcs found at_ =>
      exact one.setPush (b := { s with client :=
        { s.client with pcs, returned := q.changed :: s.client.returned } }) ordered rfl
          (one.docs.congr rfl rfl) (one.others found (by simp [at_])) (by simp)

/-! ## One write -/

theorem OneWriter.positive (one : OneWriter cfg s) (forward : VersionsForward s) {path : Path}
    {d : Fields α} (found : s.client.sessions path = some d) : 1 ≤ ver d := by
  have latest := one.docs.held path
  rw [found] at latest
  cases history : s.held path with
  | nil =>
      rw [history] at latest
      cases latest
  | cons oldest rest =>
      have start : 1 ≤ ver oldest := @Documents.first _ _ _ one.docs path oldest
        (by rw [history, List.head?_cons])
      rw [history] at latest
      have mem := List.mem_of_getLast? latest
      rcases List.mem_cons.mp mem with rfl | later
      · exact start
      · have mono := (forward path).mono
        rw [history, List.pairwise_cons] at mono
        exact Int.le_trans start (mono.1 d later)

/-- Writing over a document keeps the history going forward exactly as the read
before allows. -/
theorem OneWriter.forward_write_iff (one : OneWriter cfg s) (forward : VersionsForward s)
    {path : Path} {session d : Fields α} {snap : Snapshot α}
    (current : snap.Current cfg s path session) (found : s.client.sessions path = some d)
    (hash stamp : Bytes) :
    Forward ver content (s.held path ++ [document session snap.next hash stamp]) ↔
      snap.Keeps session d := by
  have latest := one.docs.held path
  rw [found] at latest
  rw [(forward path).append_iff latest, content_document, ver_document]
  have positive := one.positive forward found
  cases snap with
  | failed =>
      have next : (Snapshot.failed : Snapshot α).next.toInt = 1 := rfl
      rw [next]
      constructor
      · rintro (kept | ⟨-, grows⟩)
        · exact kept
        · exact absurd grows (Int.not_lt.mpr positive)
      · exact .inl
  | absent =>
      have gone : s.client.sessions path = none := current
      rw [found] at gone
      cases gone
  | found d' =>
      obtain ⟨found', differs⟩ := current
      obtain rfl : d = d' := Option.some.inj (found.symm.trans found')
      have other : content d ≠ content session := by
        intro same
        rw [one.docs.hashed found, contentHash_eq, contentHash_eq, same] at differs
        exact differs rfl
      have grows := toInt_lt_succ_iff (int64Field d version)
      constructor
      · rintro (⟨same, -⟩ | ⟨-, less⟩)
        · exact absurd same other
        · exact grows.mp less
      · exact fun kept => .inr ⟨other, grows.mpr kept⟩

theorem VersionsForward.congr (forward : VersionsForward s) (held : t.held = s.held) :
    VersionsForward t := by
  rw [VersionsForward, held]
  exact forward

/-- One step keeps the versions going forward exactly if it keeps them. -/
theorem Effect.versionsForward_iff {label : Label α} (effect : Effect cfg s label t)
    (one : OneWriter cfg s) (only : PushesOnly s label) (forward : VersionsForward s) :
    VersionsForward t ↔ Keeps s label := by
  cases effect with
  | @write r q session rest snap stamp outcome found at_ round =>
      have current := one.current found at_ round
      have keeps_iff : Keeps s (.write r stamp outcome) ↔ (outcome.applied = true →
          ∀ d, s.client.sessions (q.path session) = some d → snap.Keeps session d) := by
        constructor
        · intro keeps applied d doc
          exact keeps applied q snap session rest d found at_ round doc
        · intro keeps applied q' snap' session' rest' d found' at' round' doc
          obtain rfl : q = q' := by simpa using found.symm.trans found'
          obtain rfl : snap = snap' := by simpa using at_.symm.trans at'
          rw [round, List.cons.injEq] at round'
          obtain ⟨rfl, -⟩ := round'
          exact keeps applied d doc
      rw [keeps_iff, writeStep]
      split
      · rename_i applied
        simp only [applied, true_implies]
        have held : ∀ path, ((s.putDoc (q.path session) (some (document session snap.next
            (contentHash cfg.digest session) stamp))).held path) = if path = q.path session then
              s.held path ++ [document session snap.next (contentHash cfg.digest session) stamp]
            else s.held path := by
          intro path
          by_cases same : path = q.path session
          · subst same
            simp [State.putDoc]
          · simp [State.putDoc, same]
        constructor
        · intro after d doc
          have grown := after (q.path session)
          rw [← one.forward_write_iff forward current doc (contentHash cfg.digest session) stamp]
          have eq := held (q.path session)
          rw [if_pos rfl] at eq
          rw [← eq]
          exact grown
        · intro keeps path
          have eq := held path
          show Forward ver content ((s.putDoc (q.path session) _).held path)
          rw [eq]
          split
          · rename_i same
            subst same
            cases doc : s.client.sessions (q.path session) with
            | some d => exact (one.forward_write_iff forward current doc _ stamp).mpr (keeps d doc)
            | none =>
                have latest := one.docs.held (q.path session)
                rw [doc, List.getLast?_eq_none_iff] at latest
                rw [latest]
                exact forward_singleton _
          · exact forward path
      · rename_i lost
        exact iff_of_true (forward.congr rfl) fun applied => absurd applied lost
  | deleteSession | deletePC | external => exact only.elim
  | delete outcome found | deleteListed outcome found =>
      obtain ⟨q, eq⟩ := one.pushes found
      cases eq
  | _ => exact iff_of_true (forward.congr rfl) trivial

end

/-! ## Runs -/

theorem oneWriter_opened {cfg : Config α} {pcs : PCName → Option (Fields α)}
    {sessions : Path → Option (Fields α)} (clock : Int)
    (written : ∀ path d, sessions path = some d → Written cfg d) :
    OneWriter cfg (opened pcs sessions clock) where
  ordered := ordered_opened pcs sessions clock
  docs := {
    held := fun path => by cases found : sessions path <;> simp [opened, found]
    hashed := fun path d found => (written path d found).hashed
    first := fun path d head => by
      cases found : sessions path with
      | none => simp [opened, found] at head
      | some d' =>
          simp only [opened, found, Option.toList_some, List.head?_cons, Option.some.injEq] at head
          exact head ▸ (written path d' found).positive }
  pushes _ _ found := by cases found
  alone _ _ _ _ found := by cases found
  current _ _ _ _ _ found := by cases found

theorem versionsForward_opened (pcs : PCName → Option (Fields α))
    (sessions : Path → Option (Fields α)) (clock : Int) :
    VersionsForward (opened pcs sessions clock) := by
  intro path
  cases found : sessions path with
  | none => simpa [opened, found] using forward_nil
  | some d => simpa [opened, found] using forward_singleton d

/-- In a run of pushes over documents that pushes have written, the versions go
forward exactly if no write takes effect on a document whose read has failed
(unless it changes nothing in version 1) or that has the last version. -/
theorem versionsForward_iff_keeps (cfg : Config α) (pcs : PCName → Option (Fields α))
    (sessions : Path → Option (Fields α)) (clock : Int) (labels : List (Label α))
    (written : ∀ path d, sessions path = some d → Written cfg d)
    (only : Along (interleave cfg) PushesOnly (opened pcs sessions clock) labels) :
    Always (interleave cfg) VersionsForward (opened pcs sessions clock) labels ↔
      Along (interleave cfg) Keeps (opened pcs sessions clock) labels := by
  have preserved : ∀ s label t, OneWriter cfg s → PushesOnly s label →
      interleave cfg s label = some t → OneWriter cfg t :=
    fun _ _ _ one met taken => (effect_of_interleave taken).oneWriter met one
  have step : ∀ s label t, OneWriter cfg s → VersionsForward s → PushesOnly s label →
      interleave cfg s label = some t → (VersionsForward t ↔ Keeps s label) :=
    fun _ _ _ one forward met taken =>
      (effect_of_interleave taken).versionsForward_iff one met forward
  exact always_iff_along preserved step (oneWriter_opened clock written)
    (versionsForward_opened pcs sessions clock) only

/-- The session of one PC with another status. -/
def sessionAs (status : Bytes) : Fields Unit :=
  Function.update session (ascii "status") (some (.string status))

/-- A push of one session by its `r`-th call, with the given outcomes of the read
and the write. -/
def pushOf (r : Nat) (status : Bytes) (read : Bool) (written : Outcome) : List (Label Unit) :=
  [.push host r [sessionAs status], .lookup r, .get r read, .write r [] written, .remember r,
    .lookup r, .parent r [] true]

/-- The third push cannot read the document, and writes it all the same. -/
def unreadThenWritten : List (Label Unit) :=
  pushOf 0 (ascii "working") true .ok ++ pushOf 1 (ascii "idle") true .ok ++
    pushOf 2 (ascii "done") false .ok

/-- The version goes from 2 back to 1. -/
theorem unread_version_back :
    Along (interleave hostConfig) PushesOnly (opened (fun _ => none) (fun _ => none) 0)
        unreadThenWritten ∧
      (exec (interleave hostConfig) (opened (fun _ => none) (fun _ => none) 0)
        unreadThenWritten).map (fun s => (s.held (host, ascii "s1")).map ver) = some [1, 2, 1] ∧
      ¬ Always (interleave hostConfig) VersionsForward
        (opened (fun _ => none) (fun _ => none) 0) unreadThenWritten := by
  have versions : (exec (interleave hostConfig) (opened (fun _ => none) (fun _ => none) 0)
      unreadThenWritten).map (fun s => (s.held (host, ascii "s1")).map ver) = some [1, 2, 1] := by
    decide
  refine ⟨by decide, versions, fun always => ?_⟩
  obtain ⟨s, run, history⟩ := Option.map_eq_some_iff.mp versions
  have mono := List.pairwise_map.mpr (always.last run (host, ascii "s1")).mono
  rw [history] at mono
  revert mono
  decide

/-- The write of a call that is next: its document, and the read before it. -/
def State.writing (s : State α) (r : Nat) : Option (Path × Snapshot α) :=
  (s.requests r).bind fun
    | .push q =>
        match q.phase, q.todo with
        | .write snap, session :: _ => some (q.path session, snap)
        | _, _ => none
    | _ => none

/-- The document does not exist, or it has been read and has not the last version. -/
def Snapshot.regular (doc : Option (Fields α)) : Snapshot α → Bool
  | .failed => doc.isNone
  | .absent => true
  | .found _ => doc.all fun d => int64Field d version ≠ Int64.maxValue

/-- Every write is regular. -/
def Regular (s : State α) : Label α → Prop
  | .write r _ _ => ∀ p ∈ s.writing r, p.2.regular (s.client.sessions p.1) = true
  | _ => True

instance (s : State α) : (label : Label α) → Decidable (Regular s label)
  | .write r _ _ => inferInstanceAs (Decidable (∀ p ∈ s.writing r, _))
  | .push _ _ _ | .deleteSession _ _ | .deletePC _ | .lookup _ | .get _ _ | .remember _
  | .forget _ | .list _ _ | .delete _ _ | .parent _ _ _ | .external _ _ => isTrue trivial

theorem Regular.keeps {s : State α} {label : Label α} (regular : Regular s label) :
    Keeps s label := by
  cases label with
  | write r stamp outcome =>
      intro _ q snap session rest d found at_ round doc
      have writing : s.writing r = some (q.path session, snap) := by
        simp only [State.writing, found, Option.bind_some, at_, round]
      have plain := regular _ writing
      simp only [doc] at plain
      cases snap with
      | failed => cases plain
      | absent => trivial
      | found d' => simpa [Snapshot.regular, Snapshot.Keeps] using plain
  | _ => trivial

/-- Reads that fail while there is no document, and writes that fail. -/
def unreadAndLost : List (Label Unit) :=
  [.push host 0 [session], .lookup 0, .get 0 false, .write 0 [] (.failed true), .forget 0] ++
    pushOf 1 (ascii "idle") true .ok

theorem unreadAndLost_forward :
    Always (interleave hostConfig) VersionsForward
      (opened (fun _ => none) (fun _ => none) 0) unreadAndLost :=
  (versionsForward_iff_keeps hostConfig (fun _ => none) (fun _ => none) 0 unreadAndLost
    (fun _ _ found => by cases found) (by decide)).mpr
      (Along.imp (fun _ _ => Regular.keeps) (by decide : Along _ Regular _ _))

end Drover.Push
