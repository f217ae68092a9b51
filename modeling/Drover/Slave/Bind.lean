import Drover.Slave.Client
import Drover.Transition.Run

/-!
# Binding the name of a slave

The transaction of `BindSlave`, attempt by attempt.  Others may change the two documents
at any time; a commit is validated against what the attempt has read, but a read that has
failed leaves nothing to validate, and the closure takes it for an absent PC.
`bindSlave_guarded_iff` says when no name of a master is captured.
-/

namespace Drover.Slave.Bind

open Drover.Store
open Drover.Transition
open Drover.Push (Fields stringField)

variable {α : Type}

/-- `slaves/{pc}`. -/
structure SlaveDoc where
  pc : Bytes
  secretHash : Bytes
  createdAt : Bytes
  revoked : Bool
  deriving DecidableEq

/-- The documents `pcs/{pc}` and `slaves/{pc}`. -/
structure Docs (α : Type) where
  pc : Option (Fields α)
  slave : Option SlaveDoc

/-- The PC is absent, or a slave. -/
def Docs.Free (docs : Docs α) : Prop := ∀ fields ∈ docs.pc, stringField fields roleKey = slaveRole

instance Docs.decidableFree (docs : Docs α) : Decidable docs.Free :=
  inferInstanceAs (Decidable (∀ fields ∈ docs.pc, _))

/-- What the call does next; `none` is an error. -/
inductive Phase (α : Type) where
  /-- The next attempt. -/
  | attempt
  /-- The end of an attempt: what it has read, at which update, and what it writes. -/
  | commit (snap : Snapshot (Fields α)) (seen : Nat) (write : Option SlaveDoc)
  | returned (result : Option Bool)

/-- The documents of the PC, and a call of `BindSlave` on them. -/
structure State (α : Type) where
  docs : Docs α
  /-- The number of updates of `pcs/{pc}`. -/
  updates : Nat := 0
  phase : Phase α
  /-- The result that the closure sets. -/
  ok : Bool := false

/-- How a commit ends. -/
inductive Ending where
  | done (outcome : Outcome)
  /-- The transaction is tried again. -/
  | aborted
  deriving DecidableEq

/-- A step of the call or of somebody else. -/
inductive Action (α : Type) where
  /-- Somebody else writes or deletes `pcs/{pc}`. -/
  | updatePC (fields : Option (Fields α))
  /-- Somebody else writes or deletes `slaves/{pc}`. -/
  | updateSlave (doc : Option SlaveDoc)
  /-- The closure, at the time `now`; the read may fail. -/
  | closure (ok : Bool) (now : Bytes)
  | commit (ending : Ending)
  /-- An attempt cannot begin. -/
  | giveUp

/-- `tx.Get`. -/
def Docs.get (docs : Docs α) (ok : Bool) : Snapshot (Fields α) :=
  if ok then docs.pc.elim .absent .found else .failed

/-- The closure finds a PC that is no slave. -/
def refused : Snapshot (Fields α) → Bool
  | .found fields => stringField fields roleKey ≠ slaveRole
  | _ => false

/-- What an attempt has read has not been updated since. -/
def State.validated (s : State α) (seen : Nat) : Snapshot (Fields α) → Bool
  | .failed => true
  | .absent | .found _ => seen = s.updates

/-- The closure of the transaction, after its read. -/
def State.closure (s : State α) (doc : SlaveDoc) (snap : Snapshot (Fields α)) : State α :=
  if refused snap then { s with phase := .commit snap s.updates none, ok := false }
  else { s with phase := .commit snap s.updates (some doc), ok := true }

/-- A commit that is not tried again. -/
def State.commit (s : State α) (write : Option SlaveDoc) (outcome : Outcome) : State α :=
  { s with
    docs.slave := if outcome.applied then write.or s.docs.slave else s.docs.slave
    phase := .returned (if outcome = .ok then some s.ok else none) }

/-- A step of `BindSlave(pc, secretHash)`, or of somebody else. -/
def step (pc secretHash : Bytes) (s : State α) : Action α → Option (State α)
  | .updatePC fields => some { s with docs.pc := fields, updates := s.updates + 1 }
  | .updateSlave doc => some { s with docs.slave := doc }
  | .closure ok now =>
      match s.phase with
      | .attempt => some (s.closure ⟨pc, secretHash, now, false⟩ (s.docs.get ok))
      | _ => none
  | .commit ending =>
      match s.phase, ending with
      | .commit .., .aborted => some { s with phase := .attempt }
      | .commit snap seen write, .done outcome =>
          if outcome.applied && !s.validated seen snap then none
          else some (s.commit write outcome)
      | _, _ => none
  | .giveUp =>
      match s.phase with
      | .attempt => some { s with phase := .returned none }
      | _ => none

/-- The call begins. -/
def start (pc : Bytes) (docs : Docs α) : State α where
  docs := docs
  phase := if ValidPCName pc then .attempt else .returned (some false)

/-! ## The guard -/

/-- A step of the call changes the documents only if it returns `true`, and then the name
is valid and free at that point. -/
structure Guarded (pc : Bytes) (s s' : State α) : Prop where
  bound : s'.phase = .returned (some true) → ValidPCName pc = true ∧ s.docs.Free
  kept : s'.phase ≠ .returned (some true) → s'.docs.slave = s.docs.slave

/-- The step is one of the call. -/
def Action.own : Action α → Bool
  | .updatePC _ | .updateSlave _ => false
  | .closure .. | .commit _ | .giveUp => true

/-- If the step is one of the call, it keeps to the guard. -/
def Guards (pc secretHash : Bytes) (s : State α) (action : Action α) : Prop :=
  action.own = true → ∀ s', step pc secretHash s action = some s' → Guarded pc s s'

/-- If a commit succeeds after a read that has failed, the name is free anyway; and one that
is reported as failed has not taken effect, or writes what is there. -/
def Sound (s : State α) : Action α → Prop
  | .commit (.done outcome) => ∀ snap seen write, s.phase = .commit snap seen write →
      (outcome = .ok → snap = .failed → s.docs.Free) ∧
        (outcome = .failed true → ∀ doc ∈ write, s.docs.slave = some doc)
  | _ => True

/-- What an attempt has in hand. -/
structure Attempt (pc : Bytes) (s : State α) (snap : Snapshot (Fields α)) (seen : Nat)
    (write : Option SlaveDoc) : Prop where
  valid : ValidPCName pc = true
  ok : s.ok = !refused snap
  write : write.isSome = s.ok
  before : seen ≤ s.updates
  current : seen = s.updates → snap = s.docs.get true ∨ snap = .failed

/-- What holds of the call in a phase. -/
def InPhase (pc : Bytes) (s : State α) : Phase α → Prop
  | .attempt => ValidPCName pc = true
  | .commit snap seen write => Attempt pc s snap seen write
  | .returned _ => True

/-- The call is on its way only with a valid name. -/
def Inv (pc : Bytes) (s : State α) : Prop := InPhase pc s s.phase

section

variable {pc secretHash : Bytes} {s s' : State α} {action : Action α}

theorem inv_start (pc : Bytes) (docs : Docs α) : Inv pc (start pc docs) := by
  rw [Inv, start]
  by_cases valid : ValidPCName pc = true
  · rw [if_pos valid]
    exact valid
  · rw [if_neg valid]
    exact trivial

theorem Inv.phase {phase : Phase α} (inv : Inv pc s) (is_ : s.phase = phase) :
    InPhase pc s phase := is_ ▸ inv

/-- The step relation, case by case. -/
inductive Stepped (pc secretHash : Bytes) (s : State α) : Action α → State α → Prop
  | updatePC (fields : Option (Fields α)) :
      Stepped pc secretHash s (.updatePC fields)
        { s with docs.pc := fields, updates := s.updates + 1 }
  | updateSlave (doc : Option SlaveDoc) :
      Stepped pc secretHash s (.updateSlave doc) { s with docs.slave := doc }
  | closure (ok : Bool) (now : Bytes) (is_ : s.phase = .attempt) :
      Stepped pc secretHash s (.closure ok now)
        (s.closure ⟨pc, secretHash, now, false⟩ (s.docs.get ok))
  | abort {snap : Snapshot (Fields α)} {seen : Nat} {write : Option SlaveDoc}
      (is_ : s.phase = .commit snap seen write) :
      Stepped pc secretHash s (.commit .aborted) { s with phase := .attempt }
  | commit {snap : Snapshot (Fields α)} {seen : Nat} {write : Option SlaveDoc} {outcome : Outcome}
      (is_ : s.phase = .commit snap seen write)
      (validated : outcome.applied = true → s.validated seen snap = true) :
      Stepped pc secretHash s (.commit (.done outcome)) (s.commit write outcome)
  | giveUp (is_ : s.phase = .attempt) :
      Stepped pc secretHash s .giveUp { s with phase := .returned none }

theorem stepped_of_step (taken : step pc secretHash s action = some s') :
    Stepped pc secretHash s action s' := by
  cases action with
  | updatePC fields =>
      cases taken
      exact .updatePC fields
  | updateSlave doc =>
      cases taken
      exact .updateSlave doc
  | closure ok now =>
      rw [step] at taken
      split at taken
      · rename_i is_
        cases taken
        exact .closure ok now is_
      · cases taken
  | commit ending =>
      cases found : s.phase with
      | attempt => simp [step, found] at taken
      | returned result => simp [step, found] at taken
      | commit snap seen write =>
          cases ending with
          | aborted =>
              simp only [step, found, Option.some.injEq] at taken
              rw [← taken]
              exact .abort found
          | done outcome =>
              simp only [step, found] at taken
              split at taken
              · cases taken
              · rename_i validated
                cases taken
                refine .commit found fun applied => ?_
                rw [applied, Bool.true_and, Bool.not_eq_true', Bool.not_eq_false] at validated
                exact validated
  | giveUp =>
      rw [step] at taken
      split at taken
      · rename_i is_
        cases taken
        exact .giveUp is_
      · cases taken

theorem Docs.get_cases (docs : Docs α) (ok : Bool) :
    docs.get ok = docs.get true ∨ docs.get ok = .failed := by
  cases ok
  · exact .inr rfl
  · exact .inl rfl

/-- The closure has set its result and its write by what it has read. -/
theorem attempt_closure (valid : ValidPCName pc = true) (doc : SlaveDoc) (ok : Bool) :
    Inv pc (s.closure doc (s.docs.get ok)) := by
  rw [State.closure]
  split
  · rename_i isRefused
    exact ⟨valid, by rw [isRefused]; rfl, rfl, Nat.le_refl _, fun _ => s.docs.get_cases ok⟩
  · rename_i notRefused
    rw [Bool.not_eq_true] at notRefused
    exact ⟨valid, by rw [notRefused]; rfl, rfl, Nat.le_refl _, fun _ => s.docs.get_cases ok⟩

/-- What others do does not matter to the call, and an update shows. -/
theorem Inv.others (inv : Inv pc s) (samePhase : s'.phase = s.phase) (sameOk : s'.ok = s.ok)
    (later : s.updates ≤ s'.updates)
    (current : s'.updates = s.updates → s'.docs.get true = s.docs.get true) : Inv pc s' := by
  rw [Inv, samePhase]
  cases found : s.phase with
  | attempt => exact (inv.phase found : InPhase pc s .attempt)
  | returned result => exact trivial
  | commit snap seen write =>
      have attempt : Attempt pc s snap seen write := inv.phase found
      refine ⟨attempt.valid, sameOk ▸ attempt.ok, sameOk ▸ attempt.write,
        Nat.le_trans attempt.before later, fun same => ?_⟩
      have noUpdate : s'.updates = s.updates :=
        Nat.le_antisymm (same ▸ attempt.before) later
      rw [current noUpdate]
      exact attempt.current (same.trans noUpdate)

theorem Inv.step (inv : Inv pc s) (taken : step pc secretHash s action = some s') :
    Inv pc s' := by
  cases stepped_of_step taken with
  | updatePC fields =>
      exact inv.others rfl rfl (Nat.le_succ _) fun same => absurd same (Nat.succ_ne_self _)
  | updateSlave doc => exact inv.others rfl rfl (Nat.le_refl _) fun _ => rfl
  | closure ok now is_ => exact attempt_closure (inv.phase is_) _ ok
  | abort is_ => exact (inv.phase is_).valid
  | commit | giveUp => exact trivial

/-- What a validated attempt has read is there, or its read has failed. -/
theorem Attempt.validated {snap : Snapshot (Fields α)} {seen : Nat} {write : Option SlaveDoc}
    (attempt : Attempt pc s snap seen write) (validated : s.validated seen snap = true) :
    snap = s.docs.get true ∨ snap = .failed := by
  cases snap with
  | failed => exact .inr rfl
  | absent | found => exact attempt.current (of_decide_eq_true validated)

theorem free_iff_get {docs : Docs α} : docs.Free ↔ refused (docs.get true) = false := by
  rcases docs with ⟨_ | fields, slave⟩
  · simp [Docs.Free, Docs.get, refused]
  · simp [Docs.Free, Docs.get, refused]

theorem guarded_commit_iff {snap : Snapshot (Fields α)} {seen : Nat} {write : Option SlaveDoc}
    {outcome : Outcome} (attempt : Attempt pc s snap seen write)
    (validated : outcome.applied = true → s.validated seen snap = true) :
    Guarded pc s (s.commit write outcome) ↔
      (outcome = .ok → snap = .failed → s.docs.Free) ∧
        (outcome = .failed true → ∀ doc ∈ write, s.docs.slave = some doc) := by
  have kept (isWritten : (s.commit write outcome).docs.slave = s.docs.slave) (result : Option Bool)
      (is_ : (s.commit write outcome).phase = .returned result) (notTrue : result ≠ some true) :
      Guarded pc s (s.commit write outcome) :=
    ⟨fun isTrue => absurd (Phase.returned.inj (is_.symm.trans isTrue)) notTrue, fun _ => isWritten⟩
  cases outcome with
  | ok =>
      cases isRefused : refused snap with
      | true =>
          have okFalse : s.ok = false := by rw [attempt.ok, isRefused]; rfl
          have noWrite : write = none := by
            rw [← Option.isNone_iff_eq_none, ← Option.not_isSome, attempt.write, okFalse]
            rfl
          apply iff_of_true
          · apply kept _ (some false) (by rw [State.commit, if_pos rfl, okFalse]) (by decide)
            rw [noWrite]
            rfl
          · refine ⟨fun _ failed => ?_, nofun⟩
            rw [failed] at isRefused
            cases isRefused
      | false =>
          have okTrue : s.ok = true := by rw [attempt.ok, isRefused]; rfl
          have bound : (s.commit write .ok).phase = .returned (some true) := by
            rw [State.commit, if_pos rfl, okTrue]
          constructor
          · exact fun guarded => ⟨fun _ _ => (guarded.bound bound).2, nofun⟩
          · intro sound
            refine ⟨fun _ => ⟨attempt.valid, ?_⟩, fun other => absurd bound other⟩
            rcases attempt.validated (validated rfl) with there | failed
            · exact free_iff_get.mpr (there ▸ isRefused)
            · exact sound.1 rfl failed
  | failed applied =>
      cases applied with
      | false =>
          apply iff_of_true
          · exact kept rfl none rfl nofun
          · exact ⟨nofun, nofun⟩
      | true =>
          constructor
          · intro guarded
            refine ⟨nofun, fun _ doc isDoc => ?_⟩
            have same : write.or s.docs.slave = s.docs.slave := guarded.kept nofun
            rw [← same, isDoc, Option.some_or]
          · rintro ⟨-, same⟩
            refine kept ?_ none rfl nofun
            cases write with
            | none => rfl
            | some doc => exact (same rfl doc rfl).symm

theorem guards_own_iff (own : action.own = true)
    (taken : step pc secretHash s action = some s') :
    Guards pc secretHash s action ↔ Guarded pc s s' := by
  constructor
  · exact fun guards => guards own s' taken
  · intro guarded _ next taken'
    obtain rfl := Option.some.inj (taken'.symm.trans taken)
    exact guarded

theorem guards_iff_sound (inv : Inv pc s) (taken : step pc secretHash s action = some s') :
    Guards pc secretHash s action ↔ Sound s action := by
  cases stepped_of_step taken with
  | updatePC | updateSlave => exact iff_of_true nofun trivial
  | closure ok now is_ =>
      refine iff_of_true ((guards_own_iff rfl taken).mpr ?_) trivial
      rw [State.closure]
      split
      · exact ⟨nofun, fun _ => rfl⟩
      · exact ⟨nofun, fun _ => rfl⟩
  | abort | giveUp =>
      exact iff_of_true ((guards_own_iff rfl taken).mpr ⟨nofun, fun _ => rfl⟩) trivial
  | commit is_ validated =>
      have attempt := inv.phase is_
      rw [guards_own_iff rfl taken, guarded_commit_iff attempt validated]
      constructor
      · intro sound snap seen write same
        cases is_.symm.trans same
        exact sound
      · exact fun sound => sound _ _ _ is_

end

/-- `BindSlave` captures no name of a master exactly if no read of a committed attempt has
failed for one, and no failed commit has taken effect. -/
theorem bindSlave_guarded_iff (pc secretHash : Bytes) (docs : Docs α) (actions : List (Action α)) :
    Along (step pc secretHash) (Guards pc secretHash) (start pc docs) actions ↔
      Along (step pc secretHash) Sound (start pc docs) actions := by
  have environment : Along (step pc secretHash) (fun _ _ => True) (start pc docs) actions :=
    along_of_forall (fun _ _ _ => trivial) _
  refine along_iff_along ?_ ?_ (inv_start pc docs) environment
  · exact fun s action s' inv _ taken => inv.step taken
  · exact fun s action s' inv _ taken => guards_iff_sound inv taken

/-- The PC that a master has registered. -/
def masterPC : Fields Unit :=
  Function.update (fun _ => none) (ascii "agent_kind") (some (.string (ascii "herdr-drover")))

/-- The read of the master fails, and its name is bound to a secret. -/
theorem master_captured :
    ¬Along (step (ascii "mac-herdr") (ascii "h")) (Guards (ascii "mac-herdr") (ascii "h"))
      (start (ascii "mac-herdr") ⟨some masterPC, none⟩)
      [.closure false (ascii "t"), .commit (.done .ok)] := by
  intro along
  have guards := ((along _ rfl).2 _ rfl).1
  have guarded := guards rfl _ rfl
  exact absurd (guarded.bound rfl).2 (by decide)

/-! ## One attempt -/

/-- The two documents in a store. -/
structure Docs.Of (docs : Docs α) (name : Bytes) (store : Documents (Doc α)) : Prop where
  pc : store[pcPath name]?.map Doc.data = docs.pc
  slave : store[slavePath name]? = docs.slave.map fun d => .slave d.secretHash d.revoked

theorem pcPath_ne_slavePath (pc : Bytes) : pcPath pc ≠ slavePath pc :=
  docPath_ne (by decide) (by decide) (by decide)

section

variable {pc secretHash : Bytes} {docs : Docs α} {m : Machine (Doc α) Push.PushEntry Delivery}

theorem Docs.Of.bindable (of : docs.Of pc m.docs) (ok : Bool) :
    bindable (readDocument m.docs ok (pcPath pc)) = !refused (docs.get ok) := by
  rw [readDocument, Docs.get, ← of.pc]
  cases ok with
  | false => rfl
  | true =>
      cases m.docs[pcPath pc]? with
      | none => rfl
      | some d =>
          rw [Bool.eq_iff_iff]
          simp only [Slave.bindable, refused, Doc.role, if_true, Option.map_some, Option.elim_some,
            ne_eq, decide_not, Bool.not_not]
          exact decide_eq_true_iff.trans decide_eq_true_iff.symm

/-- Where nobody else interferes, a call that commits at its first attempt is `bindSlave`. -/
theorem bindSlave_eq_attempt (valid : ValidPCName pc = true) (of : docs.Of pc m.docs)
    {choice : Choice} {now : Bytes} {s : State α}
    (run : exec (step pc secretHash) (start pc docs)
      [.closure choice.read now, .commit (.done choice.write)] = some s) :
    s.phase = .returned ((bindSlave pc secretHash).run (fun _ => choice) m).2 ∧
      s.docs.Of pc ((bindSlave pc secretHash).run (fun _ => choice) m).1.docs := by
  have result : (bindSlave pc secretHash).run (fun _ => choice) m =
      ({ m with
          docs := m.transaction choice (pcPath pc) (slavePath pc) (bindChange secretHash) },
        if choice.write = .ok then
          some (bindable (readDocument m.docs choice.read (pcPath pc))) else none) := by
    rw [bindSlave, if_neg (by simp [valid])]
    refine Prod.ext rfl ?_
    change (if decide (choice.write = .ok) = true then _ else _) = _
    simp only [decide_eq_true_eq]
  rw [result]
  obtain ⟨s₁, closed, run⟩ := (exec_cons_eq_some_iff ..).mp run
  rw [start, if_pos valid] at closed
  cases closed
  obtain ⟨s₂, committed, run⟩ := (exec_cons_eq_some_iff ..).mp run
  cases run
  have bindable := of.bindable choice.read
  cases isRefused : refused (docs.get choice.read) with
  | true =>
      rw [State.closure, if_pos isRefused] at committed
      rw [isRefused] at bindable
      have unchanged : m.transaction choice (pcPath pc) (slavePath pc) (bindChange secretHash) =
          m.docs := by
        rw [Machine.transaction, bindChange, bindable, if_neg (by decide)]
      cases stepped_of_step committed with
      | commit is_ _ =>
          cases is_
          rw [bindable, unchanged]
          refine ⟨rfl, of.pc, ?_⟩
          simp only [State.commit, Option.none_or, ite_self]
          exact of.slave
  | false =>
      rw [State.closure, if_neg (by rw [isRefused]; decide)] at committed
      rw [isRefused] at bindable
      have changed : m.transaction choice (pcPath pc) (slavePath pc) (bindChange secretHash) =
          changeDocument m.docs choice.write (slavePath pc) fun _ =>
            some (.slave secretHash false) := by
        rw [Machine.transaction, bindChange, bindable, if_pos (by decide)]
      cases stepped_of_step committed with
      | commit is_ _ =>
          cases is_
          rw [bindable, changed]
          refine ⟨rfl, ?_, ?_⟩
          · rw [changeDocument_of_ne (pcPath_ne_slavePath pc)]
            exact of.pc
          · rw [changeDocument_same, of.slave]
            simp only [State.commit, Option.some_or]
            split
            · rfl
            · rfl

end

end Drover.Slave.Bind
