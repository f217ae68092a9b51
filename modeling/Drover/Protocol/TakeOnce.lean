import Drover.Transition.Run
import Mathlib.Logic.Function.Basic

/-!
# Taking a document once

A document is meant to be used by one call.  A call gets it, deletes it without
looking at the result, checks that it has not expired, and uses it.  These are
separate operations of the store, so other calls come in between.  `Alone` is
what it takes for at most one call to use the document; a step that breaks it
leads to two uses unless someone hurries.
-/

namespace Drover.Protocol

open Drover.Transition

universe u

/-- Documents that are good until they expire. -/
structure Expiring (D : Type u) where
  live : D → Nat → Bool
  expires : ∀ d t t', t ≤ t' → live d t' = true → live d t = true

/-- Where a call stands. -/
inductive Phase (D : Type u) where
  | start
  | got (d : D)
  | deleted (d : D)
  /-- The call has returned the document, or nothing. -/
  | returned (result : Option D)
  deriving DecidableEq

/-- The calls by number. -/
abbrev CallId := Nat

/-- The stored document, the clock, and the calls. -/
structure TakeState (D : Type u) where
  doc : Option D
  clock : Nat
  calls : CallId → Phase D
  /-- The calls whose Get has found the document. -/
  readers : List CallId

/-- The store operations of a call; with `fails` the operation fails. -/
inductive TakeAction where
  | get (k : CallId) (fails : Bool)
  | delete (k : CallId) (fails : Bool)
  | check (k : CallId) (now : Nat)
  deriving DecidableEq

variable {D : Type u}

namespace TakeState

/-- A stored document that no call has looked at. -/
def init (doc : Option D) (clock : Nat) : TakeState D := ⟨doc, clock, fun _ => .start, []⟩

/-- The call `k` goes on as `phase`. -/
def setCall (s : TakeState D) (k : CallId) (phase : Phase D) : TakeState D :=
  { s with calls := Function.update s.calls k phase }

@[simp]
theorem calls_setCall_same (s : TakeState D) (k : CallId) (phase : Phase D) :
    (s.setCall k phase).calls k = phase := by
  simp [setCall]

theorem calls_setCall_of_ne {s : TakeState D} {j k : CallId} (phase : Phase D) (other : j ≠ k) :
    (s.setCall k phase).calls j = s.calls j := by
  simp [setCall, other]

/-- At most one call has returned the document. -/
def AtMostOne (s : TakeState D) : Prop :=
  ∀ j k d e, s.calls j = .returned (some d) → s.calls k = .returned (some e) → j = k

end TakeState

open TakeState

/-- One operation.  A failed Get and a missing document end the call; a failed
Delete is ignored. -/
def takeStep (S : Expiring D) (s : TakeState D) : TakeAction → Option (TakeState D)
  | .get k fails =>
      match s.calls k with
      | .start =>
          match if fails then none else s.doc with
          | none => some (s.setCall k (.returned none))
          | some d => some { s.setCall k (.got d) with readers := k :: s.readers }
      | _ => none
  | .delete k fails =>
      match s.calls k with
      | .got d => some { s.setCall k (.deleted d) with doc := if fails then s.doc else none }
      | _ => none
  | .check k now =>
      match s.calls k with
      | .deleted d =>
          if s.clock ≤ now then
            some { s.setCall k (.returned (if S.live d now then some d else none)) with
              clock := now }
          else none
      | _ => none

/-- A Get finds the document still good only if no call has found it before. -/
def Alone (S : Expiring D) (s : TakeState D) : TakeAction → Prop
  | .get _ false => ∀ d ∈ s.doc, S.live d s.clock = true → s.readers = []
  | _ => True

instance (S : Expiring D) (s : TakeState D) (a : TakeAction) : Decidable (Alone S s a) := by
  unfold Alone
  split <;> infer_instance

/-- What an operation can do. -/
inductive TakeEffect (S : Expiring D) (s : TakeState D) : TakeAction → TakeState D → Prop
  | missed {k : CallId} {fails : Bool} (start : s.calls k = .start) :
      TakeEffect S s (.get k fails) (s.setCall k (.returned none))
  | found {k : CallId} {d : D} (start : s.calls k = .start) (doc : s.doc = some d) :
      TakeEffect S s (.get k false) { s.setCall k (.got d) with readers := k :: s.readers }
  | deleted {k : CallId} {fails : Bool} {d : D} (got : s.calls k = .got d) :
      TakeEffect S s (.delete k fails)
        { s.setCall k (.deleted d) with doc := if fails then s.doc else none }
  | checked {k : CallId} {now : Nat} {d : D} (deleted : s.calls k = .deleted d)
      (later : s.clock ≤ now) :
      TakeEffect S s (.check k now)
        { s.setCall k (.returned (if S.live d now then some d else none)) with clock := now }

theorem takeEffect_of_step {S : Expiring D} {s s' : TakeState D} {a : TakeAction}
    (taken : takeStep S s a = some s') : TakeEffect S s a s' := by
  cases a with
  | get k fails =>
      simp only [takeStep] at taken
      split at taken
      · rename_i start
        split at taken
        · cases taken
          exact .missed start
        · rename_i d doc
          cases taken
          cases fails with
          | true => cases doc
          | false => exact .found start doc
      · cases taken
  | delete k fails =>
      simp only [takeStep] at taken
      split at taken
      · rename_i d got
        cases taken
        exact .deleted got
      · cases taken
  | check k now =>
      simp only [takeStep] at taken
      split at taken
      · rename_i d deleted
        split at taken
        · rename_i later
          cases taken
          exact .checked deleted later
        · cases taken
      · cases taken

/-! ## Alone means once -/

/-- The call has returned the document or may still do so. -/
def Hopeful (S : Expiring D) (s : TakeState D) (k : CallId) : Prop :=
  match s.calls k with
  | .got d => S.live d s.clock = true
  | .deleted d => S.live d s.clock = true
  | .returned (some _) => True
  | _ => False

/-- At most one call may still return the document. -/
structure TakeInv (S : Expiring D) (s : TakeState D) : Prop where
  readers : ∀ k, Hopeful S s k → k ∈ s.readers
  sole : ∀ j k, Hopeful S s j → Hopeful S s k → j = k

theorem hopeful_of_calls_eq {S : Expiring D} {s s' : TakeState D} {j : CallId}
    (hopeful : Hopeful S s' j) (clock : s.clock ≤ s'.clock) (calls : s'.calls j = s.calls j) :
    Hopeful S s j := by
  rw [Hopeful, calls] at hopeful
  rw [Hopeful]
  split at hopeful
  · exact S.expires _ _ _ clock hopeful
  · exact S.expires _ _ _ clock hopeful
  · trivial
  · exact hopeful.elim

/-- Whoever has hope afterwards had it before, or is the call that has just
found the document. -/
theorem TakeEffect.hopeful {S : Expiring D} {s s' : TakeState D} {a : TakeAction}
    (effect : TakeEffect S s a s') {j : CallId} (hopeful : Hopeful S s' j) :
    Hopeful S s j ∨
      ∃ d, a = .get j false ∧ s.doc = some d ∧ S.live d s.clock = true ∧
        s'.readers = j :: s.readers := by
  cases effect with
  | @missed k fails start =>
      by_cases same : j = k
      · subst same
        rw [Hopeful, calls_setCall_same] at hopeful
        exact hopeful.elim
      · exact .inl (hopeful_of_calls_eq hopeful (Nat.le_refl _) (calls_setCall_of_ne _ same))
  | @found k d start doc =>
      by_cases same : j = k
      · subst same
        simp only [Hopeful, calls_setCall_same] at hopeful
        exact .inr ⟨d, rfl, doc, hopeful, rfl⟩
      · exact .inl (hopeful_of_calls_eq hopeful (Nat.le_refl _) (calls_setCall_of_ne _ same))
  | @deleted k fails d got =>
      by_cases same : j = k
      · subst same
        simp only [Hopeful, calls_setCall_same] at hopeful
        left
        rw [Hopeful, got]
        exact hopeful
      · exact .inl (hopeful_of_calls_eq hopeful (Nat.le_refl _) (calls_setCall_of_ne _ same))
  | @checked k now d deleted later =>
      by_cases same : j = k
      · subst same
        simp only [Hopeful, calls_setCall_same] at hopeful
        left
        rw [Hopeful, deleted]
        cases live : S.live d now with
        | true => exact S.expires d _ _ later live
        | false =>
            rw [live] at hopeful
            exact hopeful.elim
      · exact .inl (hopeful_of_calls_eq hopeful later (calls_setCall_of_ne _ same))

theorem TakeEffect.readers_subset {S : Expiring D} {s s' : TakeState D} {a : TakeAction}
    (effect : TakeEffect S s a s') : s.readers ⊆ s'.readers := by
  cases effect with
  | found => exact List.subset_cons_self _ _
  | missed => exact List.Subset.refl _
  | deleted => exact List.Subset.refl _
  | checked => exact List.Subset.refl _

theorem TakeEffect.inv {S : Expiring D} {s s' : TakeState D} {a : TakeAction}
    (effect : TakeEffect S s a s') (alone : Alone S s a) (inv : TakeInv S s) : TakeInv S s' := by
  constructor
  · intro k hopeful
    rcases effect.hopeful hopeful with before | ⟨d, -, -, -, readers⟩
    · exact effect.readers_subset (inv.readers k before)
    · rw [readers]
      exact List.mem_cons_self
  · -- a call that has just found the document is alone with it
    have sole : ∀ j k d, Hopeful S s j → a = .get k false → s.doc = some d →
        S.live d s.clock = true → j = k := by
      rintro j k d before rfl doc live
      have mem := inv.readers j before
      rw [alone d doc live] at mem
      cases mem
    intro j k hopefulJ hopefulK
    rcases effect.hopeful hopefulJ with beforeJ | ⟨d, getJ, doc, live, -⟩
    · rcases effect.hopeful hopefulK with beforeK | ⟨d, getK, doc, live, -⟩
      · exact inv.sole j k beforeJ beforeK
      · exact sole j k d beforeJ getK doc live
    · rcases effect.hopeful hopefulK with beforeK | ⟨e, getK, -⟩
      · exact (sole k j d beforeK getJ doc live).symm
      · rw [getJ] at getK
        cases getK
        rfl

/-- A document that no two calls find good is returned at most once. -/
theorem atMostOne_of_alone (S : Expiring D) (doc : Option D) (clock : Nat)
    {actions : List TakeAction} (alone : Along (takeStep S) (Alone S) (init doc clock) actions) :
    Always (takeStep S) AtMostOne (init doc clock) actions := by
  have start : TakeInv S (init doc clock) :=
    ⟨fun _ hopeful => hopeful.elim, fun _ _ hopeful => hopeful.elim⟩
  refine (always_of_preserved (fun _ _ _ inv alone taken =>
    (takeEffect_of_step taken).inv alone inv) start alone).imp ?_
  intro s inv j k d e resultJ resultK
  refine inv.sole j k ?_ ?_
  · rw [Hopeful, resultJ]
    trivial
  · rw [Hopeful, resultK]
    trivial

/-! ## Two readers can both be served -/

/-- A call that has found the document `d` still has it, has returned it, or
came too late. -/
def Reading (S : Expiring D) (d : D) (clock : Nat) : Phase D → Prop
  | .start => False
  | .got e => e = d
  | .deleted e => e = d
  | .returned (some e) => e = d
  | .returned none => S.live d clock = false

theorem Reading.later {S : Expiring D} {d : D} {clock now : Nat} {phase : Phase D}
    (reading : Reading S d clock phase) (later : clock ≤ now) : Reading S d now phase := by
  match phase, reading with
  | .got _, reading => exact reading
  | .deleted _, reading => exact reading
  | .returned (some _), reading => exact reading
  | .returned none, reading =>
      rw [Reading, ← Bool.not_eq_true] at reading ⊢
      exact fun live => reading (S.expires d _ _ later live)

/-- What holds in a run that started with the document `d`. -/
structure TakeTrace (S : Expiring D) (d : D) (s : TakeState D) : Prop where
  doc : ∀ e ∈ s.doc, e = d
  reader : ∀ k ∈ s.readers, Reading S d s.clock (s.calls k)

theorem TakeEffect.trace {S : Expiring D} {s s' : TakeState D} {a : TakeAction} {d : D}
    (effect : TakeEffect S s a s') (trace : TakeTrace S d s) : TakeTrace S d s' := by
  cases effect with
  | @missed k fails start =>
      refine ⟨trace.doc, fun j mem => ?_⟩
      have before := trace.reader j mem
      have other : j ≠ k := by
        rintro rfl
        rw [start] at before
        exact before
      rwa [← calls_setCall_of_ne (.returned none) other] at before
  | @found k e start doc =>
      refine ⟨trace.doc, fun j mem => ?_⟩
      by_cases same : j = k
      · subst same
        change Reading S d s.clock ((s.setCall j (.got e)).calls j)
        rw [calls_setCall_same]
        exact trace.doc e doc
      · have before := trace.reader j ((List.mem_cons.mp mem).resolve_left same)
        rwa [← calls_setCall_of_ne (.got e) same] at before
  | @deleted k fails e got =>
      refine ⟨fun e' mem => ?_, fun j mem => ?_⟩
      · cases fails with
        | true => exact trace.doc e' mem
        | false => cases mem
      · have before := trace.reader j mem
        by_cases same : j = k
        · subst same
          rw [got] at before
          change Reading S d s.clock ((s.setCall j (.deleted e)).calls j)
          rw [calls_setCall_same]
          exact before
        · rwa [← calls_setCall_of_ne (.deleted e) same] at before
  | @checked k now e deleted later =>
      refine ⟨trace.doc, fun j mem => ?_⟩
      have before := trace.reader j mem
      change Reading S d now ((s.setCall k _).calls j)
      by_cases same : j = k
      · subst same
        rw [deleted] at before
        rw [calls_setCall_same]
        cases live : S.live e now with
        | true => exact before
        | false => exact (show e = d from before) ▸ live
      · rw [calls_setCall_of_ne _ same]
        exact before.later later

/-- A call that has found the document can go on at once, and returns it while
it is good. -/
theorem exists_finish (S : Expiring D) {s : TakeState D} {k : CallId} {d : D}
    (reading : Reading S d s.clock (s.calls k)) (live : S.live d s.clock = true) :
    ∃ actions s', exec (takeStep S) s actions = some s' ∧ s'.clock = s.clock ∧
      s'.calls k = .returned (some d) ∧ ∀ j ≠ k, s'.calls j = s.calls j := by
  have fromDeleted : ∀ t : TakeState D, t.clock = s.clock → t.calls k = .deleted d →
      ∃ t', takeStep S t (.check k s.clock) = some t' ∧ t'.clock = s.clock ∧
        t'.calls k = .returned (some d) ∧ ∀ j ≠ k, t'.calls j = t.calls j := by
    intro t clock deleted
    refine ⟨{ t.setCall k (.returned (some d)) with clock := s.clock }, ?_, rfl,
      calls_setCall_same .., fun j other => calls_setCall_of_ne _ other⟩
    simp only [takeStep, deleted]
    rw [if_pos (Nat.le_of_eq clock), if_pos live]
  cases phase : s.calls k with
  | start => rw [phase] at reading; exact reading.elim
  | got e =>
      rw [phase] at reading
      cases reading
      obtain ⟨t', taken, clock, returned, others⟩ :=
        fromDeleted { s.setCall k (.deleted d) with doc := s.doc } rfl (calls_setCall_same ..)
      refine ⟨[.delete k true, .check k s.clock], t', ?_, clock, returned, fun j other => ?_⟩
      · refine (exec_cons_eq_some_iff ..).mpr
          ⟨_, ?_, (exec_cons_eq_some_iff ..).mpr ⟨t', taken, rfl⟩⟩
        simp only [takeStep, phase]
        rfl
      · rw [others j other]
        exact calls_setCall_of_ne _ other
  | deleted e =>
      rw [phase] at reading
      cases reading
      obtain ⟨t', taken, clock, returned, others⟩ := fromDeleted s rfl phase
      exact ⟨[.check k s.clock], t', by rw [exec, taken]; rfl, clock, returned, others⟩
  | returned result =>
      rw [phase] at reading
      cases result with
      | none => rw [Reading, live] at reading; cases reading
      | some e =>
          cases reading
          exact ⟨[], s, rfl, rfl, phase, fun _ _ => rfl⟩

theorem TakeEffect.doc_of_doc {S : Expiring D} {s s' : TakeState D} {a : TakeAction} {d : D}
    (effect : TakeEffect S s a s') (doc : s'.doc = some d) : s.doc = some d := by
  cases effect with
  | missed => exact doc
  | found => exact doc
  | @deleted k fails =>
      cases fails with
      | true => exact doc
      | false => cases doc
  | checked => exact doc

theorem trace_of_run {S : Expiring D} {doc : Option D} {clock : Nat} {actions : List TakeAction}
    {s : TakeState D} {d : D} (run : exec (takeStep S) (init doc clock) actions = some s)
    (found : s.doc = some d) : TakeTrace S d s := by
  suffices kept : ∀ e, doc = some e → TakeTrace S e s by
    have same : doc = some d := by
      have before : Always (takeStep S) (fun t => t.doc = some d → doc = some d)
          (init doc clock) actions :=
        always_of_inductive
          (fun _ _ _ kept taken isDoc => kept ((takeEffect_of_step taken).doc_of_doc isDoc))
          actions id
      exact before.last run found
    exact kept d same
  rintro e rfl
  refine (always_of_inductive (fun _ _ _ trace taken => (takeEffect_of_step taken).trace trace)
    actions ⟨fun e' mem => ?_, fun k mem => ?_⟩).last run
  · exact (Option.some.inj mem).symm
  · cases mem

/-- A Get that is not alone leads to two uses, if the calls go on at
once. -/
theorem race_of_not_alone (S : Expiring D) {doc : Option D} {clock : Nat}
    {actions : List TakeAction} {s s' : TakeState D} {a : TakeAction}
    (run : exec (takeStep S) (init doc clock) actions = some s)
    (taken : takeStep S s a = some s') (crowded : ¬ Alone S s a) :
    ∃ more s'', exec (takeStep S) s' more = some s'' ∧ ¬ AtMostOne s'' := by
  obtain ⟨k, rfl, d, found, live, readers⟩ :
      ∃ k, a = .get k false ∧ ∃ d, s.doc = some d ∧ S.live d s.clock = true ∧ s.readers ≠ [] := by
    cases a with
    | get k fails =>
        cases fails with
        | true => exact absurd trivial crowded
        | false => simpa [Alone] using crowded
    | delete k fails => exact absurd trivial crowded
    | check k now => exact absurd trivial crowded
  have trace : TakeTrace S d s := trace_of_run run found
  obtain ⟨j, mem⟩ := List.exists_mem_of_ne_nil _ readers
  cases start : s.calls k with
  | start =>
      have other : j ≠ k := by
        rintro rfl
        have reading := trace.reader j mem
        rw [start] at reading
        exact reading
      simp only [takeStep, start, found, Bool.false_eq_true, if_false, Option.some.injEq] at taken
      subst taken
      -- first the call that was there before goes on, then the one that has just come
      have first : Reading S d s.clock ((s.setCall k (.got d)).calls j) := by
        rw [calls_setCall_of_ne _ other]
        exact trace.reader j mem
      obtain ⟨more, t, runJ, clockJ, returnedJ, othersJ⟩ :=
        exists_finish S (s := { s.setCall k (.got d) with readers := k :: s.readers }) first live
      have second : Reading S d t.clock (t.calls k) := by
        rw [othersJ k other.symm]
        change Reading S d t.clock ((s.setCall k (.got d)).calls k)
        rw [calls_setCall_same]
        exact rfl
      obtain ⟨more', t', runK, -, returnedK, othersK⟩ :=
        exists_finish S second (clockJ ▸ live)
      refine ⟨more ++ more', t', (exec_append runJ more').trans runK, fun atMostOne => ?_⟩
      exact other (atMostOne j k d d (by rw [othersK j other, returnedJ]) returnedK)
  | got e => simp [takeStep, start] at taken
  | deleted e => simp [takeStep, start] at taken
  | returned result => simp [takeStep, start] at taken

end Drover.Protocol
