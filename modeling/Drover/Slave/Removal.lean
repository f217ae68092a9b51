import Drover.Slave.Deletion
import Drover.Slave.Listed

/-!
# A deletion that fails

`deletePC` returns the error of its last deletion only, that of `wake/{pc}`; the errors of
the listing and of the other deletions are dropped.  `deleted_complete_iff` says when a
deletion that returns no error has deleted everything.
-/

namespace Drover.Slave

open Drover.Store
open Drover.Push (PushEntry)

variable {α : Type}

/-- The documents that a deletion of the PC is to delete. -/
def Deletes (pc : Bytes) (path : Path) : Prop := Registered pc path ∨ path = wakePath pc

/-- None of them exists. -/
def Removed (pc : Bytes) (m : RelayMachine α) : Prop :=
  ∀ path, Deletes pc path → m.docs[path]? = none

/-! ## Failures -/

/-- The operations of a call, with what the environment decided. -/
abbrev ClientSteps (α : Type) := List (Performed (Doc α) PushEntry Delivery)

/-- Every listing of the sessions succeeds. -/
def Lists (pc : Bytes) (steps : ClientSteps α) : Prop :=
  ∀ step ∈ steps, step.op = .list (sessionsCol pc) → step.choice.read = true

/-- No deletion of `wake/{pc}` reports an error. -/
def WakeOk (pc : Bytes) (steps : ClientSteps α) : Prop :=
  ∀ step ∈ steps, step.op.target = some (wakePath pc) → step.choice.write = .ok

/-- An operation addresses the document. -/
def Addressed (steps : ClientSteps α) (path : Path) : Prop :=
  ∃ step ∈ steps, step.op.target = some path

/-- If there are sessions, they are listed, all of them directly in their collection; and the
deletion of each document that exists takes effect. -/
structure Unharmed (pc : Bytes) (m : RelayMachine α) (steps : ClientSteps α) : Prop where
  listed : HasSessions pc m → Lists pc steps
  direct : ListsAll m (sessionsCol pc)
  applied : ∀ path, m.docs[path]? ≠ none → Addressed steps path → TakesEffect steps path

/-- What a deletion addresses, and when it returns no error. -/
structure DeletionSteps (pc : Bytes) (m : RelayMachine α) (steps : ClientSteps α) (value : Bool) :
    Prop where
  addressed : ∀ path, Addressed steps path ↔
    path = pcPath pc ∨ path = slavePath pc ∨ path = wakePath pc ∨
      (Lists pc steps ∧ ∃ p ∈ listDocuments m.docs (sessionsCol pc), path = sessionPath pc p.1)
  value_iff : value = true ↔ WakeOk pc steps

section

variable {pc : Bytes} {m : RelayMachine α}

theorem addressed_cons {o : ClientOp α} {c : Choice} {steps : ClientSteps α} {path : Path} :
    Addressed (⟨o, c⟩ :: steps) path ↔ o.target = some path ∨ Addressed steps path := by
  simp [Addressed]

theorem addressed_append {steps steps' : ClientSteps α} {path : Path} :
    Addressed (steps ++ steps') path ↔ Addressed steps path ∨ Addressed steps' path := by
  simp only [Addressed, List.mem_append, or_and_right, exists_or]

theorem deleteSessions_steps (docs : List (Bytes × Doc α)) :
    (deleteSessions pc docs).Ensures m fun steps _ _ =>
      (∀ path, Addressed steps path ↔ ∃ p ∈ docs, path = sessionPath pc p.1) ∧
        ∀ step ∈ steps, ∃ id, step.op.target = some (sessionPath pc id) := by
  induction docs generalizing m with
  | nil => exact .pure ⟨fun path => by simp [Addressed], nofun⟩
  | cons p docs ih =>
      apply Prog.Ensures.op
      intro c
      refine ih.imp ?_
      rintro steps m' value ⟨addressed, targets⟩
      constructor
      · intro path
        rw [addressed_cons, addressed, List.exists_mem_cons_iff]
        exact or_congr_left
          ⟨fun same => (Option.some.inj same).symm, fun same => congrArg some same.symm⟩
      · exact List.forall_mem_cons.mpr ⟨⟨p.1, rfl⟩, targets⟩

theorem sessionPath_ne_wakePath (pc id : Bytes) : sessionPath pc id ≠ wakePath pc := by
  rw [sessionPath_eq]
  exact docPath_ne (by decide) (by decide) (by decide)

theorem sessionPath_ne_slavePath (pc id : Bytes) : sessionPath pc id ≠ slavePath pc := by
  rw [sessionPath_eq]
  exact docPath_ne (by decide) (by decide) (by decide)

theorem top_ne_wakePath (pc : Bytes) : pcPath pc ≠ wakePath pc ∧ slavePath pc ≠ wakePath pc := by
  constructor
  · exact docPath_ne (by decide) (by decide) (by decide)
  · exact docPath_ne (by decide) (by decide) (by decide)

/-- The deletions after those of the sessions. -/
def topDeletions (pc : Bytes) (c₁ c₂ c₃ : Choice) : ClientSteps α :=
  [⟨.write (pcPath pc) fun _ => none, c₁⟩, ⟨.write (slavePath pc) fun _ => none, c₂⟩,
    ⟨.write (wakePath pc) fun _ => none, c₃⟩]

theorem addressed_topDeletions {c₁ c₂ c₃ : Choice} {path : Path} :
    Addressed (topDeletions (α := α) pc c₁ c₂ c₃) path ↔
      path = pcPath pc ∨ path = slavePath pc ∨ path = wakePath pc := by
  simp [Addressed, topDeletions, Op.target, eq_comm (a := path)]

theorem lists_iff {c c₁ c₂ c₃ : Choice} {steps : ClientSteps α}
    (targets : ∀ step ∈ steps, ∃ id, step.op.target = some (sessionPath pc id)) :
    Lists pc (⟨.list (sessionsCol pc), c⟩ :: (steps ++ topDeletions pc c₁ c₂ c₃)) ↔
      c.read = true := by
  rw [Lists, List.forall_mem_cons]
  refine ⟨fun lists => lists.1 rfl, fun read => ⟨fun _ => read, ?_⟩⟩
  intro step mem isList
  rcases List.mem_append.mp mem with session | top
  · obtain ⟨id, isTarget⟩ := targets step session
    rw [isList] at isTarget
    cases isTarget
  · simp only [topDeletions, List.mem_cons, List.not_mem_nil, or_false] at top
    rcases top with rfl | rfl | rfl <;> cases isList

theorem wakeOk_iff {c c₁ c₂ c₃ : Choice} {steps : ClientSteps α}
    (targets : ∀ step ∈ steps, ∃ id, step.op.target = some (sessionPath pc id)) :
    WakeOk pc (⟨.list (sessionsCol pc), c⟩ :: (steps ++ topDeletions pc c₁ c₂ c₃)) ↔
      c₃.write = .ok := by
  constructor
  · intro wakeOk
    exact wakeOk ⟨.write (wakePath pc) fun _ => none, c₃⟩ (by simp [topDeletions]) rfl
  · intro isOk step mem isTarget
    rcases List.mem_cons.mp mem with rfl | mem
    · cases isTarget
    rcases List.mem_append.mp mem with session | top
    · obtain ⟨id, isSession⟩ := targets step session
      rw [isSession] at isTarget
      exact absurd (Option.some.inj isTarget) (sessionPath_ne_wakePath pc id)
    · simp only [topDeletions, List.mem_cons, List.not_mem_nil, or_false] at top
      rcases top with rfl | rfl | rfl
      · exact absurd (Option.some.inj isTarget) (top_ne_wakePath pc).1
      · exact absurd (Option.some.inj isTarget) (top_ne_wakePath pc).2
      · exact isOk

theorem deletePC_steps (named : pc ≠ []) :
    (deletePC pc).Ensures m fun steps _ value => DeletionSteps pc m steps value := by
  rw [deletePC, if_neg named]
  apply Prog.Ensures.op
  intro c
  refine (deleteSessions_steps _).andThen ?_
  rintro steps m' ⟨⟩ ⟨addressed, targets⟩
  apply Prog.Ensures.op
  intro c₁
  apply Prog.Ensures.op
  intro c₂
  apply Prog.Ensures.op
  intro c₃ _
  change DeletionSteps pc m (⟨.list (sessionsCol pc), c⟩ :: (steps ++ topDeletions pc c₁ c₂ c₃))
    (decide (c₃.write = .ok))
  constructor
  · intro path
    rw [lists_iff targets, addressed_cons, addressed_append, addressed]
    have listed : (∃ p ∈ (m.result c (.list (sessionsCol pc))).getD [],
        path = sessionPath pc p.1) ↔
          c.read = true ∧ ∃ p ∈ listDocuments m.docs (sessionsCol pc),
            path = sessionPath pc p.1 := by
      rw [Machine.result]
      split
      · rename_i read
        simp [read]
      · rename_i failed
        simp [failed]
    have noTarget : (Op.list (sessionsCol pc) : ClientOp α).target ≠ some path := by
      intro isTarget
      cases isTarget
    rw [listed, addressed_topDeletions, or_iff_right noTarget, or_comm, or_assoc, or_assoc]
  · rw [wakeOk_iff targets]
    exact decide_eq_true_iff

theorem takesEffect_addressed {steps : ClientSteps α} {path : Path}
    (effect : TakesEffect steps path) : Addressed steps path := by
  obtain ⟨step, mem, isTarget, -⟩ := effect
  exact ⟨step, mem, isTarget⟩

/-- What is left is what no deletion has taken effect on. -/
theorem removed_iff {steps : ClientSteps α} {m' : RelayMachine α} {value : Bool}
    (deletion : DeletionSteps pc m steps value)
    (deletes : ∀ path, TakesEffect steps path → m'.docs[path]? = none)
    (kept : ∀ path, ¬TakesEffect steps path → m'.docs[path]? = m.docs[path]?) :
    Removed pc m' ↔ Unharmed pc m steps := by
  have removed : Removed pc m' ↔
      ∀ path, Deletes pc path → m.docs[path]? ≠ none → TakesEffect steps path := by
    apply forall₂_congr
    intro path _
    constructor
    · intro absent present
      by_contra noEffect
      rw [kept path noEffect] at absent
      exact present absent
    · intro effect
      by_contra present
      by_cases stored : m.docs[path]? = none
      · have noEffect : ¬TakesEffect steps path := fun effect => present (deletes path effect)
        exact present ((kept path noEffect).trans stored)
      · exact present (deletes path (effect stored))
  rw [removed]
  constructor
  · intro effects
    have listed : ∀ path, UnderSessions pc path → m.docs[path]? ≠ none →
        Lists pc steps ∧
          ∃ p ∈ listDocuments m.docs (sessionsCol pc), path = sessionPath pc p.1 := by
      intro path under present
      have effect := effects path (.inl (.inr (.inr under))) present
      obtain ⟨id, rfl⟩ := underSessions_iff.mp under
      rcases (deletion.addressed _).mp (takesEffect_addressed effect) with
        isParent | isSlave | isWake | listed
      · exact absurd isParent (sessionPath_ne_own_pcPath pc id)
      · exact absurd isSlave (sessionPath_ne_slavePath pc id)
      · exact absurd isWake (sessionPath_ne_wakePath pc id)
      · exact listed
    constructor
    · rintro ⟨path, under, present⟩
      exact (listed path under present).1
    · rw [listsAll_iff]
      intro path under present
      obtain ⟨-, p, mem, same⟩ := listed path under present
      exact List.mem_map.mpr ⟨p, mem, same.symm⟩
    · intro path present addressed
      apply effects path _ present
      rcases (deletion.addressed _).mp addressed with rfl | rfl | rfl | ⟨-, p, -, rfl⟩
      · exact .inl (.inl rfl)
      · exact .inl (.inr (.inl rfl))
      · exact .inr rfl
      · exact .inl (.inr (.inr (underSessions_iff.mpr ⟨p.1, rfl⟩)))
  · intro unharmed path isDeleted present
    apply unharmed.applied path present
    rw [deletion.addressed]
    rcases isDeleted with (isParent | isSlave | under) | isWake
    · exact .inl isParent
    · exact .inr (.inl isSlave)
    · have mem := listsAll_iff.mp unharmed.direct path under present
      obtain ⟨p, isDoc, rfl⟩ := List.mem_map.mp mem
      exact .inr (.inr (.inr ⟨unharmed.listed ⟨_, under, present⟩, p, isDoc, rfl⟩))
    · exact .inr (.inr (.inl isWake))

theorem deletePCByID_steps (named : pc ≠ []) :
    (deletePCByID pc).Ensures m fun steps _ value => DeletionSteps pc m steps value := by
  apply Prog.Ensures.op
  intro c
  refine (deletePC_steps named).imp ?_
  rintro steps m' value ⟨addressed, value_iff⟩
  have lists : Lists pc (⟨.forget (pc ++ [slash]), c⟩ :: steps) ↔ Lists pc steps := by
    rw [Lists, List.forall_mem_cons]
    exact and_iff_right nofun
  have wakeOk : WakeOk pc (⟨.forget (pc ++ [slash]), c⟩ :: steps) ↔ WakeOk pc steps := by
    rw [WakeOk, List.forall_mem_cons]
    exact and_iff_right nofun
  constructor
  · intro path
    have noTarget : (Op.forget (pc ++ [slash]) : ClientOp α).target ≠ some path := nofun
    rw [addressed_cons, or_iff_right noTarget, addressed, lists]
    rfl
  · rw [wakeOk]
    exact value_iff

/-- A deletion that returns no error has deleted everything. -/
theorem complete_iff {p : Client α Bool} (only : p.Only (DeleteOp pc))
    (deletion : p.Ensures m fun steps _ value => DeletionSteps pc m steps value) :
    p.Ensures m fun steps m' value =>
      (value = true → Removed pc m') ↔ (WakeOk pc steps → Unharmed pc m steps) := by
  intro choices
  have deletes : ∀ path, TakesEffect (p.performed choices m) path →
      (p.run choices m).1.docs[path]? = none := by
    intro path effect
    exact (only.imp fun _ deletes => deletes.makes_none path).makes choices (.inl effect)
  have kept : ∀ path, ¬TakesEffect (p.performed choices m) path →
      (p.run choices m).1.docs[path]? = m.docs[path]? :=
    fun path => p.ensures_docs m path choices
  rw [(deletion choices).value_iff, removed_iff (deletion choices) deletes kept]

end

/-- `DeletePC` and `DeletePCByID` have deleted everything when they return no error exactly if
`wake/{pc}` could not be deleted, or nothing else failed. -/
theorem deleted_complete_iff (pc : Bytes) (m : RelayMachine α) (named : pc ≠ []) :
    ((deletePC pc).Ensures m fun steps m' value =>
        (value = true → Removed pc m') ↔ (WakeOk pc steps → Unharmed pc m steps)) ∧
      (deletePCByID pc).Ensures m fun steps m' value =>
        (value = true → Removed pc m') ↔ (WakeOk pc steps → Unharmed pc m steps) :=
  ⟨complete_iff (deletePC_only pc) (deletePC_steps named),
    complete_iff (deletePCByID_only pc) (deletePCByID_steps named)⟩

/-! ### Sample deletions -/

/-- `mac`, with a session. -/
def pushedStore : RelayMachine Unit where
  docs := .ofList
    [(pcPath (ascii "mac"), Doc.fields (slavePC (ascii "mac") [] [])),
      (slavePath (ascii "mac"), Doc.slave (ascii "secret") false),
      (sessionPath (ascii "mac") (ascii "a"), Doc.fields (sampleSession (ascii "a"))),
      (wakePath (ascii "mac"), Doc.wake (ascii "a") [])]

theorem pushedStore_removed :
    ((deletePCByID (ascii "mac")).run (fun _ => .ok) pushedStore).2 = true ∧
      Removed (ascii "mac") ((deletePCByID (ascii "mac")).run (fun _ => .ok) pushedStore).1 := by
  have isOk := (deletePCByID (ascii "mac")).performed_const .ok pushedStore
  have unharmed : Unharmed (ascii "mac") pushedStore
      ((deletePCByID (ascii "mac")).performed (fun _ => .ok) pushedStore) := by
    constructor
    · intro _ step mem _
      rw [isOk step mem]
      rfl
    · decide +kernel
    · rintro path - ⟨step, mem, isTarget⟩
      exact ⟨step, mem, isTarget, by rw [isOk step mem]; rfl⟩
  have succeeds : ((deletePCByID (ascii "mac")).run (fun _ => .ok) pushedStore).2 = true := by
    decide +kernel
  have complete := (deleted_complete_iff (ascii "mac") pushedStore (by decide)).2 fun _ => .ok
  exact ⟨succeeds, complete.mpr (fun _ => unharmed) succeeds⟩

/-- Only the deletion of `slaves/mac` fails. -/
theorem secret_survives_deletion :
    let choices n := if n = 4 then ⟨true, .failed false⟩ else Choice.ok
    ((deletePCByID (ascii "mac")).run choices pushedStore).2 = true ∧
      ¬Removed (ascii "mac") ((deletePCByID (ascii "mac")).run choices pushedStore).1 := by
  intro choices
  refine ⟨by decide +kernel, ?_⟩
  intro removed
  have absent := removed (slavePath (ascii "mac")) (.inl (.inr (.inl rfl)))
  have present : (((deletePCByID (ascii "mac")).run choices pushedStore).1.docs[
      slavePath (ascii "mac")]?).isSome = true := by
    decide +kernel
  rw [absent] at present
  cases present

end Drover.Slave
