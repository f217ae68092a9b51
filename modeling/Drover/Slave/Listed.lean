import Drover.Slave.Role
import Drover.Store.Runs

/-!
# The listing of a pushed PC

`pushSessions` writes `pcs/{pc}` last, only if a session has changed, and drops the error;
an error of a session ends the push before it.  So a PC whose sessions are stored may stay
out of the list until one of them changes.  `pushed_stays_listed` says which failures do no
harm.
-/

namespace Drover.Slave

open Drover.Store
open Drover.Push (Fields PushEntry)

variable {α : Type}

/-! ## Calls for a PC -/

/-- A call of the client for a PC. -/
inductive PCCall (α : Type) where
  | pushSessions (sessions : List (Fields α))
  | deleteSessionFor (key : Bytes)
  | deletePCByID

/-- The call, and whether it returns no error. -/
def PCCall.program (server : Server α) (pc : Bytes) : PCCall α → Client α Bool
  | .pushSessions sessions => do
      let changed ← pushStatusFor server pc sessions
      pure changed.isSome
  | .deleteSessionFor key => Slave.deleteSessionFor pc key
  | .deletePCByID => Slave.deletePCByID pc

/-- A call at a time, with what the environment decides. -/
structure PCTurn (α : Type) where
  call : PCCall α
  clock : Nat
  choices : Nat → Choice

namespace PCTurn

variable (server : Server α) (pc : Bytes) (t : PCTurn α) (m : RelayMachine α)

/-- The machine after the call, and whether it has returned no error. -/
def run : RelayMachine α × Bool :=
  (t.call.program server pc).run t.choices { m with clock := t.clock }

/-- What the call has performed. -/
def steps : List (Performed (Doc α) PushEntry Delivery) :=
  (t.call.program server pc).performed t.choices { m with clock := t.clock }

end PCTurn

/-- The machine after the calls. -/
def runTurns (server : Server α) (pc : Bytes) (m : RelayMachine α) (ts : List (PCTurn α)) :
    RelayMachine α :=
  ts.foldl (fun m t => (t.run server pc m).1) m

/-! ## Lists of PCs -/

/-- `ListPCs`. -/
def listPCs : Client α (Option (List Bytes)) := do
  let docs ← Prog.list (ascii "pcs")
  pure (docs.map fun docs => docs.map Prod.fst)

/-- `DroverPCs`. -/
def droverPCs : Client α (Option (List Bytes)) := do
  let docs ← Prog.list (ascii "pcs")
  pure (docs.map fun docs => (docs.filter fun p =>
    Push.stringField p.2.data (ascii "agent_kind") = ascii "herdr-drover").map Prod.fst)

/-- The document is that of a PC of the agent. -/
def ListedDoc (pc : Bytes) (doc : Option (Doc α)) : Prop :=
  ∃ d, doc = some d ∧ d.data (ascii "id") = some (.string pc) ∧
    d.data (ascii "agent_kind") = some (.string (ascii "herdr-drover"))

/-- The PC is listed as one of the agent. -/
def Listed (pc : Bytes) (m : RelayMachine α) : Prop := ListedDoc pc m.docs[pcPath pc]?

/-- The path is below `pcs/{pc}/sessions`. -/
def UnderSessions (pc : Bytes) (path : Path) : Prop :=
  (sessionsCol pc ++ [slash]).isPrefixOf path = true

/-- A document below the sessions of the PC is stored. -/
def HasSessions (pc : Bytes) (m : RelayMachine α) : Prop :=
  ∃ path, UnderSessions pc path ∧ m.docs[path]? ≠ none

/-- A PC with a session is listed. -/
def ListedIfStored (pc : Bytes) (m : RelayMachine α) : Prop := HasSessions pc m → Listed pc m

/-! ## Failures that do no harm -/

/-- A push of a PC that is not listed stores no session, or writes `pcs/{pc}` in the end; a
deletion of `pcs/{pc}` deletes all that is stored below its sessions. -/
def Keeps (server : Server α) (pc : Bytes) (t : PCTurn α) (m : RelayMachine α) : Prop :=
  match t.call with
  | .pushSessions _ =>
      Listed pc m ∨ ((∃ id, TakesEffect (t.steps server pc m) (sessionPath pc id)) →
        TakesEffect (t.steps server pc m) (pcPath pc))
  | .deleteSessionFor _ => True
  | .deletePCByID =>
      TakesEffect (t.steps server pc m) (pcPath pc) →
        ∀ path, UnderSessions pc path → m.docs[path]? ≠ none →
          TakesEffect (t.steps server pc m) path

/-- No failure in the turns does harm. -/
def KeepsAll (server : Server α) (pc : Bytes) (m : RelayMachine α) : List (PCTurn α) → Prop
  | [] => True
  | t :: ts => Keeps server pc t m ∧ KeepsAll server pc (t.run server pc m).1 ts

section

variable {server : Server α} {pc : Bytes} {m : RelayMachine α} {t : PCTurn α}

theorem shown_of_listed (listed : Listed pc m) (named : pc ≠ []) (noSlash : slash ∉ pc)
    (choices : Nat → Choice) (read : (choices 0).read = true) :
    (∃ pcs, (listPCs.run choices m).2 = some pcs ∧ pc ∈ pcs) ∧
      ∃ pcs, (droverPCs.run choices m).2 = some pcs ∧ pc ∈ pcs := by
  obtain ⟨d, found, -, kind⟩ := listed
  have mem : (pc, d) ∈ listDocuments m.docs (ascii "pcs") :=
    mem_listDocuments.mpr ⟨found, named, noSlash⟩
  have result : m.result (choices 0) (.list (ascii "pcs")) =
      some (listDocuments m.docs (ascii "pcs")) := if_pos read
  constructor
  · refine ⟨_, congrArg (Option.map _) result, ?_⟩
    exact List.mem_map_of_mem mem
  · refine ⟨_, congrArg (Option.map _) result, ?_⟩
    apply List.mem_map.mpr
    refine ⟨(pc, d), List.mem_filter.mpr ⟨mem, ?_⟩, rfl⟩
    simp [Push.stringField, kind]

theorem underSessions_iff {path : Path} :
    UnderSessions pc path ↔ ∃ id, path = sessionPath pc id := by
  rw [UnderSessions, List.isPrefixOf_iff_prefix]
  constructor
  · rintro ⟨id, rfl⟩
    exact ⟨id, (docPath_eq _ _).symm⟩
  · rintro ⟨id, rfl⟩
    exact ⟨id, (docPath_eq _ _).symm⟩

theorem listedDoc_parent (pc stamp : Bytes) (old : Option (Doc α)) :
    ListedDoc pc (some (.fields (parent pc stamp old))) := by
  have idNotStamp : ascii "id" ≠ ascii "updated_at" := by decide
  have idNotKind : ascii "id" ≠ ascii "agent_kind" := by decide
  refine ⟨_, rfl, ?_, ?_⟩
  · simp [Doc.data, parent, Function.update_of_ne idNotStamp, Function.update_of_ne idNotKind]
  · simp [Doc.data, parent]

theorem PushOp.makes_listed {o : ClientOp α} (does : PushOp server pc o) :
    o.Makes (pcPath pc) (ListedDoc pc) := by
  intro isTarget
  cases does with
  | now | getSession | lookup | remember => cases isTarget
  | setSession => exact absurd (Option.some.inj isTarget) (sessionPath_ne_own_pcPath pc _)
  | parent stamp => exact ⟨_, rfl, listedDoc_parent pc stamp⟩

theorem PushOp.makes_some {o : ClientOp α} (does : PushOp server pc o) (path : Path) :
    o.Makes path fun doc => doc ≠ none := by
  intro isTarget
  cases does with
  | now | getSession | lookup | remember => cases isTarget
  | setSession | parent =>
      cases isTarget
      exact ⟨_, rfl, fun _ => Option.some_ne_none _⟩

theorem DeleteOp.makes_none {o : ClientOp α} (deletes : DeleteOp pc o) (path : Path) :
    o.Makes path fun doc => doc = none := by
  intro isTarget
  cases deletes with
  | forget | list => cases isTarget
  | deletes path' =>
      cases isTarget
      exact ⟨_, rfl, fun _ => rfl⟩

theorem deleteSessionFor_makes {key : Bytes} {path : Path} {P : Option (Doc α) → Prop}
    (makes : path = sessionPath pc key → P none) :
    (deleteSessionFor (α := α) pc key).Only (Op.Makes path P) := by
  rw [deleteSessionFor]
  split
  · exact .pure _
  · refine .bind (.op fun isTarget => ?_) fun _ => .op fun isTarget => ?_
    · cases isTarget
    · cases isTarget
      exact ⟨_, rfl, fun _ => makes rfl⟩

/-! ### Calls -/

theorem PCTurn.unchanged {path : Path} (noEffect : ¬TakesEffect (t.steps server pc m) path) :
    (t.run server pc m).1.docs[path]? = m.docs[path]? :=
  Prog.ensures_docs _ { m with clock := t.clock } path t.choices noEffect

theorem PCTurn.makes {path : Path} {P : Option (Doc α) → Prop}
    (only : (t.call.program server pc).Only (Op.Makes path P))
    (holds : TakesEffect (t.steps server pc m) path ∨ P m.docs[path]?) :
    P (t.run server pc m).1.docs[path]? :=
  only.makes (m := { m with clock := t.clock }) t.choices holds

theorem pushed_iff {sessions : List (Fields α)} (isPush : t.call = .pushSessions sessions)
    (before : ListedIfStored pc m) :
    ListedIfStored pc (t.run server pc m).1 ↔ Keeps server pc t m := by
  have only : (t.call.program server pc).Only (PushOp server pc) := by
    rw [isPush]
    exact .bind (pushStatusFor_only server pc sessions) fun _ => .pure _
  have lists : TakesEffect (t.steps server pc m) (pcPath pc) ∨ Listed pc m →
      Listed pc (t.run server pc m).1 := PCTurn.makes (only.imp fun _ does => does.makes_listed)
  rw [Keeps, isPush]
  by_cases listed : Listed pc m
  · exact iff_of_true (fun _ => lists (.inr listed)) (.inl listed)
  · rw [or_iff_right listed]
    constructor
    · rintro after ⟨id, stores⟩
      have stored : HasSessions pc (t.run server pc m).1 :=
        ⟨sessionPath pc id, underSessions_iff.mpr ⟨id, rfl⟩,
          PCTurn.makes (only.imp fun _ does => does.makes_some _) (.inl stores)⟩
      by_contra noEffect
      have listedAfter := after stored
      rw [Listed, PCTurn.unchanged noEffect] at listedAfter
      exact listed listedAfter
    · rintro keeps ⟨path, under, present⟩
      apply lists
      left
      apply keeps
      obtain ⟨id, rfl⟩ := underSessions_iff.mp under
      by_contra noEffect
      rw [PCTurn.unchanged fun effect => noEffect ⟨id, effect⟩] at present
      exact listed (before ⟨_, under, present⟩)

theorem deleted_iff (isDelete : t.call = .deletePCByID) (before : ListedIfStored pc m) :
    ListedIfStored pc (t.run server pc m).1 ↔ Keeps server pc t m := by
  have deletes : ∀ path, TakesEffect (t.steps server pc m) path →
      (t.run server pc m).1.docs[path]? = none := by
    intro path effect
    apply PCTurn.makes (P := fun doc => doc = none) _ (.inl effect)
    rw [isDelete]
    exact (deletePCByID_only pc).imp fun _ deletes => deletes.makes_none path
  rw [Keeps, isDelete]
  constructor
  · intro after effect path under present
    by_contra noEffect
    rw [← PCTurn.unchanged noEffect] at present
    obtain ⟨d, found, -⟩ := after ⟨path, under, present⟩
    rw [deletes _ effect] at found
    cases found
  · rintro keeps ⟨path, under, present⟩
    have noEffect : ¬TakesEffect (t.steps server pc m) path :=
      fun effect => present (deletes path effect)
    rw [PCTurn.unchanged noEffect] at present
    have parentStays : ¬TakesEffect (t.steps server pc m) (pcPath pc) :=
      fun effect => noEffect (keeps effect path under present)
    rw [Listed, PCTurn.unchanged parentStays]
    exact before ⟨path, under, present⟩

theorem listedIfStored_of_deletedSession {key : Bytes} (isDelete : t.call = .deleteSessionFor key)
    (before : ListedIfStored pc m) : ListedIfStored pc (t.run server pc m).1 := by
  rintro ⟨path, under, present⟩
  have stored : m.docs[path]? ≠ none := by
    intro absent
    apply present
    apply PCTurn.makes (P := fun doc => doc = none) _ (.inr absent)
    rw [isDelete]
    exact deleteSessionFor_makes fun _ => rfl
  have listed := before ⟨path, under, stored⟩
  apply PCTurn.makes _ (.inr listed)
  rw [isDelete]
  exact deleteSessionFor_makes fun same => absurd same.symm (sessionPath_ne_own_pcPath pc key)

/-- What keeps a PC listed. -/
theorem listedIfStored_run_iff (before : ListedIfStored pc m) :
    ListedIfStored pc (t.run server pc m).1 ↔ Keeps server pc t m := by
  cases isCall : t.call with
  | pushSessions sessions => exact pushed_iff isCall before
  | deleteSessionFor key =>
      rw [Keeps, isCall]
      exact iff_true_intro (listedIfStored_of_deletedSession isCall before)
  | deletePCByID => exact deleted_iff isCall before

/-- A PC stays listed in every state of exactly the runs whose calls keep it so. -/
theorem listedIfStored_along_iff (start : ListedIfStored pc m) (ts : List (PCTurn α)) :
    (∀ before after, ts = before ++ after → ListedIfStored pc (runTurns server pc m before)) ↔
      KeepsAll server pc m ts := by
  induction ts generalizing m with
  | nil =>
      refine iff_of_true ?_ trivial
      intro before after split
      rw [(List.append_eq_nil_iff.mp split.symm).1]
      exact start
  | cons t ts ih =>
      rw [KeepsAll, ← listedIfStored_run_iff start]
      constructor
      · intro along
        have next : ListedIfStored pc (t.run server pc m).1 := along [t] ts rfl
        refine ⟨next, (ih next).mp ?_⟩
        intro before after split
        exact along (t :: before) after (congrArg (t :: ·) split)
      · rintro ⟨next, keeps⟩ before after split
        cases before with
        | nil => exact start
        | cons u before =>
            rw [List.cons_append, List.cons.injEq] at split
            obtain ⟨rfl, split⟩ := split
            exact (ih next).mpr keeps before after split

end

/-- After a push that returns no error, a PC that has a session is listed, in every run whose
calls keep it so. -/
theorem pushed_stays_listed (server : Server α) (pc : Bytes) (m : RelayMachine α)
    (ts : List (PCTurn α)) (start : ListedIfStored pc m) (keeps : KeepsAll server pc m ts) :
    ∀ before t after sessions, ts = before ++ t :: after → t.call = .pushSessions sessions →
      (t.run server pc (runTurns server pc m before)).2 = true →
      HasSessions pc (t.run server pc (runTurns server pc m before)).1 →
      Listed pc (t.run server pc (runTurns server pc m before)).1 := by
  intro before t after sessions split _ _ stored
  have along := (listedIfStored_along_iff start ts).mpr keeps
  rw [List.append_cons] at split
  have listed := along (before ++ [t]) after split
  rw [runTurns, List.foldl_append] at listed
  exact listed stored

/-! ### Sample runs -/

/-- A push of a session, all of whose operations succeed. -/
def pushedTurns : List (PCTurn Unit) :=
  [⟨.pushSessions [sampleSession (ascii "a")], 0, fun _ => .ok⟩]

theorem pushedTurns_listed :
    Listed (ascii "mac") (runTurns sampleServer (ascii "mac") {} pushedTurns) := by
  apply pushed_stays_listed sampleServer (ascii "mac") {} pushedTurns _ _ [] _ [] _ rfl rfl
  · decide +kernel
  · refine ⟨sessionPath (ascii "mac") (ascii "a"), underSessions_iff.mpr ⟨_, rfl⟩, ?_⟩
    rw [← Option.isSome_iff_ne_none]
    decide +kernel
  · rintro ⟨path, -, present⟩
    simp at present
  · exact ⟨.inr fun _ => by decide +kernel, trivial⟩

/-- The push of two sessions whose second write fails, and then a push of the first. -/
def interruptedTurns : List (PCTurn Unit) :=
  [⟨.pushSessions [sampleSession (ascii "a"), sampleSession (ascii "b")], 0,
      fun n => if n = 9 then ⟨true, .failed false⟩ else .ok⟩]

theorem interrupted_push_unlisted :
    let m := runTurns sampleServer (ascii "mac") {} interruptedTurns
    let t : PCTurn Unit := ⟨.pushSessions [sampleSession (ascii "a")], 1, fun _ => .ok⟩
    (t.run sampleServer (ascii "mac") m).2 = true ∧
      HasSessions (ascii "mac") (t.run sampleServer (ascii "mac") m).1 ∧
        ¬Listed (ascii "mac") (t.run sampleServer (ascii "mac") m).1 := by
  intro m t
  refine ⟨by decide +kernel, ⟨sessionPath (ascii "mac") (ascii "a"), ?_, ?_⟩, ?_⟩
  · exact underSessions_iff.mpr ⟨_, rfl⟩
  · rw [← Option.isSome_iff_ne_none]
    decide +kernel
  · rintro ⟨d, found, -⟩
    have absent :
        ((t.run sampleServer (ascii "mac") m).1.docs[pcPath (ascii "mac")]?).isNone = true := by
      decide +kernel
    rw [found] at absent
    cases absent

end Drover.Slave
