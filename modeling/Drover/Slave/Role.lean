import Drover.Slave.Operations

/-!
# The role of a shared PC

A shared PC is bound by its document in `slaves`, and told from a master by the role
in its document in `pcs`.  `RegisterSlavePCVersion` writes the role, and a push that
finds no document in `pcs` makes one without it.  Bound PCs keep the role in exactly
the runs where no push does that to a bound PC, and where `BindSlave` can read the
document that it must not bind.
-/

namespace Drover.Slave

open Drover.Store Drover.Transition
open Drover.Push (Fields PushEntry stringField)

variable {α : Type}

/-- The store and the cache of a relay, and what it sends. -/
abbrev RelayMachine (α : Type) := Machine (Doc α) PushEntry Delivery

/-- The hash of the secret that the PC is bound with, or nothing. -/
def secretHash (m : RelayMachine α) (pc : Bytes) : Bytes :=
  match m.docs[slavePath pc]? with
  | some (.slave hash _) => hash
  | _ => []

/-- Every bound PC that has a document in `pcs` has the role there. -/
def SlaveRoles (m : RelayMachine α) : Prop :=
  ∀ pc, ValidPCName pc = true → secretHash m pc ≠ [] →
    ∀ d, m.docs[pcPath pc]? = some d → d.role = slaveRole

/-- A merge into `pcs/{pc}` of a bound PC finds its document. -/
def MergeFinds (m : RelayMachine α) (choice : Choice) (path : Path) : Prop :=
  choice.write.applied = true → ∀ pc, ValidPCName pc = true → path = pcPath pc →
    secretHash m pc ≠ [] → m.docs[path]? ≠ none

/-- A binding whose read fails finds no master. -/
def BindReads (m : RelayMachine α) (choice : Choice) (pc : Bytes) : Prop :=
  choice.write.applied = true → choice.read = false →
    ∀ d, m.docs[pcPath pc]? = some d → d.role = slaveRole

/-- The request is `/slave/push`. -/
def Request.isPush : Request α → Bool
  | .slave _ (.push _) => true
  | _ => false

/-- The PC that the request enrolls. -/
def Request.enrolls : Request α → Option Bytes
  | .enroll _ _ pc _ => some pc
  | _ => none

/-- The operation takes the role from no bound PC. -/
def OpKeepsRoles (m : RelayMachine α) (choice : Choice) (req : Request α) : ClientOp α → Prop
  | .write path _ => req.isPush = true → MergeFinds m choice path
  | .transact .. => ∀ pc ∈ req.enrolls, BindReads m choice pc
  | _ => True

/-- The step takes the role from no bound PC. -/
def KeepsRoles (s : System α) : Label α → Prop
  | .advance r choice =>
      match s.calls r with
      | some ⟨req, _, .op o _⟩ => OpKeepsRoles s.machine choice req o
      | _ => True
  | _ => True

/-! ## Paths -/

section

variable {pc pc' id : Bytes}

theorem pcPath_eq_iff : pcPath pc = pcPath pc' ↔ pc = pc' := docPath_inj

theorem slavePath_eq_iff : slavePath pc = slavePath pc' ↔ pc = pc' := docPath_inj

theorem pcPath_ne_slavePath : pcPath pc ≠ slavePath pc' :=
  docPath_ne (by decide) (by decide) (by decide)

/-- The path is of no document in `pcs` or `slaves`. -/
def Elsewhere (path : Path) : Prop :=
  ∀ pc, ValidPCName pc = true → pcPath pc ≠ path ∧ slavePath pc ≠ path

theorem elsewhere_docPath {col : Path} (top : slash ∉ col) (notPCs : ascii "pcs" ≠ col)
    (notSlaves : ascii "slaves" ≠ col) (id : Bytes) : Elsewhere (docPath col id) := by
  intro pc valid
  constructor
  · exact docPath_ne (by decide) top notPCs
  · exact docPath_ne (by decide) top notSlaves

/-- A document with a nested id is none of these. -/
theorem elsewhere_nested {col : Path} (top : slash ∉ col) (nested : slash ∈ id) :
    Elsewhere (docPath col id) := by
  intro pc valid
  constructor
  · rw [pcPath, Ne, docPath_eq_iff (by decide) top]
    rintro ⟨-, rfl⟩
    exact slash_notMem_of_valid valid nested
  · rw [slavePath, Ne, docPath_eq_iff (by decide) top]
    rintro ⟨-, rfl⟩
    exact slash_notMem_of_valid valid nested

theorem elsewhere_sessionPath (pc id : Bytes) : Elsewhere (sessionPath pc id) := by
  rw [sessionPath_eq]
  exact elsewhere_nested (by decide) (by simp)

theorem elsewhere_commandPath (pc id : Bytes) : Elsewhere (commandPath pc id) := by
  rw [commandPath_eq]
  exact elsewhere_nested (by decide) (by simp)

end

/-! ## Writes -/

section

variable {m m' : RelayMachine α}

/-- The roles depend on the documents of `pcs` and `slaves` only. -/
theorem slaveRoles_congr (same : ∀ pc, ValidPCName pc = true →
      m'.docs[pcPath pc]? = m.docs[pcPath pc]? ∧ m'.docs[slavePath pc]? = m.docs[slavePath pc]?) :
    SlaveRoles m' ↔ SlaveRoles m := by
  apply forall₂_congr
  intro pc valid
  rw [secretHash, secretHash, (same pc valid).1, (same pc valid).2]

theorem slaveRoles_elsewhere {path : Path} (elsewhere : Elsewhere path) (outcome : Outcome)
    (change : Option (Doc α) → Option (Doc α)) :
    SlaveRoles { m with docs := changeDocument m.docs outcome path change } ↔ SlaveRoles m := by
  apply slaveRoles_congr
  intro pc valid
  exact ⟨changeDocument_of_ne (elsewhere pc valid).1, changeDocument_of_ne (elsewhere pc valid).2⟩

/-- Deletions keep the roles. -/
theorem slaveRoles_delete (roles : SlaveRoles m) (outcome : Outcome) (path : Path) :
    SlaveRoles { m with docs := changeDocument m.docs outcome path fun _ => none } := by
  have kept : ∀ (path' : Path) (d : Doc α),
      (changeDocument m.docs outcome path fun _ => none)[path']? = some d →
      m.docs[path']? = some d := by
    intro path' d found
    by_cases same : path' = path
    · rw [same] at found ⊢
      rw [changeDocument_same] at found
      split at found
      · cases found
      · exact found
    · rwa [changeDocument_of_ne same] at found
  intro pc valid bound d found
  refine roles pc valid ?_ d (kept _ d found)
  rw [secretHash] at bound ⊢
  cases secret : (changeDocument m.docs outcome path fun _ => none)[slavePath pc]? with
  | none => simp [secret] at bound
  | some doc =>
      rw [secret] at bound
      rw [kept _ _ secret]
      exact bound

/-- What a write of `pcs/{pc}` keeps. -/
theorem slaveRoles_pc (roles : SlaveRoles m) (outcome : Outcome) (pc : Bytes)
    (change : Option (Doc α) → Option (Doc α)) :
    SlaveRoles { m with docs := changeDocument m.docs outcome (pcPath pc) change } ↔
      (outcome.applied = true → ValidPCName pc = true → secretHash m pc ≠ [] →
        ∀ d, change m.docs[pcPath pc]? = some d → d.role = slaveRole) := by
  have bound : ∀ pc', secretHash
      { m with docs := changeDocument m.docs outcome (pcPath pc) change } pc' =
        secretHash m pc' := by
    intro pc'
    rw [secretHash, secretHash, changeDocument_of_ne pcPath_ne_slavePath.symm]
  constructor
  · intro after applied valid isBound d changed
    apply after pc valid ((bound pc).symm ▸ isBound) d
    change (changeDocument m.docs outcome (pcPath pc) change)[pcPath pc]? = some d
    rw [changeDocument_same, if_pos applied, changed]
  · intro keeps pc' valid isBound d found
    rw [bound] at isBound
    change (changeDocument m.docs outcome (pcPath pc) change)[pcPath pc']? = some d at found
    by_cases same : pcPath pc' = pcPath pc
    · cases pcPath_eq_iff.mp same
      rw [changeDocument_same] at found
      split at found
      · rename_i applied
        exact keeps applied valid isBound d found
      · exact roles pc valid isBound d found
    · rw [changeDocument_of_ne same] at found
      exact roles pc' valid isBound d found

/-- What binding a PC keeps. -/
theorem slaveRoles_bind (roles : SlaveRoles m) (outcome : Outcome) {pc hash : Bytes}
    (valid : ValidPCName pc = true) (isHash : hash ≠ []) (revoked : Bool) :
    SlaveRoles { m with
        docs := changeDocument m.docs outcome (slavePath pc) fun _ => some (.slave hash revoked) } ↔
      (outcome.applied = true → ∀ d, m.docs[pcPath pc]? = some d → d.role = slaveRole) := by
  have pcs : ∀ pc', (changeDocument m.docs outcome (slavePath pc)
      fun _ => some (.slave hash revoked))[pcPath pc']? = m.docs[pcPath pc']? :=
    fun pc' => changeDocument_of_ne pcPath_ne_slavePath
  constructor
  · intro after applied d found
    refine after pc valid ?_ d ((pcs pc).trans found)
    rw [secretHash, changeDocument_same, if_pos applied]
    exact isHash
  · intro keeps pc' valid' isBound d found
    rw [pcs] at found
    by_cases same : pc' = pc
    · subst same
      by_cases applied : outcome.applied = true
      · exact keeps applied d found
      · rw [secretHash, changeDocument_same, if_neg applied] at isBound
        exact roles pc' valid isBound d found
    · rw [secretHash, changeDocument_of_ne (fun eq => same (slavePath_eq_iff.mp eq))] at isBound
      exact roles pc' valid' isBound d found

theorem role_slavePC (pc agentVersion stamp : Bytes) :
    (Doc.fields (slavePC (α := α) pc agentVersion stamp)).role = slaveRole := by
  have notVersion : roleKey ≠ ascii "cm_version" := by decide
  have isRole : slavePC (α := α) pc agentVersion stamp roleKey = some (.string slaveRole) := by
    rw [slavePC]
    split
    · rw [Function.update_of_ne notVersion, Function.update_self]
    · rw [Function.update_self]
  rw [Doc.role, Doc.data, stringField, isRole]

/-- A merge keeps the role that there was. -/
theorem role_parent (pc stamp : Bytes) (old : Option (Doc α)) :
    (Doc.fields (parent pc stamp old)).role = old.elim [] Doc.role := by
  have notID : roleKey ≠ ascii "id" := by decide
  have notStamp : roleKey ≠ ascii "updated_at" := by decide
  have notKind : roleKey ≠ ascii "agent_kind" := by decide
  simp only [Doc.role, Doc.data, stringField, parent, Function.update_of_ne notID,
    Function.update_of_ne notStamp, Function.update_of_ne notKind]
  cases old <;> rfl

theorem slaveRoles_parent (roles : SlaveRoles m) (outcome : Outcome) (pc stamp : Bytes) :
    SlaveRoles { m with
        docs := changeDocument m.docs outcome (pcPath pc) fun old =>
          some (.fields (parent pc stamp old)) } ↔
      (outcome.applied = true → ∀ pc', ValidPCName pc' = true → pcPath pc = pcPath pc' →
        secretHash m pc' ≠ [] → m.docs[pcPath pc]? ≠ none) := by
  rw [slaveRoles_pc roles]
  constructor
  · rintro keeps applied pc' valid same bound missing
    cases pcPath_eq_iff.mp same
    have role := keeps applied valid bound _ rfl
    rw [role_parent, missing] at role
    exact absurd role.symm (by decide : slaveRole ≠ [])
  · intro finds applied valid bound d changed
    cases changed
    rw [role_parent]
    obtain ⟨old, found⟩ := Option.ne_none_iff_exists'.mp (finds applied pc valid rfl bound)
    rw [found]
    exact roles pc valid bound old found

end

/-! ## Runs -/

theorem sha256Hex_ne_nil (server : Server α) (s : Bytes) : server.sha256Hex s ≠ [] := by
  intro empty
  have length : (server.sha256Hex s).length = 64 := by
    simp [Server.sha256Hex, encodeHex]
  rw [empty] at length
  cases length

theorem opKeepsRoles_elsewhere {m : RelayMachine α} {path : Path} (elsewhere : Elsewhere path)
    (choice : Choice) (req : Request α) (change : Option (Doc α) → Option (Doc α)) :
    OpKeepsRoles m choice req (.write path change) :=
  fun _ _ pc valid same => absurd same.symm (elsewhere pc valid).1

theorem slaveRoles_slaveOp {m : RelayMachine α} (roles : SlaveRoles m) (choice : Choice)
    (authorization : Bytes) {pc : Bytes} {req : SlaveRequest α} {o : ClientOp α}
    (does : SlaveOp pc req o) :
    SlaveRoles (m.after choice o) ↔ OpKeepsRoles m choice (.slave authorization req) o := by
  have writes : ∀ {path : Path} (change : Option (Doc α) → Option (Doc α)), Elsewhere path →
      (SlaveRoles (m.after choice (.write path change)) ↔
        OpKeepsRoles m choice (.slave authorization req) (.write path change)) :=
    fun change elsewhere => iff_of_true ((slaveRoles_elsewhere elsewhere ..).mpr roles)
      (opKeepsRoles_elsewhere elsewhere choice _ change)
  cases does with
  | now | isRevoked | slaveRevoked | getSession | listSessions | lookup | remember | getWebhook
  | send | getWake | getRelay | listCommands => exact iff_of_true roles trivial
  | register stamp =>
      refine iff_of_true ((slaveRoles_pc roles ..).mpr fun _ _ _ d changed => ?_) nofun
      cases changed
      exact role_slavePC ..
  | parent stamp =>
      apply (slaveRoles_parent roles choice.write pc stamp).trans
      exact ⟨fun finds _ => finds, fun finds => finds rfl⟩
  | setSession id change => exact writes change (elsewhere_sessionPath pc id)
  | grant sid exp =>
      exact writes _ (elsewhere_docPath (by decide) (by decide) (by decide) _)
  | ack id => exact writes _ (elsewhere_commandPath pc id)
  | claim id =>
      refine iff_of_true ?_ nofun
      change SlaveRoles { m with docs := m.transaction choice _ _ claimChange }
      rw [Machine.transaction]
      split
      · exact roles
      · exact (slaveRoles_elsewhere (elsewhere_commandPath pc id) ..).mpr roles

/-- The transaction of a binding keeps the roles, unless its read fails. -/
theorem slaveRoles_bindSlave {m : RelayMachine α} (roles : SlaveRoles m) (choice : Choice)
    {pc hash : Bytes} (valid : ValidPCName pc = true) (isHash : hash ≠ []) :
    SlaveRoles { m with
        docs := m.transaction choice (pcPath pc) (slavePath pc) (bindChange hash) } ↔
      (choice.write.applied = true → choice.read = false →
        ∀ d, m.docs[pcPath pc]? = some d → d.role = slaveRole) := by
  cases readOk : choice.read with
  | false =>
      have docs : m.transaction choice (pcPath pc) (slavePath pc) (bindChange hash) =
          changeDocument m.docs choice.write (slavePath pc) fun _ => some (.slave hash false) := by
        rw [Machine.transaction, readDocument, readOk]
        rfl
      rw [docs, slaveRoles_bind roles choice.write valid isHash false]
      exact ⟨fun keeps applied _ => keeps applied, fun keeps applied => keeps applied rfl⟩
  | true =>
      refine iff_of_true ?_ fun _ failed => by cases failed
      rw [Machine.transaction, readDocument, readOk, if_pos rfl]
      cases found : m.docs[pcPath pc]? with
      | none =>
          apply (slaveRoles_bind roles choice.write valid isHash false).mpr
          intro _ d same
          cases found.symm.trans same
      | some d =>
          by_cases isSlave : d.role = slaveRole
          · simp only [bindChange, bindable, isSlave, decide_true, if_true]
            apply (slaveRoles_bind roles choice.write valid isHash false).mpr
            intro _ d' same
            cases found.symm.trans same
            exact isSlave
          · simp only [bindChange, bindable, isSlave, decide_false, Bool.false_eq_true, if_false]
            exact roles

/-- One step keeps the roles exactly if it takes none. -/
theorem slaveRoles_step {server : Server α} {s s' : System α} {label : Label α}
    (does : s.Calls (fun _ => True) (Does server)) (roles : SlaveRoles s.machine)
    (internal : label.Begins fun _ => True) (taken : server.step s label = some s') :
    SlaveRoles s'.machine ↔ KeepsRoles s label := by
  cases stepped_of_step taken with
  | tick later => exact iff_of_true roles trivial
  | external path doc => exact internal.elim
  | begin input unused => exact iff_of_true roles trivial
  | @advance r c o next choice running isOp =>
      obtain ⟨input, past, program⟩ := c
      cases isOp
      have op : Does server input o := (does r _ running).2.1
      change SlaveRoles (s.machine.after choice o) ↔ KeepsRoles s (.advance r choice)
      have keeps : KeepsRoles s (.advance r choice) ↔ OpKeepsRoles s.machine choice input o := by
        rw [KeepsRoles, running]
      rw [keeps]
      cases op with
      | now | tokenSlave | tokenRevoked | gate | getPairing | forget | list =>
          exact iff_of_true roles trivial
      | @slave authorization req pc time _ verified does =>
          exact slaveRoles_slaveOp roles choice authorization does
      | pair codeHash p =>
          have elsewhere : Elsewhere (pairingPath codeHash) :=
            elsewhere_docPath (by decide) (by decide) (by decide) codeHash
          exact iff_of_true ((slaveRoles_elsewhere elsewhere ..).mpr roles) nofun
      | @bind post code pc secret valid =>
          apply (slaveRoles_bindSlave roles choice valid (sha256Hex_ne_nil server secret)).trans
          exact ⟨fun reads pc' enrolled => by cases enrolled; exact reads,
            fun reads => reads pc rfl⟩
      | @revoke post scope pc =>
          have elsewhere : Elsewhere (revokedPath pc) :=
            elsewhere_docPath (by decide) (by decide) (by decide) pc
          exact iff_of_true ((slaveRoles_elsewhere elsewhere ..).mpr roles) nofun
      | enrollDeletes path | deletes path =>
          exact iff_of_true (slaveRoles_delete roles choice.write path) nofun

/-- In the runs of the endpoints, where no master registers, every bound PC keeps its
role exactly if no push makes the document of a bound PC anew, and no binding whose read
fails finds a master. -/
theorem slaveRoles_iff_keepsRoles (server : Server α) {labels : List (Label α)}
    (internal : ∀ label ∈ labels, label.Begins fun _ => True) :
    Always server.step (fun s => SlaveRoles s.machine) {} labels ↔
      Along server.step KeepsRoles {} labels := by
  have start : SlaveRoles ({} : System α).machine := by
    intro pc valid bound d found
    rw [Std.ExtTreeMap.getElem?_empty] at found
    cases found
  have idle : ({} : System α).Calls (fun _ => True) (Does server) := by
    intro r c running
    cases running
  have preserved : ∀ (s : System α) (label : Label α) (s' : System α),
      s.Calls (fun _ => True) (Does server) → (label.Begins fun _ => True) →
      server.step s label = some s' → s'.Calls (fun _ => True) (Does server) :=
    fun _ _ _ does internal taken =>
      does.step (fun req _ => server.handle_only req) internal.input taken
  exact always_iff_along preserved
    (fun _ _ _ does roles internal taken => slaveRoles_step does roles internal taken) idle start
    (along_of_forall_mem internal _)

/-! ## Checking a run -/

/-- The only name that a path in `pcs` can be of. -/
theorem pcPath_eq_iff_childID {path : Path} {pc : Bytes} (valid : ValidPCName pc = true) :
    path = pcPath pc ↔ childID (ascii "pcs") path = some pc := by
  rw [childID_eq_some_iff, pcPath, and_iff_left]
  refine ⟨?_, slash_notMem_of_valid valid⟩
  rintro rfl
  exact absurd valid (by decide)

instance (m : RelayMachine α) (choice : Choice) (path : Path) :
    Decidable (MergeFinds m choice path) :=
  decidable_of_iff
    (choice.write.applied = true → ∀ pc ∈ childID (ascii "pcs") path, ValidPCName pc = true →
      secretHash m pc ≠ [] → m.docs[path]? ≠ none)
    (forall_congr' fun _ =>
      ⟨fun finds pc valid same => finds pc ((pcPath_eq_iff_childID valid).mp same) valid,
        fun finds pc mem valid => finds pc valid ((pcPath_eq_iff_childID valid).mpr mem)⟩)

instance (m : RelayMachine α) (choice : Choice) (pc : Bytes) : Decidable (BindReads m choice pc) :=
  decidable_of_iff
    (choice.write.applied = true → choice.read = false →
      ∀ d ∈ m.docs[pcPath pc]?, d.role = slaveRole) Iff.rfl

instance (m : RelayMachine α) (choice : Choice) (req : Request α) :
    (o : ClientOp α) → Decidable (OpKeepsRoles m choice req o)
  | .write path _ => inferInstanceAs (Decidable (req.isPush = true → MergeFinds m choice path))
  | .transact .. => inferInstanceAs (Decidable (∀ pc ∈ req.enrolls, BindReads m choice pc))
  | .get _ | .list _ | .lookup _ | .remember .. | .forget _ | .now | .emit _ => isTrue trivial

instance (s : System α) : (label : Label α) → Decidable (KeepsRoles s label)
  | .tick _ | .external .. | .begin .. => isTrue trivial
  | .advance r choice =>
      match running : s.calls r with
      | some ⟨req, _, .op o _⟩ =>
          decidable_of_iff (OpKeepsRoles s.machine choice req o) (by rw [KeepsRoles, running])
      | some ⟨_, _, .reply _⟩ | none => isTrue (by rw [KeepsRoles, running]; trivial)

/-- Then it registers and pushes a session. -/
def registeredPushLabels : List (Label Unit) :=
  enrollLabels ++
    callLabels 3 (.slave (sampleAuthorization (ascii "mac")) (.register (ascii "v1"))) 5 ++
    callLabels 4 (.slave (sampleAuthorization (ascii "mac"))
      (.push (some [sampleSession (ascii "w1")]))) 13

/-- It pushes a session without registering. -/
def unregisteredPushLabels : List (Label Unit) :=
  enrollLabels ++
    callLabels 3 (.slave (sampleAuthorization (ascii "mac"))
      (.push (some [sampleSession (ascii "w1")]))) 13

/-- A PC that registers before it pushes keeps its role. -/
theorem registeredPush_keeps :
    Always sampleServer.step (fun s => SlaveRoles s.machine) {} registeredPushLabels ∧
      (exec sampleServer.step {} registeredPushLabels).map (fun s =>
        (s.answer 3, s.answer 4)) = some (some .ok, some (.changed 1)) := by
  constructor
  · exact (slaveRoles_iff_keepsRoles sampleServer (by decide +kernel)).mpr (by decide +kernel)
  · decide +kernel

/-- The push of a PC that was enrolled and has not registered makes its document
without the role. -/
theorem unregisteredPush_unmarked :
    ¬ ∀ labels : List (Label Unit), (∀ label ∈ labels, label.Begins fun _ => True) →
      Always sampleServer.step (fun s => SlaveRoles s.machine) {} labels := by
  intro all
  have ends : (exec sampleServer.step {} unregisteredPushLabels).map (fun s =>
      (secretHash s.machine (ascii "mac") ≠ [] : Bool)) = some true ∧
      (exec sampleServer.step {} unregisteredPushLabels).map (fun s =>
        s.machine.docs[pcPath (ascii "mac")]?.map Doc.role) = some (some []) := by
    decide +kernel
  obtain ⟨bound, unmarked⟩ := ends
  obtain ⟨s, run, isBound⟩ := Option.map_eq_some_iff.mp bound
  rw [run, Option.map_some, Option.some.injEq] at unmarked
  obtain ⟨d, found, noRole⟩ := Option.map_eq_some_iff.mp unmarked
  have roles := (all unregisteredPushLabels (by decide +kernel)).last run
  have role := roles (ascii "mac") (by decide) (of_decide_eq_true isBound) d found
  rw [noRole] at role
  exact absurd role (by decide)

end Drover.Slave
