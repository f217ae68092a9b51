import Drover.Slave.Isolation
import Drover.Slave.Revocation

/-!
# A deletion among the requests of a PC

`slaveGuard` looks at `revoked/{pc}` once, before its handler, and `apiDeletePC` lists
the sessions once, after it has marked the PC.  So a request that got past the guard
before the mark may write after the deletion has gone by: `pcs/{pc}` when that is
deleted, or a session when the sessions have been listed.  A deletion of the PC stays
one in exactly the runs without such a write, where it also finds every session in its
listing.
-/

namespace Drover.Slave

open Drover.Store Drover.Transition

variable {α : Type}

/-! ## What a deletion leaves behind -/

/-- The registration of a PC: `pcs/{pc}`, what is under `pcs/{pc}/sessions`, and
`slaves/{pc}`. -/
def Registered (pc : Bytes) (path : Path) : Prop :=
  path = pcPath pc ∨ path = slavePath pc ∨ (sessionsCol pc ++ [slash]).isPrefixOf path = true

instance (pc : Bytes) (path : Path) : Decidable (Registered pc path) :=
  inferInstanceAs (Decidable (_ ∨ _ ∨ _))

/-- After this the deletion does not come back to the document: it has written the
document, or listed its collection without it. -/
def passes (path : Path) : Act α → Bool
  | ⟨_, .write path' _, true⟩ => path' = path
  | ⟨_, .list col, some docs⟩ =>
      (col ++ [slash]).isPrefixOf path && path ∉ docs.map fun p => docPath col p.1
  | _ => false

/-- What a call has done. -/
def pastOf (s : System α) (r : Nat) : List (Act α) :=
  match s.calls r with
  | some c => c.past
  | none => []

/-- The documents of the PC that the deletion has left behind do not exist. -/
def StaysDeleted (r : Nat) (pc : Bytes) (s : System α) : Prop :=
  ∀ path, Registered pc path → (pastOf s r).any (passes path) = true →
    s.machine.docs[path]? = none

/-- Nothing of the PC is registered. -/
def Gone (pc : Bytes) (s : System α) : Prop :=
  ∀ path, Registered pc path → s.machine.docs[path]? = none

/-- Every document below the collection is one of its listing. -/
def ListsAll (m : RelayMachine α) (col : Path) : Prop :=
  ∀ p ∈ m.docs.toList, (col ++ [slash]).isPrefixOf p.1 = true → (childID col p.1).isSome = true

instance (m : RelayMachine α) (col : Path) : Decidable (ListsAll m col) :=
  inferInstanceAs (Decidable (∀ p ∈ m.docs.toList, _))

/-- A request writes no document of the PC that the deletion has left behind, and the
deletion lists every session. -/
def OpTimely (m : RelayMachine α) (deletion : List (Act α)) (pc : Bytes) :
    Request α → ClientOp α → Prop
  | .slave .., .write path change =>
      Registered pc path → deletion.any (passes path) = true → change m.docs[path]? = none
  | .apiDeletePC .., .list col => ListsAll m col
  | _, _ => True

/-- The step comes in time for the deletion `r`. -/
def Timely (r : Nat) (pc : Bytes) (s : System α) : Label α → Prop
  | .advance q _ =>
      match s.calls q with
      | some ⟨req, _, .op o _⟩ => OpTimely s.machine (pastOf s r) pc req o
      | _ => True
  | _ => True

/-- The call `r` is a deletion of the PC, and every other one a request of the PC. -/
def Party (server : Server α) (r : Nat) (pc : Bytes) (q : Nat) (req : Request α) : Prop :=
  if q = r then ∃ post scope, req = .apiDeletePC post scope pc else req.Of server pc

/-- A label of such a run; all its operations succeed. -/
def OneDeletion (server : Server α) (r : Nat) (pc : Bytes) : Label α → Prop
  | .tick _ => True
  | .external .. => False
  | .begin q req => Party server r pc q req
  | .advance _ choice => choice = .ok

/-- Every call is one of them, and keeps to its operations. -/
def Parties (server : Server α) (r : Nat) (pc : Bytes) (s : System α) : Prop :=
  ∀ q c, s.calls q = some c → Party server r pc q c.input ∧ c.program.Only (Does server c.input)

/-! ## Listings -/

theorem mem_listDocuments_iff {docs : Documents (Doc α)} {col path : Path} :
    path ∈ (listDocuments docs col).map (fun p => docPath col p.1) ↔
      docs[path]? ≠ none ∧ (childID col path).isSome = true := by
  constructor
  · intro isListed
    obtain ⟨⟨id, d⟩, mem, rfl⟩ := List.mem_map.mp isListed
    obtain ⟨found, proper⟩ := mem_listDocuments.mp mem
    constructor
    · exact Option.ne_none_iff_exists'.mpr ⟨d, found⟩
    · exact Option.isSome_of_eq_some (childID_eq_some_iff.mpr ⟨rfl, proper⟩)
  · rintro ⟨present, isChild⟩
    obtain ⟨d, found⟩ := Option.ne_none_iff_exists'.mp present
    obtain ⟨id, isID⟩ := Option.isSome_iff_exists.mp isChild
    obtain ⟨rfl, proper⟩ := childID_eq_some_iff.mp isID
    exact List.mem_map.mpr ⟨(id, d), mem_listDocuments.mpr ⟨found, proper⟩, rfl⟩

theorem listsAll_iff {m : RelayMachine α} {col : Path} :
    ListsAll m col ↔ ∀ path, (col ++ [slash]).isPrefixOf path = true → m.docs[path]? ≠ none →
      path ∈ (listDocuments m.docs col).map fun p => docPath col p.1 := by
  constructor
  · intro listsAll path below present
    obtain ⟨d, found⟩ := Option.ne_none_iff_exists'.mp present
    have mem := Std.ExtTreeMap.mem_toList_iff_getElem?_eq_some.mpr found
    exact mem_listDocuments_iff.mpr ⟨present, listsAll _ mem below⟩
  · rintro all ⟨path, d⟩ mem below
    rw [Std.ExtTreeMap.mem_toList_iff_getElem?_eq_some] at mem
    have present : m.docs[path]? ≠ none := by
      rw [mem]
      exact Option.some_ne_none d
    exact (mem_listDocuments_iff.mp (all path below present)).2

/-! ## Steps -/

section

variable {server : Server α} {r : Nat} {pc : Bytes} {s s' : System α} {label : Label α}

theorem Parties.step (parties : Parties server r pc s) (only : OneDeletion server r pc label)
    (taken : server.step s label = some s') : Parties server r pc s' := by
  intro q c found
  rcases Store.calls_of_step taken found with
    old | ⟨req, rfl, -, rfl⟩ | ⟨c, choice, o, next, -, running, isOp, -, rfl⟩
  · exact parties q c old
  · exact ⟨only, server.handle_only req⟩
  · obtain ⟨party, does⟩ := parties q c running
    rw [isOp] at does
    exact ⟨party, does.2 _⟩

theorem pastOf_perform (s : System α) (q : Nat)
    (c : Call (Request α) (Doc α) Push.PushEntry Delivery Reply) (choice : Choice)
    (o : ClientOp α) (next : o.Result → Client α Reply) :
    pastOf (s.perform q c choice o next) r =
      if r = q then s.machine.event choice o :: c.past else pastOf s r := by
  rw [pastOf, State.perform, State.calls_setCall]
  by_cases same : r = q
  · rw [same, Function.update_self, if_pos rfl]
  · rw [Function.update_of_ne same, if_neg same]
    rfl

theorem not_registered_docPath {col : Path} (top : slash ∉ col) (notPCs : col ≠ ascii "pcs")
    (notSlaves : col ≠ ascii "slaves") (id : Bytes) : ¬ Registered pc (docPath col id) := by
  have below : sessionsCol pc ++ [slash] =
      docPath (ascii "pcs") (pc ++ slash :: (ascii "sessions" ++ [slash])) := by
    simp only [sessionsCol, pcPath, docPath, List.append_assoc, List.cons_append]
  rintro (same | same | isPrefix)
  · exact docPath_ne top (by decide) notPCs same
  · exact docPath_ne top (by decide) notSlaves same
  · obtain ⟨rest, same⟩ := List.isPrefixOf_iff_prefix.mp isPrefix
    rw [below, docPath, List.append_assoc, List.cons_append] at same
    exact docPath_ne (by decide) top notPCs.symm same

/-- A request writes a document, or leaves the registration of the PC alone. -/
theorem Does.written_of_request {req : Request α} {o : ClientOp α} (of : req.Of server pc)
    (does : Does server req o) :
    (∃ path change, o = .write path change) ∨
      o.WritesIn (fun path => ¬ Registered pc path) fun _ => True := by
  cases does with
  | now | tokenSlave | tokenRevoked => exact .inr trivial
  | @slave authorization req pc time o verified does =>
      cases does with
      | register | parent | setSession | grant | ack => exact .inl ⟨_, _, rfl⟩
      | now | isRevoked | slaveRevoked | getSession | listSessions | lookup | remember | getWebhook
      | send | getWake | getRelay | listCommands => exact .inr trivial
      | claim id =>
          refine .inr ?_
          change ¬ Registered _ (commandPath _ id)
          rw [commandPath_eq]
          exact not_registered_docPath (by decide) (by decide) (by decide) _
  | gate | pair | getPairing | bind | forget | revoke | list | enrollDeletes | deletes =>
      exact of.elim

/-- What is asked of the documents after an operation. -/
theorem staysDeleted_perform (q : Nat)
    (c : Call (Request α) (Doc α) Push.PushEntry Delivery Reply) (o : ClientOp α)
    (next : o.Result → Client α Reply) :
    StaysDeleted r pc (s.perform q c .ok o next) ↔
      ∀ path, Registered pc path →
        (if r = q then s.machine.event .ok o :: c.past else pastOf s r).any (passes path) = true →
        (s.machine.after .ok o).docs[path]? = none := by
  rw [StaysDeleted, pastOf_perform]
  exact Iff.rfl

/-- A step of a request. -/
theorem staysDeleted_request {q : Nat} {req : Request α} {past : List (Act α)} {o : ClientOp α}
    {next : o.Result → Client α Reply} (other : r ≠ q) (of : req.Of server pc)
    (does : Does server req o) (stays : StaysDeleted r pc s) :
    StaysDeleted r pc (s.perform q ⟨req, past, .op o next⟩ .ok o next) ↔
      OpTimely s.machine (pastOf s r) pc req o := by
  rw [staysDeleted_perform, if_neg other]
  rcases does.written_of_request of with ⟨path, change, rfl⟩ | outside
  · have isSlave : ∃ authorization req', req = .slave authorization req' := by
      cases does with
      | slave => exact ⟨_, _, rfl⟩
      | pair | enrollDeletes | revoke | deletes => exact of.elim
    obtain ⟨authorization, req', rfl⟩ := isSlave
    change (∀ path', _ → _ → (changeDocument s.machine.docs .ok path change)[path']? = none) ↔ _
    constructor
    · intro all registered passed
      have gone := all path registered passed
      rwa [changeDocument_same] at gone
    · intro timely path' registered passed
      by_cases same : path' = path
      · rw [same] at registered passed ⊢
        rw [changeDocument_same]
        exact timely registered passed
      · rw [changeDocument_of_ne same]
        exact stays path' registered passed
  · have same := (outside.after (m := s.machine) .ok).docs
    refine iff_of_true (fun path registered passed => ?_) ?_
    · rw [same path (not_not.mpr registered)]
      exact stays path registered passed
    · cases req with
      | slave =>
          cases o with
          | write path change => exact fun registered => (outside registered).elim
          | get | list | transact | lookup | remember | forget | now | emit => exact trivial
      | token => exact trivial
      | session | apiEnroll | enroll | apiDeletePC => exact of.elim

/-- A step of the deletion. -/
theorem staysDeleted_deletion {post : Bool} {scope : Bytes} {past : List (Act α)}
    {o : ClientOp α} {next : o.Result → Client α Reply}
    (running : s.calls r = some ⟨.apiDeletePC post scope pc, past, .op o next⟩)
    (does : Does server (.apiDeletePC post scope pc) o) (stays : StaysDeleted r pc s) :
    StaysDeleted r pc
        (s.perform r ⟨.apiDeletePC post scope pc, past, .op o next⟩ .ok o next) ↔
      OpTimely s.machine (pastOf s r) pc (.apiDeletePC post scope pc) o := by
  rw [StaysDeleted, pastOf, running] at stays
  simp only at stays
  rw [staysDeleted_perform, if_pos rfl]
  simp only [List.any_cons, Bool.or_eq_true]
  cases does with
  | now | forget =>
      refine iff_of_true (fun path registered passed => ?_) trivial
      exact stays path registered (passed.resolve_left Bool.false_ne_true)
  | revoke =>
      refine iff_of_true (fun path registered passed => ?_) trivial
      have other : path ≠ revokedPath pc := by
        rintro rfl
        exact not_registered_docPath (by decide) (by decide) (by decide) pc registered
      change (changeDocument s.machine.docs .ok (revokedPath pc) _)[path]? = none
      rw [changeDocument_of_ne other]
      refine stays path registered (passed.resolve_left fun isPath => ?_)
      exact other (of_decide_eq_true isPath).symm
  | list =>
      change (∀ path, Registered pc path → ((sessionsCol pc ++ [slash]).isPrefixOf path &&
        decide (path ∉ (listDocuments s.machine.docs (sessionsCol pc)).map _)) = true ∨ _ →
          s.machine.docs[path]? = none) ↔ ListsAll s.machine (sessionsCol pc)
      rw [listsAll_iff]
      simp only [Bool.and_eq_true, decide_eq_true_eq]
      constructor
      · intro all path below present
        by_contra missing
        exact present (all path (.inr (.inr below)) (.inl ⟨below, missing⟩))
      · rintro listsAll path registered (⟨below, missing⟩ | passed)
        · by_contra present
          exact missing (listsAll path below present)
        · exact stays path registered passed
  | deletes path =>
      refine iff_of_true (fun path' registered passed => ?_) trivial
      change (changeDocument s.machine.docs .ok path fun _ => none)[path']? = none
      by_cases same : path' = path
      · rw [same, changeDocument_same]
        rfl
      · rw [changeDocument_of_ne same]
        refine stays path' registered (passed.resolve_left fun isPath => ?_)
        exact same (of_decide_eq_true isPath).symm

theorem staysDeleted_step (parties : Parties server r pc s)
    (only : OneDeletion server r pc label) (taken : server.step s label = some s')
    (stays : StaysDeleted r pc s) : StaysDeleted r pc s' ↔ Timely r pc s label := by
  cases stepped_of_step taken with
  | tick later => exact iff_of_true stays trivial
  | external path doc => exact only.elim
  | @begin q req unused =>
      refine iff_of_true (fun path registered passed => ?_) trivial
      rw [pastOf, State.calls_setCall] at passed
      by_cases same : r = q
      · rw [same, Function.update_self] at passed
        cases passed
      · rw [Function.update_of_ne same] at passed
        exact stays path registered passed
  | @advance q c o next choice running isOp =>
      obtain ⟨req, past, program⟩ := c
      cases isOp
      cases only
      obtain ⟨party, does⟩ := parties q _ running
      have timely : Timely r pc s (.advance q .ok) ↔
          OpTimely s.machine (pastOf s r) pc req o := by
        rw [Timely, running]
      rw [timely]
      rw [Party] at party
      split at party
      · rename_i same
        cases same
        obtain ⟨post, scope, rfl⟩ := party
        exact staysDeleted_deletion running does.1 stays
      · rename_i other
        exact staysDeleted_request (Ne.symm other) party does.1 stays

theorem parties_start (m : RelayMachine α) :
    Parties server r pc ({ machine := m } : System α) := by
  intro q c running
  cases running

/-- What the deletion has left behind stays deleted exactly in the timely runs. -/
theorem staysDeleted_iff_timely {m : RelayMachine α} {labels : List (Label α)}
    (only : ∀ label ∈ labels, OneDeletion server r pc label) :
    Always server.step (StaysDeleted r pc) { machine := m } labels ↔
      Along server.step (Timely r pc) { machine := m } labels := by
  have start : StaysDeleted r pc ({ machine := m } : System α) := by
    intro path registered passed
    cases passed
  have keeps : ∀ s label s', Parties server r pc s → OneDeletion server r pc label →
      server.step s label = some s' → Parties server r pc s' :=
    fun _ _ _ parties only taken => parties.step only taken
  exact always_iff_along keeps
    (fun _ _ _ parties stays only taken => staysDeleted_step parties only taken stays)
    (parties_start m) start (along_of_forall_mem only _)

end

/-! ## The end of the deletion -/

/-- The operation has succeeded. -/
def Succeeded : Act α → Prop
  | ⟨_, .write .., ok⟩ => ok = true
  | ⟨_, .list _, docs⟩ => docs ≠ none
  | _ => True

/-- What succeeded in all its operations has left everything behind. -/
def LeftAll (pc : Bytes) (past : List (Act α)) : Prop :=
  (∀ e ∈ past, Succeeded e) → ∀ path, Registered pc path → past.any (passes path) = true

/-- A deletion that has answered has left everything behind. -/
def LeavesAll (req : Request α) (past : List (Act α)) (value : Reply) : Prop :=
  ∀ post scope pc, req = .apiDeletePC post scope pc → value = .deleted pc → LeftAll pc past

section

variable {pc : Bytes}

theorem passes_of_write {past : List (Act α)} {path : Path} {time : Nat} {ok : Bool}
    (mem : (⟨time, .write path fun _ => none, ok⟩ : Act α) ∈ past)
    (succeeded : ∀ e ∈ past, Succeeded e) : past.any (passes path) = true := by
  cases (succeeded _ mem : ok = true)
  exact List.any_eq_true.mpr ⟨_, mem, decide_eq_true rfl⟩

theorem deleteSessions_along {ends : List (Act α) → Unit → Prop} {past : List (Act α)}
    (docs : List (Bytes × Doc α))
    (done : ∀ past', past <:+ past' →
      (∀ p ∈ docs, ∃ time ok,
        (⟨time, .write (sessionPath pc p.1) fun _ => none, ok⟩ : Act α) ∈ past') →
      ends past' ()) :
    (deleteSessions pc docs).Along (fun _ _ => True) ends past := by
  induction docs generalizing past with
  | nil => exact done past List.suffix_rfl nofun
  | cons p docs ih =>
      refine ⟨trivial, fun time ok _ => ih fun past' longer deleted => ?_⟩
      refine done past' ((List.suffix_cons _ _).trans longer) fun p' mem => ?_
      rcases List.mem_cons.mp mem with rfl | mem
      · exact ⟨time, ok, longer.subset List.mem_cons_self⟩
      · exact deleted p' mem

theorem deletePCByID_along (named : pc ≠ []) (past : List (Act α)) :
    (deletePCByID pc : Client α Bool).Along (fun _ _ => True) (fun past _ => LeftAll pc past)
      past := by
  rw [deletePCByID, deletePC, if_neg named]
  refine ⟨trivial, fun _ _ _ => ⟨trivial, fun time listed _ => ?_⟩⟩
  change Prog.Along (fun _ _ => True) (fun past _ => LeftAll pc past) _
    (deleteSessions pc (listed.getD []) >>= _)
  apply Prog.Along.bind
  apply deleteSessions_along
  intro past' longer deleted
  refine ⟨trivial, fun _ _ _ => ⟨trivial, fun _ _ _ => ⟨trivial, fun _ _ _ => ?_⟩⟩⟩
  intro succeeded path registered
  rcases registered with rfl | rfl | below
  · exact passes_of_write (.tail _ (.tail _ (.head _))) succeeded
  · exact passes_of_write (.tail _ (.head _)) succeeded
  · have isList : (⟨time, .list (sessionsCol pc), listed⟩ : Act α) ∈ past' :=
      longer.subset List.mem_cons_self
    have isOk : listed ≠ none := succeeded _ (.tail _ (.tail _ (.tail _ isList)))
    obtain ⟨docs, rfl⟩ := Option.ne_none_iff_exists'.mp isOk
    by_cases isListed : path ∈ docs.map fun p => docPath (sessionsCol pc) p.1
    · obtain ⟨p, isDoc, rfl⟩ := List.mem_map.mp isListed
      obtain ⟨time, ok, mem⟩ := deleted p isDoc
      exact passes_of_write (.tail _ (.tail _ (.tail _ mem))) succeeded
    · refine List.any_eq_true.mpr ⟨_, .tail _ (.tail _ (.tail _ isList)), ?_⟩
      simp only [passes, below, isListed, not_false_iff, decide_true, Bool.and_self]

theorem Server.handle_leavesAll (server : Server α) (req : Request α) :
    (server.handle req).Along (fun _ _ => True) (LeavesAll req) [] := by
  cases req with
  | apiDeletePC post scope pc =>
      apply apiDeletePC_along
      · rintro past status text _ _ _ - ⟨⟩
      · intro named time
        apply (deletePCByID_along named _).imp fun _ _ _ => trivial
        rintro past ok left - _ _ _ ⟨⟩ -
        exact left
  | token | slave | session | apiEnroll | enroll =>
      exact (Prog.only_true _).along (fun _ _ _ => trivial) fun _ _ _ _ _ _ same => by cases same

end

/-- Every operation of every call has succeeded. -/
def AllSucceed (s : System α) : Prop := ∀ q c, s.calls q = some c → ∀ e ∈ c.past, Succeeded e

section

variable {server : Server α} {r : Nat} {pc : Bytes} {s s' : System α} {label : Label α}

theorem succeeded_event (m : RelayMachine α) (o : ClientOp α) : Succeeded (m.event .ok o) := by
  cases o with
  | write => exact rfl
  | list => exact Option.some_ne_none _
  | get | transact | lookup | remember | forget | now | emit => exact trivial

theorem AllSucceed.step (only : OneDeletion server r pc label)
    (taken : server.step s label = some s') (all : AllSucceed s) : AllSucceed s' := by
  intro q c found e mem
  rcases Store.calls_of_step taken found with
    old | ⟨req, -, -, rfl⟩ | ⟨c, choice, o, next, rfl, running, -, -, rfl⟩
  · exact all q c old e mem
  · cases mem
  · cases only
    rcases List.mem_cons.mp mem with rfl | mem
    · exact succeeded_event s.machine o
    · exact all q c running e mem

/-- Where the deletion has answered, and what it has left behind has stayed deleted, the
PC is gone. -/
theorem gone_of_staysDeleted {post : Bool} {scope : Bytes} {past : List (Act α)}
    (stays : StaysDeleted r pc s) (follows : s.Follows (fun _ _ _ => True) LeavesAll)
    (all : AllSucceed s)
    (deleted : s.calls r = some ⟨.apiDeletePC post scope pc, past, .reply (.deleted pc)⟩) :
    Gone pc s := by
  intro path registered
  have left : LeftAll pc past := follows r _ deleted post scope pc rfl rfl
  apply stays path registered
  rw [pastOf, deleted]
  exact left (all r _ deleted) path registered

end

/-- A deletion of a PC among requests of the PC, where every operation succeeds: what it
has left behind stays deleted exactly if every write is timely, and then nothing of the
PC is registered once the deletion has answered. -/
theorem deleted_stays_iff_timely (server : Server α) (r : Nat) (pc : Bytes) (m : RelayMachine α)
    {labels : List (Label α)} (only : ∀ label ∈ labels, OneDeletion server r pc label) :
    (Always server.step (StaysDeleted r pc) { machine := m } labels ↔
      Along server.step (Timely r pc) { machine := m } labels) ∧
    (Along server.step (Timely r pc) { machine := m } labels →
      Always server.step (fun s => s.answer r = some (.deleted pc) → Gone pc s) { machine := m }
        labels) := by
  refine ⟨staysDeleted_iff_timely only, fun timely => ?_⟩
  have environment : Along server.step (fun _ => OneDeletion server r pc) { machine := m } labels :=
    along_of_forall_mem only _
  have start : ∀ {q c}, ({ machine := m } : System α).calls q = some c → False := nofun
  have always : Always server.step (fun s => Parties server r pc s ∧ StaysDeleted r pc s ∧
      s.Follows (fun _ _ _ => True) LeavesAll ∧ AllSucceed s) { machine := m } labels := by
    refine always_of_preserved ?_ ?_ (environment.and timely)
    · rintro s label s' ⟨parties, stays, follows, all⟩ ⟨only, timely⟩ taken
      exact ⟨parties.step only taken, (staysDeleted_step parties only taken stays).mpr timely,
        follows.step (fun _ req _ => server.handle_leavesAll req) taken, all.step only taken⟩
    · refine ⟨parties_start m, fun _ _ passed => ?_, fun _ _ running => (start running).elim,
        fun _ _ running => (start running).elim⟩
      cases passed
  apply always.imp
  rintro s ⟨parties, stays, follows, all⟩ answered
  obtain ⟨c, running, isReply, -⟩ := follows.answer answered
  obtain ⟨req, past, program⟩ := c
  cases isReply
  obtain ⟨party, -⟩ := parties r _ running
  rw [Party, if_pos rfl] at party
  obtain ⟨post, scope, rfl⟩ := party
  exact gone_of_staysDeleted stays follows all running

instance (m : RelayMachine α) (deletion : List (Act α)) (pc : Bytes) :
    (req : Request α) → (o : ClientOp α) → Decidable (OpTimely m deletion pc req o)
  | .slave .., .write path change =>
      inferInstanceAs (Decidable (Registered pc path → deletion.any (passes path) = true →
        change m.docs[path]? = none))
  | .slave .., .get _ | .slave .., .list _ | .slave .., .transact .. | .slave .., .lookup _
  | .slave .., .remember .. | .slave .., .forget _ | .slave .., .now | .slave .., .emit _ =>
      isTrue trivial
  | .apiDeletePC .., .list col => inferInstanceAs (Decidable (ListsAll m col))
  | .apiDeletePC .., .get _ | .apiDeletePC .., .write .. | .apiDeletePC .., .transact ..
  | .apiDeletePC .., .lookup _ | .apiDeletePC .., .remember .. | .apiDeletePC .., .forget _
  | .apiDeletePC .., .now | .apiDeletePC .., .emit _ => isTrue trivial
  | .token .., _ | .session .., _ | .apiEnroll .., _ | .enroll .., _ => isTrue trivial

instance (r : Nat) (pc : Bytes) (s : System α) : (label : Label α) → Decidable (Timely r pc s label)
  | .tick _ | .external .. | .begin .. => isTrue trivial
  | .advance q _ =>
      match running : s.calls q with
      | some ⟨req, _, .op o _⟩ =>
          decidable_of_iff (OpTimely s.machine (pastOf s r) pc req o) (by rw [Timely, running])
      | some ⟨_, _, .reply _⟩ | none => isTrue (by rw [Timely, running]; trivial)

/-- With its bearer `mac` registers and pushes a session, and then it is deleted. -/
def pushedAndDeletedLabels : List (Label Unit) :=
  callLabels 4 (.slave (sampleAuthorization (ascii "mac")) (.register [])) 5 ++
    callLabels 5 samplePush 13 ++ deleteLabels ++ [.advance 3 .ok]

/-- `mac` registers, and is deleted when the request is past the guard. -/
def registerLateLabels : List (Label Unit) :=
  callLabels 4 (.slave (sampleAuthorization (ascii "mac")) (.register [])) 3 ++ deleteLabels ++
    List.replicate 2 (.advance 4 .ok)

theorem oneDeletion_callLabels {r : Nat} {req : Request Unit} (n : Nat)
    (party : Party sampleServer 3 (ascii "mac") r req) :
    ∀ label ∈ callLabels r req n, OneDeletion sampleServer 3 (ascii "mac") label := by
  intro label mem
  rcases List.mem_cons.mp mem with rfl | mem
  · exact party
  · rw [List.eq_of_mem_replicate mem]
    exact rfl

theorem oneDeletion_request {r n : Nat} (other : r ≠ 3) (req : SlaveRequest Unit) :
    ∀ label ∈ callLabels r (.slave (sampleAuthorization (ascii "mac")) req) n,
      OneDeletion sampleServer 3 (ascii "mac") label := by
  apply oneDeletion_callLabels
  rw [Party, if_neg other]
  exact of_sampleAuthorization req

theorem oneDeletion_deleteLabels :
    ∀ label ∈ deleteLabels, OneDeletion sampleServer 3 (ascii "mac") label :=
  oneDeletion_callLabels 6 ⟨true, Web.accountScope, rfl⟩

/-- What was registered before the deletion is gone after it. -/
theorem pushed_gone :
    ∃ s, exec sampleServer.step { machine := enrolledStore } pushedAndDeletedLabels = some s ∧
      s.answer 3 = some (.deleted (ascii "mac")) ∧ Gone (ascii "mac") s := by
  have answers : (exec sampleServer.step { machine := enrolledStore } pushedAndDeletedLabels).bind
      (State.answer · 3) = some (.deleted (ascii "mac")) := by
    decide +kernel
  have timely : Along sampleServer.step (Timely 3 (ascii "mac")) { machine := enrolledStore }
      pushedAndDeletedLabels := by
    decide +kernel
  have only : ∀ label ∈ pushedAndDeletedLabels, OneDeletion sampleServer 3 (ascii "mac") label := by
    intro label mem
    simp only [pushedAndDeletedLabels, List.mem_append, List.mem_singleton] at mem
    rcases mem with ((registers | pushes) | deletes) | rfl
    · exact oneDeletion_request (by decide) _ label registers
    · exact oneDeletion_request (by decide) _ label pushes
    · exact oneDeletion_deleteLabels label deletes
    · exact rfl
  obtain ⟨s, run, answer⟩ := Option.bind_eq_some_iff.mp answers
  obtain ⟨-, gone⟩ := deleted_stays_iff_timely sampleServer 3 (ascii "mac") enrolledStore only
  exact ⟨s, run, answer, (gone timely).last run answer⟩

/-- The registration that was late is there when both calls have been answered. -/
theorem registered_late_exists :
    (∀ label ∈ registerLateLabels, OneDeletion sampleServer 3 (ascii "mac") label) ∧
      ∃ s, exec sampleServer.step { machine := enrolledStore } registerLateLabels = some s ∧
        s.answer 3 = some (.deleted (ascii "mac")) ∧ s.answer 4 = some .ok ∧
        s.machine.docs[pcPath (ascii "mac")]? ≠ none := by
  constructor
  · intro label mem
    simp only [registerLateLabels, List.mem_append] at mem
    rcases mem with (begins | deletes) | writes
    · exact oneDeletion_request (by decide) _ label begins
    · exact oneDeletion_deleteLabels label deletes
    · rw [List.eq_of_mem_replicate writes]
      exact rfl
  · have ends : (exec sampleServer.step { machine := enrolledStore } registerLateLabels).map
        (fun s => (s.answer 3, s.answer 4, decide (s.machine.docs[pcPath (ascii "mac")]? ≠ none))) =
          some (some (.deleted (ascii "mac")), some .ok, true) := by
      decide +kernel
    obtain ⟨s, run, seen⟩ := Option.map_eq_some_iff.mp ends
    simp only [Prod.mk.injEq, decide_eq_true_eq] at seen
    exact ⟨s, run, seen⟩

end Drover.Slave
