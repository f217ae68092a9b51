import Drover.Slave.Grants
import Drover.Slave.Role

/-!
# Removing a shared PC

`apiDeletePC` marks the PC in `revoked` before it deletes its documents.  The mark stays
until an enrollment of the PC clears it; until then no request with a bearer of the PC
gets past `slaveGuard` or the gate of `/session`, unless it cannot read the mark.
-/

namespace Drover.Slave

open Drover.Store Drover.Transition
open Drover.Push (PushEntry)

variable {α : Type}

/-- The PC is marked in `revoked`. -/
def Marked (pc : Bytes) (m : RelayMachine α) : Prop := ∃ d, m.docs[revokedPath pc]? = some d

/-- No enrollment and no other program writes `revoked/{pc}`. -/
def KeepsMark (pc : Bytes) (s : System α) : Label α → Prop
  | .tick _ | .begin .. => True
  | .external path _ => path ≠ revokedPath pc
  | .advance r choice =>
      match s.calls r with
      | some ⟨.enroll .., _, .op o _⟩ =>
          revokedPath pc ∈ o.written → choice.write.applied = false
      | _ => True

/-- The request has been let through with a bearer of the PC: the bearer was good, and
the two reads of `slaveGuard` or the gate found no revocation. -/
def Accepted (server : Server α) (pc : Bytes) (req : Request α) (past : List (Act α)) : Prop :=
  ∃ authorization ∈ req.authorization,
    Verified server authorization pc past ∧ NotRevoked pc past

/-- The call could not read `revoked/{pc}`. -/
def CouldNotRead (pc : Bytes) (past : List (Act α)) : Prop :=
  ∃ time, (⟨time, .get (revokedPath pc), .failed⟩ : Act α) ∈ past

/-! ## The guards -/

/-- The answers of `slaveGuard` itself. -/
def refusals : List Reply :=
  [jsonError 404 "slave disabled", jsonError 401 "unauthorized", jsonError 403 "revoked"]

/-- What a guarded request has seen when it answers. -/
def GuardEnds (server : Server α) : Request α → List (Act α) → Reply → Prop
  | .slave authorization req, past, value =>
      value ∈ refusals ∨ ∃ pc, Accepted server pc (.slave authorization req) past
  | .session authorization sid role, past, .gate (.allowed _) =>
      ∃ pc, Accepted server pc (.session authorization sid role) past
  | _, _, _ => True

section

variable (server : Server α)

theorem slaveGuard_guardEnds (authorization : Bytes) (req : SlaveRequest α) :
    (slaveGuard server authorization (req.handle server)).Along (fun _ _ => True)
      (GuardEnds server (.slave authorization req)) [] := by
  rw [slaveGuard]
  split
  · exact .inl (by simp [refusals])
  · apply Prog.Along.now trivial
    intro time
    split
    · exact .inl (by simp [refusals])
    · rename_i pc verified
      obtain ⟨-, -, -, named⟩ := Server.uid_of_verifySlaveToken verified
      apply Prog.Along.bind
      apply refuses_along named fun _ _ => trivial
      case yes => exact fun _ _ => .inl (by simp [refusals])
      case no =>
        intro past longer notRevoked
        apply Prog.Only.along (req.handle_only server pc) fun _ _ _ => trivial
        intro past' value longer'
        have isVerified : Verified server authorization pc past :=
          ⟨time, longer.subset (by simp), verified⟩
        exact .inr ⟨pc, authorization, rfl, isVerified.mono longer'.subset,
          notRevoked.mono longer'.subset⟩

theorem Server.handle_guardEnds (req : Request α) :
    (server.handle req).Along (fun _ _ => True) (GuardEnds server req) [] := by
  cases req with
  | slave authorization req => exact slaveGuard_guardEnds server authorization req
  | session authorization sid role =>
      apply (session_along server authorization sid role).imp fun _ _ _ => trivial
      intro past value ends
      cases value with
      | gate verdict =>
          cases verdict with
          | allowed key =>
              obtain ⟨-, pc, -, verified, notRevoked, -⟩ := ends
              exact ⟨pc, authorization, rfl, verified, notRevoked⟩
          | unhandled | refused => exact trivial
      | error | ok | noContent | token | changed | keys | wake | commands | revoked | code
      | enrolled | bootstrap | deleted => exact trivial
  | token | apiEnroll | enroll | apiDeletePC =>
      exact (server.handle_only _).along (fun _ _ _ => trivial) fun _ _ _ => trivial

end

/-- A request is answered with something else than a refusal only if it has been let
through for some PC. -/
theorem accepted_of_answer {server : Server α} {m : RelayMachine α} {labels : List (Label α)}
    {s : System α} (run : exec server.step { machine := m } labels = some s) {r : Nat}
    {value : Reply} (answered : s.answer r = some value) :
    ∃ c, s.calls r = some c ∧ GuardEnds server c.input c.past value := by
  have follows : s.Follows (fun _ _ _ => True) (GuardEnds server) := by
    have start : ({ machine := m } : System α).Follows (fun _ _ _ => True) (GuardEnds server) := by
      intro r c running
      cases running
    apply (always_of_inductive _ labels start).last run
    intro s label s' follows taken
    exact follows.step (fun _ input _ => server.handle_guardEnds input) taken
  obtain ⟨c, running, -, ends⟩ := follows.answer answered
  exact ⟨c, running, ends⟩

/-! ## The mark -/

section

variable {server : Server α} {pc : Bytes}

/-- The operation keeps the mark of the PC. -/
def OpKeepsMark (pc : Bytes) (o : ClientOp α) : Prop :=
  ∀ (m : RelayMachine α) (choice : Choice), Marked pc m → Marked pc (m.after choice o)

/-- It keeps the mark, or an enrollment writes there. -/
def KeepsOrEnrolls (pc : Bytes) (req : Request α) (o : ClientOp α) : Prop :=
  OpKeepsMark pc o ∨ (req.enrolls ≠ none ∧ revokedPath pc ∈ o.written)

theorem opKeepsMark_write {path : Path} (elsewhere : path ≠ revokedPath pc)
    (change : Option (Doc α) → Option (Doc α)) : OpKeepsMark pc (.write path change) := by
  rintro m choice ⟨d, found⟩
  refine ⟨d, ?_⟩
  change (changeDocument m.docs choice.write path change)[revokedPath pc]? = some d
  rw [changeDocument_of_ne elsewhere.symm, found]

theorem opKeepsMark_transact {path target : Path} (elsewhere : target ≠ revokedPath pc)
    (change : Snapshot (Doc α) → Option (Option (Doc α) → Option (Doc α))) :
    OpKeepsMark pc (.transact path target change) := by
  rintro m choice ⟨d, found⟩
  refine ⟨d, ?_⟩
  change (m.transaction choice path target change)[revokedPath pc]? = some d
  rw [Machine.transaction]
  split
  · exact found
  · rw [changeDocument_of_ne elsewhere.symm, found]

theorem opKeepsMark_mark (pc pc' : Bytes) :
    OpKeepsMark (α := α) pc (.write (revokedPath pc') fun _ => some .revoked) := by
  rintro m choice ⟨d, found⟩
  by_cases same : revokedPath pc = revokedPath pc'
  · change ∃ d, (changeDocument m.docs choice.write _ _)[revokedPath pc]? = some d
    rw [same, changeDocument_same]
    split
    · exact ⟨_, rfl⟩
    · exact ⟨d, same ▸ found⟩
  · exact opKeepsMark_write (Ne.symm same) _ m choice ⟨d, found⟩

theorem docPath_ne_revokedPath {col : Path} {id : Bytes} (top : slash ∉ col)
    (other : col ≠ ascii "revoked") : docPath col id ≠ revokedPath pc :=
  docPath_ne top (by decide) other

theorem sessionPath_ne_revokedPath (pc' id : Bytes) : sessionPath pc' id ≠ revokedPath pc := by
  rw [sessionPath_eq]
  exact docPath_ne_revokedPath (by decide) (by decide)

theorem commandPath_ne_revokedPath (pc' id : Bytes) : commandPath pc' id ≠ revokedPath pc := by
  rw [commandPath_eq]
  exact docPath_ne_revokedPath (by decide) (by decide)

theorem SlaveOp.keepsMark {pc' : Bytes} {req : SlaveRequest α} {o : ClientOp α}
    (does : SlaveOp pc' req o) : OpKeepsMark pc o := by
  cases does with
  | now | isRevoked | slaveRevoked | getSession | listSessions | lookup | remember | getWebhook
  | send | getWake | getRelay | listCommands => exact fun _ _ marked => marked
  | register stamp | parent stamp =>
      exact opKeepsMark_write (docPath_ne_revokedPath (by decide) (by decide)) _
  | setSession id => exact opKeepsMark_write (sessionPath_ne_revokedPath pc' id) _
  | grant sid exp => exact opKeepsMark_write (docPath_ne_revokedPath (by decide) (by decide)) _
  | claim id => exact opKeepsMark_transact (commandPath_ne_revokedPath pc' id) _
  | ack id => exact opKeepsMark_write (commandPath_ne_revokedPath pc' id) _

/-- The deletions of `apiDeletePC` are of other documents. -/
theorem apiDeletePC_keepsMark (post : Bool) (scope pc' : Bytes) :
    (apiDeletePC post scope pc' : Client α Reply).Only (OpKeepsMark pc) := by
  have deletes : ∀ docs, (deleteSessions pc' docs).Only (OpKeepsMark (α := α) pc) := by
    intro docs
    induction docs with
    | nil => exact .pure _
    | cons p docs ih =>
        exact .bind (.op (opKeepsMark_write (sessionPath_ne_revokedPath _ _) _)) fun _ => ih
  have elsewhere : ∀ {col : Path}, slash ∉ col → col ≠ ascii "revoked" →
      OpKeepsMark (α := α) pc (.write (docPath col pc') fun _ => none) :=
    fun top other => opKeepsMark_write (docPath_ne_revokedPath top other) _
  rw [apiDeletePC]
  split
  · exact .pure _
  · split
    · exact .pure _
    · refine .bind ?_ fun ok => ?_
      · rw [setRevoked]
        split
        · exact .pure _
        · exact .op (opKeepsMark_mark pc pc')
      · split
        · refine .bind (.bind (.op fun _ _ marked => marked) fun _ => ?_) fun ok => ?_
          · rw [deletePC]
            split
            · exact .pure _
            · refine .bind (.op fun _ _ marked => marked) fun docs => .bind (deletes _) fun _ => ?_
              refine .bind (.op (elsewhere (by decide) (by decide))) fun _ => ?_
              refine .bind (.op (elsewhere (by decide) (by decide))) fun _ => ?_
              exact .op (elsewhere (by decide) (by decide))
          · split <;> exact .pure _
        · exact .pure _

/-- The operations of every request but `apiDeletePC`, which its own lemma is about. -/
theorem Does.keepsMark {server : Server α} {req : Request α} {o : ClientOp α}
    (does : Does server req o) (other : ∀ post scope pc', req ≠ .apiDeletePC post scope pc') :
    KeepsOrEnrolls pc req o := by
  cases does with
  | now | tokenSlave | tokenRevoked | gate | getPairing => exact .inl fun _ _ marked => marked
  | slave verified does => exact .inl does.keepsMark
  | pair codeHash p =>
      exact .inl (opKeepsMark_write (docPath_ne_revokedPath (by decide) (by decide)) _)
  | bind valid =>
      exact .inl (opKeepsMark_transact (docPath_ne_revokedPath (by decide) (by decide)) _)
  | enrollDeletes path =>
      by_cases same : path = revokedPath pc
      · exact .inr ⟨by simp [Request.enrolls], same ▸ rfl⟩
      · exact .inl (opKeepsMark_write same _)
  | forget | revoke | list | deletes => exact (other _ _ _ rfl).elim

/-- Only an enrollment may clear the mark. -/
theorem Server.handle_keepsMark (server : Server α) (req : Request α) :
    (server.handle req).Only (KeepsOrEnrolls pc req) := by
  cases req with
  | apiDeletePC post scope pc' =>
      exact (apiDeletePC_keepsMark post scope pc').imp fun _ keeps => .inl keeps
  | token | slave | session | apiEnroll | enroll =>
      exact (server.handle_only _).imp fun _ does => does.keepsMark nofun

theorem marked_step {s s' : System α} {label : Label α}
    (does : s.Calls (fun _ => True) (KeepsOrEnrolls pc)) (keeps : KeepsMark pc s label)
    (taken : server.step s label = some s') (marked : Marked pc s.machine) :
    Marked pc s'.machine := by
  cases stepped_of_step taken with
  | tick later => exact marked
  | external path doc =>
      obtain ⟨d, found⟩ := marked
      refine ⟨d, ?_⟩
      change (changeDocument s.machine.docs .ok path fun _ => doc)[revokedPath pc]? = some d
      rw [changeDocument_of_ne (Ne.symm keeps), found]
  | begin input unused => exact marked
  | @advance r c o next choice running isOp =>
      obtain ⟨req, past, program⟩ := c
      cases isOp
      change Marked pc (s.machine.after choice o)
      rcases (does r _ running).2.1 with keepsMark | ⟨enrolls, writes⟩
      · exact keepsMark s.machine choice marked
      · cases req with
        | enroll =>
            rw [KeepsMark, running] at keeps
            have notApplied := keeps writes
            cases o with
            | write path change =>
                obtain ⟨d, found⟩ := marked
                refine ⟨d, ?_⟩
                change (changeDocument s.machine.docs choice.write path change)[revokedPath pc]? = _
                rw [changeDocument, notApplied]
                exact found
            | get | list | transact | lookup | remember | forget | now | emit => cases writes
        | token | slave | session | apiEnroll | apiDeletePC => exact (enrolls rfl).elim

end

/-! ## The deletion -/

/-- The write of `SetRevoked`, which has succeeded. -/
def marking (pc : Bytes) (time : Nat) : Act α :=
  ⟨time, .write (revokedPath pc) fun _ => some .revoked, true⟩

/-- The call has marked the PC. -/
def MarkedBy (r : Nat) (pc : Bytes) (s : System α) : Prop :=
  ∃ c time, s.calls r = some c ∧ marking pc time ∈ c.past

/-- What a deletion has done when it answers. -/
def DeletionEnds (req : Request α) (past : List (Act α)) (value : Reply) : Prop :=
  ∀ post scope pc, req = .apiDeletePC post scope pc → value = .deleted pc →
    ∃ time, marking pc time ∈ past

section

variable {server : Server α} {pc : Bytes}

/-- A deletion marks the PC, and then deletes its documents. -/
theorem apiDeletePC_along {ends : List (Act α) → Reply → Prop} (post : Bool) (scope pc : Bytes)
    (refused : ∀ past status text, ends past (jsonError status text))
    (deletes : pc ≠ [] → ∀ time, (deletePCByID pc).Along (fun _ _ => True)
      (fun past ok => ok = true → ends past (.deleted pc)) [marking pc time]) :
    (apiDeletePC post scope pc : Client α Reply).Along (fun _ _ => True) ends [] := by
  rw [apiDeletePC]
  split
  · exact refused _ _ _
  · split
    · exact refused _ _ _
    · rename_i named
      rw [not_or] at named
      apply Prog.Along.bind
      rw [setRevoked, if_neg named.1]
      refine ⟨trivial, fun time ok _ => ?_⟩
      cases ok with
      | false => exact refused _ _ _
      | true =>
          change Prog.Along (fun _ _ => True) ends [marking pc time] (deletePCByID pc >>= _)
          apply Prog.Along.bind
          apply (deletes named.1 time).imp fun _ _ _ => trivial
          intro past ok ends
          split
          · rename_i isOk
            exact ends isOk
          · exact refused _ _ _

theorem Server.handle_deletionEnds (req : Request α) :
    (server.handle req).Along (fun _ _ => True) (DeletionEnds req) [] := by
  cases req with
  | apiDeletePC post scope pc =>
      apply apiDeletePC_along
      · rintro past status text _ _ _ - ⟨⟩
      · intro named time
        apply (Prog.only_true _).along fun _ _ _ => trivial
        rintro past ok longer - _ _ _ ⟨⟩ -
        exact ⟨time, longer.subset List.mem_cons_self⟩
  | token | slave | session | apiEnroll | enroll =>
      exact (Prog.only_true _).along (fun _ _ _ => trivial) fun _ _ _ _ _ _ same => by cases same

end

/-! ## Runs -/

/-- The call has read the mark of the PC, or has tried to. -/
def HasRead (q : Nat) (pc : Bytes) (s : System α) : Prop :=
  ∃ c time snap, s.calls q = some c ∧ (⟨time, .get (revokedPath pc), snap⟩ : Act α) ∈ c.past

/-- The reads that the call has made of the mark found it or failed. -/
def SeesMark (q : Nat) (pc : Bytes) (s : System α) : Prop :=
  ∀ c time, s.calls q = some c → (⟨time, .get (revokedPath pc), .absent⟩ : Act α) ∉ c.past

/-- From the mark of the deletion on, it is kept. -/
def KeepsMarkAfter (r : Nat) (pc : Bytes) (s : System α) (label : Label α) : Prop :=
  MarkedBy r pc s → KeepsMark pc s label

section

variable {server : Server α} {pc : Bytes} {s s' : System α} {label : Label α} {r q : Nat}

/-- What a call has done after a step: the same, or an operation more. -/
theorem past_of_step {c' : Call (Request α) (Doc α) PushEntry Delivery Reply} {e : Act α}
    (taken : server.step s label = some s') (running : s'.calls r = some c') (mem : e ∈ c'.past) :
    (∃ c, s.calls r = some c ∧ e ∈ c.past) ∨
      ∃ choice o, e = s.machine.event choice o ∧ s'.machine = s.machine.after choice o := by
  rcases Store.calls_of_step taken running with
    old | ⟨input, -, -, rfl⟩ | ⟨c, choice, o, next, -, old, -, rfl, rfl⟩
  · exact .inl ⟨c', old, mem⟩
  · cases mem
  · rcases List.mem_cons.mp mem with rfl | mem
    · exact .inr ⟨choice, o, rfl, rfl⟩
    · exact .inl ⟨c, old, mem⟩

theorem MarkedBy.step (does : s.Calls (fun _ => True) (KeepsOrEnrolls pc))
    (keeps : KeepsMarkAfter r pc s label) (taken : server.step s label = some s')
    (marked : MarkedBy r pc s → Marked pc s.machine) (isMarked : MarkedBy r pc s') :
    Marked pc s'.machine := by
  obtain ⟨c, time, running, mem⟩ := isMarked
  rcases past_of_step taken running mem with ⟨c, old, mem⟩ | ⟨choice, o, isEvent, machine⟩
  · have earlier : MarkedBy r pc s := ⟨c, time, old, mem⟩
    exact marked_step does (keeps earlier) taken (marked earlier)
  · cases o with
    | write path change =>
        simp only [marking, Machine.event, Event.mk.injEq, Op.write.injEq] at isEvent
        obtain ⟨-, ⟨rfl, rfl⟩, success⟩ := isEvent
        have ok : choice.write = .ok := of_decide_eq_true (eq_of_heq success).symm
        rw [machine]
        refine ⟨.revoked, ?_⟩
        change (changeDocument s.machine.docs choice.write _ _)[revokedPath pc]? = _
        rw [ok, changeDocument_same]
        rfl
    | get | list | transact | lookup | remember | forget | now | emit => cases isEvent

theorem SeesMark.step (marked : Marked pc s.machine) (taken : server.step s label = some s')
    (sees : SeesMark q pc s) : SeesMark q pc s' := by
  intro c time running mem
  rcases past_of_step taken running mem with ⟨c, old, mem⟩ | ⟨choice, o, isEvent, -⟩
  · exact sees c time old mem
  · cases o with
    | get path =>
        simp only [Machine.event, Event.mk.injEq, Op.get.injEq] at isEvent
        obtain ⟨-, rfl, isAbsent⟩ := isEvent
        obtain ⟨d, found⟩ := marked
        have absent : readDocument s.machine.docs choice.read (revokedPath pc) = .absent :=
          (eq_of_heq isAbsent).symm
        rw [readDocument, found] at absent
        split at absent <;> cases absent
    | write | list | transact | lookup | remember | forget | now | emit => cases isEvent

theorem calls_keepsOrEnrolls (does : s.Calls (fun _ => True) (KeepsOrEnrolls pc))
    (taken : server.step s label = some s') : s'.Calls (fun _ => True) (KeepsOrEnrolls pc) :=
  does.step (fun req _ => server.handle_keepsMark req) (fun _ _ _ => trivial) taken

/-- After a deletion the PC is marked. -/
theorem marked_of_deleted {m : RelayMachine α} {labels : List (Label α)} {post : Bool}
    {scope : Bytes} {past : List (Act α)}
    (run : exec server.step { machine := m } labels = some s)
    (kept : Along server.step (KeepsMarkAfter r pc) { machine := m } labels)
    (deleted : s.calls r = some ⟨.apiDeletePC post scope pc, past, .reply (.deleted pc)⟩) :
    s.Calls (fun _ => True) (KeepsOrEnrolls pc) ∧ Marked pc s.machine := by
  have unused : ∀ {r c}, ({ machine := m } : System α).calls r = some c → False := nofun
  have ends : s.Follows (fun _ _ _ => True) DeletionEnds := by
    have start : ({ machine := m } : System α).Follows (fun _ _ _ => True) DeletionEnds :=
      fun _ _ running => (unused running).elim
    apply (always_of_inductive (fun s label s' follows taken => ?_) labels start).last run
    exact State.Follows.step (fun _ input _ => server.handle_deletionEnds input) follows taken
  have inv : s.Calls (fun _ => True) (KeepsOrEnrolls pc) ∧
      (MarkedBy r pc s → Marked pc s.machine) := by
    have always : Always server.step (fun s => s.Calls (fun _ => True) (KeepsOrEnrolls pc) ∧
        (MarkedBy r pc s → Marked pc s.machine)) { machine := m } labels := by
      refine always_of_preserved ?_ ⟨?_, ?_⟩ kept
      · rintro s label s' ⟨does, marked⟩ keeps taken
        exact ⟨calls_keepsOrEnrolls does taken, MarkedBy.step does keeps taken marked⟩
      · exact fun _ _ running => (unused running).elim
      · exact fun ⟨_, _, running, _⟩ => (unused running).elim
    exact always.last run
  obtain ⟨time, mem⟩ := ends r _ deleted post scope pc rfl rfl
  exact ⟨inv.1, inv.2 ⟨_, time, deleted, mem⟩⟩

/-- As long as the mark is kept, a call that has not read it yet will see it. -/
theorem seesMark_of_exec {labels : List (Label α)}
    (does : s.Calls (fun _ => True) (KeepsOrEnrolls pc)) (marked : Marked pc s.machine)
    (unread : ¬ HasRead q pc s) (kept : Along server.step (KeepsMark pc) s labels)
    (run : exec server.step s labels = some s') : SeesMark q pc s' := by
  have start : SeesMark q pc s := fun c time running mem => unread ⟨c, time, _, running, mem⟩
  have always : Always server.step (fun s => s.Calls (fun _ => True) (KeepsOrEnrolls pc) ∧
      Marked pc s.machine ∧ SeesMark q pc s) s labels := by
    refine always_of_preserved ?_ ⟨does, marked, start⟩ kept
    rintro s label s' ⟨does, marked, sees⟩ keeps taken
    exact ⟨calls_keepsOrEnrolls does taken, marked_step does keeps taken marked,
      sees.step marked taken⟩
  exact (always.last run).2.2

end

/-- The bearer of the request is of the PC. -/
def Request.Bears (server : Server α) (pc : Bytes) (req : Request α) : Prop :=
  ∃ authorization ∈ req.authorization, ∃ claims,
    server.signedClaims (bearer authorization) = some claims ∧ claims.uid = slavePrefix ++ pc

/-- The answer of a request that is not let through. -/
def Refused : Request α → Reply → Prop
  | .slave .., value => value ∈ refusals
  | .session .., value => ∀ key, value ≠ .gate (.allowed key)
  | _, _ => True

theorem pc_of_accepted {server : Server α} {pc pc' : Bytes} {req : Request α}
    {past : List (Act α)} (bears : req.Bears server pc) (accepted : Accepted server pc' req past) :
    pc' = pc := by
  obtain ⟨authorization, isHeader, claims, signed, isUID⟩ := bears
  obtain ⟨authorization', isHeader', ⟨time, -, verified⟩, -⟩ := accepted
  cases isHeader.symm.trans isHeader'
  obtain ⟨claims', signed', isUID', -⟩ := Server.uid_of_verifySlaveToken verified
  cases signed.symm.trans signed'
  exact List.append_cancel_left (isUID'.symm.trans isUID)

theorem refused_of_ends {server : Server α} {pc : Bytes} {req : Request α} {past : List (Act α)}
    {value : Reply} (bears : req.Bears server pc) (notAccepted : ¬ Accepted server pc req past)
    (ends : GuardEnds server req past value) : Refused req value := by
  cases req with
  | slave authorization req =>
      refine ends.resolve_right ?_
      rintro ⟨pc', accepted⟩
      exact notAccepted (pc_of_accepted bears accepted ▸ accepted)
  | session authorization sid role =>
      rintro key rfl
      obtain ⟨pc', accepted⟩ := ends
      exact notAccepted (pc_of_accepted bears accepted ▸ accepted)
  | token | apiEnroll | enroll | apiDeletePC => exact trivial

/-- Once a PC has been deleted, and until an enrollment clears its mark, no request that
has not read the mark before is let through with a bearer of the PC, unless it cannot
read it; such a request is refused. -/
theorem refused_until_enrolled (server : Server α) {m : RelayMachine α}
    {labels rest : List (Label α)} {s s' : System α} {r : Nat} {post : Bool} {scope pc : Bytes}
    {past : List (Act α)} (run : exec server.step { machine := m } labels = some s)
    (deleted : s.calls r = some ⟨.apiDeletePC post scope pc, past, .reply (.deleted pc)⟩)
    (during : Along server.step (KeepsMarkAfter r pc) { machine := m } labels)
    (later : exec server.step s rest = some s')
    (afterwards : Along server.step (KeepsMark pc) s rest) {q : Nat}
    {c : Call (Request α) (Doc α) PushEntry Delivery Reply} (running : s'.calls q = some c)
    (unread : ¬ HasRead q pc s) (readable : ¬ CouldNotRead pc c.past) :
    ¬ Accepted server pc c.input c.past ∧
      (c.input.Bears server pc → ∀ value, s'.answer q = some value → Refused c.input value) := by
  obtain ⟨does, marked⟩ := marked_of_deleted run during deleted
  have sees : SeesMark q pc s' := seesMark_of_exec does marked unread afterwards later
  have notAccepted : ¬ Accepted server pc c.input c.past := by
    rintro ⟨authorization, -, -, ⟨time, snap, mem, notFound⟩, -⟩
    cases snap with
    | failed => exact readable ⟨time, mem⟩
    | absent => exact sees c time running mem
    | found d => exact notFound d rfl
  refine ⟨notAccepted, fun bears value answered => ?_⟩
  have whole : exec server.step { machine := m } (labels ++ rest) = some s' := by
    rw [exec_append run, later]
  obtain ⟨c', running', ends⟩ := accepted_of_answer whole answered
  cases running.symm.trans running'
  exact refused_of_ends bears notAccepted ends

/-- The owner deletes `mac`. -/
def deleteLabels : List (Label Unit) :=
  callLabels 3 (.apiDeletePC true Web.accountScope (ascii "mac")) 6

/-- The owner issues another code, and `mac` enrolls with it. -/
def enrollAgainLabels : List (Label Unit) :=
  callLabels 4 (.apiEnroll (ascii "slave") (some (ascii "code"))) 2 ++
    callLabels 5 (.enroll true (ascii "code") (ascii "mac") (some (ascii "other"))) 5

/-- A request with the first bearer of `mac`; the read of the mark ends as it is given. -/
def oldBearerLabels (readMark : Choice) : List (Label Unit) :=
  [.begin 6 (.slave (sampleAuthorization (ascii "mac")) .sessions), .advance 6 .ok,
    .advance 6 readMark, .advance 6 .ok, .advance 6 .ok]

/-- The read of the mark that an event is, if it has failed. -/
def failedRead (pc : Bytes) : Act α → Bool
  | ⟨_, .get path, .failed⟩ => path = revokedPath pc
  | _ => false

instance (pc : Bytes) (past : List (Act α)) : Decidable (CouldNotRead pc past) :=
  decidable_of_iff (past.any (failedRead pc) = true) <| by
    rw [List.any_eq_true]
    constructor
    · rintro ⟨⟨time, o, result⟩, mem, failed⟩
      rw [failedRead.eq_def] at failed
      split at failed
      · rename_i same
        cases same
        cases of_decide_eq_true failed
        exact ⟨time, mem⟩
      · cases failed
    · rintro ⟨time, mem⟩
      exact ⟨_, mem, decide_eq_true rfl⟩

instance (pc : Bytes) (s : System α) : (label : Label α) → Decidable (KeepsMark pc s label)
  | .tick _ | .begin .. => isTrue trivial
  | .external path _ => inferInstanceAs (Decidable (path ≠ revokedPath pc))
  | .advance r choice =>
      match running : s.calls r with
      | some ⟨.enroll .., _, .op o _⟩ =>
          decidable_of_iff
            (∀ path ∈ o.written, path = revokedPath pc → choice.write.applied = false) (by
              rw [KeepsMark, running]
              exact ⟨fun all mem => all _ mem rfl, fun one path mem same => one (same ▸ mem)⟩)
      | some ⟨.enroll .., _, .reply _⟩ | some ⟨.token .., _, _⟩ | some ⟨.slave .., _, _⟩
      | some ⟨.session .., _, _⟩ | some ⟨.apiEnroll .., _, _⟩ | some ⟨.apiDeletePC .., _, _⟩
      | none => isTrue (by rw [KeepsMark, running]; trivial)

/-- The PC that a call has deleted. -/
def deletedPC (s : System α) (r : Nat) : Option (Bool × Bytes × Bytes) :=
  match s.calls r with
  | some ⟨.apiDeletePC post scope pc, _, .reply (.deleted pc')⟩ =>
      if pc' = pc then some (post, scope, pc) else none
  | _ => none

theorem calls_of_deletedPC {s : System α} {r : Nat} {post : Bool} {scope pc : Bytes}
    (deleted : deletedPC s r = some (post, scope, pc)) :
    ∃ past, s.calls r = some ⟨.apiDeletePC post scope pc, past, .reply (.deleted pc)⟩ := by
  rw [deletedPC] at deleted
  split at deleted
  · rename_i past _ running
    split at deleted
    · rename_i same
      cases deleted
      cases same
      exact ⟨past, running⟩
    · cases deleted
  · cases deleted

/-- The store where `mac` is enrolled. -/
def enrolledStore : RelayMachine Unit :=
  ((exec sampleServer.step {} enrollLabels).getD {}).machine

/-- After its deletion a request with the bearer of `mac` is refused. -/
theorem deleted_bearer_refused :
    ∃ s s', exec sampleServer.step { machine := enrolledStore } deleteLabels = some s ∧
      exec sampleServer.step s (oldBearerLabels .ok |>.take 3) = some s' ∧
      s'.answer 6 = some (jsonError 403 "revoked") ∧
      ∃ c, s'.calls 6 = some c ∧ ¬ Accepted sampleServer (ascii "mac") c.input c.past := by
  have deletes : ((exec sampleServer.step { machine := enrolledStore } deleteLabels).bind fun s =>
      if (s.calls 6).isNone = true then deletedPC s 3 else none) =
        some (true, Web.accountScope, ascii "mac") := by
    decide +kernel
  have requests : ((exec sampleServer.step { machine := enrolledStore } deleteLabels).bind fun s =>
      (exec sampleServer.step s (oldBearerLabels .ok |>.take 3)).bind fun s' =>
        if (s'.calls 6).any fun c => CouldNotRead (ascii "mac") c.past then none
        else s'.answer 6) = some (jsonError 403 "revoked") := by
    decide +kernel
  have keeps : Along sampleServer.step (KeepsMark (ascii "mac"))
      { machine := enrolledStore } deleteLabels := by
    decide +kernel
  have during : Along sampleServer.step (KeepsMarkAfter 3 (ascii "mac"))
      { machine := enrolledStore } deleteLabels := by
    apply keeps.imp
    intro s label isKept _
    exact isKept
  have kept : ((exec sampleServer.step { machine := enrolledStore } deleteLabels).all fun s =>
      Along sampleServer.step (KeepsMark (ascii "mac")) s (oldBearerLabels .ok |>.take 3)) =
        true := by
    decide +kernel
  obtain ⟨s, run, request⟩ := Option.bind_eq_some_iff.mp requests
  rw [run, Option.bind_some] at deletes
  rw [run, Option.all_some, decide_eq_true_eq] at kept
  obtain ⟨s', later, answered⟩ := Option.bind_eq_some_iff.mp request
  split at deletes
  · rename_i fresh
    obtain ⟨past, deleted⟩ := calls_of_deletedPC deletes
    have unread : ¬ HasRead 6 (ascii "mac") s := by
      rintro ⟨c, -, -, running, -⟩
      rw [running] at fresh
      cases fresh
    split at answered
    · cases answered
    · rename_i readable
      obtain ⟨c, running⟩ : ∃ c, s'.calls 6 = some c := by
        rw [State.answer] at answered
        split at answered
        · rename_i running
          exact ⟨_, running⟩
        · cases answered
      rw [running, Option.any_some, decide_eq_true_eq] at readable
      have refused := refused_until_enrolled sampleServer run deleted during later kept running
        unread readable
      exact ⟨s, s', run, later, answered, c, running, refused.1⟩
  · cases deletes

/-- The bearer that `mac` was given before it was deleted is accepted once it has enrolled
again, and before that by a request that cannot read the mark. -/
theorem deleted_bearer_accepted :
    ∃ s, exec sampleServer.step {} (enrollLabels ++ deleteLabels) = some s ∧
      (s.answer 2, s.answer 3) =
        (some (.token (bearer (sampleAuthorization (ascii "mac"))) (60 * 60)),
          some (.deleted (ascii "mac"))) ∧
      (exec sampleServer.step s (enrollAgainLabels ++ oldBearerLabels .ok)).bind (·.answer 6) =
        some (.keys []) ∧
      (exec sampleServer.step s (oldBearerLabels ⟨false, .ok⟩)).bind (·.answer 6) =
        some (.keys []) := by
  have all : ((exec sampleServer.step {} (enrollLabels ++ deleteLabels)).map fun s =>
      ((s.answer 2, s.answer 3),
        (exec sampleServer.step s (enrollAgainLabels ++ oldBearerLabels .ok)).bind (·.answer 6),
        (exec sampleServer.step s (oldBearerLabels ⟨false, .ok⟩)).bind (·.answer 6))) =
      some ((some (.token (bearer (sampleAuthorization (ascii "mac"))) (60 * 60)),
        some (.deleted (ascii "mac"))), some (.keys []), some (.keys [])) := by
    decide +kernel
  obtain ⟨s, run, seen⟩ := Option.map_eq_some_iff.mp all
  simp only [Prod.mk.injEq] at seen
  exact ⟨s, run, by rw [seen.1.1, seen.1.2], seen.2.1, seen.2.2⟩

end Drover.Slave
