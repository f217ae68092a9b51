import Drover.Slave.Grants
import Drover.Slave.Role
import Drover.Store.Runs
import Drover.Transition.Follow

/-!
# One enroll code

`Drover.Secrets` follows the calls that take a code; in the relay `enroll` is one program
among others.  Every run of the relay takes the code as a run of that model does: a call
that presents it is at the same point there, unless it has found the code expired, which
the other call has not found.  So a code enrolls at most one PC under the same condition.
-/

namespace Drover.Slave

open Drover.Protocol Drover.Store Drover.Transition
open Drover.Secrets (EnrollReply Pairing notAfter)

variable {α : Type}

/-! ## What a call does with the code -/

/-- The pairing of a document. -/
def docPairing : Option (Doc α) → Option Pairing
  | some (.pairing p) => some p
  | _ => none

/-- `consumePairing` once the code is deleted, and what comes after it. -/
def checkedPairing (p : Pairing) (rest : Option Bytes → Client α Reply) : Client α Reply := do
  let now ← Prog.now
  rest (if notAfter p.expiresAt now then some p.scope else none)

/-- `consumePairing` once the code is found, and what comes after it. -/
def deletedPairing (codeHash : Bytes) (p : Pairing) (rest : Option Bytes → Client α Reply) :
    Client α Reply := do
  let _ ← Prog.write (pairingPath codeHash) fun _ => none
  checkedPairing p rest

/-- A reply of the relay is one of `Secrets`. -/
inductive Told : Reply → EnrollReply → Prop
  | refused (status : Nat) (text : Bytes) : Told (.error status text) (.refused status)
  | slave (pc secret : Bytes) : Told (.enrolled pc secret) (.slave pc)
  | master (saJSON : Bytes) : Told (.bootstrap saJSON) .master

/-- The reply is the one for the code, for some result of `BindSlave`. -/
def RepliesTo (pc : Bytes) (secret : Option Bytes) (consumed : Option Pairing) (reply : Reply) :
    Prop :=
  ∃ bind, Told reply (Secrets.enroll ⟨pc, secret.isNone, bind⟩ consumed)

/-- However the program goes on, it replies to the code. -/
def Enrolls (pc : Bytes) (secret : Option Bytes) (consumed : Option Pairing)
    (p : Client α Reply) : Prop :=
  ∀ past, p.Along (fun _ _ => True) (fun _ => RepliesTo pc secret consumed) past

/-- What comes after the code replies to it. -/
def RestEnrolls (pc : Bytes) (secret : Option Bytes) (rest : Option Bytes → Client α Reply) :
    Prop :=
  ∀ consumed : Option Pairing, Enrolls pc secret consumed (rest (consumed.map Pairing.scope))

theorem enrolls_reply {pc : Bytes} {secret : Option Bytes} {consumed : Option Pairing}
    {reply : Reply} (bind : Option Bool)
    (told : Told reply (Secrets.enroll ⟨pc, secret.isNone, bind⟩ consumed)) :
    Enrolls pc secret consumed (.reply reply : Client α Reply) :=
  fun _ => ⟨bind, told⟩

theorem along_any {ρ : Type} (p : Client α ρ) (past : List (Act α)) :
    p.Along (fun _ _ => True) (fun _ _ => True) past :=
  p.only_true.along (fun _ _ _ => trivial) fun _ _ _ => trivial

/-- The reply to a good code for a shared PC is what `BindSlave` decides. -/
theorem enroll_bound {pc : Bytes} {p : Pairing} (isSlave : p.scope = ascii "enroll-slave")
    (named : pc ≠ []) (valid : ValidPCName pc = true) (bind : Option Bool) :
    Secrets.enroll ⟨pc, false, bind⟩ (some p) =
      bind.elim (.refused 500) fun free => if free then .slave pc else .refused 409 := by
  simp only [Secrets.enroll, isSlave, named, valid]
  cases bind with
  | none => rfl
  | some free => cases free <;> rfl

/-- `enroll` refuses at once, or goes on from the code as `Secrets.enroll` does. -/
theorem enroll_cases (server : Server α) (post : Bool) (code pc : Bytes)
    (secret : Option Bytes) :
    (∃ status text, enroll server post code pc secret = .reply (.error status text)) ∨
      ∃ rest : Option Bytes → Client α Reply,
        enroll server post code pc secret = consumePairing (server.hashCode code) >>= rest ∧
          RestEnrolls pc secret rest := by
  rw [enroll.eq_def]
  split
  · exact .inl ⟨_, _, rfl⟩
  · split
    · exact .inl ⟨_, _, rfl⟩
    · refine .inr ⟨_, rfl, fun consumed => ?_⟩
      cases consumed with
      | none => exact enrolls_reply none (.refused ..)
      | some p =>
          dsimp only [Option.map_some]
          split
          · rename_i isMaster
            apply enrolls_reply none
            simp only [Secrets.enroll, isMaster]
            exact .master _
          · rename_i notMaster
            split
            · rename_i notSlave
              apply enrolls_reply none
              rw [Secrets.enroll, if_pos ⟨notMaster, notSlave⟩]
              exact .refused ..
            · rename_i isSlave
              rw [not_not] at isSlave
              split
              · rename_i noName
                apply enrolls_reply none
                simp only [Secrets.enroll, isSlave, noName]
                exact .refused ..
              · rename_i named
                split
                · rename_i invalid
                  apply enrolls_reply none
                  simp only [Secrets.enroll, isSlave, named, invalid]
                  exact .refused ..
                · rename_i valid
                  rw [Bool.not_eq_false] at valid
                  cases secret with
                  | none =>
                      apply enrolls_reply none
                      simp only [Secrets.enroll, isSlave, named, valid]
                      exact .refused ..
                  | some secret =>
                      have bound := enroll_bound isSlave named valid
                      intro past
                      refine (along_any _ past).andThen fun past bind _ => ?_
                      cases bind with
                      | none => exact ⟨none, bound none ▸ .refused ..⟩
                      | some free =>
                          cases free with
                          | false => exact ⟨some false, bound (some false) ▸ .refused ..⟩
                          | true =>
                              exact (along_any _ past).andThen fun _ _ _ =>
                                ⟨some true, bound (some true) ▸ .slave ..⟩

/-! ## Where a call is -/

/-- A call that presents the code is as far as one of `Secrets`. -/
inductive Taking (codeHash : Bytes) (clock : Nat) (pc : Bytes) (secret : Option Bytes)
    (past : List (Act α)) (program : Client α Reply) : Phase Pairing → Prop
  | refused {status : Nat} {text : Bytes} (isReply : program = .reply (.error status text)) :
      Taking codeHash clock pc secret past program .start
  | start {rest : Option Bytes → Client α Reply}
      (isProgram : program = consumePairing codeHash >>= rest)
      (enrolls : RestEnrolls pc secret rest) :
      Taking codeHash clock pc secret past program .start
  | got {rest : Option Bytes → Client α Reply} {p : Pairing}
      (isProgram : program = deletedPairing codeHash p rest)
      (enrolls : RestEnrolls pc secret rest) :
      Taking codeHash clock pc secret past program (.got p)
  | deleted {rest : Option Bytes → Client α Reply} {p : Pairing}
      (isProgram : program = checkedPairing p rest)
      (enrolls : RestEnrolls pc secret rest) :
      Taking codeHash clock pc secret past program (.deleted p)
  /-- The call has found the code expired. -/
  | late {rest : Option Bytes → Client α Reply} {p : Pairing}
      (expired : notAfter p.expiresAt clock = false)
      (isProgram : program = deletedPairing codeHash p rest ∨ program = checkedPairing p rest)
      (enrolls : RestEnrolls pc secret rest) :
      Taking codeHash clock pc secret past program (.returned none)
  | returned {consumed : Option Pairing}
      (replies : program.Along (fun _ _ => True) (fun _ => RepliesTo pc secret consumed) past) :
      Taking codeHash clock pc secret past program (.returned consumed)

/-- The request presents a code with the hash. -/
def Presents (server : Server α) (codeHash : Bytes) : Request α → Prop
  | .enroll _ code _ _ => server.hashCode code = codeHash
  | _ => False

instance (server : Server α) (codeHash : Bytes) : DecidablePred (Presents server codeHash)
  | .enroll .. => inferInstanceAs (Decidable (_ = _))
  | .token .. | .slave .. | .session .. | .apiEnroll .. | .apiDeletePC .. => isFalse id

/-- The call has found the code. -/
def HasFound (codeHash : Bytes) (past : List (Act α)) : Prop :=
  ∃ time p, ⟨time, .get (pairingPath codeHash), .found (.pairing p)⟩ ∈ past

/-- The calls that take the code have come as far as the relay. -/
structure Follows (server : Server α) (codeHash : Bytes) (s : System α)
    (t : TakeState Pairing) : Prop where
  doc : ∀ p, docPairing s.machine.docs[pairingPath codeHash]? = some p → t.doc = some p
  clock : t.clock ≤ s.machine.clock
  absent : ∀ r, s.calls r = none → t.calls r = .start
  taking : ∀ r post code pc secret past program,
    s.calls r = some ⟨.enroll post code pc secret, past, program⟩ →
    server.hashCode code = codeHash →
    Taking codeHash s.machine.clock pc secret past program (t.calls r)
  readers : ∀ r ∈ t.readers, ∃ c, s.calls r = some c ∧ Presents server codeHash c.input ∧
    HasFound codeHash c.past

/-- The operation changes the document by deleting it at most. -/
def DeletesOnly (path : Path) (o : ClientOp α) : Prop :=
  o.target = some path → o = .write path fun _ => none

/-- A call that presents the code finds it good only if none has found it before. -/
def FindsAlone (server : Server α) (codeHash : Bytes) (s : System α) : Label α → Prop
  | .advance r choice => choice.read = true → ∀ c next p, s.calls r = some c →
      Presents server codeHash c.input → c.program = .op (.get (pairingPath codeHash)) next →
      docPairing s.machine.docs[pairingPath codeHash]? = some p →
      notAfter p.expiresAt s.machine.clock = true →
      ∀ q c', s.calls q = some c' → Presents server codeHash c'.input →
        ¬ HasFound codeHash c'.past
  | _ => True

/-- The calls that take the code follow a step, and find it alone if that does. -/
def CanFollow (server : Server α) (codeHash : Bytes) (s : System α) (label : Label α)
    (t : TakeState Pairing) (s' : System α) : Prop :=
  LeadsTo (takeStep Secrets.consumePairing) (Alone Secrets.consumePairing)
    (FindsAlone server codeHash s label) t (Follows server codeHash s')

/-! ## Operations -/

/-- The pairing that a read has brought back. -/
def readPairing : Snapshot (Doc α) → Option Pairing
  | .found d => docPairing (some d)
  | .failed | .absent => none

theorem consumePairing_bind (codeHash : Bytes) (rest : Option Bytes → Client α Reply) :
    consumePairing codeHash >>= rest =
      .op (.get (pairingPath codeHash)) fun snap =>
        (readPairing snap).elim (rest none) fun p => deletedPairing codeHash p rest := by
  rw [consumePairing, Prog.bind_assoc]
  refine congrArg (Prog.op _) (funext fun snap => ?_)
  cases snap with
  | failed | absent => rfl
  | found d => cases d <;> rfl

theorem readPairing_eq_some_iff {snap : Snapshot (Doc α)} {p : Pairing} :
    readPairing snap = some p ↔ snap = .found (.pairing p) := by
  constructor
  · intro found
    cases snap with
    | failed | absent => cases found
    | found d =>
        cases d with
        | pairing p' =>
            cases found
            rfl
        | _ => cases found
  · rintro rfl
    rfl

theorem readPairing_readDocument (docs : Documents (Doc α)) (ok : Bool) (path : Path) :
    readPairing (readDocument docs ok path) = if ok then docPairing docs[path]? else none := by
  rw [readDocument]
  split
  · cases docs[path]? <;> rfl
  · rfl

/-- The request does not make the code again. -/
def KeepsCode (server : Server α) (codeHash : Bytes) : Request α → Prop
  | .apiEnroll _ (some code) => server.hashCode code ≠ codeHash
  | _ => True

instance (server : Server α) (codeHash : Bytes) : DecidablePred (KeepsCode server codeHash)
  | .apiEnroll _ (some _) => inferInstanceAs (Decidable (_ ≠ _))
  | .apiEnroll _ none | .token .. | .slave .. | .session .. | .enroll .. | .apiDeletePC .. =>
      isTrue trivial

/-- What a deletion leaves of the code was there before. -/
theorem docPairing_after {m : RelayMachine α} {choice : Choice} {o : ClientOp α} {path : Path}
    {p : Pairing} (deletes : DeletesOnly path o)
    (found : docPairing (m.after choice o).docs[path]? = some p) :
    docPairing m.docs[path]? = some p := by
  by_cases effect : o.target = some path ∧ choice.write.applied = true
  · obtain ⟨isTarget, applied⟩ := effect
    rw [deletes isTarget] at found
    change docPairing (changeDocument m.docs choice.write path fun _ => none)[path]? = _ at found
    rw [changeDocument_same, if_pos applied] at found
    cases found
  · rwa [m.docs_after fun isTarget =>
      Bool.eq_false_iff.mpr fun applied => effect ⟨isTarget, applied⟩] at found

/-- Only a new code under the hash, or a deletion, changes the document. -/
theorem Does.deletesOnly {server : Server α} {req : Request α} {o : ClientOp α}
    (does : Does server req o) (old : ∀ role code, req ≠ .apiEnroll role code) (codeHash : Bytes) :
    DeletesOnly (pairingPath codeHash) o := by
  have elsewhere {col id : Bytes} (top : slash ∉ col) (other : col ≠ ascii "pairings") :
      some (docPath col id) ≠ some (pairingPath codeHash) :=
    fun same => docPath_ne top (by decide) other (Option.some.inj same)
  intro isTarget
  cases does with
  | now | tokenSlave | tokenRevoked | gate | getPairing | forget | list => cases isTarget
  | slave verified does =>
      cases does with
      | now | isRevoked | slaveRevoked | getSession | listSessions | lookup | remember | getWebhook
      | send | getWake | getRelay | listCommands => cases isTarget
      | register | parent | grant => exact absurd isTarget (elsewhere (by decide) (by decide))
      | setSession id =>
          rw [sessionPath_eq] at isTarget
          exact absurd isTarget (elsewhere (by decide) (by decide))
      | claim | ack =>
          rw [commandPath_eq] at isTarget
          exact absurd isTarget (elsewhere (by decide) (by decide))
  | pair => exact absurd rfl (old _ _)
  | bind => exact absurd isTarget (elsewhere (by decide) (by decide))
  | revoke => exact absurd isTarget (elsewhere (by decide) (by decide))
  | enrollDeletes path | deletes path =>
      cases isTarget
      rfl

/-- The requests that do not make the code again leave it alone or delete it. -/
theorem Server.keepsCode (server : Server α) (codeHash : Bytes) (req : Request α)
    (keeps : KeepsCode server codeHash req) :
    (server.handle req).Only (DeletesOnly (pairingPath codeHash)) := by
  cases req with
  | apiEnroll role code =>
      cases code with
      | none => exact .pure _
      | some code =>
          have other : DeletesOnly (α := α) (pairingPath codeHash) .now := by rintro ⟨⟩
          refine .bind (.bind (.op other) fun now => .op fun isTarget => ?_) fun ok => ?_
          · exact absurd (docPath_inj.mp (Option.some.inj isTarget)) keeps
          · split <;> exact .pure _
  | token | slave | session | enroll | apiDeletePC =>
      refine (server.handle_only _).imp fun o does => does.deletesOnly ?_ codeHash
      rintro role code ⟨⟩

section

variable {server : Server α} {codeHash pc : Bytes} {secret : Option Bytes} {clock : Nat}
  {past : List (Act α)} {program : Client α Reply} {phase : Phase Pairing}

/-- An expired code stays expired. -/
theorem Taking.later {now : Nat} (taking : Taking codeHash clock pc secret past program phase)
    (later : clock ≤ now) : Taking codeHash now pc secret past program phase := by
  cases taking with
  | refused isReply => exact .refused isReply
  | start isProgram enrolls => exact .start isProgram enrolls
  | got isProgram enrolls => exact .got isProgram enrolls
  | deleted isProgram enrolls => exact .deleted isProgram enrolls
  | late expired isProgram enrolls =>
      refine .late ?_ isProgram enrolls
      rw [← Bool.not_eq_true] at expired ⊢
      exact fun live => expired (Secrets.notAfter_of_le later live)
  | returned replies => exact .returned replies

/-- A call that has enrolled a PC has the code. -/
theorem Taking.enrolled {reply : Reply} (isReply : program = .reply reply)
    (accepted : ∀ status text, reply ≠ .error status text)
    (taking : Taking codeHash clock pc secret past program phase) :
    ∃ p, phase = .returned (some p) ∧ RepliesTo pc secret (some p) reply := by
  subst isReply
  cases taking with
  | refused isReply =>
      cases isReply
      exact (accepted _ _ rfl).elim
  | start isProgram | got isProgram | deleted isProgram => cases isProgram
  | late _ isProgram => rcases isProgram with isProgram | isProgram <;> cases isProgram
  | @returned consumed replies =>
      cases consumed with
      | none =>
          obtain ⟨bind, told⟩ := replies
          cases told
          exact (accepted _ _ rfl).elim
      | some p => exact ⟨p, rfl, replies⟩

/-! ## Steps -/

variable {s s' : System α} {t t' : TakeState Pairing} {r : Nat}

/-- A call goes on, and the one that follows it as well. -/
theorem Follows.perform {c : Call (Request α) (Doc α) Push.PushEntry Delivery Reply}
    {choice : Choice} {o : ClientOp α} {next : o.Result → Client α Reply}
    (follows : Follows server codeHash s t) (running : s.calls r = some c)
    (calls : t'.calls = (t.setCall r phase).calls)
    (doc : ∀ p, docPairing (s.machine.after choice o).docs[pairingPath codeHash]? = some p →
      t'.doc = some p)
    (clock : t'.clock ≤ s.machine.clock)
    (taking : ∀ post code pc secret, c.input = .enroll post code pc secret →
      server.hashCode code = codeHash →
      Taking codeHash s.machine.clock pc secret (s.machine.event choice o :: c.past)
        (next (s.machine.result choice o)) phase)
    (readers : ∀ q ∈ t'.readers, q ∈ t.readers ∨ q = r ∧ Presents server codeHash c.input ∧
      HasFound codeHash (s.machine.event choice o :: c.past)) :
    Follows server codeHash (s.perform r c choice o next) t' := by
  have sameClock := s.machine.clock_after choice o
  constructor
  case doc => exact doc
  case clock => exact clock.trans_eq sameClock.symm
  case absent =>
    intro q absent
    rw [State.perform, State.calls_setCall] at absent
    have other : q ≠ r := by
      rintro rfl
      rw [Function.update_self] at absent
      cases absent
    rw [Function.update_of_ne other] at absent
    rw [calls, TakeState.calls_setCall_of_ne _ other]
    exact follows.absent q absent
  case taking =>
    intro q post code pc secret past program found same
    change Taking _ (s.machine.after choice o).clock _ _ _ _ _
    rw [sameClock, calls]
    rw [State.perform, State.calls_setCall] at found
    by_cases isCall : q = r
    · subst isCall
      rw [Function.update_self] at found
      rw [TakeState.calls_setCall_same]
      obtain ⟨input, before, left⟩ := c
      cases found
      exact taking post code pc secret rfl same
    · rw [Function.update_of_ne isCall] at found
      rw [TakeState.calls_setCall_of_ne _ isCall]
      exact follows.taking q post code pc secret past program found same
  case readers =>
    intro q isReader
    rw [State.perform, State.calls_setCall]
    by_cases isCall : q = r
    · subst isCall
      refine ⟨_, Function.update_self .., ?_⟩
      rcases readers q isReader with old | ⟨-, presents, found⟩
      · obtain ⟨c', running', presents, time, p, found⟩ := follows.readers q old
        cases running.symm.trans running'
        exact ⟨presents, time, p, List.mem_cons_of_mem _ found⟩
      · exact ⟨presents, found⟩
    · rw [Function.update_of_ne isCall]
      rcases readers q isReader with old | ⟨same, -⟩
      · exact follows.readers q old
      · exact absurd same isCall

variable {label : Label α}

/-- A call goes on, and has taken nothing. -/
theorem Follows.stay {c : Call (Request α) (Doc α) Push.PushEntry Delivery Reply}
    {choice : Choice} {o : ClientOp α} {next : o.Result → Client α Reply}
    (follows : Follows server codeHash s t) (running : s.calls r = some c)
    (deletes : DeletesOnly (pairingPath codeHash) o)
    (taking : ∀ post code pc secret, c.input = .enroll post code pc secret →
      server.hashCode code = codeHash →
      Taking codeHash s.machine.clock pc secret (s.machine.event choice o :: c.past)
        (next (s.machine.result choice o)) (t.calls r)) :
    Follows server codeHash (s.perform r c choice o next) t := by
  refine follows.perform running ?_ ?_ follows.clock taking fun q isReader => .inl isReader
  · exact (Function.update_eq_self r t.calls).symm
  · exact fun p found => follows.doc p (docPairing_after deletes found)

theorem forall_enroll {req : Request α} {post : Bool} {code : Bytes}
    {P : Bytes → Option Bytes → Prop} (isEnroll : req = .enroll post code pc secret)
    (holds : P pc secret) :
    ∀ post code pc secret, req = .enroll post code pc secret → server.hashCode code = codeHash →
      P pc secret := by
  subst isEnroll
  rintro _ _ _ _ ⟨⟩ -
  exact holds

section

variable {c : Call (Request α) (Doc α) Push.PushEntry Delivery Reply} {choice : Choice}
  {post : Bool} {code : Bytes} {rest : Option Bytes → Client α Reply} {p : Pairing}

/-- The Get of the code. -/
theorem Follows.get (follows : Follows server codeHash s t) (running : s.calls r = some c)
    (isEnroll : c.input = .enroll post code pc secret) (same : server.hashCode code = codeHash)
    (isProgram : c.program = consumePairing codeHash >>= rest)
    (enrolls : RestEnrolls pc secret rest) (start : t.calls r = .start) :
    CanFollow server codeHash s (.advance r choice) t
      (s.perform r c choice (.get (pairingPath codeHash)) fun snap =>
        (readPairing snap).elim (rest none) fun p => deletedPairing codeHash p rest) := by
  have read := readPairing_readDocument s.machine.docs choice.read (pairingPath codeHash)
  have presents : Presents server codeHash c.input := isEnroll ▸ same
  have missed : takeStep Secrets.consumePairing t (.get r true) =
      some (t.setCall r (.returned none)) := by
    simp only [takeStep, start]
    rfl
  have misses (taking : ∀ past, Taking codeHash s.machine.clock pc secret past
      ((readPairing (readDocument s.machine.docs choice.read (pairingPath codeHash))).elim
        (rest none) fun p => deletedPairing codeHash p rest) (.returned none)) :
      CanFollow server codeHash s (.advance r choice) t
        (s.perform r c choice (.get (pairingPath codeHash)) fun snap =>
          (readPairing snap).elim (rest none) fun p => deletedPairing codeHash p rest) :=
    LeadsTo.single missed (fun _ => trivial)
      (follows.perform running rfl follows.doc follows.clock
        (forall_enroll isEnroll (taking _)) fun q isReader => .inl isReader)
  cases found : readPairing (readDocument s.machine.docs choice.read (pairingPath codeHash)) with
  | none =>
      apply misses
      intro past
      rw [found]
      exact .returned (enrolls none past)
  | some p =>
      rw [found] at read
      cases isRead : choice.read with
      | false =>
          rw [isRead] at read
          cases read
      | true =>
          rw [isRead, if_pos rfl] at read
          have doc := follows.doc p read.symm
          cases live : notAfter p.expiresAt s.machine.clock with
          | false =>
              apply misses
              intro past
              rw [found]
              exact .late live (.inl rfl) enrolls
          | true =>
              have taken : takeStep Secrets.consumePairing t (.get r false) =
                  some { t.setCall r (.got p) with readers := r :: t.readers } := by
                simp only [takeStep, start, doc]
                rfl
              apply LeadsTo.single taken
              · intro sole d _ _
                have alone := sole isRead c _ p running presents isProgram read.symm live
                refine List.eq_nil_iff_forall_not_mem.mpr fun q isReader => ?_
                obtain ⟨c', running', presents', hasFound⟩ := follows.readers q isReader
                exact alone q c' running' presents' hasFound
              · refine follows.perform running rfl follows.doc follows.clock
                  (forall_enroll isEnroll ?_) ?_
                · exact .got (congrArg (fun found => Option.elim found _ _) found) enrolls
                · intro q isReader
                  rcases List.mem_cons.mp isReader with same | old
                  · refine .inr ⟨same, presents, s.machine.clock, p, ?_⟩
                    rw [Machine.event, Machine.result, readPairing_eq_some_iff.mp found]
                    exact List.mem_cons_self
                  · exact .inl old

/-- The Delete of the code, whether it succeeds or not. -/
theorem Follows.delete (follows : Follows server codeHash s t) (running : s.calls r = some c)
    (isEnroll : c.input = .enroll post code pc secret) (enrolls : RestEnrolls pc secret rest)
    (got : t.calls r = .got p) :
    CanFollow server codeHash s (.advance r choice) t
      (s.perform r c choice (.write (pairingPath codeHash) fun _ => none) fun _ =>
        checkedPairing p rest) := by
  have taken : takeStep Secrets.consumePairing t (.delete r !choice.write.applied) =
      some { t.setCall r (.deleted p) with
        doc := if !choice.write.applied then t.doc else none } := by
    simp only [takeStep, got]
  refine LeadsTo.single taken (fun _ => trivial) (follows.perform running rfl ?_ follows.clock
    (forall_enroll isEnroll (.deleted rfl enrolls)) fun q isReader => .inl isReader)
  intro p' found
  change docPairing (changeDocument s.machine.docs choice.write _ fun _ => none)[_]? = _ at found
  rw [changeDocument_same] at found
  cases applied : choice.write.applied with
  | true =>
      rw [applied] at found
      cases found
  | false =>
      rw [applied] at found
      exact follows.doc p' found

/-- The look at the clock. -/
theorem Follows.check (follows : Follows server codeHash s t) (running : s.calls r = some c)
    (isEnroll : c.input = .enroll post code pc secret) (enrolls : RestEnrolls pc secret rest)
    (deleted : t.calls r = .deleted p) :
    CanFollow server codeHash s (.advance r choice) t
      (s.perform r c choice .now fun now =>
        rest (if notAfter p.expiresAt now then some p.scope else none)) := by
  have taken : takeStep Secrets.consumePairing t (.check r s.machine.clock) =
      some { t.setCall r (.returned (if notAfter p.expiresAt s.machine.clock then some p else none))
        with clock := s.machine.clock } := by
    simp only [takeStep, deleted]
    rw [if_pos follows.clock]
    rfl
  refine LeadsTo.single taken (fun _ => trivial) (follows.perform running rfl follows.doc
    (Nat.le_refl _) (forall_enroll isEnroll (.returned ?_)) fun q isReader => .inl isReader)
  have scope : (if notAfter p.expiresAt s.machine.clock then some p.scope else none) =
      (if notAfter p.expiresAt s.machine.clock then some p else none).map Pairing.scope :=
    (apply_ite (Option.map Pairing.scope) _ (some p) none).symm
  have replies := enrolls (if notAfter p.expiresAt s.machine.clock then some p else none)
    (s.machine.event choice .now :: c.past)
  rw [← scope] at replies
  exact replies

/-- A call that presents the code goes on. -/
theorem Follows.advance {o : ClientOp α} {next : o.Result → Client α Reply}
    (follows : Follows server codeHash s t) (running : s.calls r = some c)
    (isOp : c.program = .op o next) (isEnroll : c.input = .enroll post code pc secret)
    (same : server.hashCode code = codeHash) (deletes : DeletesOnly (pairingPath codeHash) o) :
    CanFollow server codeHash s (.advance r choice) t (s.perform r c choice o next) := by
  obtain ⟨input, past, program⟩ := c
  cases isEnroll
  cases isOp
  have taking := follows.taking r _ _ _ _ _ _ running same
  generalize isPhase : t.calls r = phase at taking
  cases taking with
  | refused isReply => cases isReply
  | start isProgram enrolls =>
      have opened := isProgram.trans (consumePairing_bind ..)
      cases opened
      exact follows.get running rfl same isProgram enrolls isPhase
  | got isProgram enrolls =>
      cases isProgram
      exact follows.delete running rfl enrolls isPhase
  | deleted isProgram enrolls =>
      cases isProgram
      exact follows.check running rfl enrolls isPhase
  | @late rest p expired isProgram enrolls =>
      refine LeadsTo.stay (follows.stay running deletes (forall_enroll rfl ?_))
      rw [isPhase]
      rcases isProgram with isProgram | isProgram
      · cases isProgram
        exact .late expired (.inr rfl) enrolls
      · cases isProgram
        refine .returned ?_
        have replies := enrolls none (s.machine.event choice .now :: past)
        change Prog.Along _ _ _
          (rest (if notAfter p.expiresAt s.machine.clock then some p.scope else none))
        rw [expired]
        exact replies
  | returned replies =>
      refine LeadsTo.stay (follows.stay running deletes (forall_enroll rfl ?_))
      rw [isPhase]
      exact .returned (replies.2 _ _ (s.machine.timed_event choice o))

end

theorem exists_of_presents {req : Request α} (presents : Presents server codeHash req) :
    ∃ post code pc secret, req = .enroll post code pc secret ∧ server.hashCode code = codeHash := by
  cases req with
  | enroll post code pc secret => exact ⟨post, code, pc, secret, rfl, presents⟩
  | token | slave | session | apiEnroll | apiDeletePC => exact presents.elim

/-- A call begins, and has taken nothing. -/
theorem Follows.begin {req : Request α} (follows : Follows server codeHash s t)
    (unused : s.calls r = none) :
    Follows server codeHash (s.setCall r ⟨req, [], server.handle req⟩) t where
  doc := follows.doc
  clock := follows.clock
  absent q absent := by
    rw [State.calls_setCall] at absent
    have other : q ≠ r := by
      rintro rfl
      rw [Function.update_self] at absent
      cases absent
    rw [Function.update_of_ne other] at absent
    exact follows.absent q absent
  taking q post code pc secret past program found same := by
    rw [State.calls_setCall] at found
    by_cases isCall : q = r
    · rw [isCall, Function.update_self] at found
      rw [isCall, follows.absent r unused]
      cases found
      rcases enroll_cases server post code pc secret with
        ⟨status, text, isReply⟩ | ⟨rest, isProgram, enrolls⟩
      · exact .refused isReply
      · exact .start (same ▸ isProgram) enrolls
    · rw [Function.update_of_ne isCall] at found
      exact follows.taking q post code pc secret past program found same
  readers q isReader := by
    obtain ⟨c, running, found⟩ := follows.readers q isReader
    have other : q ≠ r := by
      rintro rfl
      cases unused.symm.trans running
    exact ⟨c, by rw [State.calls_setCall, Function.update_of_ne other, running], found⟩

/-- Every step of the relay is followed. -/
theorem Follows.step (follows : Follows server codeHash s t)
    (keeps : s.Calls (KeepsCode server codeHash) fun _ => DeletesOnly (pairingPath codeHash))
    (begins : label.Begins (KeepsCode server codeHash)) (taken : server.step s label = some s') :
    CanFollow server codeHash s label t s' := by
  cases stepped_of_step taken with
  | tick later =>
      exact LeadsTo.stay
        { follows with
          clock := follows.clock.trans later
          taking := fun r post code pc secret past program running same =>
            (follows.taking r post code pc secret past program running same).later later }
  | external => exact begins.elim
  | @begin r req unused =>
      exact LeadsTo.stay (follows.begin unused)
  | @advance r c o next choice running isOp =>
      have deletes := (keeps r c running).2
      rw [isOp] at deletes
      replace deletes := deletes.1
      by_cases presents : Presents server codeHash c.input
      · obtain ⟨post, code, pc, secret, isEnroll, same⟩ := exists_of_presents presents
        exact follows.advance running isOp isEnroll same deletes
      · refine LeadsTo.stay (follows.stay running deletes ?_)
        rintro post code pc secret isEnroll same
        rw [isEnroll] at presents
        exact absurd same presents

end

/-! ## Runs -/

/-- The call has presented the code and enrolled a PC. -/
def HasEnrolled (server : Server α) (codeHash : Bytes) (s : System α) (r : Nat) : Prop :=
  ∃ c reply, s.calls r = some c ∧ Presents server codeHash c.input ∧ c.program = .reply reply ∧
    ∀ status text, reply ≠ .error status text

/-- A call that has enrolled a PC has done so in the other model, too. -/
theorem Follows.enrolled {server : Server α} {codeHash : Bytes} {s : System α}
    {t : TakeState Pairing} {r : Nat} (follows : Follows server codeHash s t)
    (enrolled : HasEnrolled server codeHash s r) :
    ∃ request, Secrets.Enrolled (fun _ => request) t r := by
  obtain ⟨⟨req, past, program⟩, reply, running, presents, isReply, accepted⟩ := enrolled
  obtain ⟨post, code, pc, secret, rfl, same⟩ := exists_of_presents presents
  have taking := follows.taking r post code pc secret past program running same
  obtain ⟨p, returned, bind, told⟩ := taking.enrolled isReply accepted
  refine ⟨⟨pc, secret.isNone, bind⟩, some p, returned, fun status refused => ?_⟩
  rw [refused] at told
  cases told
  exact accepted _ _ rfl

/-- What has been taken of the code so far, alone if `alone` holds. -/
structure Taken (server : Server α) (codeHash : Bytes) (m : RelayMachine α) (alone : Prop)
    (s : System α) : Prop where
  keeps : s.Calls (KeepsCode server codeHash) fun _ => DeletesOnly (pairingPath codeHash)
  followed : LeadsTo (takeStep Secrets.consumePairing) (Alone Secrets.consumePairing) alone
    (.init (docPairing m.docs[pairingPath codeHash]?) m.clock) (Follows server codeHash s)

section

variable {server : Server α} {codeHash : Bytes} {m : RelayMachine α} {alone : Prop}
  {s s' : System α} {label : Label α}

theorem taken_start : Taken server codeHash m alone { machine := m } where
  keeps r c running := by cases running
  followed := by
    apply LeadsTo.stay
    constructor
    case doc => exact fun p found => found
    case clock => exact Nat.le_refl _
    case absent => exact fun r _ => rfl
    case taking =>
      intro r post code pc secret past program running
      cases running
    case readers =>
      intro r isReader
      cases isReader

theorem Taken.step (taken : Taken server codeHash m alone s)
    (begins : label.Begins (KeepsCode server codeHash))
    (finds : alone → FindsAlone server codeHash s label)
    (stepped : server.step s label = some s') : Taken server codeHash m alone s' :=
  ⟨taken.keeps.step (server.keepsCode codeHash) begins.input stepped,
    taken.followed.trans finds fun _ follows => follows.step taken.keeps begins stepped⟩

end

/-- The relay takes an enroll code as the calls of `Secrets` do, in every run in which the
code is not made again.  So the code enrolls at most one PC, if no call finds it good
after another has found it. -/
theorem pairings_refined (server : Server α) (codeHash : Bytes) (m : RelayMachine α)
    {labels : List (Label α)}
    (begins : ∀ label ∈ labels, label.Begins (KeepsCode server codeHash)) :
    Always server.step (fun s => ∃ takes t, exec (takeStep Secrets.consumePairing)
        (.init (docPairing m.docs[pairingPath codeHash]?) m.clock) takes = some t ∧
        Follows server codeHash s t ∧
          ∀ r, HasEnrolled server codeHash s r →
            ∃ request, Secrets.Enrolled (fun _ => request) t r) { machine := m } labels ∧
      (Along server.step (FindsAlone server codeHash) { machine := m } labels →
        Always server.step (fun s => ∀ q r, HasEnrolled server codeHash s q →
          HasEnrolled server codeHash s r → q = r) { machine := m } labels) := by
  have kept : Along server.step (fun _ label => label.Begins (KeepsCode server codeHash))
      { machine := m } labels := along_of_forall_mem begins _
  constructor
  · have taken : Always server.step (Taken server codeHash m False) { machine := m } labels :=
      always_of_preserved (fun _ _ _ taken begins stepped =>
        taken.step begins False.elim stepped) taken_start kept
    apply taken.imp
    intro s taken
    obtain ⟨takes, t, run, -, follows⟩ := taken.followed
    exact ⟨takes, t, run, follows, fun r enrolled => follows.enrolled enrolled⟩
  · intro finds
    have taken : Always server.step (Taken server codeHash m True) { machine := m } labels :=
      always_of_preserved (fun _ _ _ taken both stepped =>
        taken.step both.1 (fun _ => both.2) stepped) taken_start (kept.and finds)
    apply taken.imp
    intro s taken q r enrolled enrolled'
    obtain ⟨takes, t, run, alone, follows⟩ := taken.followed
    obtain ⟨request, once⟩ := follows.enrolled enrolled
    obtain ⟨request', once'⟩ := follows.enrolled enrolled'
    obtain ⟨p, returned⟩ := once.returned
    obtain ⟨p', returned'⟩ := once'.returned
    exact (atMostOne_of_alone _ _ _ (alone trivial)).last run q r p p' returned returned'

/-- The store with a code. -/
def codeStore : RelayMachine Unit :=
  ((exec sampleServer.step {}
    (callLabels 0 (.apiEnroll (ascii "slave") (some (ascii "code"))) 2)).getD {}).machine

/-- `mac` enrolls with the code, and `pi` tries to. -/
def reusedLabels : List (Label Unit) :=
  callLabels 1 (.enroll true (ascii "code") (ascii "mac") (some (ascii "secret"))) 5 ++
    callLabels 2 (.enroll true (ascii "code") (ascii "pi") (some (ascii "secret"))) 1

/-- Only `mac` is enrolled. -/
theorem reused_pairing_refused :
    ∃ s, exec sampleServer.step { machine := codeStore } reusedLabels = some s ∧
      s.answer 1 = some (.enrolled (ascii "mac") (ascii "secret")) ∧
      s.answer 2 = some (.error 401 (utf8 "コードが無効か期限切れです")) ∧
      ∀ q, HasEnrolled sampleServer (sampleServer.hashCode (ascii "code")) s q → q = 1 := by
  have ends : (exec sampleServer.step { machine := codeStore } reusedLabels).map (fun s =>
      (s.answer 1, s.answer 2)) = some (some (.enrolled (ascii "mac") (ascii "secret")),
        some (.error 401 (utf8 "コードが無効か期限切れです"))) := by
    decide +kernel
  have begins : ∀ label ∈ reusedLabels,
      label.Begins (KeepsCode sampleServer (sampleServer.hashCode (ascii "code"))) := by
    decide +kernel
  have finds : Along sampleServer.step
      (FindsAlone sampleServer (sampleServer.hashCode (ascii "code")))
      { machine := codeStore } reusedLabels := by
    -- `mac` begins, and finds the code first
    rintro _ ⟨⟩
    refine ⟨trivial, ?_⟩
    rintro _ ⟨⟩
    refine ⟨?_, ?_⟩
    · rintro - _ _ _ - - - - - q c' running - ⟨time, p, found⟩
      by_cases first : q = 1
      · subst first
        cases running
        cases found
      · rw [State.calls_setCall, Function.update_of_ne first] at running
        cases running
    -- it deletes the code, reads the clock, and is bound
    rintro _ ⟨⟩
    refine ⟨by rintro - _ _ _ ⟨⟩ - ⟨⟩, ?_⟩
    rintro _ ⟨⟩
    refine ⟨by rintro - _ _ _ ⟨⟩ - ⟨⟩, ?_⟩
    rintro _ ⟨⟩
    refine ⟨by rintro - _ _ _ ⟨⟩ - ⟨⟩, ?_⟩
    rintro _ ⟨⟩
    refine ⟨by rintro - _ _ _ ⟨⟩ - ⟨⟩, ?_⟩
    -- `pi` begins, and finds nothing
    rintro _ ⟨⟩
    refine ⟨trivial, ?_⟩
    rintro _ ⟨⟩
    refine ⟨?_, trivial⟩
    rintro - _ _ p - - - found
    have gone : (exec sampleServer.step { machine := codeStore } (reusedLabels.take 7)).bind
        (fun s => docPairing
          s.machine.docs[pairingPath (sampleServer.hashCode (ascii "code"))]?) = none := by
      decide +kernel
    cases found.symm.trans gone
  obtain ⟨s, run, answers⟩ := Option.map_eq_some_iff.mp ends
  have once := ((pairings_refined sampleServer (sampleServer.hashCode (ascii "code")) codeStore
    begins).2 finds).last run
  have enrolled : HasEnrolled sampleServer (sampleServer.hashCode (ascii "code")) s 1 := by
    obtain ⟨c, running, isReply⟩ := State.answer_eq_some_iff.mp (congrArg Prod.fst answers)
    have presents : (exec sampleServer.step { machine := codeStore } reusedLabels).all (fun s =>
        (s.calls 1).all fun c =>
          Presents sampleServer (sampleServer.hashCode (ascii "code")) c.input) = true := by
      decide +kernel
    rw [run, Option.all_some, running, Option.all_some, decide_eq_true_eq] at presents
    exact ⟨c, _, running, presents, isReply, fun _ _ => Reply.noConfusion⟩
  exact ⟨s, run, congrArg Prod.fst answers, congrArg Prod.snd answers,
    fun q enrolls => once q 1 enrolls enrolled⟩

end Drover.Slave
