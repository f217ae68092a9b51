import Drover.Slave.Grants
import Drover.Slave.Isolation
import Drover.Slave.Role

/-!
# The wakes of a shared PC

A wake overwrites the document `wake/{pc}`, and the PC polls for it with the time of the
last wake that it was answered with.  So the document has room for one session, and a
writer's clock decides whether a wake is taken for new.  A committed wake is answered, or
the next poll answers with it or with a later one of its session, in exactly the runs
where every wake is newer than the last answer and overwrites none of another session
that has not been answered.
-/

namespace Drover.Slave

open Drover.Store Drover.Transition
open Drover.Push (PushEntry)

variable {α : Type}

/-! ## Programs -/

/-- `Wake`, at the time of the writer's clock. -/
def wake (server : Server α) (targetPC sid : Bytes) (stamp : Nat) : Client α Bool :=
  Prog.write (wakePath targetPC) fun _ => some (.wake sid (server.rfc3339Nano stamp))

/-- A call of `Wake`, or a poll for it. -/
inductive WakeCall where
  | wake (sid : Bytes) (stamp : Nat)
  /-- `/slave/wake`. -/
  | poll (authorization since : Bytes) (fires : Nat)

/-- The program of a call; `Wake` has no answer. -/
def WakeCall.handle (server : Server α) (pc : Bytes) : WakeCall → Client α (Option Reply)
  | .wake sid stamp => do
      let _ ← Slave.wake server pc sid stamp
      pure none
  | .poll authorization since fires => do
      let reply ← slaveGuard server authorization (slaveWake server since fires)
      pure (some reply)

/-- The calls on the wakes of a store. -/
abbrev WakeSystem (α : Type) := State WakeCall (Doc α) PushEntry Delivery (Option Reply)

/-- What can happen to them next. -/
abbrev WakeLabel (α : Type) := Store.Label WakeCall (Doc α)

/-! ## The log -/

/-- A committed wake, and whether a poll has answered with it. -/
structure Commit where
  sid : Bytes
  ts : Bytes
  answered : Bool
  deriving DecidableEq

/-- The committed wakes, latest first, and the time of the last answer. -/
structure WakeLog where
  commits : List Commit := []
  last : Bytes := []
  deriving DecidableEq

/-- A wake has been committed. -/
def WakeLog.commit (log : WakeLog) (sid ts : Bytes) : WakeLog :=
  { log with commits := ⟨sid, ts, false⟩ :: log.commits }

/-- A poll has answered with a wake: the latest one, if that is the one. -/
def WakeLog.answer (log : WakeLog) (sid ts : Bytes) : WakeLog :=
  match log.commits with
  | [] => { log with last := ts }
  | c :: older =>
      if c.sid = sid ∧ c.ts = ts then ⟨{ c with answered := true } :: older, ts⟩
      else { log with last := ts }

/-- The log after a step. -/
def recordWake (server : Server α) (s : WakeSystem α) (label : WakeLabel α) (s' : WakeSystem α)
    (log : WakeLog) : WakeLog :=
  match label with
  | .advance r choice =>
      match s.calls r with
      | some ⟨.wake sid stamp, _, _⟩ =>
          if choice.write.applied then log.commit sid (server.rfc3339Nano stamp) else log
      | some ⟨.poll .., _, _⟩ =>
          match s'.answer r with
          | some (some (.wake sid ts)) => log.answer sid ts
          | _ => log
      | none => log
  | _ => log

/-- One step of the calls for a PC, with the log. -/
abbrev Server.wakeStep (server : Server α) (pc : Bytes) :
    Step (WakeSystem α × WakeLog) (WakeLabel α) :=
  withGhost (Store.step (WakeCall.handle server pc)) (recordWake server)

/-! ## What is kept -/

/-- A poll that starts with `since` and reads the document answers with the wake. -/
def NextAnswer (server : Server α) (pc since : Bytes) (m : RelayMachine α) (c : Commit) : Prop :=
  ∀ fires choices, (choices 0).read = true →
    ((slaveWake server since fires pc).run choices m).2 = .wake c.sid c.ts

/-- Every committed wake has been answered, or the next poll answers with it, or one of
these is true of a later wake of its session. -/
def Kept (server : Server α) (pc : Bytes) (p : WakeSystem α × WakeLog) : Prop :=
  ∀ newer c older, p.2.commits = newer ++ c :: older →
    ∃ d ∈ newer ++ [c], d.sid = c.sid ∧
      (d.answered = true ∨ NextAnswer server pc p.2.last p.1.machine d)

/-- A wake that takes effect is of a session, newer than the last answer, and overwrites
a wake that has been answered or is of the same session. -/
def WakeFits (server : Server α) (p : WakeSystem α × WakeLog) : WakeLabel α → Prop
  | .advance r choice =>
      match p.1.calls r with
      | some ⟨.wake sid stamp, _, _⟩ =>
          choice.write.applied = true → sid ≠ [] ∧
            wakeNewer server (server.rfc3339Nano stamp) p.2.last = true ∧
            ∀ c ∈ p.2.commits.head?, c.answered = true ∨ c.sid = sid
      | _ => True
  | _ => True

/-- The call is for the PC: the bearer of a poll names no other. -/
def WakeCall.Of (server : Server α) (pc : Bytes) : WakeCall → Prop
  | .wake .. => True
  | .poll authorization _ _ =>
      ∀ now pc', server.verifySlaveToken (bearer authorization) now = some pc' → pc' = pc

/-! ## What the calls do -/

/-- The operations of a call. -/
def WakeCall.May (server : Server α) (pc : Bytes) : WakeCall → ClientOp α → Prop
  | .wake sid stamp, o =>
      o = .write (wakePath pc) fun _ => some (.wake sid (server.rfc3339Nano stamp))
  | .poll .., o => o = .now ∨ ∃ path, o = .get path

/-- The reply is a wake that the last operation has read. -/
def ReadLast (pc : Bytes) (past : List (Act α)) (reply : Reply) : Prop :=
  ∀ sid ts, reply = .wake sid ts →
    ∃ time rest, past = ⟨time, .get (wakePath pc), .found (.wake sid ts)⟩ :: rest

/-- What a call has seen when it answers. -/
def WakeEnds (server : Server α) : WakeCall → List (Act α) → Option Reply → Prop
  | .wake .., _, _ => True
  | .poll authorization _ _, past, reply =>
      ∀ value ∈ reply, ∀ sid ts, value = .wake sid ts →
        ∃ pc now, server.verifySlaveToken (bearer authorization) now = some pc ∧
          ReadLast pc past value

section

variable (server : Server α) (pc : Bytes)

theorem WakeCall.handle_only (call : WakeCall) :
    (call.handle server pc).Only (call.May server pc) := by
  cases call with
  | wake sid stamp => exact .bind (.op rfl) fun _ => .pure _
  | poll authorization since fires =>
      apply Prog.Only.bind _ fun _ => .pure _
      have get : ∀ path, WakeCall.May server pc (.poll authorization since fires) (.get path) :=
        fun path => .inr ⟨path, rfl⟩
      exact guarded_only server (.inl rfl) get authorization fun pc =>
        slaveWake_only server pc (get _) (get _) (get _) since fires

/-- The answer to the document that a poll has read. -/
def wakeReply (since : Bytes) : Snapshot (Doc α) → Option Reply
  | .found (.wake sid ts) =>
      if sid ≠ [] ∧ wakeNewer server ts since = true then some (.wake sid ts) else none
  | _ => none

theorem newerWake_eq (since : Bytes) :
    (newerWake server pc since : Client α _) =
      .op (.get (wakePath pc)) fun snap => .reply (wakeReply server since snap) := by
  refine congrArg (Prog.op _) (funext fun snap => ?_)
  cases snap with
  | failed | absent => rfl
  | found d =>
      cases d with
      | wake sid ts =>
          change Prog.bind (pure (if sid ≠ [] then some (sid, ts) else none)) _ =
            .reply (if sid ≠ [] ∧ wakeNewer server ts since = true then _ else _)
          by_cases named : sid ≠ []
          · rw [if_pos named]
            simp only [named, ne_eq, not_false_iff, true_and]
            rfl
          · rw [if_neg named, if_neg fun both => named both.1]
            rfl
      | _ =>
          rfl

theorem newerWake_along (since : Bytes) (past : List (Act α)) :
    (newerWake server pc since).Along (fun _ _ => True)
      (fun past reply => ∀ value ∈ reply, ReadLast pc past value) past := by
  rw [newerWake_eq]
  refine ⟨trivial, fun time snap _ value isReply sid ts isWake => ?_⟩
  rw [isWake, wakeReply.eq_def] at isReply
  split at isReply
  · split at isReply
    · cases isReply
      exact ⟨time, past, rfl⟩
    · cases isReply
  · cases isReply

theorem slaveWake_along (since : Bytes) (fires : Nat) (past : List (Act α)) :
    (slaveWake server since fires pc).Along (fun _ _ => True) (ReadLast pc) past := by
  have holds : ∀ fires past, (hold pc (newerWake server pc since) fires).Along (fun _ _ => True)
      (ReadLast pc) past := by
    intro fires
    induction fires with
    | zero => exact fun past sid ts isWake => by cases isWake
    | succ fires ih =>
        intro past
        rw [hold]
        apply Prog.Along.bind
        apply (Prog.only_true _).along fun _ _ _ => trivial
        intro past' refused _
        split
        · exact fun sid ts isWake => by cases isWake
        · apply Prog.Along.bind
          apply (newerWake_along server pc since past').imp fun _ _ _ => trivial
          intro past'' reply isRead
          split
          · exact isRead _ rfl
          · exact ih past''
  apply Prog.Along.bind
  apply (newerWake_along server pc since past).imp fun _ _ _ => trivial
  intro past' reply isRead
  split
  · exact isRead _ rfl
  · exact holds fires past'

theorem WakeCall.handle_along (call : WakeCall) :
    (call.handle server pc).Along (fun _ _ => True) (WakeEnds server call) [] := by
  cases call with
  | wake sid stamp => exact (Prog.only_true _).along (fun _ _ _ => trivial) fun _ _ _ => trivial
  | poll authorization since fires =>
      apply Prog.Along.bind
      rw [slaveGuard]
      split
      · rintro value ⟨⟩ sid ts isWake
        cases isWake
      · apply Prog.Along.now trivial
        intro now
        split
        · rintro value ⟨⟩ sid ts isWake
          cases isWake
        · rename_i pc' verified
          apply Prog.Along.bind
          apply (Prog.only_true _).along fun _ _ _ => trivial
          intro past refused _
          split
          · rintro value ⟨⟩ sid ts isWake
            cases isWake
          · apply (slaveWake_along server pc' since fires past).imp fun _ _ _ => trivial
            rintro past value isRead value' ⟨⟩ - - -
            exact ⟨pc', now, verified, isRead⟩

end

/-! ## The log alone -/

/-- The next poll answers with the content of the wake: that of the latest one. -/
def WakeLog.Next (server : Server α) (log : WakeLog) (c : Commit) : Prop :=
  ∃ d ∈ log.commits.head?, c.sid = d.sid ∧ c.ts = d.ts ∧ d.sid ≠ [] ∧
    wakeNewer server d.ts log.last = true

/-- `Kept`, read off the log. -/
def WakeLog.Keeps (server : Server α) (log : WakeLog) : Prop :=
  ∀ newer c older, log.commits = newer ++ c :: older →
    ∃ d ∈ newer ++ [c], d.sid = c.sid ∧ (d.answered = true ∨ log.Next server d)

section

variable {server : Server α} {log : WakeLog} {sid ts : Bytes}

theorem head_mem {commits newer older : List Commit} {h c : Commit}
    (split : commits = newer ++ c :: older) (isHead : h ∈ commits.head?) : h ∈ newer ++ [c] := by
  rw [split] at isHead
  cases newer with
  | nil =>
      cases isHead
      exact .head _
  | cons n newer =>
      cases isHead
      exact .head _

/-- A wake that is committed keeps the others exactly if it fits. -/
theorem WakeLog.keeps_commit (keeps : log.Keeps server) :
    (log.commit sid ts).Keeps server ↔
      sid ≠ [] ∧ wakeNewer server ts log.last = true ∧
        ∀ c ∈ log.commits.head?, c.answered = true ∨ c.sid = sid := by
  constructor
  · intro all
    have itself : sid ≠ [] ∧ wakeNewer server ts log.last = true := by
      obtain ⟨d, mem, -, kept⟩ := all [] ⟨sid, ts, false⟩ log.commits rfl
      cases List.mem_singleton.mp mem
      obtain ⟨d, isHead, -, -, named, newer⟩ := kept.resolve_left Bool.false_ne_true
      cases isHead
      exact ⟨named, newer⟩
    refine ⟨itself.1, itself.2, fun c isHead => ?_⟩
    obtain ⟨older, commits⟩ := List.head?_eq_some_iff.mp isHead
    obtain ⟨d, mem, sameSid, kept⟩ := all [⟨sid, ts, false⟩] c older
      (List.cons_eq_cons.mpr ⟨rfl, commits⟩)
    rcases List.mem_pair.mp mem with rfl | rfl
    · exact .inr sameSid.symm
    · refine kept.imp id ?_
      rintro ⟨d, isHead, sameHead, -⟩
      cases isHead
      exact sameHead
  · rintro ⟨named, isNewer, head⟩ newer c older split
    have next : (log.commit sid ts).Next server ⟨sid, ts, false⟩ :=
      ⟨_, rfl, rfl, rfl, named, isNewer⟩
    cases newer with
    | nil =>
        obtain ⟨rfl, -⟩ := List.cons.inj split
        exact ⟨_, List.mem_singleton_self _, rfl, .inr next⟩
    | cons n newer =>
        obtain ⟨rfl, commits⟩ := List.cons.inj split
        obtain ⟨d, mem, sameSid, kept⟩ := keeps newer c older commits
        rcases kept with answered | ⟨h, isHead, sidHead, -⟩
        · exact ⟨d, .tail _ mem, sameSid, .inl answered⟩
        · rcases head h isHead with answered | sameHead
          · refine ⟨h, .tail _ ?_, sidHead.symm.trans sameSid, .inl answered⟩
            exact head_mem commits isHead
          · exact ⟨_, .head _, sameHead.symm.trans (sidHead.symm.trans sameSid), .inr next⟩

/-- An answer with the latest wake keeps all. -/
theorem WakeLog.keeps_answer (keeps : log.Keeps server)
    (isLatest : ∃ c ∈ log.commits.head?, c.sid = sid ∧ c.ts = ts) :
    (log.answer sid ts).Keeps server := by
  obtain ⟨h, isHead, same⟩ := isLatest
  obtain ⟨commits, last⟩ := log
  obtain ⟨rest, rfl⟩ := List.head?_eq_some_iff.mp isHead
  rw [WakeLog.answer]
  simp only [if_pos same]
  intro newer c older split
  cases newer with
  | nil =>
      obtain ⟨rfl, -⟩ := List.cons.inj split
      exact ⟨_, .head _, rfl, .inl rfl⟩
  | cons n newer =>
      obtain ⟨rfl, tail⟩ := List.cons.inj split
      obtain ⟨d, mem, sameSid, kept⟩ := keeps (h :: newer) c older (congrArg (h :: ·) tail)
      rcases kept with answered | ⟨h', isHead', sidHead, -⟩
      · rcases List.mem_cons.mp mem with rfl | mem
        · exact ⟨_, .head _, sameSid, .inl rfl⟩
        · exact ⟨d, .tail _ mem, sameSid, .inl answered⟩
      · cases isHead'
        exact ⟨_, .head _, sidHead.symm.trans sameSid, .inl rfl⟩

theorem WakeLog.answer_commits (log : WakeLog) (sid ts : Bytes) :
    (log.answer sid ts).commits.head?.map (fun c => (c.sid, c.ts)) =
      log.commits.head?.map fun c => (c.sid, c.ts) := by
  obtain ⟨commits, last⟩ := log
  cases commits with
  | nil => rfl
  | cons c older =>
      rw [WakeLog.answer]
      simp only
      split <;> rfl

end

/-! ## Steps -/

section

variable {server : Server α} {pc : Bytes}

/-- The document is that of the latest wake. -/
def Stored (pc : Bytes) (log : WakeLog) (m : RelayMachine α) : Prop :=
  m.docs[wakePath pc]? = log.commits.head?.map fun c => .wake c.sid c.ts

/-- What a poll answers after its first read. -/
theorem slaveWake_run (m : RelayMachine α) (choices : Nat → Choice) (since : Bytes) (fires : Nat) :
    ((slaveWake server since fires pc).run choices m).2 =
      (wakeReply server since (readDocument m.docs (choices 0).read (wakePath pc))).getD
        ((hold pc (newerWake server pc since) fires).run (fun n => choices (n + 1)) m).2 := by
  rw [slaveWake, longPoll, newerWake_eq]
  simp only [bind, Prog.bind, Prog.run, Machine.result]
  cases wakeReply server since (readDocument m.docs (choices 0).read (wakePath pc)) <;> rfl

theorem Stored.congr {log log' : WakeLog} {m : RelayMachine α} (stored : Stored pc log m)
    (same : log'.commits.head?.map (fun c => (c.sid, c.ts)) =
      log.commits.head?.map fun c => (c.sid, c.ts)) : Stored pc log' m := by
  have docs : ∀ log : WakeLog, log.commits.head?.map (fun c => (.wake c.sid c.ts : Doc α)) =
      (log.commits.head?.map fun c => (c.sid, c.ts)).map fun p => .wake p.1 p.2 := by
    intro log
    rw [Option.map_map]
    rfl
  rw [Stored, docs, same, ← docs]
  exact stored

theorem nextAnswer_iff {m : RelayMachine α} {log : WakeLog} (stored : Stored pc log m)
    (c : Commit) : NextAnswer server pc log.last m c ↔ log.Next server c := by
  constructor
  · intro next
    have answer := next 0 (fun _ => .ok) rfl
    rw [slaveWake_run, readDocument, stored] at answer
    cases isHead : log.commits.head? with
    | none =>
        rw [isHead] at answer
        cases answer
    | some d =>
        rw [isHead] at answer
        by_cases newer : d.sid ≠ [] ∧ wakeNewer server d.ts log.last = true
        · simp only [Choice.ok, if_true, Option.map_some, wakeReply, if_pos newer,
            Option.getD_some, Reply.wake.injEq] at answer
          exact ⟨d, isHead, answer.1.symm, answer.2.symm, newer.1, newer.2⟩
        · simp only [Choice.ok, if_true, Option.map_some, wakeReply, if_neg newer] at answer
          cases answer
  · rintro ⟨d, isHead, sameSid, sameTs, named, newer⟩ fires choices readable
    have read : readDocument m.docs (choices 0).read (wakePath pc) = .found (.wake d.sid d.ts) := by
      rw [readDocument_eq_found_iff, stored, Option.mem_def.mp isHead]
      exact ⟨readable, rfl⟩
    rw [slaveWake_run, read, sameSid, sameTs]
    simp only [wakeReply, if_pos (And.intro named newer), Option.getD_some]

theorem kept_iff {p : WakeSystem α × WakeLog} (stored : Stored pc p.2 p.1.machine) :
    Kept server pc p ↔ p.2.Keeps server := by
  simp only [Kept, WakeLog.Keeps, nextAnswer_iff stored]

/-- What holds in every state. -/
structure WakeInv (server : Server α) (pc : Bytes) (p : WakeSystem α × WakeLog) : Prop where
  calls : p.1.Calls (WakeCall.Of server pc) (WakeCall.May server pc)
  follows : p.1.Follows (fun _ _ _ => True) (WakeEnds server)
  stored : Stored pc p.2 p.1.machine

/-- What a step does to the log: nothing, or it commits a wake, or a poll answers. -/
inductive WakeStepped (server : Server α) (pc : Bytes) (p p' : WakeSystem α × WakeLog)
    (label : WakeLabel α) : Prop
  | quiet (log : p'.2 = p.2) (stored : Stored pc p.2 p'.1.machine)
      (fits : WakeFits server p label)
  | commits (sid : Bytes) (stamp : Nat) (log : p'.2 = p.2.commit sid (server.rfc3339Nano stamp))
      (stored : Stored pc p'.2 p'.1.machine)
      (fits : WakeFits server p label ↔ sid ≠ [] ∧
        wakeNewer server (server.rfc3339Nano stamp) p.2.last = true ∧
        ∀ c ∈ p.2.commits.head?, c.answered = true ∨ c.sid = sid)
  | answers (sid ts : Bytes) (log : p'.2 = p.2.answer sid ts)
      (isLatest : ∃ c ∈ p.2.commits.head?, c.sid = sid ∧ c.ts = ts)
      (stored : Stored pc p.2 p'.1.machine) (fits : WakeFits server p label)

variable {p p' : WakeSystem α × WakeLog} {label : WakeLabel α}

/-- A poll answers with the latest wake. -/
theorem latest_of_answer {s s' : WakeSystem α} {log : WakeLog} {r : Nat}
    {authorization since : Bytes} {fires : Nat} {past : List (Act α)} {o : ClientOp α}
    {next : o.Result → Client α (Option Reply)} {choice : Choice} {sid ts : Bytes}
    (stored : Stored pc log s.machine) (of : (WakeCall.poll authorization since fires).Of server pc)
    (follows : s'.Follows (fun _ _ _ => True) (WakeEnds server))
    (isNext : s' = s.perform r ⟨.poll authorization since fires, past, .op o next⟩ choice o next)
    (answered : s'.answer r = some (some (.wake sid ts))) :
    ∃ c ∈ log.commits.head?, c.sid = sid ∧ c.ts = ts := by
  obtain ⟨c, running, -, ends⟩ := follows.answer answered
  rw [isNext, State.perform, State.calls_setCall, Function.update_self] at running
  cases running
  obtain ⟨pc', now, verified, isRead⟩ := ends _ rfl sid ts rfl
  cases of now pc' verified
  obtain ⟨time, rest, isPast⟩ := isRead sid ts rfl
  obtain ⟨isEvent, -⟩ := List.cons.inj isPast
  cases o with
  | get path =>
      simp only [Machine.event, Event.mk.injEq, Op.get.injEq] at isEvent
      obtain ⟨-, rfl, isFound⟩ := isEvent
      have found := (readDocument_eq_found_iff.mp (eq_of_heq isFound)).2
      rw [stored, Option.map_eq_some_iff] at found
      obtain ⟨c, isHead, same⟩ := found
      obtain ⟨sameSid, sameTs⟩ := Doc.wake.inj same
      exact ⟨c, isHead, sameSid, sameTs⟩
  | write | list | transact | lookup | remember | forget | now | emit => cases isEvent

theorem wakeStepped_of_step (inv : WakeInv server pc p)
    (begins : label.Begins (WakeCall.Of server pc)) (taken : server.wakeStep pc p label = some p')
    (follows : p'.1.Follows (fun _ _ _ => True) (WakeEnds server)) :
    WakeStepped server pc p p' label := by
  obtain ⟨s, log⟩ := p
  obtain ⟨s', log'⟩ := p'
  obtain ⟨taken, recorded⟩ := withGhost_eq_some_iff.mp taken
  cases stepped_of_step taken with
  | tick later => exact .quiet recorded inv.stored trivial
  | external path doc => exact begins.elim
  | begin input unused => exact .quiet recorded inv.stored trivial
  | @advance r c o next choice running isOp =>
      obtain ⟨call, past, program⟩ := c
      cases isOp
      obtain ⟨of, may, -⟩ := inv.calls r _ running
      change s.calls r = _ at running
      simp only [recordWake] at recorded
      rw [running] at recorded
      cases call with
      | wake sid stamp =>
          cases may
          have fits : WakeFits server (s, log) (.advance r choice) ↔
              (choice.write.applied = true → sid ≠ [] ∧
                wakeNewer server (server.rfc3339Nano stamp) log.last = true ∧
                ∀ c ∈ log.commits.head?, c.answered = true ∨ c.sid = sid) := by
            rw [WakeFits, running]
          by_cases applied : choice.write.applied = true
          · simp only [if_pos applied] at recorded
            refine .commits sid stamp recorded ?_
              (fits.trans ⟨fun all => all applied, fun met _ => met⟩)
            change (changeDocument s.machine.docs choice.write (wakePath pc) _)[wakePath pc]? = _
            rw [changeDocument_same, if_pos applied, recorded]
            rfl
          · simp only [if_neg applied] at recorded
            refine .quiet recorded ?_ (fits.mpr fun isApplied => (applied isApplied).elim)
            change (changeDocument s.machine.docs choice.write (wakePath pc) _)[wakePath pc]? = _
            rw [changeDocument_same, if_neg applied]
            exact inv.stored
      | poll authorization since fires =>
          have fits : WakeFits server (s, log) (.advance r choice) := by
            rw [WakeFits, running]
            exact trivial
          have stored : Stored pc log (s.machine.after choice o) := by
            rcases may with rfl | ⟨path, rfl⟩ <;> exact inv.stored
          simp only at recorded
          split at recorded
          · rename_i sid ts answered
            exact .answers sid ts recorded
              (latest_of_answer inv.stored of follows rfl answered) stored fits
          · exact .quiet recorded stored fits

theorem WakeInv.step (inv : WakeInv server pc p) (begins : label.Begins (WakeCall.Of server pc))
    (taken : server.wakeStep pc p label = some p') : WakeInv server pc p' := by
  obtain ⟨taken', -⟩ := withGhost_eq_some_iff.mp taken
  have follows : p'.1.Follows (fun _ _ _ => True) (WakeEnds server) :=
    inv.follows.step (fun _ call _ => call.handle_along server pc) taken'
  have calls : p'.1.Calls (WakeCall.Of server pc) (WakeCall.May server pc) :=
    inv.calls.step (fun call _ => call.handle_only server pc) begins.input taken'
  refine ⟨calls, follows, ?_⟩
  cases wakeStepped_of_step inv begins taken follows with
  | quiet log stored => rwa [log]
  | commits sid stamp log stored => exact stored
  | answers sid ts log isLatest stored =>
      rw [log]
      exact stored.congr (p.2.answer_commits sid ts)

theorem kept_step (inv : WakeInv server pc p) (kept : Kept server pc p)
    (begins : label.Begins (WakeCall.Of server pc)) (taken : server.wakeStep pc p label = some p') :
    Kept server pc p' ↔ WakeFits server p label := by
  have inv' := inv.step begins taken
  rw [kept_iff inv.stored] at kept
  rw [kept_iff inv'.stored]
  cases wakeStepped_of_step inv begins taken inv'.follows with
  | quiet log stored fits =>
      rw [log]
      exact iff_of_true kept fits
  | commits sid stamp log stored fits =>
      rw [log, fits]
      exact WakeLog.keeps_commit kept
  | answers sid ts log isLatest stored fits =>
      rw [log]
      exact iff_of_true (WakeLog.keeps_answer kept isLatest) fits

end

/-- In the runs of `Wake` and `/slave/wake` of a PC that has had no wake, every committed
wake is kept exactly if each one fits. -/
theorem kept_iff_wakesFit (server : Server α) (pc : Bytes) {m : RelayMachine α}
    (fresh : m.docs[wakePath pc]? = none) {labels : List (WakeLabel α)}
    (begins : ∀ label ∈ labels, label.Begins (WakeCall.Of server pc)) :
    Always (server.wakeStep pc) (Kept server pc) ({ machine := m }, {}) labels ↔
      Along (server.wakeStep pc) (WakeFits server) ({ machine := m }, {}) labels := by
  have start : WakeInv server pc (({ machine := m }, {}) : WakeSystem α × WakeLog) :=
    ⟨nofun, nofun, fresh⟩
  have empty : Kept server pc (({ machine := m }, {}) : WakeSystem α × WakeLog) := by
    intro newer c older split
    cases newer <;> cases split
  apply always_iff_along _ _ start empty (along_of_forall_mem begins _)
  · exact fun _ _ _ inv begins taken => inv.step begins taken
  · exact fun _ _ _ inv kept begins taken => kept_step inv kept begins taken

instance (server : Server α) (p : WakeSystem α × WakeLog) :
    (label : WakeLabel α) → Decidable (WakeFits server p label)
  | .tick _ | .external .. | .begin .. => isTrue trivial
  | .advance r choice =>
      match running : p.1.calls r with
      | some ⟨.wake sid stamp, _, _⟩ =>
          decidable_of_iff (choice.write.applied = true → sid ≠ [] ∧
            wakeNewer server (server.rfc3339Nano stamp) p.2.last = true ∧
            ∀ c ∈ p.2.commits.head?, c.answered = true ∨ c.sid = sid) (by rw [WakeFits, running])
      | some ⟨.poll .., _, _⟩ | none => isTrue (by rw [WakeFits, running]; trivial)

/-- A call of `Wake`, which goes well. -/
def wakeLabels (r : Nat) (sid : Bytes) (stamp : Nat) : List (WakeLabel Unit) :=
  [.begin r (.wake sid stamp), .advance r .ok]

/-- A poll of `mac` whose listener does not fire. -/
def pollLabels (r : Nat) (since : Bytes) : List (WakeLabel Unit) :=
  .begin r (.poll (sampleAuthorization (ascii "mac")) since 0) ::
    List.replicate 4 (.advance r .ok)

theorem begins_wakeLabels (r : Nat) (sid : Bytes) (stamp : Nat) :
    ∀ label ∈ wakeLabels r sid stamp,
      label.Begins (WakeCall.Of sampleServer (ascii "mac")) := by
  intro label mem
  rcases List.mem_pair.mp mem with rfl | rfl <;> exact trivial

theorem begins_pollLabels (r : Nat) (since : Bytes) :
    ∀ label ∈ pollLabels r since, label.Begins (WakeCall.Of sampleServer (ascii "mac")) := by
  intro label mem
  rcases List.mem_cons.mp mem with rfl | mem
  · exact of_sampleAuthorization .sessions
  · rw [List.eq_of_mem_replicate mem]
    exact trivial

/-- Wakes of two sessions, with an answer in between. -/
theorem answered_wakes_kept :
    Always (sampleServer.wakeStep (ascii "mac")) (Kept sampleServer (ascii "mac")) ({}, {})
      (wakeLabels 0 (ascii "w1") 1 ++ pollLabels 1 [] ++ wakeLabels 2 (ascii "w2") 2) := by
  have begins : ∀ label ∈ wakeLabels 0 (ascii "w1") 1 ++ pollLabels 1 [] ++
      wakeLabels 2 (ascii "w2") 2, label.Begins (WakeCall.Of sampleServer (ascii "mac")) := by
    intro label mem
    simp only [List.mem_append] at mem
    rcases mem with (first | poll) | second
    · exact begins_wakeLabels _ _ _ label first
    · exact begins_pollLabels _ _ label poll
    · exact begins_wakeLabels _ _ _ label second
  have fresh : ({} : RelayMachine Unit).docs[wakePath (ascii "mac")]? = none :=
    Std.ExtTreeMap.getElem?_empty
  exact (kept_iff_wakesFit sampleServer (ascii "mac") fresh begins).mpr (by decide +kernel)

/-- Without it the first wake is overwritten: the poll answers with the second one, the
poll after it has nothing to answer, and the first wake has been lost. -/
theorem overwritten_wake_lost :
    ∃ s log, exec (sampleServer.wakeStep (ascii "mac")) ({}, {})
        (wakeLabels 0 (ascii "w1") 1 ++ wakeLabels 1 (ascii "w2") 2 ++ pollLabels 2 [] ++
          pollLabels 3 (sampleServer.rfc3339Nano 2)) = some (s, log) ∧
      s.answer 2 = some (some (.wake (ascii "w2") (sampleServer.rfc3339Nano 2))) ∧
      s.answer 3 = some (some .noContent) ∧
      ¬ ∀ newer c older, log.commits = newer ++ c :: older →
        ∃ d ∈ newer ++ [c], d.sid = c.sid ∧ d.answered = true := by
  have ends : (exec (sampleServer.wakeStep (ascii "mac")) ({}, {})
      (wakeLabels 0 (ascii "w1") 1 ++ wakeLabels 1 (ascii "w2") 2 ++ pollLabels 2 [] ++
        pollLabels 3 (sampleServer.rfc3339Nano 2))).map
        (fun p => (p.1.answer 2, p.1.answer 3, p.2.commits)) =
      some (some (some (.wake (ascii "w2") (sampleServer.rfc3339Nano 2))),
        some (some .noContent), [⟨ascii "w2", sampleServer.rfc3339Nano 2, true⟩,
          ⟨ascii "w1", sampleServer.rfc3339Nano 1, false⟩]) := by
    decide +kernel
  obtain ⟨⟨s, log⟩, run, seen⟩ := Option.map_eq_some_iff.mp ends
  simp only [Prod.mk.injEq] at seen
  obtain ⟨second, third, commits⟩ := seen
  refine ⟨s, log, run, second, third, fun all => ?_⟩
  obtain ⟨d, mem, sameSid, answered⟩ := all [⟨ascii "w2", sampleServer.rfc3339Nano 2, true⟩]
    ⟨ascii "w1", sampleServer.rfc3339Nano 1, false⟩ [] commits
  rcases List.mem_pair.mp mem with rfl | rfl
  · exact absurd sameSid (by decide)
  · cases answered

end Drover.Slave
