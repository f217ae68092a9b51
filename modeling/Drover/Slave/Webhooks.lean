import Drover.Slave.Role
import Drover.Store.History
import Drover.Transition.Run

/-!
# Webhooks of the pushes of a PC

`slavePush` sends a webhook for a session that was working in the listing before the
push and is not in the request.  What the push stores is another matter: it goes by
the ids of the documents, one session after another, and stops where a write fails.
The sends are those of the changes that are stored in every run whose pushes do not
tell the two apart.
-/

namespace Drover.Slave

open Drover.Store Drover.Transition
open Drover.Push (Fields PushEntry stringField sessionKey contentHash contentHashKey)

variable {α : Type}

/-- The field of the status. -/
def agentStatus : Bytes := ascii "agent_status"

/-- The status of an agent at work. -/
def working : Bytes := ascii "working"

/-- The relay and its store, with their history. -/
abbrev RelayStage (α : Type) := Stage (Doc α) PushEntry Delivery

/-! ## Stored states -/

/-- What a push goes by in the document of a session. -/
structure Shown where
  status : Bytes
  hash : Bytes
  deriving DecidableEq

/-- The document with the id. -/
def seenAt (pc : Bytes) (docs : Documents (Doc α)) (id : Bytes) : Option Shown :=
  docs[sessionPath pc id]?.map fun d =>
    ⟨stringField d.data agentStatus, stringField d.data contentHashKey⟩

/-- The session of the id goes from working to a state that is notified. -/
def completes (pc id : Bytes) (old new : Documents (Doc α)) : Bool :=
  (seenAt pc old id).any (·.status = working) &&
    (seenAt pc new id).any (·.status ∈ notifyStates)

/-- The webhooks that were sent for the session. -/
def sends (id : Bytes) (outputs : List Delivery) : Nat :=
  outputs.countP fun delivery => delivery.payload.sid = id

/-- Of every session, each change from working to a notified state that was stored has
been sent once, and nothing else has. -/
def SentOnce (pc : Bytes) (s : RelayStage α) : Prop :=
  ∀ id, s.count (completes pc id) = sends id s.machine.outputs

/-! ## Pushes one after another -/

/-- What happens between and in the pushes; a push comes with how its writes end. -/
inductive PushLabel (α : Type) where
  | tick (time : Nat)
  /-- The settings of the webhook change, and keep it enabled. -/
  | configure (cfg : WebhookConfig)
  | push (body : Option (List (Fields α))) (outcomes : Nat → Outcome)

/-- A step of the pushes of a PC. -/
def Server.pushStep (server : Server α) (pc : Bytes) :
    Step (RelayStage α) (PushLabel α)
  | s, .tick time =>
      if s.machine.clock ≤ time then some { s with machine := { s.machine with clock := time } }
      else none
  | s, .configure cfg =>
      if cfg.enabled then
        some { s with
          machine := { s.machine with
            docs := changeDocument s.machine.docs .ok webhookPath fun _ =>
              some (.webhook (some cfg)) }
          past := s.machine.docs :: s.past }
      else none
  | s, .push body outcomes =>
      some ((slavePush server body pc).runOn { s with outcomes := outcomes }).1

/-! ## When they agree -/

/-- A session of a push, with its document when its turn comes. -/
structure Turn (α : Type) where
  before : Option Shown
  session : Fields α

/-- What a push stores for the session. -/
def Server.stores (server : Server α) (session : Fields α) : Shown :=
  ⟨stringField session agentStatus, contentHash server.digest session⟩

/-- The turns of a push: the document of a session is the last one before it with its
id, or else the one in the store. -/
def Server.turns (server : Server α) (seen : Bytes → Option Shown) :
    List (Fields α) → List (Turn α)
  | [] => []
  | session :: sessions =>
      ⟨seen (sessionKey session), session⟩ ::
        server.turns (Function.update seen (sessionKey session) (some (server.stores session)))
          sessions

/-- The document has the hash of the session, so that it is not written. -/
def Server.unchanged (server : Server α) (t : Turn α) : Bool :=
  t.before.any fun d => d.hash = contentHash server.digest t.session

/-- The session was working, and is in a state that is notified. -/
def Turn.completes (t : Turn α) : Bool :=
  t.before.any (·.status = working) && stringField t.session agentStatus ∈ notifyStates

/-- The turns whose session is stored, given how the writes end. -/
def Server.stored (server : Server α) (outcomes : Nat → Outcome) : List (Turn α) → List (Turn α)
  | [] => []
  | t :: ts =>
      if server.unchanged t then server.stored outcomes ts
      else
        match outcomes 0 with
        | .ok => t :: server.stored (fun n => outcomes (n + 1)) ts
        | .failed applied => if applied then [t] else []

/-- No write of a session fails. -/
def Server.allStored (server : Server α) (outcomes : Nat → Outcome) : List (Turn α) → Bool
  | [] => true
  | t :: ts =>
      if server.unchanged t then server.allStored outcomes ts
      else outcomes 0 = .ok && server.allStored (fun n => outcomes (n + 1)) ts

/-- What the listing says of a session, by its `key`. -/
def listedStatus (pc : Bytes) (docs : Documents (Doc α)) : Bytes → Option Bytes :=
  statusByKey ((listDocuments docs (sessionsCol pc)).map fun p => p.2.data)

/-- A push that fails has stored no completion.  In another one every session that is in
a notified state was working in the listing if and only if its document is when its
turn comes.  Two states of a session with one hash have one status. -/
structure PushFits (server : Server α) (pc : Bytes) (docs : Documents (Doc α))
    (sessions : List (Fields α)) (outcomes : Nat → Outcome) : Prop where
  sameHash : ∀ t ∈ server.turns (seenAt pc docs) sessions, server.unchanged t = true →
    t.before.any (·.status = stringField t.session agentStatus) = true
  failed : server.allStored outcomes (server.turns (seenAt pc docs) sessions) = false →
    ∀ t ∈ server.stored outcomes (server.turns (seenAt pc docs) sessions), t.completes = false
  listed : server.allStored outcomes (server.turns (seenAt pc docs) sessions) = true →
    ∀ t ∈ server.turns (seenAt pc docs) sessions,
      stringField t.session agentStatus ∈ notifyStates →
        (listedStatus pc docs (stringField t.session (ascii "key")) = some working ↔
          t.before.any (·.status = working) = true)

/-- The condition on a step. -/
def Fits (server : Server α) (pc : Bytes) (s : RelayStage α) :
    PushLabel α → Prop
  | .push (some sessions) outcomes => PushFits server pc s.machine.docs sessions outcomes
  | _ => True

/-! ## A round -/

/-- An entry of the cache has the hash of its document. -/
def Coherent (pc : Bytes) (m : RelayMachine α) : Prop :=
  ∀ id e, m.memory (pushKey pc id) = some e → (seenAt pc m.docs id).any (·.hash = e.hash) = true

theorem working_notMem_notifyStates : working ∉ notifyStates := by decide

@[simp]
theorem completes_self (pc id : Bytes) (docs : Documents (Doc α)) :
    completes pc id docs docs = false := by
  rw [completes]
  cases seenAt pc docs id with
  | none => rfl
  | some d =>
      rw [Option.any_some, Option.any_some, Bool.and_eq_false_iff, decide_eq_false_iff_not,
        decide_eq_false_iff_not, ← not_and_or]
      rintro ⟨isWorking, notified⟩
      exact working_notMem_notifyStates (isWorking ▸ notified)

theorem sessionPath_eq_iff {pc id id' : Bytes} :
    sessionPath pc id = sessionPath pc id' ↔ id = id' :=
  docPath_inj

theorem webhookPath_ne_sessionPath (pc id : Bytes) : webhookPath ≠ sessionPath pc id := by
  rw [sessionPath_eq]
  exact docPath_ne (by decide) (by decide) (by decide)

section

variable {server : Server α} {pc : Bytes} {now : Nat} {session : Fields α} {changed : Nat}
  {s s' : RelayStage α}

variable (server pc session) in
/-- What a write of the session shows. -/
theorem seenAt_write (docs : Documents (Doc α)) (outcome : Outcome) (ver : Int64)
    (stamp : Bytes) :
    seenAt pc (changeDocument docs outcome (sessionPath pc (sessionKey session)) fun _ =>
        some (.fields (Push.document session ver (contentHash server.digest session) stamp))) =
      if outcome.applied then
        Function.update (seenAt pc docs) (sessionKey session) (some (server.stores session))
      else seenAt pc docs := by
  have status : stringField
      (Push.document session ver (contentHash server.digest session) stamp) agentStatus =
        stringField session agentStatus := by
    have notStamp : agentStatus ≠ Push.updatedAt := by decide
    have notHash : agentStatus ≠ contentHashKey := by decide
    have notVersion : agentStatus ≠ Push.version := by decide
    simp only [stringField, Push.document, Function.update_of_ne notStamp,
      Function.update_of_ne notHash, Function.update_of_ne notVersion]
  funext id
  by_cases same : id = sessionKey session
  · subst same
    rw [seenAt, changeDocument_same]
    split
    · rw [Function.update_self, Option.map_some]
      simp only [Doc.data, status, Push.stringField_document]
      rfl
    · rfl
  · rw [seenAt, changeDocument_of_ne (mt sessionPath_eq_iff.mp same)]
    split
    · rw [Function.update_of_ne same]
      rfl
    · rfl

/-- How a round that may have stored its session leaves the relay. -/
structure Rounded (server : Server α) (pc : Bytes) (session : Fields α) (applied : Bool)
    (s s' : RelayStage α) : Prop where
  seen : seenAt pc s'.machine.docs =
    if applied then
      Function.update (seenAt pc s.machine.docs) (sessionKey session) (some (server.stores session))
    else seenAt pc s.machine.docs
  count : ∀ id, s'.count (completes pc id) =
    (if completes pc id s.machine.docs s'.machine.docs then 1 else 0) + s.count (completes pc id)
  coherent : Coherent pc s'.machine
  outputs : s'.machine.outputs = s.machine.outputs
  settings : s'.machine.docs[webhookPath]? = s.machine.docs[webhookPath]?

variable (server) in
/-- The cache goes on to be coherent when the entry of the session is that of its
document, or is forgotten. -/
theorem Coherent.remember {m m' : RelayMachine α} {applied : Bool} {entry : Option PushEntry}
    (coherent : Coherent pc m)
    (memory : m'.memory = Function.update m.memory (pushKey pc (sessionKey session)) entry)
    (seen : seenAt pc m'.docs =
      if applied then
        Function.update (seenAt pc m.docs) (sessionKey session) (some (server.stores session))
      else seenAt pc m.docs)
    (fits : ∀ e, entry = some e →
      (seenAt pc m'.docs (sessionKey session)).any (·.hash = e.hash) = true) :
    Coherent pc m' := by
  intro id e remembers
  rw [memory] at remembers
  by_cases same : id = sessionKey session
  · subst same
    rw [Function.update_self] at remembers
    exact fits e remembers
  · rw [Function.update_of_ne (mt pushKey_inj.mp same)] at remembers
    have before := coherent id e remembers
    rw [seen]
    split
    · rw [Function.update_of_ne same]
      exact before
    · exact before

/-- What the end of a round does. -/
theorem setSession_runOn (ver : Int64) (s : RelayStage α) :
    (setSession server pc now session changed ver).runOn s =
      (((s.after .now).after
          (.write (sessionPath pc (sessionKey session)) fun _ =>
            some (.fields (Push.document session ver (contentHash server.digest session)
              (server.rfc3339 s.machine.clock))))).after
          (.remember (pushKey pc (sessionKey session))
            (if s.outcomes 0 = .ok then some ⟨contentHash server.digest session, ver, now⟩
            else none)),
        if s.outcomes 0 = .ok then some (changed + 1) else none) := by
  by_cases ok : s.outcomes 0 = .ok
  · simp [setSession, Prog.runOn_bind, Prog.runOn_now, Prog.runOn_write, Prog.runOn_remember,
      Prog.runOn_pure, Op.stores, ok]
  · simp [setSession, Prog.runOn_bind, Prog.runOn_now, Prog.runOn_write, Prog.runOn_remember,
      Prog.runOn_pure, Op.stores, ok]

variable (server now session changed) in
/-- The write of a round. -/
theorem setSession_rounded (coherent : Coherent pc s.machine) (ver : Int64) :
    ∃ s', (setSession server pc now session changed ver).runOn s =
        (s', if s.outcomes 0 = .ok then some (changed + 1) else none) ∧
      s'.outcomes = (fun n => s.outcomes (n + 1)) ∧
      Rounded server pc session (s.outcomes 0).applied s s' := by
  refine ⟨_, setSession_runOn ver s, rfl, ?_⟩
  have seen := seenAt_write server pc session s.machine.docs
    (s.outcomes 0) ver (server.rfc3339 s.machine.clock)
  refine ⟨seen, fun id => ?_, coherent.remember server rfl seen ?_, rfl, ?_⟩
  · simp [Stage.count_after, Machine.after, Stage.choice, Op.stores]
  · intro e kept
    have ok : s.outcomes 0 = .ok := by
      by_contra failed
      simp [failed] at kept
    rw [if_pos ok, Option.some.injEq] at kept
    subst kept
    change (seenAt pc (changeDocument s.machine.docs (s.outcomes 0) _ _) _).any _ = true
    rw [seen, ok]
    simp [Outcome.applied, Server.stores]
  · exact changeDocument_of_ne (webhookPath_ne_sessionPath pc (sessionKey session))

theorem remembered_eq_true {hash : Bytes} {entry : Option PushEntry}
    (isRemembered : remembered server now hash entry = true) :
    ∃ e, entry = some e ∧ e.hash = hash := by
  obtain ⟨e, found, fits⟩ := (Option.any_eq_true _ _).mp isRemembered
  rw [Bool.and_eq_true, decide_eq_true_eq] at fits
  exact ⟨e, found, fits.1⟩

/-- The session has the hash of its document. -/
theorem Rounded.of_unchanged {entry : Option PushEntry} (coherent : Coherent pc s.machine)
    (docs : s'.machine.docs = s.machine.docs) (outputs : s'.machine.outputs = s.machine.outputs)
    (count : ∀ id, s'.count (completes pc id) = s.count (completes pc id))
    (memory : s'.machine.memory =
      Function.update s.machine.memory (pushKey pc (sessionKey session)) entry)
    (fits : ∀ e, entry = some e →
      (seenAt pc s.machine.docs (sessionKey session)).any (·.hash = e.hash) = true) :
    Rounded server pc session false s s' := by
  have seen : seenAt pc s'.machine.docs = seenAt pc s.machine.docs := by rw [docs]
  refine ⟨seen, fun id => ?_, ?_, outputs, by rw [docs]⟩
  · rw [count, docs, completes_self]
    simp
  · exact coherent.remember server memory
      (seen.trans (if_neg Bool.false_ne_true).symm) (by rwa [docs])

/-- A round is over at once when the document has the hash of the session, and stores
the session otherwise. -/
inductive RoundEnds (server : Server α) (pc : Bytes) (session : Fields α) (changed : Nat)
    (s : RelayStage α) : RelayStage α × Option Nat → Prop
  | unchanged {s' : RelayStage α}
      (same : server.unchanged ⟨seenAt pc s.machine.docs (sessionKey session), session⟩ = true)
      (rounded : Rounded server pc session false s s') (outcomes : s'.outcomes = s.outcomes) :
      RoundEnds server pc session changed s (s', some changed)
  | stores {s' : RelayStage α}
      (differs : server.unchanged ⟨seenAt pc s.machine.docs (sessionKey session), session⟩ = false)
      (rounded : Rounded server pc session (s.outcomes 0).applied s s')
      (outcomes : s'.outcomes = fun n => s.outcomes (n + 1)) :
      RoundEnds server pc session changed s
        (s', if s.outcomes 0 = .ok then some (changed + 1) else none)

/-- A round that has looked and found another hash. -/
theorem RoundEnds.set {looked : RelayStage α} (coherent : Coherent pc s.machine)
    (differs : server.unchanged ⟨seenAt pc s.machine.docs (sessionKey session), session⟩ = false)
    (machine : looked.machine = s.machine) (outcomes : looked.outcomes = s.outcomes)
    (count : ∀ id, looked.count (completes pc id) = s.count (completes pc id)) (ver : Int64) :
    RoundEnds server pc session changed s
      ((setSession server pc now session changed ver).runOn looked) := by
  obtain ⟨s', ends, shifted, rounded⟩ := setSession_rounded server now session changed
    (s := looked) (machine ▸ coherent) ver
  obtain ⟨seen, counted, coherent', outputs, settings⟩ := rounded
  rw [outcomes] at ends shifted
  rw [machine, outcomes] at seen
  rw [machine] at outputs settings
  rw [ends]
  refine .stores differs ⟨seen, fun id => ?_, coherent', outputs, settings⟩ shifted
  rw [counted, machine, count]

variable (server now session changed) in
theorem pushSession_ends (coherent : Coherent pc s.machine) :
    RoundEnds server pc session changed s
      ((pushSession server pc now session changed).runOn s) := by
  rw [pushSession, Prog.runOn_bind, Prog.runOn_lookup]
  simp only
  cases isRemembered : remembered server now (contentHash server.digest session)
      (s.machine.memory (pushKey pc (sessionKey session))) with
  | true =>
      rw [if_pos rfl, Prog.runOn_pure]
      obtain ⟨e, entry, sameHash⟩ := remembered_eq_true isRemembered
      have same := coherent (sessionKey session) e entry
      rw [sameHash] at same
      refine .unchanged same (.of_unchanged coherent rfl rfl (fun id => ?_)
        (Function.update_eq_self _ _).symm (coherent (sessionKey session))) rfl
      simp [Stage.count_after, Machine.after]
  | false =>
      rw [if_neg Bool.false_ne_true, Prog.runOn_bind, Prog.runOn_get]
      have count : ∀ id, ((s.after (.lookup (pushKey pc (sessionKey session)))).after
          (.get (sessionPath pc (sessionKey session)))).count (completes pc id) =
            s.count (completes pc id) := by
        intro id
        simp [Stage.count_after, Machine.after]
      cases found : s.machine.docs[sessionPath pc (sessionKey session)]? with
      | none =>
          simp only [Stage.machine_after, Machine.after, readDocument, found, if_pos]
          apply RoundEnds.set coherent _ _ _ count
          · rw [Server.unchanged, seenAt, found]
            rfl
          · rfl
          · rfl
      | some d =>
          have seen : seenAt pc s.machine.docs (sessionKey session) =
              some ⟨stringField d.data agentStatus, stringField d.data contentHashKey⟩ := by
            rw [seenAt, found, Option.map_some]
          simp only [Stage.machine_after, Machine.after, readDocument, found, if_pos]
          by_cases same : stringField d.data contentHashKey = contentHash server.digest session
          · rw [if_pos same, Prog.runOn_bind, Prog.runOn_remember, Prog.runOn_pure]
            refine .unchanged ?_ (.of_unchanged coherent rfl rfl (fun id => ?_) rfl ?_) rfl
            · simp [Server.unchanged, seen, same]
            · simp [Stage.count_after, Machine.after]
            · rintro e ⟨⟩
              simp [seen, same]
          · rw [if_neg same]
            apply RoundEnds.set coherent _ _ _ count
            · simp [Server.unchanged, seen, same]
            · rfl
            · rfl

/-! ## A push -/

/-- A session whose document is seen to be the same has not completed. -/
theorem completes_of_same {docs docs' : Documents (Doc α)} (same : seenAt pc docs' = seenAt pc docs)
    (id : Bytes) : completes pc id docs docs' = false := by
  rw [completes, same]
  exact completes_self pc id docs

/-- The one session that a write can complete is its own. -/
theorem completes_of_update {docs docs' : Documents (Doc α)}
    (seen : seenAt pc docs' =
      Function.update (seenAt pc docs) (sessionKey session) (some (server.stores session)))
    (id : Bytes) :
    completes pc id docs docs' =
      (decide (sessionKey session = id) &&
        (⟨seenAt pc docs (sessionKey session), session⟩ : Turn α).completes) := by
  by_cases same : sessionKey session = id
  · subst same
    rw [completes, seen, Function.update_self, decide_eq_true rfl, Bool.true_and]
    rfl
  · have others := completes_self pc id docs
    rw [completes] at others ⊢
    rw [seen, Function.update_of_ne (Ne.symm same), others, decide_eq_false same, Bool.false_and]

theorem seen_eq_stores {seen : Option Shown}
    (same : server.unchanged ⟨seen, session⟩ = true)
    (status : seen.any (·.status = stringField session agentStatus) = true) :
    seen = some (server.stores session) := by
  obtain ⟨d, rfl, isHash⟩ := (Option.any_eq_true _ _).mp same
  rw [Option.any_some, decide_eq_true_eq] at status
  rw [decide_eq_true_eq] at isHash
  rw [Server.stores, ← status, ← isHash]

/-- The completions among the turns, of a session. -/
def completions (id : Bytes) (ts : List (Turn α)) : Nat :=
  ts.countP fun t => decide (sessionKey t.session = id) && t.completes

theorem completions_cons (id : Bytes) (seen : Option Shown) (ts : List (Turn α)) :
    completions id (⟨seen, session⟩ :: ts) =
      (if decide (sessionKey session = id) && (⟨seen, session⟩ : Turn α).completes then 1 else 0) +
        completions id ts := by
  rw [completions, List.countP_cons, Nat.add_comm]
  rfl

/-- How the rounds of a push leave the relay. -/
structure Pushed (server : Server α) (pc : Bytes) (ts : List (Turn α)) (s : RelayStage α)
    (out : RelayStage α × Option Nat) : Prop where
  isSome : out.2.isSome = server.allStored s.outcomes ts
  count : ∀ id, out.1.count (completes pc id) =
    completions id (server.stored s.outcomes ts) + s.count (completes pc id)
  coherent : Coherent pc out.1.machine
  outputs : out.1.machine.outputs = s.machine.outputs
  settings : out.1.machine.docs[webhookPath]? = s.machine.docs[webhookPath]?

variable (now changed) in
theorem pushRounds_pushed {sessions : List (Fields α)} (coherent : Coherent pc s.machine)
    (sameHash : ∀ t ∈ server.turns (seenAt pc s.machine.docs) sessions,
      server.unchanged t = true →
        t.before.any (·.status = stringField t.session agentStatus) = true) :
    Pushed server pc (server.turns (seenAt pc s.machine.docs) sessions) s
      ((pushRounds server pc now sessions changed).runOn s) := by
  induction sessions generalizing s changed with
  | nil =>
      refine ⟨rfl, fun id => ?_, coherent, rfl, rfl⟩
      exact (Nat.zero_add _).symm
  | cons session sessions ih =>
      rw [Server.turns, List.forall_mem_cons] at sameHash
      obtain ⟨first, rest⟩ := sameHash
      rw [pushRounds, Prog.runOn_bind]
      have ends := pushSession_ends server now session changed coherent
      generalize (pushSession server pc now session changed).runOn s = out at ends
      cases ends with
      | @unchanged s' same rounded outcomes =>
          have seen : seenAt pc s'.machine.docs = Function.update (seenAt pc s.machine.docs)
              (sessionKey session) (some (server.stores session)) := by
            rw [rounded.seen, if_neg Bool.false_ne_true, eq_comm, Function.update_eq_self_iff]
            exact (seen_eq_stores same (first same)).symm
          rw [← seen] at rest
          obtain ⟨isSome, count, coherent', outputs, settings⟩ := ih _ rounded.coherent rest
          rw [seen, outcomes] at isSome count
          refine ⟨?_, fun id => ?_, coherent', outputs.trans rounded.outputs,
            settings.trans rounded.settings⟩
          · rw [Server.turns, Server.allStored, if_pos same]
            exact isSome
          · rw [Server.turns, Server.stored, if_pos same]
            have kept := completes_of_same (rounded.seen.trans (if_neg Bool.false_ne_true)) id
            refine (count id).trans ?_
            rw [rounded.count, kept, if_neg Bool.false_ne_true, Nat.zero_add]
      | @stores s' differs rounded outcomes =>
          cases outcome : s.outcomes 0 with
          | ok =>
              have seen := rounded.seen
              rw [outcome, Outcome.applied, if_pos rfl] at seen
              rw [← seen] at rest
              obtain ⟨isSome, count, coherent', outputs, settings⟩ := ih _ rounded.coherent rest
              rw [seen, outcomes] at isSome count
              refine ⟨?_, fun id => ?_, coherent', outputs.trans rounded.outputs,
                settings.trans rounded.settings⟩
              · rw [Server.turns, Server.allStored, if_neg (Bool.eq_false_iff.mp differs), outcome]
                exact isSome
              · rw [Server.turns, Server.stored, if_neg (Bool.eq_false_iff.mp differs), outcome]
                refine (count id).trans ?_
                rw [rounded.count, completes_of_update seen, completions_cons]
                omega
          | failed applied =>
              refine ⟨?_, fun id => ?_, rounded.coherent, rounded.outputs, rounded.settings⟩
              · rw [Server.turns, Server.allStored, if_neg (Bool.eq_false_iff.mp differs), outcome]
                rfl
              · rw [Server.turns, Server.stored, if_neg (Bool.eq_false_iff.mp differs), outcome]
                have seen := rounded.seen
                rw [outcome, Outcome.applied] at seen
                refine (rounded.count id).trans ?_
                cases applied with
                | true =>
                    rw [if_pos rfl] at seen
                    change _ = completions id [_] + _
                    rw [completes_of_update seen, completions_cons]
                    rfl
                | false =>
                    rw [if_neg Bool.false_ne_true] at seen
                    rw [completes_of_same seen]
                    rfl

theorem webhookPath_ne_pcPath (pc : Bytes) : webhookPath ≠ pcPath pc :=
  docPath_ne (by decide) (by decide) (by decide)

theorem Pushed.of_now {ts : List (Turn α)} {out : RelayStage α × Option Nat}
    (pushed : Pushed server pc ts (s.after .now) out) : Pushed server pc ts s out := by
  obtain ⟨isSome, count, coherent, outputs, settings⟩ := pushed
  refine ⟨isSome, fun id => (count id).trans ?_, coherent, outputs, settings⟩
  simp [Stage.count_after, Machine.after, Op.stores]

/-- The write of `pcs/{pc}` is seen in no session. -/
theorem Pushed.parent {ts : List (Turn α)} {value : Option Nat}
    (pushed : Pushed server pc ts s (s', value)) (change : Option (Doc α) → Option (Doc α)) :
    Pushed server pc ts s ((s'.after .now).after (.write (pcPath pc) change), value) := by
  obtain ⟨isSome, count, coherent, outputs, settings⟩ := pushed
  have same : seenAt pc ((s'.after .now).after (.write (pcPath pc) change)).machine.docs =
      seenAt pc s'.machine.docs := by
    funext id
    exact congrArg _ (changeDocument_of_ne (sessionPath_ne_own_pcPath pc id))
  refine ⟨isSome, fun id => (Eq.trans ?_ (count id)), ?_, outputs, Eq.trans ?_ settings⟩
  · have quiet : completes pc id (s'.after .now).machine.docs
        ((s'.after .now).after (.write (pcPath pc) change)).machine.docs = false :=
      completes_of_same same id
    rw [Stage.count_after, Stage.count_after, quiet]
    simp [Machine.after]
  · intro id e remembers
    rw [same]
    exact coherent id e remembers
  · exact changeDocument_of_ne (webhookPath_ne_pcPath pc)

theorem pushStatusFor_pushed {sessions : List (Fields α)} (coherent : Coherent pc s.machine)
    (sameHash : ∀ t ∈ server.turns (seenAt pc s.machine.docs) sessions,
      server.unchanged t = true →
        t.before.any (·.status = stringField t.session agentStatus) = true) :
    Pushed server pc (server.turns (seenAt pc s.machine.docs) sessions) s
      ((pushStatusFor server pc sessions).runOn s) := by
  rw [pushStatusFor, Prog.runOn_bind, Prog.runOn_now]
  simp only [Prog.runOn_bind]
  have pushed := (pushRounds_pushed s.machine.clock 0 (s := s.after .now) coherent sameHash).of_now
  generalize (pushRounds server pc s.machine.clock sessions 0).runOn (s.after .now) = out at pushed
  obtain ⟨s', value⟩ := out
  cases value with
  | none => exact pushed
  | some changed =>
      by_cases some_ : 0 < changed
      · simp only [if_pos some_]
        have merged := pushed.parent fun old =>
          some (.fields (parent pc (server.rfc3339 s'.machine.clock) old))
        exact merged
      · simp only [if_neg some_]
        exact pushed

/-- The sessions that a push sends webhooks for. -/
def notified (old : Bytes → Option Bytes) (id : Bytes) (sessions : List (Fields α)) : Nat :=
  sessions.countP fun x =>
    decide (stringField x (ascii "key") = id) && (transition old x).isSome

/-- Webhooks were sent, so many for each session, and the store is the same. -/
structure Sent (pc : Bytes) (n : Bytes → Nat) (s s' : RelayStage α) : Prop where
  docs : s'.machine.docs = s.machine.docs
  memory : s'.machine.memory = s.machine.memory
  count : ∀ id, s'.count (completes pc id) = s.count (completes pc id)
  sends : ∀ id, sends id s'.machine.outputs = n id + sends id s.machine.outputs

variable (server pc) in
theorem dispatchWebhooks_sent (cfg : WebhookConfig) (old : Bytes → Option Bytes)
    (sessions : List (Fields α)) (s : RelayStage α) :
    Sent pc (fun id => notified old id sessions) s
      ((dispatchWebhooks server cfg pc old sessions).runOn s).1 := by
  induction sessions generalizing s with
  | nil => exact ⟨rfl, rfl, fun _ => rfl, fun _ => (Nat.zero_add _).symm⟩
  | cons x xs ih =>
      rw [dispatchWebhooks]
      cases sent : transition old x with
      | none =>
          obtain ⟨docs, memory, count, sends⟩ := ih s
          refine ⟨docs, memory, count, fun id => (sends id).trans ?_⟩
          simp [notified, sent]
      | some oldStatus =>
          simp only [Prog.runOn_bind, Prog.runOn_now, Prog.runOn_emit]
          obtain ⟨docs, memory, count, sends⟩ := ih _
          refine ⟨docs, memory, fun id => (count id).trans ?_, fun id => (sends id).trans ?_⟩
          · simp [Stage.count_after, Machine.after]
          · by_cases same : stringField x (ascii "key") = id
            · simp [notified, Machine.after, Slave.sends, sent, same]
              omega
            · simp [notified, Machine.after, Slave.sends, sent, same]

end

/-! ## Completions and webhooks -/

/-- A listing says nothing of a session without a key. -/
theorem statusByKey_nil (sessions : List (Fields α)) : statusByKey sessions [] = none := by
  have kept : ∀ out : Bytes → Option Bytes, out [] = none →
      sessions.foldl (fun out x =>
        if stringField x (ascii "key") = [] then out
        else Function.update out (stringField x (ascii "key"))
          (some (stringField x agentStatus))) out [] = none := by
    induction sessions with
    | nil => exact fun out none_ => none_
    | cons x xs ih =>
        intro out none_
        rw [List.foldl_cons]
        apply ih
        split
        · exact none_
        · rename_i named
          rw [Function.update_of_ne (Ne.symm named)]
          exact none_
  exact kept _ rfl

theorem transition_isSome_iff {old : Bytes → Option Bytes} {x : Fields α}
    (unnamed : old [] = none) :
    (transition old x).isSome = true ↔
      stringField x agentStatus ∈ notifyStates ∧
        old (stringField x (ascii "key")) = some working := by
  change (transition old x).isSome = true ↔ stringField x (ascii "agent_status") ∈ notifyStates ∧ _
  rw [transition]
  by_cases named : stringField x (ascii "key") = []
  · rw [if_pos named, named, unnamed]
    simp
  · rw [if_neg named]
    by_cases notified : stringField x (ascii "agent_status") ∈ notifyStates
    · have other : working ≠ stringField x (ascii "agent_status") := fun same =>
        working_notMem_notifyStates (same ▸ notified)
      rw [if_neg (not_not.mpr notified)]
      cases isOld : old (stringField x (ascii "key")) with
      | none => simp
      | some oldStatus =>
          by_cases was : oldStatus = working
          · subst was
            simp only [notified, true_and, iff_true]
            have fresh : ¬(working ≠ ascii "working" ∨
                working = stringField x (ascii "agent_status")) :=
              not_or.mpr ⟨not_not.mpr rfl, other⟩
            rw [if_neg fresh]
            rfl
          · simp only [notified, true_and, Option.some.injEq, was, iff_false]
            have notWorking : oldStatus ≠ ascii "working" := was
            rw [if_pos (Or.inl notWorking)]
            simp
    · rw [if_pos notified]
      simp [notified]

section

variable {server : Server α} {pc : Bytes} {docs : Documents (Doc α)} {sessions : List (Fields α)}
  {outcomes : Nat → Outcome}

variable (server) in
theorem map_session_turns (seen : Bytes → Option Shown) (sessions : List (Fields α)) :
    (server.turns seen sessions).map Turn.session = sessions := by
  induction sessions generalizing seen with
  | nil => rfl
  | cons x xs ih => rw [Server.turns, List.map_cons, ih]

/-- When no write fails, the turns that are stored are those with another hash. -/
theorem stored_eq_filter {ts : List (Turn α)} (all : server.allStored outcomes ts = true) :
    server.stored outcomes ts = ts.filter fun t => !server.unchanged t := by
  induction ts generalizing outcomes with
  | nil => rfl
  | cons t ts ih =>
      rw [Server.allStored] at all
      rw [Server.stored, List.filter_cons]
      cases same : server.unchanged t with
      | true =>
          rw [same, if_pos rfl] at all
          rw [if_pos rfl, if_neg (by simp)]
          exact ih all
      | false =>
          rw [same, if_neg Bool.false_ne_true, Bool.and_eq_true, decide_eq_true_eq] at all
          rw [if_neg Bool.false_ne_true, all.1, if_pos (by simp)]
          exact congrArg (t :: ·) (ih all.2)

/-- A session that has completed is stored. -/
theorem PushFits.unchanged_eq_false (fits : PushFits server pc docs sessions outcomes) {t : Turn α}
    (mem : t ∈ server.turns (seenAt pc docs) sessions) (completed : t.completes = true) :
    server.unchanged t = false := by
  rw [Turn.completes, Bool.and_eq_true, decide_eq_true_eq] at completed
  obtain ⟨was, notified⟩ := completed
  by_contra same
  rw [Bool.not_eq_false] at same
  have status := fits.sameHash t mem same
  obtain ⟨d, before, isStatus⟩ := (Option.any_eq_true _ _).mp status
  rw [before, Option.any_some, decide_eq_true_eq] at was
  rw [decide_eq_true_eq] at isStatus
  exact working_notMem_notifyStates (was ▸ isStatus ▸ notified)

theorem PushFits.turn (fits : PushFits server pc docs sessions outcomes)
    (all : server.allStored outcomes (server.turns (seenAt pc docs) sessions) = true) {id : Bytes}
    {t : Turn α} (mem : t ∈ server.turns (seenAt pc docs) sessions) :
    ((decide (sessionKey t.session = id) && t.completes) && !server.unchanged t) = true ↔
      (decide (stringField t.session (ascii "key") = id) &&
        (transition (listedStatus pc docs) t.session).isSome) = true := by
  have none_ : listedStatus pc docs [] = none := statusByKey_nil _
  have key : listedStatus pc docs (stringField t.session (ascii "key")) = some working →
      sessionKey t.session = stringField t.session (ascii "key") := by
    intro listed
    rw [sessionKey, if_pos]
    intro unnamed
    rw [unnamed, none_] at listed
    cases listed
  simp only [Bool.and_eq_true, decide_eq_true_eq, Bool.not_eq_true',
    transition_isSome_iff none_]
  constructor
  · rintro ⟨⟨isID, completed⟩, -⟩
    have both := completed
    rw [Turn.completes, Bool.and_eq_true, decide_eq_true_eq] at both
    have listed := (fits.listed all t mem both.2).mpr both.1
    exact ⟨(key listed).symm.trans isID, both.2, listed⟩
  · rintro ⟨isID, notified, listed⟩
    have was := (fits.listed all t mem notified).mp listed
    have completed : t.completes = true := by
      rw [Turn.completes, was, Bool.true_and, decide_eq_true_eq]
      exact notified
    exact ⟨⟨(key listed).trans isID, completed⟩, fits.unchanged_eq_false mem completed⟩

/-- The completions that a push stores are the webhooks that it sends. -/
theorem PushFits.completions_eq (fits : PushFits server pc docs sessions outcomes) (id : Bytes) :
    completions id (server.stored outcomes (server.turns (seenAt pc docs) sessions)) =
      if server.allStored outcomes (server.turns (seenAt pc docs) sessions) then
        notified (listedStatus pc docs) id sessions
      else 0 := by
  cases all : server.allStored outcomes (server.turns (seenAt pc docs) sessions) with
  | false =>
      rw [if_neg Bool.false_ne_true, completions, List.countP_eq_zero]
      intro t mem completed
      rw [Bool.and_eq_true, fits.failed all t mem] at completed
      exact Bool.false_ne_true completed.2
  | true =>
      rw [if_pos rfl, stored_eq_filter all, completions, List.countP_filter]
      conv_rhs => rw [notified, ← map_session_turns server (seenAt pc docs) sessions,
        List.countP_map]
      apply List.countP_congr
      intro t mem
      exact fits.turn all mem

end

/-! ## Runs -/

/-- What holds after every push: the cache is right, the webhook is enabled, and the
completions have been sent. -/
structure Notifying (pc : Bytes) (s : RelayStage α) : Prop where
  coherent : Coherent pc s.machine
  enabled : ∃ cfg : WebhookConfig, cfg.enabled = true ∧
    s.machine.docs[webhookPath]? = some (.webhook (some cfg))
  sentOnce : SentOnce pc s

section

variable {server : Server α} {pc : Bytes} {s s' : RelayStage α}

variable (server pc) in
/-- With the webhook enabled, the webhooks are sent. -/
theorem dispatchWebhooksForTransitions_sent {cfg : WebhookConfig} (old : Bytes → Option Bytes)
    (sessions : List (Fields α)) (enabled : cfg.enabled = true)
    (settings : s.machine.docs[webhookPath]? = some (.webhook (some cfg))) :
    Sent pc (fun id => notified old id sessions) s
      ((dispatchWebhooksForTransitions server pc old sessions).runOn s).1 := by
  simp only [dispatchWebhooksForTransitions, getWebhookConfig, Prog.runOn_bind, Prog.runOn_get,
    readDocument, settings, if_pos, Prog.runOn_pure, enabled]
  obtain ⟨docs, memory, count, sends⟩ :=
    dispatchWebhooks_sent server pc cfg old sessions (s.after (.get webhookPath))
  refine ⟨docs, memory, fun id => (count id).trans ?_, sends⟩
  simp [Stage.count_after, Machine.after]

theorem slavePush_notifying {sessions : List (Fields α)} (notifying : Notifying pc s)
    (fits : PushFits server pc s.machine.docs sessions s.outcomes) :
    Notifying pc ((slavePush server (some sessions) pc).runOn s).1 := by
  obtain ⟨coherent, ⟨cfg, enabled, settings⟩, sentOnce⟩ := notifying
  simp only [slavePush, listSessions, Prog.runOn_bind, Prog.runOn_list, Prog.runOn_pure,
    Option.map_some, Option.getD_some]
  have pushed := pushStatusFor_pushed (s := s.after (.list (sessionsCol pc))) coherent
    fits.sameHash
  generalize (pushStatusFor server pc sessions).runOn (s.after (.list (sessionsCol pc))) = out
    at pushed
  obtain ⟨s', value⟩ := out
  obtain ⟨isSome, count, coherent', outputs, settings'⟩ := pushed
  have listed : ∀ id, (s.after (.list (sessionsCol pc))).count (completes pc id) =
      sends id s.machine.outputs := by
    intro id
    rw [Stage.count_after]
    simp [Machine.after, sentOnce id]
  have counted : ∀ id, s'.count (completes pc id) =
      (if server.allStored s.outcomes (server.turns (seenAt pc s.machine.docs) sessions) then
        notified (listedStatus pc s.machine.docs) id sessions
      else 0) + sends id s.machine.outputs :=
    fun id => (count id).trans (congrArg₂ (· + ·) (fits.completions_eq id) (listed id))
  have allStored : value.isSome =
      server.allStored s.outcomes (server.turns (seenAt pc s.machine.docs) sessions) := isSome
  rw [← allStored] at counted
  have enabled' : s'.machine.docs[webhookPath]? = some (.webhook (some cfg)) :=
    settings'.trans settings
  cases value with
  | none =>
      refine ⟨coherent', ⟨cfg, enabled, enabled'⟩, fun id => (counted id).trans ?_⟩
      rw [Option.isSome_none, if_neg Bool.false_ne_true, Nat.zero_add]
      exact congrArg (sends id) outputs.symm
  | some changed =>
      have sent := dispatchWebhooksForTransitions_sent server pc (listedStatus pc s.machine.docs)
        sessions enabled enabled'
      simp only [Prog.runOn_bind, Prog.runOn_pure]
      change Notifying pc ((dispatchWebhooksForTransitions server pc
        (listedStatus pc s.machine.docs) sessions).runOn s').1
      refine ⟨?_, ⟨cfg, enabled, (congrArg (·[webhookPath]?) sent.docs).trans enabled'⟩,
        fun id => (sent.count id).trans ((counted id).trans ?_)⟩
      · intro id e remembers
        rw [sent.memory] at remembers
        rw [sent.docs]
        exact coherent' id e remembers
      · rw [Option.isSome_some, if_pos rfl]
        refine Eq.trans ?_ (sent.sends id).symm
        rw [outputs]
        rfl

/-- Every step that fits keeps the webhooks those of the completions. -/
theorem Notifying.step {label : PushLabel α} (notifying : Notifying pc s)
    (fits : Fits server pc s label) (taken : server.pushStep pc s label = some s') :
    Notifying pc s' := by
  cases label with
  | tick time =>
      rw [Server.pushStep] at taken
      split at taken
      · cases taken
        exact ⟨notifying.coherent, notifying.enabled, notifying.sentOnce⟩
      · cases taken
  | configure cfg =>
      rw [Server.pushStep] at taken
      split at taken
      · rename_i enabled
        cases taken
        obtain ⟨coherent, -, sentOnce⟩ := notifying
        have same : seenAt pc (changeDocument s.machine.docs .ok webhookPath fun _ =>
            some (.webhook (some cfg))) = seenAt pc s.machine.docs := by
          funext id
          exact congrArg _ (changeDocument_of_ne (webhookPath_ne_sessionPath pc id).symm)
        refine ⟨fun id e remembers => ?_, ⟨cfg, enabled, changeDocument_same⟩, fun id => ?_⟩
        · rw [same]
          exact coherent id e remembers
        · rw [Stage.count, countChanges, completes_of_same same, if_neg Bool.false_ne_true,
            Nat.zero_add]
          exact sentOnce id
      · cases taken
  | push body outcomes =>
      rw [Server.pushStep, Option.some.injEq] at taken
      subst taken
      have start : Notifying pc { s with outcomes := outcomes } :=
        ⟨notifying.coherent, notifying.enabled, notifying.sentOnce⟩
      cases body with
      | none => exact start
      | some sessions => exact slavePush_notifying start fits

end

/-- In a run from an empty cache, with the webhook enabled, whose pushes fit, the
completions that have been stored are those that have been sent, after every step. -/
theorem sentOnce_of_fits (server : Server α) (pc : Bytes) (docs : Documents (Doc α)) (clock : Nat)
    {cfg : WebhookConfig} {labels : List (PushLabel α)} (enabled : cfg.enabled = true)
    (settings : docs[webhookPath]? = some (.webhook (some cfg)))
    (fits : Along (server.pushStep pc) (Fits server pc)
      { machine := { docs := docs, clock := clock } } labels) :
    Always (server.pushStep pc) (SentOnce pc)
      { machine := { docs := docs, clock := clock } } labels := by
  have start : Notifying pc
      ({ machine := { docs := docs, clock := clock } } : RelayStage α) := by
    refine ⟨fun id e remembers => ?_, ⟨cfg, enabled, settings⟩, fun id => rfl⟩
    cases remembers
  apply (always_of_preserved _ start fits).imp
  · exact fun s notifying => notifying.sentOnce
  · exact fun s label s' notifying met taken => notifying.step met taken

instance (server : Server α) (pc : Bytes) (docs : Documents (Doc α)) (sessions : List (Fields α))
    (outcomes : Nat → Outcome) : Decidable (PushFits server pc docs sessions outcomes) :=
  decidable_of_iff (_ ∧ _ ∧ _) ⟨fun ⟨sameHash, failed, listed⟩ => ⟨sameHash, failed, listed⟩,
    fun fits => ⟨fits.sameHash, fits.failed, fits.listed⟩⟩

instance (server : Server α) (pc : Bytes) (s : RelayStage α) :
    (label : PushLabel α) → Decidable (Fits server pc s label)
  | .tick _ | .configure _ | .push none _ => isTrue trivial
  | .push (some sessions) outcomes =>
      inferInstanceAs (Decidable (PushFits server pc s.machine.docs sessions outcomes))

/-- A store with the webhook enabled. -/
def webhookDocs : Documents (Doc Unit) :=
  (∅ : Documents (Doc Unit)).insert webhookPath (.webhook (some ⟨true, ascii "https", [], []⟩))

/-- An idle session. -/
def idleSession (key : Bytes) : Fields Unit :=
  Function.update (sampleSession key) agentStatus (some (.string (ascii "idle")))

/-- A session works and completes. -/
def completedLabels : List (PushLabel Unit) :=
  [.push (some [sampleSession (ascii "a")]) fun _ => .ok,
    .push (some [idleSession (ascii "a")]) fun _ => .ok]

/-- Two sessions work and complete, where the write of the second one fails, and the push
is tried again. -/
def retriedLabels : List (PushLabel Unit) :=
  [.push (some [sampleSession (ascii "a"), sampleSession (ascii "b")]) fun _ => .ok,
    .push (some [idleSession (ascii "a"), idleSession (ascii "b")]) fun n =>
      if n = 1 then .failed false else .ok,
    .push (some [idleSession (ascii "a"), idleSession (ascii "b")]) fun _ => .ok]

theorem completed_sent_once :
    ∃ s, exec (sampleServer.pushStep (ascii "mac")) { machine := { docs := webhookDocs } }
        completedLabels = some s ∧
      sends (ascii "a") s.machine.outputs = 1 ∧ SentOnce (ascii "mac") s := by
  have sent : (exec (sampleServer.pushStep (ascii "mac")) { machine := { docs := webhookDocs } }
      completedLabels).map (fun s => sends (ascii "a") s.machine.outputs) = some 1 := by
    decide +kernel
  have fits : Along (sampleServer.pushStep (ascii "mac")) (Fits sampleServer (ascii "mac"))
      { machine := { docs := webhookDocs } } completedLabels := by
    decide +kernel
  obtain ⟨s, run, isSent⟩ := Option.map_eq_some_iff.mp sent
  have settings : webhookDocs[webhookPath]? =
      some (.webhook (some ⟨true, ascii "https", [], []⟩)) :=
    Std.ExtTreeMap.getElem?_insert_self
  have always := sentOnce_of_fits sampleServer (ascii "mac") webhookDocs 0 rfl settings fits
  exact ⟨s, run, isSent, always.last run⟩

/-- The completion of the first session is stored, and never sent. -/
theorem retried_not_sent :
    ∃ s, exec (sampleServer.pushStep (ascii "mac")) { machine := { docs := webhookDocs } }
        retriedLabels = some s ∧
      s.count (completes (ascii "mac") (ascii "a")) = 1 ∧
      sends (ascii "a") s.machine.outputs = 0 ∧ ¬SentOnce (ascii "mac") s := by
  have counts : (exec (sampleServer.pushStep (ascii "mac")) { machine := { docs := webhookDocs } }
      retriedLabels).map (fun s => (s.count (completes (ascii "mac") (ascii "a")),
        sends (ascii "a") s.machine.outputs)) = some (1, 0) := by
    decide +kernel
  obtain ⟨s, run, both⟩ := Option.map_eq_some_iff.mp counts
  rw [Prod.mk.injEq] at both
  refine ⟨s, run, both.1, both.2, fun sentOnce => ?_⟩
  have same := sentOnce (ascii "a")
  rw [both.1, both.2] at same
  cases same

end Drover.Slave
