import Drover.Commands.Core
import Drover.Store.Documents
import Drover.Transition.Run
import Mathlib.Data.List.Nodup

/-!
# Delivery of commands

Any number of `WatchCommands` watchers and `ClaimPendingCommands` calls work on
the queues at once.  Each selects commands from a query snapshot that may be
stale by then, claims them one by one, and hands over what it claimed.  A claim
is one transaction; everything else of a call is local to it.  A transaction may
take effect and report an error all the same, and the command is then claimed by
a call that skips it.
-/

namespace Drover.Commands

open Drover.Transition

/-- The calls of `WatchCommands` and `ClaimPendingCommands` by number. -/
abbrev CallId := Nat

/-- A document change of a query snapshot; `doc` is `none` where `DataTo`
fails. -/
structure Change where
  removed : Bool
  doc : Option Command
  deriving DecidableEq

/-- A call in progress. -/
inductive Call where
  /-- `WatchCommands`: the changes of the current snapshot that are still to be
  looked at, and the command whose claim has just been committed. -/
  | watch (pcID : Bytes) (changes : List Change) (claimed : Option Command)
  /-- `ClaimPendingCommands`: the documents still to be looked at, and `out`. -/
  | claimPending (pc : Bytes) (docs : List (Option Command)) (out : List Command)
  /-- `ClaimPendingCommands` has returned. -/
  | returned (pc : Bytes)

/-- A claim transaction that was committed by a call. -/
structure Claim where
  call : CallId
  pc : Bytes
  id : Bytes
  deriving DecidableEq

/-- A command that was passed to `fn` or returned by a call. -/
structure Delivery where
  call : CallId
  pc : Bytes
  command : Command
  deriving DecidableEq

/-- The store, the calls, and what has happened so far. -/
structure State where
  queues : Queues
  calls : CallId → Option Call
  /-- The commands accepted by `PushCommandArgs`. -/
  pushed : List (Bytes × Command)
  /-- Every version a document ever had; a snapshot shows some of them. -/
  versions : List (Bytes × Command)
  committed : List Claim
  delivered : List Delivery

/-- Nothing is queued, and no call runs. -/
def State.init : State := ⟨fun _ _ => none, fun _ => none, [], [], [], []⟩

/-- What can happen next.  `advance` is the next step of a call; its transaction, if
it comes to one and is not refused, ends with the outcome. -/
inductive Action where
  | push (pc cmd sid agent requestedBy source : Bytes) (args : List (Bytes × Bytes)) (id ts : Bytes)
  | ack (pc id : Bytes) (outcome : Outcome) (detail finishedAt : Bytes)
  | watch (k : CallId) (pcID : Bytes)
  | snapshot (k : CallId) (changes : List Change)
  | claimPending (k : CallId) (pc : Bytes) (docs : List (Option Command))
  | advance (k : CallId) (outcome : Store.Outcome)

/-- `e != nil || cm.Status != "pending"` skips a document. -/
def selected (doc : Option Command) : Option Command :=
  doc.filter fun cm => cm.status = pending

/-- A transaction: the queues if it takes effect, and whether it reports success. -/
def transaction (outcome : Store.Outcome) : Option Queues → Option Queues × Bool
  | none => (none, false)
  | some queues => (if outcome.applied then some queues else none, outcome = .ok)

namespace State

/-- Call `k` goes on as `call`. -/
def setCall (s : State) (k : CallId) (call : Call) : State :=
  { s with calls := Function.update s.calls k (some call) }

/-- The transaction of call `k` is committed. -/
def commit (s : State) (k : CallId) (pc id : Bytes) (queues : Queues) : State :=
  { s with
    queues := queues
    versions := s.versions ++ ((queues pc id).map (pc, ·)).toList
    committed := s.committed ++ [⟨k, pc, id⟩] }

/-- Call `k` hands over commands. -/
def deliver (s : State) (k : CallId) (pc : Bytes) (commands : List Command) : State :=
  { s with delivered := s.delivered ++ commands.map (⟨k, pc, ·⟩) }

/-- Call `k` claims a command: it goes on with `won` when its transaction reports success,
and with `skip` otherwise. -/
def claim (s : State) (k : CallId) (pc id : Bytes) (outcome : Store.Outcome) (tx : Option Queues)
    (won skip : Call) : State :=
  let ended := transaction outcome tx
  let s := match ended.1 with
    | some queues => s.commit k pc id queues
    | none => s
  s.setCall k (if ended.2 then won else skip)

/-- The documents of a snapshot are versions that the documents of the PC have
had. -/
def Shows (s : State) (pc : Bytes) (docs : List (Option Command)) : Prop :=
  ∀ doc ∈ docs, ∀ cm ∈ doc, (pc, cm) ∈ s.versions

instance (s : State) (pc : Bytes) (docs : List (Option Command)) : Decidable (s.Shows pc docs) :=
  inferInstanceAs (Decidable (∀ doc ∈ docs, ∀ cm ∈ doc, _))

/-- The next step of a call. -/
def advance (s : State) (k : CallId) (outcome : Store.Outcome) : Option State :=
  match s.calls k with
  | none => none
  | some (.returned _) => none
  | some (.watch pcID changes (some cm)) =>
      some ((s.deliver k pcID [cm]).setCall k (.watch pcID changes none))
  | some (.watch _ [] none) => none
  | some (.watch pcID (ch :: changes) none) =>
      let skip := .watch pcID changes none
      if ch.removed then some (s.setCall k skip)
      else
        match selected ch.doc with
        | none => some (s.setCall k skip)
        | some cm =>
            some (s.claim k pcID cm.id outcome (claimCommand pcID s.queues cm.id)
              (.watch pcID changes (some { cm with status := running })) skip)
  | some (.claimPending pc [] out) =>
      some ((s.deliver k pc out).setCall k (.returned pc))
  | some (.claimPending pc (d :: docs) out) =>
      let skip := .claimPending pc docs out
      match selected d with
      | none => some (s.setCall k skip)
      | some cm =>
          some (s.claim k pc cm.id outcome (claimCommandFor s.queues pc cm.id)
            (.claimPending pc docs (out ++ [{ cm with status := running }])) skip)

end State

/-- The system takes a step.  Ids of commands and calls are new, and an ack
follows a claim. -/
def step (s : State) : Action → Option State
  | .push pc cmd sid agent requestedBy source args id ts =>
      if (s.queues pc id).isSome then none
      else
        match pushCommandArgs s.queues pc cmd sid agent requestedBy source args id ts with
        | .error _ => some s
        | .ok queues =>
            let doc := newCommand id cmd sid agent requestedBy source args ts
            some { s with
              queues := queues
              pushed := s.pushed ++ [(pc, doc)]
              versions := s.versions ++ [(pc, doc)] }
  | .ack pc id outcome detail finishedAt =>
      match s.queues pc id with
      | none => none
      | some doc =>
          if doc.status = pending then none
          else
            let queues := ackCommandFor s.queues pc id outcome.status detail finishedAt
            some { s with
              queues := queues
              versions := s.versions ++ ((queues pc id).map (pc, ·)).toList }
  | .watch k pcID =>
      if (s.calls k).isSome then none else some (s.setCall k (.watch pcID [] none))
  | .snapshot k changes =>
      match s.calls k with
      | some (.watch pcID [] none) =>
          if s.Shows pcID (changes.map Change.doc) then
            some (s.setCall k (.watch pcID changes none))
          else none
      | _ => none
  | .claimPending k pc docs =>
      if (s.calls k).isSome then none
      else if s.Shows pc docs then some (s.setCall k (.claimPending pc docs []))
      else none
  | .advance k outcome => s.advance k outcome

/-! ## What a step can do -/

namespace Call

/-- The PC whose queue the call reads. -/
def pc : Call → Bytes
  | watch pcID _ _ => pcID
  | claimPending pc _ _ => pc
  | returned pc => pc

/-- The documents still to be looked at. -/
def docs : Call → List (Option Command)
  | watch _ changes _ => changes.map Change.doc
  | claimPending _ docs _ => docs
  | returned _ => []

/-- The commands that were claimed and are still to be handed over. -/
def inHand : Call → List Command
  | watch _ _ claimed => claimed.toList
  | claimPending _ _ out => out
  | returned _ => []

/-- The command that the next step of the call is about to claim. -/
def claiming : Call → Option Command
  | watch _ (ch :: _) none => if ch.removed then none else selected ch.doc
  | claimPending _ (d :: _) _ => selected d
  | _ => none

/-- How many steps the call still takes at most until it has returned, or waits
for the next snapshot. -/
def remaining : Call → Nat
  | watch _ changes claimed => 2 * changes.length + claimed.toList.length
  | claimPending _ docs _ => docs.length + 1
  | returned _ => 0

/-- A call that is not in the middle of anything has nothing in hand. -/
theorem inHand_of_remaining {call : Call} (settled : call.remaining = 0) : call.inHand = [] := by
  cases call with
  | watch pcID changes claimed =>
      rw [remaining, Nat.add_eq_zero_iff] at settled
      exact List.length_eq_zero_iff.mp settled.2
  | claimPending pc docs out => cases settled
  | returned pc => rfl

end Call

/-- A claim that would take effect does not report an error after it has. -/
def Certain (s : State) : Action → Prop
  | .advance k (.failed true) => ∀ call, s.calls k = some call → ∀ cm, call.claiming = some cm →
      ∀ doc, s.queues call.pc cm.id = some doc → doc.status ≠ pending
  | _ => True

/-- The step of a call: it skips a document, commits a claim, or hands over what
it has.  A claim that it has committed and skips is not kept. -/
inductive Advance (s : State) (k : CallId) (call : Call) : Bool → State → Prop
  | skip {call' : Call} (pc : call'.pc = call.pc) (docs : call'.docs ⊆ call.docs)
      (inHand : call'.inHand = call.inHand) (less : call'.remaining < call.remaining) :
      Advance s k call true (s.setCall k call')
  | commit {call' : Call} {cm : Command} {queues : Queues} (pc : call'.pc = call.pc)
      (docs : call'.docs ⊆ call.docs) (mem : some cm ∈ call.docs) (isPending : cm.status = pending)
      (claimed : claimCommandFor s.queues call.pc cm.id = some queues)
      (inHand : call'.inHand = call.inHand ++ [{ cm with status := running }])
      (less : call'.remaining < call.remaining) :
      Advance s k call true ((s.commit k call.pc cm.id queues).setCall k call')
  | lose {call' : Call} {id : Bytes} {queues : Queues} (pc : call'.pc = call.pc)
      (docs : call'.docs ⊆ call.docs)
      (claimed : claimCommandFor s.queues call.pc id = some queues)
      (inHand : call'.inHand = call.inHand) (less : call'.remaining < call.remaining) :
      Advance s k call false ((s.commit k call.pc id queues).setCall k call')
  | handOver {call' : Call} (pc : call'.pc = call.pc) (docs : call'.docs ⊆ call.docs)
      (inHand : call'.inHand = []) (less : call'.remaining < call.remaining) :
      Advance s k call true ((s.deliver k call.pc call.inHand).setCall k call')

theorem selected_eq_some_iff {doc : Option Command} {cm : Command} :
    selected doc = some cm ↔ doc = some cm ∧ cm.status = pending := by
  simp [selected, Option.filter_eq_some_iff]

/-- A claim is refused, kept, or lost. -/
theorem advance_claim {s : State} {k : CallId} {call : Call} (won skip : Call) {cm : Command}
    (found : s.calls k = some call) (claiming : call.claiming = some cm)
    (mem : some cm ∈ call.docs) (isPending : cm.status = pending)
    (wonPc : won.pc = call.pc) (wonDocs : won.docs ⊆ call.docs)
    (wonInHand : won.inHand = call.inHand ++ [{ cm with status := running }])
    (wonLess : won.remaining < call.remaining)
    (skipPc : skip.pc = call.pc) (skipDocs : skip.docs ⊆ call.docs)
    (skipInHand : skip.inHand = call.inHand) (skipLess : skip.remaining < call.remaining)
    (outcome : Store.Outcome) :
    ∃ kept, Advance s k call kept
        (s.claim k call.pc cm.id outcome (claimCommandFor s.queues call.pc cm.id) won skip) ∧
      (Certain s (.advance k outcome) ↔ kept = true) := by
  cases claimed : claimCommandFor s.queues call.pc cm.id with
  | none =>
      refine ⟨true, .skip skipPc skipDocs skipInHand skipLess, iff_of_true ?_ rfl⟩
      cases outcome with
      | ok => exact trivial
      | failed applied =>
          cases applied with
          | false => exact trivial
          | true =>
              intro call' found' cm' claiming' doc isDoc isPending'
              rw [found] at found'
              cases found'
              rw [claiming] at claiming'
              cases claiming'
              have wins := claimCommandFor_eq_some_iff.mpr ⟨doc, isDoc, isPending', rfl⟩
              rw [claimed] at wins
              cases wins
  | some queues =>
      cases outcome with
      | ok =>
          exact ⟨true, .commit wonPc wonDocs mem isPending claimed wonInHand wonLess,
            iff_of_true trivial rfl⟩
      | failed applied =>
          cases applied with
          | false =>
              exact ⟨true, .skip skipPc skipDocs skipInHand skipLess, iff_of_true trivial rfl⟩
          | true =>
              refine ⟨false, .lose skipPc skipDocs claimed skipInHand skipLess,
                iff_of_false (fun certain => ?_) Bool.false_ne_true⟩
              obtain ⟨doc, isDoc, isPending', -⟩ := claimCommandFor_eq_some_iff.mp claimed
              exact certain call found cm claiming doc isDoc isPending'

/-- A step that is about to claim nothing is certain. -/
theorem certain_of_idle {s : State} {k : CallId} {call : Call} (found : s.calls k = some call)
    (idle : call.claiming = none) (outcome : Store.Outcome) :
    Certain s (.advance k outcome) := by
  cases outcome with
  | ok => exact trivial
  | failed applied =>
      cases applied with
      | false => exact trivial
      | true =>
          intro call' found' cm claiming
          rw [found] at found'
          cases found'
          rw [idle] at claiming
          cases claiming

/-- A step of a call is possible exactly when something is left to do. -/
theorem advance_cases {s : State} {k : CallId} {call : Call} (found : s.calls k = some call)
    (outcome : Store.Outcome) :
    (call.remaining = 0 ∧ s.advance k outcome = none) ∨
      ∃ kept s', s.advance k outcome = some s' ∧ Advance s k call kept s' ∧
        (Certain s (.advance k outcome) ↔ kept = true) := by
  rw [State.advance, found]
  cases call with
  | returned pc => exact .inl ⟨rfl, rfl⟩
  | watch pcID changes claimed =>
      cases claimed with
      | some cm =>
          have idle : (Call.watch pcID changes (some cm)).claiming = none := by
            cases changes <;> rfl
          exact .inr ⟨true, _, rfl, .handOver rfl (fun _ mem => mem) rfl (by simp [Call.remaining]),
            iff_of_true (certain_of_idle found idle outcome) rfl⟩
      | none =>
          cases changes with
          | nil => exact .inl ⟨rfl, rfl⟩
          | cons ch changes =>
              have fewer : changes.map Change.doc ⊆ (ch :: changes).map Change.doc :=
                List.subset_cons_self _ _
              have less : 2 * changes.length < 2 * (changes.length + 1) := by omega
              right
              simp only
              by_cases removed : ch.removed = true
              · rw [if_pos removed]
                exact ⟨true, _, rfl, .skip rfl fewer rfl less,
                  iff_of_true (certain_of_idle found (if_pos removed) outcome) rfl⟩
              · rw [if_neg removed]
                cases chosen : selected ch.doc with
                | none =>
                    exact ⟨true, _, rfl, .skip rfl fewer rfl less,
                      iff_of_true (certain_of_idle found ((if_neg removed).trans chosen) outcome)
                        rfl⟩
                | some cm =>
                    obtain ⟨isDoc, isPending⟩ := selected_eq_some_iff.mp chosen
                    obtain ⟨kept, advance, certain⟩ := advance_claim
                      (.watch pcID changes (some { cm with status := running }))
                      (.watch pcID changes none) found ((if_neg removed).trans chosen)
                      (by simp [Call.docs, isDoc]) isPending rfl fewer rfl
                      (by simp [Call.remaining]; omega) rfl fewer rfl less outcome
                    exact ⟨kept, _, rfl, advance, certain⟩
  | claimPending pc docs out =>
      right
      cases docs with
      | nil =>
          exact ⟨true, _, rfl, .handOver rfl (List.nil_subset _) rfl Nat.zero_lt_one,
            iff_of_true (certain_of_idle found rfl outcome) rfl⟩
      | cons d docs =>
          have fewer : docs ⊆ d :: docs := List.subset_cons_self _ _
          have less : docs.length + 1 < docs.length + 1 + 1 := Nat.lt_succ_self _
          simp only
          cases chosen : selected d with
          | none =>
              exact ⟨true, _, rfl, .skip rfl fewer rfl less,
                iff_of_true (certain_of_idle found chosen outcome) rfl⟩
          | some cm =>
              obtain ⟨isDoc, isPending⟩ := selected_eq_some_iff.mp chosen
              obtain ⟨kept, advance, certain⟩ := advance_claim
                (.claimPending pc docs (out ++ [{ cm with status := running }]))
                (.claimPending pc docs out) found chosen (by simp [Call.docs, isDoc]) isPending
                rfl fewer rfl less rfl fewer rfl less outcome
              exact ⟨kept, _, rfl, advance, certain⟩

/-- What one step can do to the state, and whether it keeps what it claims. -/
inductive Effect (s : State) : Bool → State → Prop
  | rejected : Effect s true s
  | pushed {pc id : Bytes} {doc : Command} (fresh : s.queues pc id = none) :
      Effect s true { s with
        queues := s.queues.set pc id doc
        pushed := s.pushed ++ [(pc, doc)]
        versions := s.versions ++ [(pc, doc)] }
  | acked {pc id : Bytes} {doc doc' : Command} (found : s.queues pc id = some doc)
      (notPending : doc'.status ≠ pending) :
      Effect s true { s with
        queues := s.queues.set pc id doc'
        versions := s.versions ++ [(pc, doc')] }
  | began {k : CallId} {call' : Call} (idle : ∀ call, s.calls k = some call → call.inHand = [])
      (inHand : call'.inHand = []) (shows : s.Shows call'.pc call'.docs) :
      Effect s true (s.setCall k call')
  | advanced {k : CallId} {call : Call} {kept : Bool} {s' : State} (found : s.calls k = some call)
      (advance : Advance s k call kept s') : Effect s kept s'

theorem effect_of_step {s s' : State} {a : Action} (taken : step s a = some s') :
    ∃ kept, Effect s kept s' ∧ (Certain s a ↔ kept = true) := by
  cases a with
  | push pc cmd sid agent requestedBy source args id ts =>
      refine ⟨true, ?_, iff_of_true trivial rfl⟩
      rw [step] at taken
      split at taken
      · cases taken
      · rename_i fresh
        rw [Option.not_isSome_iff_eq_none] at fresh
        split at taken
        · cases taken
          exact .rejected
        · rename_i queues accepted
          cases taken
          rw [pushCommandArgs_eq_ok accepted]
          exact .pushed fresh
  | ack pc id outcome detail finishedAt =>
      refine ⟨true, ?_, iff_of_true trivial rfl⟩
      simp only [step] at taken
      split at taken
      · cases taken
      · rename_i doc found
        split at taken
        · cases taken
        · cases taken
          rw [ackCommandFor, Queues.set_same]
          exact .acked found outcome.status_ne_pending
  | watch k pcID =>
      refine ⟨true, ?_, iff_of_true trivial rfl⟩
      rw [step] at taken
      split at taken
      · cases taken
      · rename_i fresh
        cases taken
        exact .began (fun call found => absurd (Option.isSome_of_eq_some found) fresh) rfl
          (fun _ mem => by cases mem)
  | snapshot k changes =>
      refine ⟨true, ?_, iff_of_true trivial rfl⟩
      rw [step] at taken
      split at taken
      · rename_i pcID found
        split at taken
        · rename_i shows
          cases taken
          refine .began (fun call found' => ?_) rfl shows
          rw [found] at found'
          cases found'
          rfl
        · cases taken
      · cases taken
  | claimPending k pc docs =>
      refine ⟨true, ?_, iff_of_true trivial rfl⟩
      rw [step] at taken
      split at taken
      · cases taken
      · rename_i fresh
        split at taken
        · rename_i shows
          cases taken
          exact .began (fun call found => absurd (Option.isSome_of_eq_some found) fresh) rfl shows
        · cases taken
  | advance k outcome =>
      rw [step] at taken
      cases found : s.calls k with
      | none => rw [State.advance, found] at taken; cases taken
      | some call =>
          rcases advance_cases found outcome with
            ⟨-, stuck⟩ | ⟨kept, s'', advanced, advance, certain⟩
          · rw [stuck] at taken; cases taken
          · rw [advanced] at taken
            cases taken
            exact ⟨kept, .advanced found advance, certain⟩

/-! ## Every claim is accounted for -/

/-- Which command a claim or a delivery is about. -/
abbrev Key := Bytes × Bytes

/-- The document that was claimed. -/
def Claim.key (claim : Claim) : Key := (claim.pc, claim.id)

/-- The document that was handed over. -/
def Delivery.key (d : Delivery) : Key := (d.pc, d.command.id)

namespace State

/-- The commands a call has claimed so far. -/
def claimedBy (s : State) (k : CallId) : List Key :=
  (s.committed.filter fun claim => claim.call = k).map Claim.key

/-- The commands a call has handed over so far. -/
def deliveredBy (s : State) (k : CallId) : List Key :=
  (s.delivered.filter fun d => d.call = k).map Delivery.key

/-- The commands a call has in hand. -/
def heldBy (s : State) (k : CallId) : List Key :=
  match s.calls k with
  | none => []
  | some call => call.inHand.map fun cm => (call.pc, cm.id)

variable {s : State} {k j : CallId} {call call' : Call}

theorem heldBy_of_found (found : s.calls k = some call) :
    s.heldBy k = call.inHand.map fun cm => (call.pc, cm.id) := by
  rw [heldBy, found]

@[simp]
theorem heldBy_setCall_same (s : State) (k : CallId) (call : Call) :
    (s.setCall k call).heldBy k = call.inHand.map fun cm => (call.pc, cm.id) :=
  heldBy_of_found (by simp [setCall])

theorem heldBy_setCall_of_ne (other : j ≠ k) : (s.setCall k call).heldBy j = s.heldBy j := by
  simp only [heldBy, setCall, Function.update_of_ne other]

@[simp]
theorem claimedBy_setCall (s : State) (k j : CallId) (call : Call) :
    (s.setCall k call).claimedBy j = s.claimedBy j :=
  rfl

@[simp]
theorem deliveredBy_setCall (s : State) (k j : CallId) (call : Call) :
    (s.setCall k call).deliveredBy j = s.deliveredBy j :=
  rfl

@[simp]
theorem heldBy_commit (s : State) (k j : CallId) (pc id : Bytes) (queues : Queues) :
    (s.commit k pc id queues).heldBy j = s.heldBy j :=
  rfl

@[simp]
theorem deliveredBy_commit (s : State) (k j : CallId) (pc id : Bytes) (queues : Queues) :
    (s.commit k pc id queues).deliveredBy j = s.deliveredBy j :=
  rfl

@[simp]
theorem heldBy_deliver (s : State) (k j : CallId) (pc : Bytes) (commands : List Command) :
    (s.deliver k pc commands).heldBy j = s.heldBy j :=
  rfl

@[simp]
theorem claimedBy_deliver (s : State) (k j : CallId) (pc : Bytes) (commands : List Command) :
    (s.deliver k pc commands).claimedBy j = s.claimedBy j :=
  rfl

theorem claimedBy_commit (s : State) (k j : CallId) (pc id : Bytes) (queues : Queues) :
    (s.commit k pc id queues).claimedBy j =
      s.claimedBy j ++ if k = j then [(pc, id)] else [] := by
  rw [claimedBy, commit, List.filter_append, List.map_append]
  by_cases same : k = j <;> simp [same, claimedBy, Claim.key]

theorem deliveredBy_deliver (s : State) (k j : CallId) (pc : Bytes) (commands : List Command) :
    (s.deliver k pc commands).deliveredBy j =
      s.deliveredBy j ++ if k = j then commands.map fun cm => (pc, cm.id) else [] := by
  rw [deliveredBy, deliver, List.filter_append, List.map_append]
  by_cases same : k = j
  · subst same
    simp [deliveredBy, Delivery.key, List.filter_map, Function.comp_def]
  · simp [deliveredBy, same, List.filter_map, Function.comp_def]

end State

/-- A command as it is handed over: as it was pushed, with status `running`. -/
def State.FromPush (s : State) (pc : Bytes) (cm : Command) : Prop :=
  ∃ doc, (pc, doc) ∈ s.pushed ∧ cm = { doc with status := running }

/-- What a call has handed over or has in hand it has claimed, in order. -/
def State.Accounted (s : State) : Prop :=
  ∀ k, (s.deliveredBy k ++ s.heldBy k).Sublist (s.claimedBy k)

/-- What a call has claimed it has handed over or has in hand. -/
def State.Kept (s : State) : Prop := ∀ k, s.claimedBy k = s.deliveredBy k ++ s.heldBy k

/-- What holds in every reachable state. -/
structure Wf (s : State) : Prop where
  once : (s.committed.map Claim.key).Nodup
  notPending : ∀ claim ∈ s.committed, ∃ doc, s.queues claim.pc claim.id = some doc ∧
    doc.status ≠ pending
  pendingPushed : ∀ pc doc, (pc, doc) ∈ s.versions → doc.status = pending → (pc, doc) ∈ s.pushed
  shown : ∀ k call, s.calls k = some call → s.Shows call.pc call.docs
  held : ∀ k call, s.calls k = some call → ∀ cm ∈ call.inHand, s.FromPush call.pc cm
  delivered : ∀ d ∈ s.delivered, s.FromPush d.pc d.command

theorem wf_init : Wf State.init where
  once := List.nodup_nil
  notPending _ mem := by cases mem
  pendingPushed _ _ mem := by cases mem
  shown _ _ found := by cases found
  held _ _ found := by cases found
  delivered _ mem := by cases mem

/-- A command that has been claimed cannot be claimed again. -/
theorem Wf.notMem_of_claim {s : State} (wf : Wf s) {pc id : Bytes} {queues : Queues}
    (claimed : claimCommandFor s.queues pc id = some queues) :
    (pc, id) ∉ s.committed.map Claim.key := by
  intro mem
  obtain ⟨claim, inLog, same⟩ := List.mem_map.mp mem
  obtain ⟨doc, found, notPending⟩ := wf.notPending claim inLog
  obtain ⟨doc', found', isPending, -⟩ := claimCommandFor_eq_some_iff.mp claimed
  rw [show claim.pc = pc from congrArg Prod.fst same,
    show claim.id = id from congrArg Prod.snd same, found'] at found
  cases found
  exact notPending isPending

/-- A document that is not pending stays so, whatever is written elsewhere or
to it by claims and acks. -/
theorem notPending_set {q : Queues} {pc id pc' id' : Bytes} {doc' : Command}
    (written : doc'.status ≠ pending ∨ q pc id = none)
    (before : ∃ doc, q pc' id' = some doc ∧ doc.status ≠ pending) :
    ∃ doc, q.set pc id doc' pc' id' = some doc ∧ doc.status ≠ pending := by
  by_cases same : (pc', id') = (pc, id)
  · cases same
    rcases written with notPending | fresh
    · exact ⟨doc', Queues.set_same .., notPending⟩
    · obtain ⟨doc, found, -⟩ := before
      rw [fresh] at found
      cases found
  · rw [Queues.set_of_ne same]
    exact before

namespace State

variable {s : State}

theorem Shows.mono {s' : State} {pc : Bytes} {docs docs' : List (Option Command)}
    (shows : s.Shows pc docs) (fewer : docs' ⊆ docs) (kept : s.versions ⊆ s'.versions) :
    s'.Shows pc docs' :=
  fun doc mem cm inDoc => kept (shows doc (fewer mem) cm inDoc)

theorem FromPush.mono {s' : State} {pc : Bytes} {cm : Command} (fromPush : s.FromPush pc cm)
    (kept : s.pushed ⊆ s'.pushed) : s'.FromPush pc cm := by
  obtain ⟨doc, mem, same⟩ := fromPush
  exact ⟨doc, kept mem, same⟩

/-- The call that was set, or another one. -/
theorem setCall_found {k j : CallId} {call found : Call}
    (isFound : (s.setCall k call).calls j = some found) :
    (j = k ∧ found = call) ∨ (j ≠ k ∧ s.calls j = some found) := by
  by_cases same : j = k
  · subst same
    simp only [setCall, Function.update_self, Option.some.injEq] at isFound
    exact .inl ⟨rfl, isFound.symm⟩
  · simp only [setCall, Function.update_of_ne same] at isFound
    exact .inr ⟨same, isFound⟩

/-- What holds of the calls holds after one is set if it holds of that one. -/
theorem forall_setCall {P : CallId → Call → Prop} {k : CallId} {call : Call} (set_ : P k call)
    (others : ∀ j c, s.calls j = some c → P j c) :
    ∀ j c, (s.setCall k call).calls j = some c → P j c := by
  intro j c isFound
  rcases setCall_found isFound with ⟨rfl, rfl⟩ | ⟨-, old⟩
  · exact set_
  · exact others j c old

theorem heldBy_of_idle {k : CallId} (idle : ∀ call, s.calls k = some call → call.inHand = []) :
    s.heldBy k = [] := by
  cases found : s.calls k with
  | none => rw [heldBy, found]
  | some call =>
      rw [heldBy_of_found found, idle call found]
      rfl

end State

open State

section

variable {s : State} {k : CallId} {call call' : Call}

theorem Wf.skip (wf : Wf s) (found : s.calls k = some call) (pc : call'.pc = call.pc)
    (docs : call'.docs ⊆ call.docs) (inHand : call'.inHand = call.inHand) :
    Wf (s.setCall k call') := by
  have shows : s.Shows call'.pc call'.docs := by
    rw [pc]
    exact (wf.shown k call found).mono docs (List.Subset.refl _)
  have holds : ∀ cm ∈ call'.inHand, s.FromPush call'.pc cm := by
    rw [pc, inHand]
    exact wf.held k call found
  exact { wf with
    shown := forall_setCall shows wf.shown
    held := forall_setCall holds wf.held }

theorem Wf.commit (wf : Wf s) (found : s.calls k = some call) {id : Bytes} {queues : Queues}
    (pc : call'.pc = call.pc) (docs : call'.docs ⊆ call.docs)
    (claimed : claimCommandFor s.queues call.pc id = some queues)
    (holds : ∀ cm ∈ call'.inHand, s.FromPush call'.pc cm) :
    Wf ((s.commit k call.pc id queues).setCall k call') := by
  have fresh := wf.notMem_of_claim claimed
  obtain ⟨doc, -, -, rfl⟩ := claimCommandFor_eq_some_iff.mp claimed
  have kept : s.versions ⊆ (s.commit k call.pc id
      (s.queues.set call.pc id { doc with status := running })).versions :=
    List.subset_append_left _ _
  have shows := (wf.shown k call found).mono docs kept
  refine ⟨?_, ?_, ?_, ?_, ?_, wf.delivered⟩
  · change ((s.committed ++ [_]).map Claim.key).Nodup
    rw [List.map_append, List.nodup_append]
    refine ⟨wf.once, by simp, ?_⟩
    rintro key inLog _ new rfl
    rw [List.map_singleton, List.mem_singleton] at new
    rw [new] at inLog
    exact fresh inLog
  · intro claim mem
    rcases List.mem_append.mp mem with old | new
    · exact notPending_set (.inl running_ne_pending) (wf.notPending claim old)
    · rw [List.mem_singleton] at new
      subst new
      exact ⟨_, Queues.set_same .., running_ne_pending⟩
  · intro pc' doc' mem isPending'
    change (pc', doc') ∈ s.versions ++ _ at mem
    rw [Queues.set_same] at mem
    rcases List.mem_append.mp mem with old | new
    · exact wf.pendingPushed pc' doc' old isPending'
    · simp only [Option.map_some, Option.toList_some, List.mem_singleton, Prod.mk.injEq] at new
      rw [new.2] at isPending'
      exact absurd isPending' running_ne_pending
  · apply forall_setCall
    · rw [pc]
      exact shows
    · exact fun j c old => (wf.shown j c old).mono (List.Subset.refl _) kept
  · exact forall_setCall holds wf.held

theorem Wf.handOver (wf : Wf s) (found : s.calls k = some call) (pc : call'.pc = call.pc)
    (docs : call'.docs ⊆ call.docs) (inHand : call'.inHand = []) :
    Wf ((s.deliver k call.pc call.inHand).setCall k call') := by
  have shows := (wf.shown k call found).mono docs (List.Subset.refl _)
  have holds : ∀ cm ∈ call'.inHand, s.FromPush call'.pc cm := by
    rw [inHand]
    exact fun cm mem => by cases mem
  refine ⟨wf.once, wf.notPending, wf.pendingPushed, ?_, ?_, ?_⟩
  · apply forall_setCall
    · rw [pc]
      exact shows
    · exact wf.shown
  · exact forall_setCall holds wf.held
  · intro d mem
    rcases List.mem_append.mp mem with old | new
    · exact wf.delivered d old
    · obtain ⟨cm, inHand', rfl⟩ := List.mem_map.mp new
      exact wf.held k call found cm inHand'

theorem Advance.wf {kept : Bool} {s' : State} (found : s.calls k = some call)
    (advance : Advance s k call kept s') (wf : Wf s) : Wf s' := by
  cases advance with
  | skip pc docs inHand => exact wf.skip found pc docs inHand
  | @commit call' cm queues pc docs mem isPending claimed inHand =>
      refine wf.commit found pc docs claimed fun cm' inHand' => ?_
      rw [inHand] at inHand'
      rw [pc]
      rcases List.mem_append.mp inHand' with earlier | new
      · exact wf.held k call found cm' earlier
      · rw [List.mem_singleton] at new
        exact ⟨cm, wf.pendingPushed _ _ (wf.shown k call found _ mem cm rfl) isPending, new⟩
  | lose pc docs claimed inHand =>
      refine wf.commit found pc docs claimed ?_
      rw [pc, inHand]
      exact wf.held k call found
  | handOver pc docs inHand => exact wf.handOver found pc docs inHand

/-- What a step adds to the claims of the calls it adds to what they have, unless it
loses it. -/
def Adds (s s' : State) (new kept : CallId → List Key) : Prop :=
  ∀ j, s'.claimedBy j = s.claimedBy j ++ new j ∧
    s'.deliveredBy j ++ s'.heldBy j = s.deliveredBy j ++ s.heldBy j ++ kept j

theorem Advance.adds {kept : Bool} {s' : State} (found : s.calls k = some call)
    (advance : Advance s k call kept s') :
    ∃ new, Adds s s' new (if kept then new else fun _ => []) ∧
      (kept = false → ∃ j, new j ≠ []) := by
  have before := heldBy_of_found found
  cases advance with
  | @skip call' pc docs inHand =>
      refine ⟨fun _ => [], fun j => ?_, nofun⟩
      have held : (s.setCall k call').heldBy j = s.heldBy j := by
        by_cases same : j = k
        · rw [same, heldBy_setCall_same, before, inHand, pc]
        · exact heldBy_setCall_of_ne same
      rw [claimedBy_setCall, deliveredBy_setCall, held]
      simp
  | @commit call' cm queues pc docs mem isPending claimed inHand =>
      refine ⟨fun j => if k = j then [(call.pc, cm.id)] else [], fun j => ?_, nofun⟩
      rw [claimedBy_setCall, deliveredBy_setCall, claimedBy_commit, deliveredBy_commit]
      refine ⟨rfl, ?_⟩
      by_cases same : j = k
      · subst same
        simp [before, inHand, pc]
      · simp [heldBy_setCall_of_ne same, Ne.symm same]
  | @lose call' id queues pc docs claimed inHand =>
      refine ⟨fun j => if k = j then [(call.pc, id)] else [], fun j => ?_, fun _ => ⟨k, by simp⟩⟩
      rw [claimedBy_setCall, deliveredBy_setCall, claimedBy_commit, deliveredBy_commit]
      refine ⟨rfl, ?_⟩
      by_cases same : j = k
      · subst same
        simp [before, inHand, pc]
      · simp [heldBy_setCall_of_ne same]
  | @handOver call' pc docs inHand =>
      refine ⟨fun _ => [], fun j => ?_, nofun⟩
      rw [claimedBy_setCall, claimedBy_deliver, deliveredBy_setCall, deliveredBy_deliver]
      by_cases same : j = k
      · subst same
        simp [before, inHand]
      · simp [heldBy_setCall_of_ne same, Ne.symm same]

end

theorem Effect.adds {s s' : State} {kept : Bool} (effect : Effect s kept s') :
    ∃ new, Adds s s' new (if kept then new else fun _ => []) ∧
      (kept = false → ∃ j, new j ≠ []) := by
  cases effect with
  | rejected => exact ⟨fun _ => [], fun j => ⟨by simp, by simp⟩, nofun⟩
  | pushed fresh =>
      exact ⟨fun _ => [], fun j => ⟨by simp [claimedBy], by simp [deliveredBy, heldBy]⟩, nofun⟩
  | acked found notPending =>
      exact ⟨fun _ => [], fun j => ⟨by simp [claimedBy], by simp [deliveredBy, heldBy]⟩, nofun⟩
  | @began k call' idle inHand shows =>
      refine ⟨fun _ => [], fun j => ⟨by simp, ?_⟩, nofun⟩
      have held : (s.setCall k call').heldBy j = s.heldBy j := by
        by_cases same : j = k
        · rw [same, heldBy_setCall_same, heldBy_of_idle idle, inHand]
          rfl
        · exact heldBy_setCall_of_ne same
      rw [deliveredBy_setCall, held]
      simp
  | advanced found advance => exact advance.adds found

theorem Effect.accounted {s s' : State} {kept : Bool} (effect : Effect s kept s')
    (accounted : s.Accounted) : s'.Accounted := by
  obtain ⟨new, adds, -⟩ := effect.adds
  intro j
  rw [(adds j).1, (adds j).2]
  cases kept with
  | true => exact (accounted j).append (List.Sublist.refl _)
  | false => exact (accounted j).append (List.nil_sublist _)

theorem Effect.kept_iff {s s' : State} {kept : Bool} (effect : Effect s kept s')
    (before : s.Kept) : s'.Kept ↔ kept = true := by
  obtain ⟨new, adds, loses⟩ := effect.adds
  cases kept with
  | true =>
      refine iff_of_true (fun j => ?_) rfl
      rw [(adds j).1, (adds j).2, before j]
      rfl
  | false =>
      refine iff_of_false (fun after => ?_) Bool.false_ne_true
      obtain ⟨j, lost⟩ := loses rfl
      have same := after j
      rw [(adds j).1, (adds j).2, before j] at same
      exact lost (List.append_cancel_left same)

theorem Effect.wf {s s' : State} {kept : Bool} (effect : Effect s kept s') (wf : Wf s) :
    Wf s' := by
  cases effect with
  | rejected => exact wf
  | @pushed pc id doc fresh =>
      refine ⟨wf.once, ?_, ?_, ?_, ?_, ?_⟩
      · exact fun claim mem => notPending_set (.inr fresh) (wf.notPending claim mem)
      · intro pc' doc' mem isPending
        rcases List.mem_append.mp mem with old | new
        · exact List.mem_append_left _ (wf.pendingPushed pc' doc' old isPending)
        · exact List.mem_append_right _ new
      · exact fun j c old =>
          (wf.shown j c old).mono (List.Subset.refl _) (List.subset_append_left _ _)
      · exact fun j c old cm mem => (wf.held j c old cm mem).mono (List.subset_append_left _ _)
      · exact fun d mem => (wf.delivered d mem).mono (List.subset_append_left _ _)
  | @acked pc id doc doc' found notPending =>
      refine { wf with notPending := ?_, pendingPushed := ?_, shown := ?_ }
      · exact fun claim mem => notPending_set (.inl notPending) (wf.notPending claim mem)
      · intro pc' doc'' mem isPending
        rcases List.mem_append.mp mem with old | new
        · exact wf.pendingPushed pc' doc'' old isPending
        · rw [List.mem_singleton, Prod.mk.injEq] at new
          rw [new.2] at isPending
          exact absurd isPending notPending
      · exact fun j c old =>
          (wf.shown j c old).mono (List.Subset.refl _) (List.subset_append_left _ _)
  | @began k call' idle inHand shows =>
      refine { wf with shown := forall_setCall shows wf.shown, held := ?_ }
      apply forall_setCall _ wf.held
      rw [inHand]
      exact fun cm mem => by cases mem
  | advanced found advance => exact advance.wf found wf

/-- The invariant of all runs. -/
structure Inv (s : State) : Prop where
  wf : Wf s
  accounted : s.Accounted

theorem inv_init : Inv State.init := ⟨wf_init, fun _ => List.Sublist.refl _⟩

theorem Inv.step {s s' : State} {a : Action} (inv : Inv s) (taken : step s a = some s') :
    Inv s' := by
  obtain ⟨kept, effect, -⟩ := effect_of_step taken
  exact ⟨effect.wf inv.wf, effect.accounted inv.accounted⟩

/-! ## At most once, and never dropped -/

/-- Keys occur once in a list if they do in the part of each owner, and no key
has two owners. -/
theorem nodup_of_parts {α ι κ : Type} [DecidableEq ι] (owner : α → ι) (key : α → κ) {list : List α}
    (parts : ∀ i, ((list.filter fun a => owner a = i).map key).Nodup)
    (owned : ∀ a ∈ list, ∀ b ∈ list, key a = key b → owner a = owner b) :
    (list.map key).Nodup := by
  induction list with
  | nil => exact List.nodup_nil
  | cons a list ih =>
      have own := parts (owner a)
      rw [List.filter_cons_of_pos (by simp), List.map_cons, List.nodup_cons] at own
      rw [List.map_cons, List.nodup_cons]
      constructor
      · intro mem
        obtain ⟨b, inList, same⟩ := List.mem_map.mp mem
        have sameOwner := owned a List.mem_cons_self b (List.mem_cons_of_mem _ inList) same.symm
        exact own.1 (List.mem_map.mpr ⟨b, List.mem_filter.mpr ⟨inList, by simp [sameOwner]⟩, same⟩)
      · refine ih (fun i => ?_) fun b memB c memC =>
          owned b (List.mem_cons_of_mem _ memB) c (List.mem_cons_of_mem _ memC)
        exact (parts i).sublist (((List.sublist_cons_self a list).filter _).map _)

theorem Inv.exists_claim {s : State} (inv : Inv s) {d : Delivery} (mem : d ∈ s.delivered) :
    ∃ claim ∈ s.committed, claim.call = d.call ∧ claim.key = d.key := by
  have byCall : d.key ∈ s.claimedBy d.call := (inv.accounted d.call).subset <|
    List.mem_append_left _ (List.mem_map_of_mem (List.mem_filter.mpr ⟨mem, by simp⟩))
  obtain ⟨claim, inLog, same⟩ := List.mem_map.mp byCall
  rw [List.mem_filter, decide_eq_true_iff] at inLog
  exact ⟨claim, inLog.1, inLog.2, same⟩

/-- What is handed over, in one state of a run. -/
structure AtMostOnce (s : State) : Prop where
  /-- A command is handed over at most once. -/
  once : (s.delivered.map Delivery.key).Nodup
  /-- It is handed over by the call whose transaction was committed, and by no
  other. -/
  claimed : ∀ d ∈ s.delivered, ∃ claim ∈ s.committed, claim.call = d.call ∧ claim.key = d.key
  claimedOnce : (s.committed.map Claim.key).Nodup
  /-- It is handed over as it was pushed. -/
  pushed : ∀ d ∈ s.delivered, s.FromPush d.pc d.command
  /-- A call in the middle of a batch goes on however its next transaction ends. -/
  goesOn : ∀ k call, s.calls k = some call → call.remaining ≠ 0 → ∀ outcome,
    ∃ s' call', step s (.advance k outcome) = some s' ∧ s'.calls k = some call' ∧
      call'.remaining < call.remaining

/-- The claim's guarantees, in one state of a run: what is claimed is handed over, too. -/
structure DeliveredOnce (s : State) : Prop extends AtMostOnce s where
  /-- A call that is not in the middle of a batch has handed over everything it
  has claimed. -/
  handed : ∀ k call, s.calls k = some call → call.remaining = 0 → s.claimedBy k = s.deliveredBy k
  /-- A call in the middle of a batch has what it has claimed in hand. -/
  inHand : ∀ k, s.claimedBy k = s.deliveredBy k ++ s.heldBy k

theorem Inv.once_delivered {s : State} (inv : Inv s) :
    (s.delivered.map Delivery.key).Nodup := by
  refine nodup_of_parts Delivery.call Delivery.key (fun k => ?_) fun d memD e memE same => ?_
  · have claims : (s.claimedBy k).Nodup := inv.wf.once.sublist (List.filter_sublist.map _)
    exact claims.sublist ((List.sublist_append_left _ _).trans (inv.accounted k))
  · obtain ⟨claimD, inLogD, callD, keyD⟩ := inv.exists_claim memD
    obtain ⟨claimE, inLogE, callE, keyE⟩ := inv.exists_claim memE
    have sameClaim := List.inj_on_of_nodup_map inv.wf.once inLogD inLogE
      (keyD.trans (same.trans keyE.symm))
    rw [← callD, ← callE, sameClaim]

theorem Inv.atMostOnce {s : State} (inv : Inv s) : AtMostOnce s where
  once := inv.once_delivered
  claimed _ mem := inv.exists_claim mem
  claimedOnce := inv.wf.once
  pushed := inv.wf.delivered
  goesOn k call found busy outcome := by
    rcases advance_cases found outcome with ⟨settled, -⟩ | ⟨kept, s', taken, advance, -⟩
    · exact absurd settled busy
    · refine ⟨s', ?_⟩
      cases advance with
      | skip pc docs inHand less => exact ⟨_, taken, Function.update_self .., less⟩
      | commit pc docs mem isPending claimed inHand less =>
          exact ⟨_, taken, Function.update_self .., less⟩
      | lose pc docs claimed inHand less => exact ⟨_, taken, Function.update_self .., less⟩
      | handOver pc docs inHand less => exact ⟨_, taken, Function.update_self .., less⟩

theorem Inv.deliveredOnce_iff {s : State} (inv : Inv s) : DeliveredOnce s ↔ s.Kept := by
  refine ⟨DeliveredOnce.inHand, fun kept => ⟨inv.atMostOnce, fun k call found settled => ?_, kept⟩⟩
  rw [kept, heldBy_of_found found, Call.inHand_of_remaining settled, List.map_nil, List.append_nil]

/-- Commands are delivered at most once in every run, and a claim is never dropped exactly
in those where no claim takes effect and reports an error. -/
theorem commands_delivered_once_iff (actions : List Action) :
    Always step AtMostOnce State.init actions ∧
      (Always step DeliveredOnce State.init actions ↔ Along step Certain State.init actions) := by
  constructor
  · exact (always_of_inductive (fun _ _ _ inv taken => inv.step taken) actions inv_init).imp
      fun _ inv => inv.atMostOnce
  · have preserved : ∀ s a s', Inv s → True → step s a = some s' → Inv s' :=
      fun _ _ _ inv _ taken => inv.step taken
    refine always_iff_along preserved ?_ inv_init ?_ (along_of_forall (fun _ _ _ => trivial) _)
    · intro s a s' inv delivered _ taken
      obtain ⟨kept, effect, certain⟩ := effect_of_step taken
      rw [(inv.step taken).deliveredOnce_iff, certain]
      exact effect.kept_iff (inv.deliveredOnce_iff.mp delivered)
    · exact inv_init.deliveredOnce_iff.mpr fun _ => rfl

/-- One command, and a call of `ClaimPendingCommands` whose transaction takes effect and
reports an error. -/
def uncertainRun : List Action :=
  [.push (ascii "alpha") (ascii "interrupt") [] [] [] [] [] (ascii "c1") [],
    .claimPending 0 (ascii "alpha")
      [some (newCommand (ascii "c1") (ascii "interrupt") [] [] [] [] [] [])],
    .advance 0 (.failed true), .advance 0 .ok]

/-- The command is claimed, and the call returns without it. -/
theorem claim_dropped :
    ((exec step State.init uncertainRun).map fun s => (s.committed, s.delivered, s.heldBy 0)) =
        some ([⟨0, ascii "alpha", ascii "c1"⟩], [], []) ∧
      ¬ ∀ actions, Always step DeliveredOnce State.init actions := by
  have logs : ((exec step State.init uncertainRun).map fun s =>
      (s.committed, s.delivered, s.heldBy 0)) =
        some ([⟨0, ascii "alpha", ascii "c1"⟩], [], []) := by decide +kernel
  refine ⟨logs, fun always => ?_⟩
  obtain ⟨s, run, isEnd⟩ := Option.map_eq_some_iff.mp logs
  simp only [Prod.mk.injEq] at isEnd
  have kept := ((always uncertainRun).last run).inHand 0
  rw [State.claimedBy, State.deliveredBy, isEnd.1, isEnd.2.1, isEnd.2.2] at kept
  exact absurd kept (by decide)

end Drover.Commands
