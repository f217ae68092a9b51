import Drover.Data.Bytes
import Drover.Transition.Run

/-!
# Watching a document

`keepSubscribed` runs one subscription after another until its context ends.  A
listener first delivers the current document, and then again after changes; several
changes may come as one.  `WatchWake` calls back for every snapshot that has a session.
So a subscription that follows another one calls back with a wake that has been called
back already, and the calls are at most one more than the wakes in exactly the runs
where no such snapshot has a session.
-/

namespace Drover.Watch

open Drover.Transition

/-! ## The loop -/

/-- `time.Millisecond`, in nanoseconds. -/
def millisecond : Nat := 1000000

/-- `watchBackoffMin`. -/
def watchBackoffMin : Nat := 200 * millisecond

/-- `watchBackoffMax`. -/
def watchBackoffMax : Nat := 5000 * millisecond

/-- Where the loop is. -/
inductive Phase where
  | top
  | pumping
  | sleeping
  | returned
  deriving DecidableEq

/-- A call of `keepSubscribed`, the document that it watches, and what it has called
back with, latest first. -/
structure Watcher (δ β : Type) where
  phase : Phase := .top
  bo : Nat := watchBackoffMin
  cancelled : Bool := false
  doc : Option δ
  /-- The listener has not delivered anything. -/
  first : Bool := false
  /-- The document has changed since the last snapshot. -/
  changed : Bool := false
  calls : List β := []

/-- What can happen next. -/
inductive Event (δ : Type) where
  /-- The document is written or deleted. -/
  | change (doc : Option δ)
  | cancel
  | subscribe
  /-- The listener delivers the document. -/
  | deliver
  /-- The stream ends, or the lifetime of the subscription. -/
  | terminate
  | slept

variable {δ β : Type}

/-- One step of `keepSubscribed`, whose pump calls back with what `snapshot` finds in
the document. -/
def keepSubscribed (snapshot : Option δ → Option β) : Step (Watcher δ β) (Event δ)
  | w, .change doc => some { w with doc := doc, changed := true }
  | w, .cancel => some { w with cancelled := true }
  | w, .subscribe =>
      if w.phase = .top then
        some (if w.cancelled then { w with phase := .returned }
          else { w with phase := .pumping, first := true, changed := false })
      else none
  | w, .deliver =>
      if w.phase = .pumping ∧ (w.first = true ∨ w.changed = true) then
        some { w with
          first := false
          changed := false
          calls := (snapshot w.doc).toList ++ w.calls }
      else none
  | w, .terminate =>
      if w.phase = .pumping then
        some { w with phase := if w.cancelled then .returned else .sleeping }
      else none
  | w, .slept =>
      if w.phase = .sleeping then
        some (if w.cancelled then { w with phase := .returned }
          else { w with phase := .top, bo := min (w.bo * 2) watchBackoffMax })
      else none

/-- The loop looks at its context. -/
def Event.checks : Event δ → Bool
  | .subscribe | .terminate | .slept => true
  | .change _ | .cancel | .deliver => false

/-- The branches of a step. -/
inductive Watched (snapshot : Option δ → Option β) (w : Watcher δ β) :
    Event δ → Watcher δ β → Prop
  | change (doc : Option δ) :
      Watched snapshot w (.change doc) { w with doc := doc, changed := true }
  | cancel : Watched snapshot w .cancel { w with cancelled := true }
  | subscribe (isTop : w.phase = .top) (running : w.cancelled = false) :
      Watched snapshot w .subscribe { w with phase := .pumping, first := true, changed := false }
  | deliver (pumping : w.phase = .pumping) (due : w.first = true ∨ w.changed = true) :
      Watched snapshot w .deliver
        { w with first := false, changed := false, calls := (snapshot w.doc).toList ++ w.calls }
  | terminate (pumping : w.phase = .pumping) (running : w.cancelled = false) :
      Watched snapshot w .terminate { w with phase := .sleeping }
  | slept (sleeping : w.phase = .sleeping) (running : w.cancelled = false) :
      Watched snapshot w .slept { w with phase := .top, bo := min (w.bo * 2) watchBackoffMax }
  /-- The context has ended. -/
  | returns {event : Event δ} (checks : event.checks = true) (cancelled : w.cancelled = true) :
      Watched snapshot w event { w with phase := .returned }

section

variable {snapshot : Option δ → Option β} {w w' : Watcher δ β} {event : Event δ}

theorem watched_of_step (taken : keepSubscribed snapshot w event = some w') :
    Watched snapshot w event w' := by
  cases event with
  | change doc =>
      cases taken
      exact .change doc
  | cancel =>
      cases taken
      exact .cancel
  | subscribe =>
      simp only [keepSubscribed] at taken
      split at taken
      · rename_i isTop
        split at taken
        · rename_i cancelled
          cases taken
          exact .returns rfl cancelled
        · rename_i running
          cases taken
          exact .subscribe isTop (eq_false_of_ne_true running)
      · cases taken
  | deliver =>
      simp only [keepSubscribed] at taken
      split at taken
      · rename_i enabled
        cases taken
        exact .deliver enabled.1 enabled.2
      · cases taken
  | terminate =>
      simp only [keepSubscribed] at taken
      split at taken
      · rename_i pumping
        split at taken
        · rename_i cancelled
          cases taken
          exact .returns rfl cancelled
        · rename_i running
          cases taken
          exact .terminate pumping (eq_false_of_ne_true running)
      · cases taken
  | slept =>
      simp only [keepSubscribed] at taken
      split at taken
      · rename_i sleeping
        split at taken
        · rename_i cancelled
          cases taken
          exact .returns rfl cancelled
        · rename_i running
          cases taken
          exact .slept sleeping (eq_false_of_ne_true running)
      · cases taken

end

/-! ## `WatchWake` -/

/-- The document `wake/{pc}`, as far as its watcher reads it. -/
structure WakeDoc where
  sid : Bytes

/-- What the pump of `WatchWake` calls back with. -/
def wakeSnapshot : Option WakeDoc → Option Bytes
  | some d => if d.sid ≠ [] then some d.sid else none
  | none => none

/-- What has happened since `WatchWake` was called. -/
structure WatchLog where
  /-- The wakes that were committed. -/
  wakes : Nat := 0
  /-- There has been a wake since the last snapshot. -/
  fresh : Bool := false
  /-- There has been a snapshot. -/
  seen : Bool := false
  /-- The calls back for the first snapshot of a listener, after another snapshot and no
  wake since that. -/
  replays : Nat := 0
  deriving DecidableEq

/-- The snapshot is a replay: of a listener that follows another one, with no wake in
between. -/
def Replays (p : Watcher WakeDoc Bytes × WatchLog) : Prop :=
  p.1.first = true ∧ p.2.seen = true ∧ p.2.fresh = false

instance (p : Watcher WakeDoc Bytes × WatchLog) : Decidable (Replays p) :=
  inferInstanceAs (Decidable (_ ∧ _ ∧ _))

/-- The log after the step. -/
def recordWatch (w : Watcher WakeDoc Bytes) (event : Event WakeDoc) (_ : Watcher WakeDoc Bytes)
    (log : WatchLog) : WatchLog :=
  match event with
  | .change (some _) => { log with wakes := log.wakes + 1, fresh := true }
  | .deliver =>
      { log with
        fresh := false
        seen := true
        replays :=
          log.replays + if Replays (w, log) then (wakeSnapshot w.doc).toList.length else 0 }
  | _ => log

/-- One step of `WatchWake`, with the log. -/
abbrev watchWake : Step (Watcher WakeDoc Bytes × WatchLog) (Event WakeDoc) :=
  withGhost (keepSubscribed wakeSnapshot) recordWatch

/-- There is at most one call back more than wakes, and none for a replay. -/
def OncePerWake (p : Watcher WakeDoc Bytes × WatchLog) : Prop :=
  p.1.calls.length ≤ 1 + p.2.wakes ∧ p.2.replays = 0

/-- A replayed document is absent, or has no session. -/
def QuietReplay (p : Watcher WakeDoc Bytes × WatchLog) : Event WakeDoc → Prop
  | .deliver => Replays p → wakeSnapshot p.1.doc = none
  | _ => True

/-- Every call back is accounted for: by a wake, by the first snapshot, or as a replay. -/
structure WatchInv (p : Watcher WakeDoc Bytes × WatchLog) : Prop where
  counted : p.1.calls.length + p.2.fresh.toNat + (!p.2.seen).toNat ≤
    1 + p.2.wakes + p.2.replays
  fresh : p.1.changed = true → wakeSnapshot p.1.doc ≠ none → p.2.fresh = true

section

variable {p p' : Watcher WakeDoc Bytes × WatchLog} {event : Event WakeDoc}

theorem wakeSnapshot_length (doc : Option WakeDoc) :
    (wakeSnapshot doc).toList.length ≤ 1 := by
  cases wakeSnapshot doc with
  | none => exact Nat.zero_le 1
  | some sid => exact Nat.le_refl 1

/-- A call back takes the place of a wake or of the first snapshot, or it is a replay. -/
theorem WatchInv.deliver {w : Watcher WakeDoc Bytes} {log : WatchLog} (inv : WatchInv (w, log))
    (due : w.first = true ∨ w.changed = true) :
    ((wakeSnapshot w.doc).toList ++ w.calls).length ≤
      1 + log.wakes + (log.replays +
        if Replays (w, log) then (wakeSnapshot w.doc).toList.length else 0) := by
  obtain ⟨counted, fresh⟩ := inv
  have atMost := wakeSnapshot_length w.doc
  simp only at counted
  rw [List.length_append]
  by_cases replays : Replays (w, log)
  · rw [if_pos replays]
    omega
  · rw [if_neg replays]
    cases found : wakeSnapshot w.doc with
    | none =>
        rw [Option.toList_none, List.length_nil]
        omega
    | some sid =>
        have budget : log.fresh = true ∨ log.seen = false := by
          by_contra neither
          rw [not_or, Bool.not_eq_true, Bool.not_eq_false] at neither
          obtain ⟨notFresh, seen⟩ := neither
          rcases due with isFirst | changed
          · exact replays ⟨isFirst, seen, notFresh⟩
          · have isFresh := fresh changed (by rw [found]; exact Option.some_ne_none sid)
            rw [notFresh] at isFresh
            cases isFresh
        rw [Option.toList_some, List.length_singleton]
        rcases budget with isFresh | unseen
        · rw [isFresh, Bool.toNat_true] at counted
          omega
        · rw [unseen, Bool.not_false, Bool.toNat_true] at counted
          omega

theorem WatchInv.step (inv : WatchInv p) (taken : watchWake p event = some p') : WatchInv p' := by
  obtain ⟨w, log⟩ := p
  obtain ⟨w', log'⟩ := p'
  obtain ⟨taken, recorded⟩ := withGhost_eq_some_iff.mp taken
  have counted := inv.counted
  cases watched_of_step taken with
  | change doc =>
      cases doc with
      | some d =>
          cases recorded
          refine ⟨?_, fun _ _ => rfl⟩
          simp only [Bool.toNat_true] at counted ⊢
          omega
      | none =>
          cases recorded
          exact ⟨counted, fun _ some => (some rfl).elim⟩
  | cancel | terminate | slept =>
      cases recorded
      exact ⟨counted, inv.fresh⟩
  | subscribe =>
      cases recorded
      exact ⟨counted, nofun⟩
  | deliver pumping due =>
      cases recorded
      exact ⟨inv.deliver due, nofun⟩
  | returns checks cancelled =>
      cases event with
      | subscribe | terminate | slept =>
          cases recorded
          exact ⟨counted, inv.fresh⟩
      | change | cancel | deliver => cases checks

/-- One step keeps the calls to one a wake exactly if it is no replay that calls back. -/
theorem oncePerWake_step (inv : WatchInv p) (once : OncePerWake p)
    (taken : watchWake p event = some p') : OncePerWake p' ↔ QuietReplay p event := by
  have inv' := inv.step taken
  have enough : OncePerWake p' ↔ p'.2.replays = 0 := by
    refine ⟨fun once => once.2, fun none => ⟨?_, none⟩⟩
    have counted := inv'.counted
    omega
  rw [enough]
  obtain ⟨w, log⟩ := p
  obtain ⟨w', log'⟩ := p'
  obtain ⟨taken, recorded⟩ := withGhost_eq_some_iff.mp taken
  have noReplays : log.replays = 0 := once.2
  cases event with
  | deliver =>
      cases recorded
      change log.replays + (if Replays (w, log) then _ else 0) = 0 ↔
        (Replays (w, log) → wakeSnapshot w.doc = none)
      by_cases replays : Replays (w, log)
      · rw [if_pos replays, noReplays, Nat.zero_add]
        cases wakeSnapshot w.doc with
        | none => exact iff_of_true rfl fun _ => rfl
        | some sid => exact iff_of_false Nat.one_ne_zero fun quiet => by cases quiet replays
      · rw [if_neg replays]
        exact iff_of_true noReplays fun isReplay => (replays isReplay).elim
  | change doc => cases doc <;> cases recorded <;> exact iff_of_true noReplays trivial
  | cancel | subscribe | terminate | slept =>
      cases recorded
      exact iff_of_true noReplays trivial

end

/-- `WatchWake` calls back at most once more than there are wakes, and never for a
subscription with no wake before it, exactly if no replayed document has a session. -/
theorem oncePerWake_iff_quietReplay (doc : Option WakeDoc) (events : List (Event WakeDoc)) :
    Always watchWake OncePerWake ({ doc := doc }, {}) events ↔
      Along watchWake QuietReplay ({ doc := doc }, {}) events := by
  have start : WatchInv (({ doc := doc }, {}) : Watcher WakeDoc Bytes × WatchLog) :=
    ⟨Nat.le_refl 1, nofun⟩
  have once : OncePerWake (({ doc := doc }, {}) : Watcher WakeDoc Bytes × WatchLog) :=
    ⟨Nat.zero_le _, rfl⟩
  have free : Along watchWake (fun _ _ => True) ({ doc := doc }, {}) events :=
    along_of_forall_mem (fun _ _ => trivial) _
  apply always_iff_along _ _ start once free
  · exact fun _ _ _ inv _ taken => inv.step taken
  · exact fun _ _ _ inv once _ taken => oncePerWake_step inv once taken

/-- After a call back the stream ends; the next listener delivers the same document, and
there is a second call back without any wake. -/
theorem resubscribed_calls_again :
    ∃ w log, exec watchWake ({ doc := some ⟨ascii "w1"⟩ }, {})
        [.subscribe, .deliver, .terminate, .slept, .subscribe, .deliver] = some (w, log) ∧
      log.wakes = 0 ∧ w.calls = [ascii "w1", ascii "w1"] ∧ log.replays = 1 :=
  ⟨_, _, rfl, rfl, rfl, rfl⟩

end Drover.Watch
