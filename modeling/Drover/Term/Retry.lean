import Drover.Term.InputQueue

/-!
# What retries the queued input

A close arms a retry timer if there is queued input, and the timer asks the gate once: if
it is refused, nothing is armed again.  Neither is anything armed for what is queued while
the gate refuses.  So queued input is stranded exactly if what retries it goes away, or
was never there, at a time when the gate refuses.
-/

namespace Drover.Term

open Drover.Transition

namespace Line

variable {s s' : Line} {sock : Nat}

/-! ## Pending attempts -/

/-- The current socket is `CONNECTING`, `OPEN` or `CLOSING`. -/
def Live (s : Line) : Prop := s.wsState ≠ none ∧ s.wsState ≠ some .closed

instance Live.decidable (s : Line) : Decidable s.Live :=
  inferInstanceAs (Decidable (_ ∧ _))

/-- There is a live socket, a timer that calls `requestConnect`, or the watch interval
calls it. -/
def Pending (s : Line) : Prop :=
  s.Live ∨ s.timers ≠ [] ∨ (s.visible = true ∧ s.sessionActive = true)

instance Pending.decidable (s : Line) : Decidable s.Pending :=
  inferInstanceAs (Decidable (_ ∨ _))

/-- Queued input is retried. -/
def Unstranded (s : Line) : Prop := s.inputQ ≠ [] → s.Pending

instance Unstranded.decidable (s : Line) : Decidable s.Unstranded :=
  inferInstanceAs (Decidable (_ → _))

/-- An event that queues the first input, that uses up a retry timer, or that changes
what the watch interval looks at, leaves something pending, or the gate lets its attempt
through. -/
def Covers (s : Line) : PageEvent → Prop
  | .input b => s.inputQ = [] → s.inputQBytes + b.length ≤ QMAX → s.Pending ∨ s.gate.connect = true
  | .retry due =>
      s.inputQ ≠ [] → { s with timers := s.timers.erase due }.Pending ∨ s.gate.connect = true
  | .push active =>
      s.inputQ ≠ [] → { s with sessionActive := active.getD s.sessionActive }.Pending ∨
        s.gate.connect = true
  | .visibility visible =>
      s.inputQ ≠ [] → { s with visible := visible }.Pending ∨
        (visible = true ∧ s.gate.connect = true)
  | .tick _ | .opened _ | .closing _ | .error _ | .closed _ | .watch => True

/-! ## Attempts -/

theorem pending_requestConnect :
    s.requestConnect.Pending ↔ s.Pending ∨ s.gate.connect = true := by
  obtain ⟨-, -, -, sameTimers, sameVisible, sameActive⟩ := s.requestConnect_keeps
  have wsState := s.wsState_requestConnect
  rw [Pending, Pending, Live, Live, sameTimers, sameVisible, sameActive, wsState]
  cases allowed : s.gate.connect with
  | true => simp
  | false => simp

theorem unstranded_requestConnect :
    s.requestConnect.Unstranded ↔ (s.inputQ ≠ [] → s.Pending ∨ s.gate.connect = true) := by
  rw [Unstranded, pending_requestConnect, s.requestConnect_keeps.1]

theorem live_of_open (isOpen : s.openSocket = some sock) : s.Live := by
  rw [openSocket_eq_some_iff] at isOpen
  rw [Live, isOpen.1]
  exact ⟨nofun, nofun⟩

/-! ## Events -/

/-- What is queued finds something pending, or makes an attempt. -/
theorem unstranded_sendBytes (unstranded : s.Unstranded) (b : Bytes) :
    (s.sendBytes b).1.Unstranded ↔ s.Covers (.input b) := by
  rw [sendBytes]
  split
  · rename_i sock isOpen
    have pending : s.Pending := .inl (live_of_open isOpen)
    exact ⟨fun _ _ _ => .inl pending, fun _ _ => pending⟩
  · split
    · rename_i full
      have notFits : ¬s.inputQBytes + b.length ≤ QMAX := not_le.mpr full
      exact ⟨fun _ _ fits => absurd fits notFits, fun _ => unstranded⟩
    · rename_i fits
      simp only
      rw [unstranded_requestConnect]
      constructor
      · exact fun retried _ _ =>
          retried (List.append_ne_nil_of_right_ne_nil _ (List.cons_ne_nil _ _))
      · intro covers _
        by_cases isEmpty : s.inputQ = []
        · exact covers isEmpty (not_lt.mp fits)
        · exact .inl (unstranded isEmpty)

/-- The current socket takes the queue when it opens; another one changes nothing. -/
theorem unstranded_opened (unstranded : s.Unstranded) (made : sock < s.sockets.length) :
    ((s.setSocket sock .opened).onopen sock).Unstranded := by
  by_cases isCurrent : s.ws = some sock
  · have isOpen : (s.setSocket sock .opened).wsState = some .opened :=
      wsState_setSocket isCurrent made
    rw [onopen_current (s := s.setSocket sock .opened) isCurrent isOpen]
    exact fun notEmpty => absurd rfl notEmpty
  · have notCurrent : (s.setSocket sock .opened).ws ≠ some sock := isCurrent
    rw [onopen, if_pos notCurrent, Unstranded, Pending, Live, wsState_setSocket_of_ne isCurrent]
    exact unstranded

theorem unstranded_closing (unstranded : s.Unstranded) (made : sock < s.sockets.length) :
    (s.setSocket sock .closing).Unstranded := by
  by_cases isCurrent : s.ws = some sock
  · rw [Unstranded, Pending, Live, wsState_setSocket isCurrent made]
    exact fun _ => .inl ⟨nofun, nofun⟩
  · rw [Unstranded, Pending, Live, wsState_setSocket_of_ne isCurrent]
    exact unstranded

/-- The close of the current socket arms a timer for queued input. -/
theorem unstranded_closed (unstranded : s.Unstranded) :
    ((s.setSocket sock .closed).onclose sock).Unstranded := by
  by_cases isCurrent : s.ws = some sock
  · have current : ¬(s.setSocket sock .closed).ws ≠ some sock := not_not.mpr isCurrent
    rw [onclose, if_neg current]
    split
    · rename_i isEmpty
      exact fun notEmpty => absurd isEmpty notEmpty
    · exact fun _ => .inr (.inl (List.append_ne_nil_of_right_ne_nil _ (List.cons_ne_nil _ _)))
  · have notCurrent : (s.setSocket sock .closed).ws ≠ some sock := isCurrent
    rw [onclose, if_pos notCurrent, Unstranded, Pending, Live, wsState_setSocket_of_ne isCurrent]
    exact unstranded

/-- An event strands no input exactly if it is covered. -/
theorem unstranded_iff_covers {event : PageEvent} (unstranded : s.Unstranded)
    (taken : s.step event = some s') : s'.Unstranded ↔ s.Covers event := by
  cases event with
  | tick now =>
      simp only [step, Option.ite_none_right_eq_some, Option.some.injEq] at taken
      obtain ⟨-, rfl⟩ := taken
      exact iff_of_true unstranded trivial
  | input b =>
      cases taken
      exact unstranded_sendBytes unstranded b
  | opened sock =>
      simp only [step, Option.ite_none_right_eq_some, Option.some.injEq] at taken
      obtain ⟨isConnecting, rfl⟩ := taken
      have made := (List.getElem?_eq_some_iff.mp isConnecting).1
      exact iff_of_true (unstranded_opened unstranded made) trivial
  | closing sock =>
      simp only [step, Option.ite_none_right_eq_some, Option.some.injEq] at taken
      obtain ⟨was, rfl⟩ := taken
      have made : sock < s.sockets.length := by
        rcases was with was | was <;> exact (List.getElem?_eq_some_iff.mp was).1
      exact iff_of_true (unstranded_closing unstranded made) trivial
  | error sock =>
      simp only [step, Option.ite_none_right_eq_some, Option.some.injEq] at taken
      obtain ⟨-, rfl⟩ := taken
      exact iff_of_true unstranded trivial
  | closed sock =>
      simp only [step, Option.ite_none_right_eq_some, Option.some.injEq] at taken
      obtain ⟨-, rfl⟩ := taken
      exact iff_of_true (unstranded_closed unstranded) trivial
  | retry due =>
      simp only [step, Option.ite_none_right_eq_some, Option.some.injEq] at taken
      obtain ⟨-, rfl⟩ := taken
      exact unstranded_requestConnect
  | watch =>
      cases taken
      refine iff_of_true ?_ trivial
      split
      · rw [unstranded_requestConnect]
        exact fun notEmpty => .inl (unstranded notEmpty)
      · exact unstranded
  | push active =>
      cases taken
      exact unstranded_requestConnect
  | visibility visible =>
      cases taken
      cases visible with
      | true =>
          simp only [if_true]
          rw [unstranded_requestConnect]
          simp only [Covers, true_and]
          exact Iff.rfl
      | false =>
          simp only [Covers, Bool.false_eq_true, if_false, false_and, or_false]
          exact Iff.rfl

end Line

/-! ## Every run -/

/-- A run of a page strands no input exactly if all its events are covered. -/
theorem unstranded_iff_covered (now : Nat) (visible : Bool) (events : List PageEvent) :
    Always Line.step Line.Unstranded (Line.load now visible) events ↔
      Along Line.step Line.Covers (Line.load now visible) events := by
  have preserved : ∀ (s : Line) (event : PageEvent) (s' : Line), True → True →
      s.step event = some s' → True := fun _ _ _ _ _ _ => trivial
  have start : (Line.load now visible).Unstranded := fun notEmpty => absurd rfl notEmpty
  refine always_iff_along preserved ?_ trivial start (along_of_forall (fun _ _ _ => trivial) _)
  exact fun s event s' _ unstranded _ taken => Line.unstranded_iff_covers unstranded taken

/-- The first socket fails, and a key is pressed within the backoff of a second. -/
def strandedEvents : List PageEvent :=
  [.tick 100, .error 0, .closed 0, .tick 500, .input [0x61]]

/-- The key stays in the queue, and nothing is pending. -/
theorem key_stranded :
    ¬Always Line.step Line.Unstranded (Line.load 0 true) strandedEvents := by
  intro always
  have ends : (exec Line.step (Line.load 0 true) strandedEvents).map
      (decide <| Line.Unstranded ·) = some false := by
    decide
  obtain ⟨s, run, stranded⟩ := Option.map_eq_some_iff.mp ends
  exact of_decide_eq_false stranded (always.last run)

end Drover.Term
