import Drover.Term.Connect

/-!
# The queue of a terminal page

Every frame that `sendBytes` accepts is sent once and in its turn, or is still queued.
A socket that is open finds the queue empty, so what is sent past the queue overtakes
nothing.
-/

namespace Drover.Term

open Drover.Transition

/-- The frames that `sendBytes` has accepted, after an event. -/
def recordAccepted (s : Line) : PageEvent → Line → List Bytes → List Bytes
  | .input b, _, accepted => if (s.sendBytes b).2 then accepted ++ [b] else accepted
  | _, _, accepted => accepted

/-- What is accepted has been sent in its order, or is queued; and the account of the queue
is right. -/
structure InOrder (s : Line) (accepted : List Bytes) : Prop where
  order : accepted = s.sent.map Prod.snd ++ s.inputQ
  account : s.inputQBytes = Line.total s.inputQ
  bounded : s.inputQBytes ≤ QMAX

/-- It also finds nothing queued at an open socket. -/
structure Queued (s : Line) (accepted : List Bytes) : Prop extends InOrder s accepted where
  flushed : s.wsState = some .opened → s.inputQ = []

namespace Queued

variable {s s' : Line} {accepted : List Bytes} {sock : Nat}

/-- What changes neither the queue nor what was sent, and opens no socket. -/
theorem same (queued : Queued s accepted) (sameSent : s'.sent = s.sent)
    (sameQueue : s'.inputQ = s.inputQ) (sameBytes : s'.inputQBytes = s.inputQBytes)
    (opens : s'.wsState = some .opened → s.wsState = some .opened) : Queued s' accepted where
  order := by
    rw [sameSent, sameQueue]
    exact queued.order
  account := by
    rw [sameBytes, sameQueue]
    exact queued.account
  bounded := sameBytes ▸ queued.bounded
  flushed isOpen := sameQueue ▸ queued.flushed (opens isOpen)

theorem requestConnect (queued : Queued s accepted) : Queued s.requestConnect accepted := by
  obtain ⟨sameQueue, sameBytes, sameSent, -⟩ := s.requestConnect_keeps
  refine queued.same sameSent sameQueue sameBytes fun isOpen => ?_
  rw [Line.wsState_requestConnect] at isOpen
  split at isOpen
  · cases isOpen
  · exact isOpen

/-- A socket changes its state, and does not open. -/
theorem setSocket (queued : Queued s accepted) {state : ReadyState} (made : sock < s.sockets.length)
    (notOpen : state ≠ .opened) : Queued (s.setSocket sock state) accepted := by
  refine queued.same rfl rfl rfl fun isOpen => ?_
  by_cases isCurrent : s.ws = some sock
  · rw [Line.wsState_setSocket isCurrent made] at isOpen
    exact absurd (Option.some.inj isOpen) notOpen
  · rwa [Line.wsState_setSocket_of_ne isCurrent] at isOpen

/-- The current socket opens and takes the queue; another one changes nothing. -/
theorem opened (queued : Queued s accepted) (made : sock < s.sockets.length) :
    Queued ((s.setSocket sock .opened).onopen sock) accepted := by
  by_cases isCurrent : s.ws = some sock
  · have isOpen : (s.setSocket sock .opened).wsState = some .opened :=
      Line.wsState_setSocket isCurrent made
    rw [Line.onopen_current (s := s.setSocket sock .opened) isCurrent isOpen]
    refine { order := ?order, account := ?account, bounded := ?bounded, flushed := fun _ => rfl }
    case order =>
      have taken : (s.inputQ.map (sock, ·)).map Prod.snd = s.inputQ := by
        rw [List.map_map]
        exact List.map_id _
      simp only [Line.setSocket, List.map_append, taken, List.append_nil]
      exact queued.order
    case account =>
      simp only [Line.setSocket, queued.account, sub_self]
      rfl
    case bounded =>
      simp only [Line.setSocket, queued.account, sub_self]
      exact Int.natCast_nonneg _
  · have notCurrent : (s.setSocket sock .opened).ws ≠ some sock := isCurrent
    rw [Line.onopen, if_pos notCurrent]
    refine queued.same rfl rfl rfl fun isOpen => ?_
    rwa [Line.wsState_setSocket_of_ne isCurrent] at isOpen

theorem closed (queued : Queued s accepted) (made : sock < s.sockets.length) :
    Queued ((s.setSocket sock .closed).onclose sock) accepted := by
  have set : Queued (s.setSocket sock .closed) accepted := queued.setSocket made nofun
  rw [Line.onclose]
  split
  · exact set
  · split
    · exact set
    · exact set.same rfl rfl rfl id

/-- A frame is sent past the empty queue, is queued behind the others, or is refused. -/
theorem sendBytes (queued : Queued s accepted) (b : Bytes) :
    Queued (s.sendBytes b).1 (if (s.sendBytes b).2 then accepted ++ [b] else accepted) := by
  rw [Line.sendBytes]
  split
  · rename_i sock isOpen
    have isEmpty := queued.flushed (Line.openSocket_eq_some_iff.mp isOpen).1
    refine { queued with order := ?_ }
    simp only [if_true, queued.order, isEmpty, List.append_nil, List.map_append, List.map_cons,
      List.map_nil]
  · rename_i notOpen
    split
    · exact queued
    · rename_i fits
      apply requestConnect
      refine
        { order := ?order, account := ?account, bounded := not_lt.mp fits, flushed := ?flushed }
      case order => simp only [if_true, queued.order, List.append_assoc]
      case account =>
        simp only [queued.account, Line.total, List.map_append, List.sum_append, List.map_cons,
          List.map_nil, List.sum_cons, List.sum_nil, Nat.add_zero, Nat.cast_add]
      case flushed => exact fun isOpen => absurd isOpen (Line.openSocket_eq_none_iff.mp notOpen)

theorem step {event : PageEvent} (queued : Queued s accepted) (taken : s.step event = some s') :
    Queued s' (recordAccepted s event s' accepted) := by
  cases event with
  | tick now =>
      simp only [Line.step, Option.ite_none_right_eq_some, Option.some.injEq] at taken
      obtain ⟨-, rfl⟩ := taken
      exact queued.same rfl rfl rfl id
  | input b =>
      cases taken
      exact queued.sendBytes b
  | opened sock =>
      simp only [Line.step, Option.ite_none_right_eq_some, Option.some.injEq] at taken
      obtain ⟨isConnecting, rfl⟩ := taken
      exact queued.opened (List.getElem?_eq_some_iff.mp isConnecting).1
  | closing sock =>
      simp only [Line.step, Option.ite_none_right_eq_some, Option.some.injEq] at taken
      obtain ⟨was, rfl⟩ := taken
      have made : sock < s.sockets.length := by
        rcases was with was | was <;> exact (List.getElem?_eq_some_iff.mp was).1
      exact queued.setSocket made nofun
  | error sock =>
      simp only [Line.step, Option.ite_none_right_eq_some, Option.some.injEq] at taken
      obtain ⟨-, rfl⟩ := taken
      exact queued
  | closed sock =>
      simp only [Line.step, Option.ite_none_right_eq_some, Option.some.injEq] at taken
      obtain ⟨⟨made, -⟩, rfl⟩ := taken
      exact queued.closed made
  | retry due =>
      simp only [Line.step, Option.ite_none_right_eq_some, Option.some.injEq] at taken
      obtain ⟨-, rfl⟩ := taken
      have fired : Queued { s with timers := s.timers.erase due } accepted :=
        queued.same rfl rfl rfl id
      exact fired.requestConnect
  | watch =>
      cases taken
      split
      · exact queued.requestConnect
      · exact queued
  | push active =>
      cases taken
      have pushed : Queued { s with sessionActive := active.getD s.sessionActive } accepted :=
        queued.same rfl rfl rfl id
      exact pushed.requestConnect
  | visibility visible =>
      cases taken
      have changed : Queued { s with visible := visible } accepted := queued.same rfl rfl rfl id
      split
      · exact changed.requestConnect
      · exact changed

end Queued

/-- In every run the input is sent in order and once. -/
theorem inOrder_of_run (now : Nat) (visible : Bool) (events : List PageEvent) :
    Always (withGhost Line.step recordAccepted) (fun p => InOrder p.1 p.2)
      (Line.load now visible, []) events := by
  have start : Queued (Line.load now visible) [] := by
    refine { order := rfl, account := rfl, bounded := ?_, flushed := fun _ => rfl }
    exact Int.natCast_nonneg QMAX
  have queued : Always (withGhost Line.step recordAccepted) (fun p => Queued p.1 p.2)
      (Line.load now visible, []) events := by
    refine always_of_inductive ?_ events start
    rintro ⟨s, accepted⟩ event ⟨s', accepted'⟩ queued taken
    obtain ⟨stepTaken, isRecord⟩ := withGhost_eq_some_iff.mp taken
    simp only at stepTaken isRecord
    subst isRecord
    exact Queued.step queued stepTaken
  exact queued.imp fun p queued => queued.toInOrder

end Drover.Term
