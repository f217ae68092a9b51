import Drover.Relay.Invariant

/-!
# The two-minute rule

The callback of `loneTimer` looks at the slots under the mutex and closes afterwards; a
reader in `writePeer` has looked before it waits, and its `select` may take the deadline
although the channel is closed.  In between a counterpart may register.  The arrivals of
a run keep for each connection the counterpart that has registered since each of the two
has looked, and the rule hits no pair exactly if none that has arrived is there.
-/

namespace Drover.Relay

open Drover.Transition
open State

/-! ## The rule -/

/-- The connection is open at both ends. -/
def State.Live (s : State) (nc : ConnId) : Prop :=
  ∃ sv ∈ s.serve nc, sv.closed = false ∧ sv.dead = false

/-- The connection occupies its slot, and a live one the opposite slot. -/
def State.FacesLive (s : State) (nc : ConnId) : Prop :=
  ∃ sv ∈ s.serve nc, s.mappedCurrent sv nc = true ∧
    ∃ peer ∈ (s.sess sv.se).slot sv.role.opposite, s.Live peer

instance State.FacesLive.decidable (s : State) (nc : ConnId) : Decidable (s.FacesLive nc) :=
  inferInstanceAs (Decidable (∃ sv ∈ s.serve nc, _ ∧ ∃ peer ∈ _, ∃ other ∈ s.serve peer, _))

/-- `loneTimer` closes, and the deadline gives a chunk up, only without a counterpart. -/
def Spares (s : State) : Action → Prop
  | .timerClose nc | .deadline nc => ¬s.FacesLive nc
  | _ => True

instance Spares.decidable (s : State) (action : Action) : Decidable (Spares s action) :=
  match action with
  | .timerClose nc | .deadline nc => inferInstanceAs (Decidable ¬s.FacesLive nc)
  | .register .. | .closeOld _ | .read .. | .lookup _ | .write .. | .wake _ | .exit _
  | .closeSelf _ | .closePeer _ | .timerFire _ | .die _ => isTrue trivial

/-! ## Arrivals -/

/-- The two timeouts of a connection. -/
inductive Timeout
  | loneTimer
  | deadline
  deriving DecidableEq

/-- The callback of the timer is about to close, or the reader waits in its `select`. -/
def Serve.Pending (sv : Serve) : Timeout → Prop
  | .loneTimer => sv.timer = .closing
  | .deadline => ∃ ch p rerr, sv.pc = .wait ch p rerr

/-- The timeout whose connection looks for a counterpart. -/
def Action.looks : Action → Option (Timeout × ConnId)
  | .timerFire nc => some (.loneTimer, nc)
  | .lookup nc => some (.deadline, nc)
  | _ => none

/-- The counterpart of the connection that the action registers. -/
def State.arrival (s : State) (nc : ConnId) : Action → Option ConnId
  | .register sid role => do
      let sv ← s.serve nc
      if sv.se = s.target sid ∧ sv.role.opposite = role then some s.nextConn else none
  | _ => none

/-- The latest counterpart that has registered since the timeout has looked. -/
abbrev Arrivals := Timeout → ConnId → Option ConnId

/-- The arrivals after the step. -/
def recordArrivals (s : State) (action : Action) (_ : State) (arrivals : Arrivals) : Arrivals :=
  fun timeout nc =>
    if action.looks = some (timeout, nc) then none
    else (s.arrival nc action).or (arrivals timeout nc)

/-- When the timeout acts, no counterpart that has registered since it has looked is
live, or the connection has lost its slot. -/
def NoArrival (p : State × Arrivals) : Action → Prop
  | .timerClose nc => Missed p .loneTimer nc
  | .deadline nc => Missed p .deadline nc
  | _ => True
where
  Missed (p : State × Arrivals) (timeout : Timeout) (nc : ConnId) : Prop :=
    ∀ sv, p.1.serve nc = some sv → p.1.mappedCurrent sv nc = true →
      ∀ peer, p.2 timeout nc = some peer → ¬p.1.Live peer

/-! ## Counterparts -/

/-- The counterpart of a connection is the one before, or has just arrived. -/
theorem Effect.slot_opposite {s next : State} {action : Action} (effect : Effect s action next)
    (wf : Wf s) {nc : ConnId} {sv : Serve} (found : s.serve nc = some sv) :
    (next.sess sv.se).slot sv.role.opposite =
      (s.arrival nc action).or ((s.sess sv.se).slot sv.role.opposite) := by
  cases action with
  | register sid role =>
      cases effect
      rw [register_slot, arrival, found, Option.bind_eq_bind, Option.bind_some]
      by_cases isTarget : sv.se = s.target sid
      · have isSid : s.sessions sid = some sv.se := by
          cases isMapped : s.sessions sid with
          | none =>
              rw [target_of_unmapped s isMapped] at isTarget
              exact absurd isTarget (Nat.ne_of_lt (wf.sess_lt found))
          | some i =>
              rw [target_of_mapped s isMapped] at isTarget
              rw [isTarget]
        rw [if_pos isTarget, displaced_of_mapped s isSid]
        by_cases isRole : sv.role.opposite = role
        · rw [if_pos isRole, if_pos ⟨isTarget, isRole⟩, Option.some_or]
        · rw [if_neg isRole, if_neg fun both => isRole both.2, Option.none_or]
      · rw [if_neg isTarget, if_neg fun both => isTarget both.1, Option.none_or]
  | _ =>
      rw [(effect.keeps (by simp [Action.actor])).slot]
      rfl

theorem Action.actor_of_looks {action : Action} {timeout : Timeout} {nc : ConnId}
    (looks : action.looks = some (timeout, nc)) : action.actor = some nc := by
  cases action with
  | timerFire | lookup =>
      cases looks
      rfl
  | _ => cases looks

/-- A timer that is about to close was so before, or has just found no counterpart. -/
theorem Effect.pending_timer {s next : State} {action : Action} (effect : Effect s action next)
    {nc : ConnId} {sv' : Serve} (acts : action.actor = some nc)
    (after : next.serve nc = some sv') (closing : sv'.timer = .closing) :
    ∃ sv, s.serve nc = some sv ∧ sv'.ident = sv.ident ∧
      (action.looks ≠ some (.loneTimer, nc) ∧ sv.timer = .closing ∨
        action.looks = some (.loneTimer, nc) ∧
          (s.sess sv.se).slot sv.role.opposite = none) := by
  cases effect with
  | register sid role => cases acts
  | closeOld found at_ =>
      cases acts
      obtain ⟨closed, closedFound, -⟩ := closeConn_serve _ found
      cases eq_of_modServe_serve closedFound after
      cases closing
  | noOld found at_ =>
      cases acts
      cases eq_of_modServe_serve found after
      cases closing
  | closeSelf found at_ =>
      cases acts
      obtain ⟨closed, closedFound, -⟩ := closeConn_serve _ found
      cases eq_of_modServe_serve closedFound after
      exact ⟨_, found, rfl, .inl ⟨nofun, closing⟩⟩
  | closeLast found at_ | closePeer found at_ =>
      cases acts
      obtain ⟨closed, closedFound, -⟩ := closeConn_serve _ found
      cases eq_of_modServe_serve closedFound after
      refine ⟨_, found, rfl, .inl ⟨nofun, ?_⟩⟩
      simp only at closing
      split at closing
      · cases closing
      · exact closing
  | timerClose found was =>
      cases acts
      obtain ⟨closed, closedFound, -⟩ := closeConn_serve _ found
      cases eq_of_modServe_serve closedFound after
      cases closing
  | timerLone found armed current empty =>
      cases acts
      cases eq_of_modServe_serve found after
      exact ⟨_, found, rfl, .inr ⟨rfl, empty⟩⟩
  | timerPaired found armed paired =>
      cases acts
      cases eq_of_modServe_serve found after
      cases closing
  | readNothing found at_ =>
      cases acts
      exact ⟨_, after, rfl, .inl ⟨nofun, closing⟩⟩
  | written found at_ | writtenLast found at_ =>
      cases acts
      cases eq_of_modServe_serve (s := s.deliver _) found after
      exact ⟨_, found, rfl, .inl ⟨nofun, closing⟩⟩
  | exit found at_ =>
      cases acts
      obtain ⟨peer, afterExit⟩ := exitBlock_serve_self found
      cases after.symm.trans afterExit
      exact ⟨_, found, rfl, .inl ⟨nofun, closing⟩⟩
  | readChunk found | readError found | capture found | wait found | replaced found
  | writeFailed found | wake found | deadline found | die found =>
      cases acts
      cases eq_of_modServe_serve found after
      exact ⟨_, found, rfl, .inl ⟨nofun, closing⟩⟩

/-- A reader that waits did so before, or has just found no counterpart. -/
theorem Effect.pending_wait {s next : State} {action : Action} (effect : Effect s action next)
    {nc : ConnId} {sv' : Serve} {ch : ChanId} {p : Bytes} {rerr : Bool}
    (acts : action.actor = some nc) (after : next.serve nc = some sv')
    (waits : sv'.pc = .wait ch p rerr) :
    ∃ sv, s.serve nc = some sv ∧ sv'.ident = sv.ident ∧
      (action.looks ≠ some (.deadline, nc) ∧ sv.pc = .wait ch p rerr ∨
        action.looks = some (.deadline, nc) ∧
          (s.sess sv.se).slot sv.role.opposite = none) := by
  cases effect with
  | register sid role => cases acts
  | closeOld found at_ | closeSelf found at_ | closeLast found at_ | closePeer found at_ =>
      cases acts
      obtain ⟨closed, closedFound, -⟩ := closeConn_serve _ found
      cases eq_of_modServe_serve closedFound after
      cases waits
  | timerClose found was =>
      cases acts
      obtain ⟨closed, closedFound, -⟩ := closeConn_serve _ found
      cases eq_of_modServe_serve closedFound after
      exact ⟨_, found, rfl, .inl ⟨nofun, waits⟩⟩
  | timerLone found | timerPaired found | die found =>
      cases acts
      cases eq_of_modServe_serve found after
      exact ⟨_, found, rfl, .inl ⟨nofun, waits⟩⟩
  | readNothing found at_ =>
      cases acts
      exact ⟨_, after, rfl, .inl ⟨nofun, waits⟩⟩
  | written found at_ | writtenLast found at_ =>
      cases acts
      cases eq_of_modServe_serve (s := s.deliver _) found after
      cases waits
  | exit found at_ =>
      cases acts
      obtain ⟨peer, afterExit⟩ := exitBlock_serve_self found
      cases after.symm.trans afterExit
      cases waits
  | wait found at_ current empty =>
      cases acts
      cases eq_of_modServe_serve found after
      exact ⟨_, found, rfl, .inr ⟨rfl, empty⟩⟩
  | noOld found | readChunk found | readError found | capture found | replaced found
  | writeFailed found | wake found | deadline found =>
      cases acts
      cases eq_of_modServe_serve found after
      cases waits

/-- A timeout that is pending was so before, or has just looked and found no counterpart. -/
theorem Effect.pending {s next : State} {action : Action} (effect : Effect s action next)
    (wf : Wf s) {nc : ConnId} {sv' : Serve} {timeout : Timeout} (after : next.serve nc = some sv')
    (pending : sv'.Pending timeout) :
    ∃ sv, s.serve nc = some sv ∧ sv'.ident = sv.ident ∧
      (action.looks ≠ some (timeout, nc) ∧ sv.Pending timeout ∨
        action.looks = some (timeout, nc) ∧
          (s.sess sv.se).slot sv.role.opposite = none) := by
  rcases effect.serve_back wf after with acts | ⟨rests, sv, closed, found, rfl, -⟩ |
    ⟨rfl, sid, role, rfl, rfl⟩
  · cases timeout with
    | loneTimer => exact effect.pending_timer acts after pending
    | deadline =>
        obtain ⟨ch, p, rerr, waits⟩ := pending
        obtain ⟨sv, found, same, was | looked⟩ := effect.pending_wait acts after waits
        · exact ⟨sv, found, same, .inl ⟨was.1, ch, p, rerr, was.2⟩⟩
        · exact ⟨sv, found, same, .inr looked⟩
  · have notLooks : action.looks ≠ some (timeout, nc) :=
      fun looks => rests (Action.actor_of_looks looks)
    exact ⟨sv, found, rfl, .inl ⟨notLooks, by cases timeout <;> exact pending⟩⟩
  · cases timeout with
    | loneTimer => cases pending
    | deadline =>
        obtain ⟨ch, p, rerr, waits⟩ := pending
        cases waits

/-! ## Runs -/

/-- The arrivals tell the counterparts of the pending timeouts. -/
structure Arrived (p : State × Arrivals) : Prop where
  wf : Wf p.1
  counterpart : ∀ ⦃nc sv timeout⦄, p.1.serve nc = some sv → sv.Pending timeout →
    p.1.Mapped sv → (p.1.sess sv.se).slot sv.role.opposite = p.2 timeout nc

theorem Arrived.step {p p' : State × Arrivals} {action : Action} (arrived : Arrived p)
    (taken : withGhost step recordArrivals p action = some p') : Arrived p' := by
  obtain ⟨s, arrivals⟩ := p
  obtain ⟨next, arrivals'⟩ := p'
  obtain ⟨stepTaken, recorded⟩ := withGhost_eq_some_iff.mp taken
  simp only at stepTaken recorded
  subst recorded
  have effect := effect_of_step stepTaken
  refine ⟨effect.wf arrived.wf, fun nc sv' timeout after pending mapped => ?_⟩
  obtain ⟨sv, found, same, was⟩ := effect.pending arrived.wf after pending
  simp only [Serve.ident, Prod.mk.injEq] at same
  obtain ⟨sidEq, roleEq, seEq⟩ := same
  have wasMapped : s.Mapped sv := by
    by_contra out
    rw [Mapped, sidEq, seEq] at mapped
    exact effect.sessions_ne out (arrived.wf.sess_lt found) mapped
  rw [seEq, roleEq, effect.slot_opposite arrived.wf found]
  simp only [recordArrivals]
  rcases was with ⟨notLooks, wasPending⟩ | ⟨looks, empty⟩
  · rw [if_neg notLooks, arrived.counterpart found wasPending wasMapped]
  · rw [if_pos looks, empty, Option.or_none]
    cases action with
    | register => cases looks
    | _ => rfl

/-- A timeout hits no pair exactly if no live counterpart has arrived. -/
theorem Arrived.missed_iff {p : State × Arrivals} (arrived : Arrived p) (timeout : Timeout)
    {nc : ConnId} {sv : Serve} (found : p.1.serve nc = some sv) (pending : sv.Pending timeout) :
    NoArrival.Missed p timeout nc ↔ ¬p.1.FacesLive nc := by
  constructor
  · rintro missed ⟨sv', found', current, peer, occupied, live⟩
    cases found.symm.trans found'
    have mapped := ((mappedCurrent_iff _ _ _).mp current).1
    rw [arrived.counterpart found pending mapped] at occupied
    exact missed sv found current peer occupied live
  · intro spared sv' found' current peer isArrival live
    cases found.symm.trans found'
    have mapped := ((mappedCurrent_iff _ _ _).mp current).1
    refine spared ⟨sv, found, current, peer, ?_, live⟩
    rw [arrived.counterpart found pending mapped]
    exact isArrival

theorem Arrived.spares_iff {p p' : State × Arrivals} {action : Action} (arrived : Arrived p)
    (taken : withGhost Relay.step recordArrivals p action = some p') :
    Spares p.1 action ↔ NoArrival p action := by
  obtain ⟨s, arrivals⟩ := p
  obtain ⟨next, arrivals'⟩ := p'
  obtain ⟨stepTaken, -⟩ := withGhost_eq_some_iff.mp taken
  simp only at stepTaken
  cases effect_of_step stepTaken with
  | timerClose found closing => exact (arrived.missed_iff .loneTimer found closing).symm
  | deadline found at_ => exact (arrived.missed_iff .deadline found ⟨_, _, _, at_⟩).symm
  | _ => exact Iff.rfl

/-- Nothing has arrived. -/
def start : State × Arrivals := (State.init, fun _ _ => none)

theorem arrived_start : Arrived start where
  wf := wf_init
  counterpart nc sv timeout found := by cases found

/-- In a run the two-minute rule hits no pair exactly if, whenever it acts, no live
counterpart has arrived since it has looked. -/
theorem spares_iff_noArrival (actions : List Action) :
    Along step Spares State.init actions ↔
      Along (withGhost step recordArrivals) NoArrival start actions := by
  have same : Along (withGhost step recordArrivals) (fun p => Spares p.1) start actions ↔
      Along step Spares State.init actions := along_withGhost
  have environment : Along (withGhost step recordArrivals) (fun _ _ => True) start actions :=
    along_of_forall (fun _ _ _ => trivial) _
  rw [← same]
  refine along_iff_along ?_ ?_ arrived_start environment
  · exact fun p action p' arrived _ taken => arrived.step taken
  · exact fun p action p' arrived _ taken => arrived.spares_iff taken

/-- The callback finds source 0 lone, viewer 1 registers, and source 0 is closed. -/
def lateArrival : List Action :=
  [.register (ascii "s") .source, .closeOld 0, .timerFire 0,
    .register (ascii "s") .viewer, .closeOld 1, .timerClose 0]

/-- The reader of source 0 waits, viewer 1 registers, and the deadline is taken although
the channel is closed. -/
def lateDeadline : List Action :=
  [.register (ascii "s") .source, .closeOld 0, .read 0 (ascii "x") false, .lookup 0,
    .register (ascii "s") .viewer, .closeOld 1, .deadline 0]

/-- Both timeouts hit a pair. -/
theorem pair_hit :
    ¬Along step Spares State.init lateArrival ∧ ¬Along step Spares State.init lateDeadline := by
  constructor <;> decide

end Drover.Relay
