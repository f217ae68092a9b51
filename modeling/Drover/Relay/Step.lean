import Drover.Relay.Core

/-!
# What a step of the relay can do

`Effect` names every branch of `step` together with its guards, so that the
invariants are proved by cases on the source's branches and never unfold the
step function.  The lemmas before it describe the state operations field by
field.
-/

namespace Drover.Relay

open Drover.Transition

namespace State

variable (s : State)

/-! ## Field lemmas -/

@[simp]
theorem modServe_sessions (nc : ConnId) (f : Serve → Serve) :
    (s.modServe nc f).sessions = s.sessions := rfl

@[simp]
theorem modServe_sess (nc : ConnId) (f : Serve → Serve) :
    (s.modServe nc f).sess = s.sess := rfl

@[simp]
theorem modServe_nextConn (nc : ConnId) (f : Serve → Serve) :
    (s.modServe nc f).nextConn = s.nextConn := rfl

@[simp]
theorem modServe_nextSess (nc : ConnId) (f : Serve → Serve) :
    (s.modServe nc f).nextSess = s.nextSess := rfl

@[simp]
theorem modServe_deliveries (nc : ConnId) (f : Serve → Serve) :
    (s.modServe nc f).deliveries = s.deliveries := rfl

theorem modServe_serve (nc : ConnId) (f : Serve → Serve) (d : ConnId) :
    (s.modServe nc f).serve d = if d = nc then (s.serve d).map f else s.serve d := by
  by_cases same : d = nc
  · subst same
    simp [modServe]
  · simp [modServe, same]

@[simp]
theorem broadcast_sessions (i : SessId) : (s.broadcast i).sessions = s.sessions := rfl

@[simp]
theorem broadcast_serve (i : SessId) : (s.broadcast i).serve = s.serve := rfl

@[simp]
theorem broadcast_nextConn (i : SessId) : (s.broadcast i).nextConn = s.nextConn := rfl

@[simp]
theorem broadcast_nextSess (i : SessId) : (s.broadcast i).nextSess = s.nextSess := rfl

@[simp]
theorem broadcast_deliveries (i : SessId) : (s.broadcast i).deliveries = s.deliveries := rfl

@[simp]
theorem broadcast_slot (i j : SessId) (role : Role) :
    ((s.broadcast i).sess j).slot role = (s.sess j).slot role := by
  by_cases same : j = i
  · subst same
    simp [broadcast]
  · simp [broadcast, same]

/-! ## The registration -/

/-- The session object a registration for `sid` takes its slot in. -/
def target (sid : Bytes) : SessId := (s.openSess sid).2

theorem target_of_mapped {sid : Bytes} {i : SessId} (mapped : s.sessions sid = some i) :
    s.target sid = i := by
  simp [target, openSess, mapped]

theorem target_of_unmapped {sid : Bytes} (unmapped : s.sessions sid = none) :
    s.target sid = s.nextSess := by
  simp [target, openSess, unmapped]

/-- The connection a registration displaces. -/
def displaced (sid : Bytes) (role : Role) : Option ConnId :=
  ((s.openSess sid).1.sess (s.target sid)).slot role

theorem displaced_of_mapped {sid : Bytes} {i : SessId} (mapped : s.sessions sid = some i)
    (role : Role) : s.displaced sid role = (s.sess i).slot role := by
  simp [displaced, target, openSess, mapped]

theorem displaced_of_unmapped {sid : Bytes} (unmapped : s.sessions sid = none)
    (role : Role) : s.displaced sid role = none := by
  cases role <;> simp [displaced, target, openSess, unmapped, Sess.slot]

@[simp]
theorem register_sessions (sid : Bytes) (role : Role) :
    (s.register sid role).sessions = Function.update s.sessions sid (some (s.target sid)) := by
  cases mapped : s.sessions sid with
  | none => simp [register, openSess, mapped, target, broadcast]
  | some i =>
      rw [← target_of_mapped s mapped] at mapped
      rw [← mapped, Function.update_eq_self]
      simp only [register, openSess, mapped, broadcast]

@[simp]
theorem register_serve (sid : Bytes) (role : Role) :
    (s.register sid role).serve = Function.update s.serve s.nextConn
      (some { sid, role, se := s.target sid, pc := .closeOld (s.displaced sid role) }) := by
  cases mapped : s.sessions sid <;>
    simp [register, openSess, mapped, target, displaced, broadcast]

@[simp]
theorem register_nextConn (sid : Bytes) (role : Role) :
    (s.register sid role).nextConn = s.nextConn + 1 := by
  cases mapped : s.sessions sid <;> simp [register, openSess, mapped, broadcast]

theorem register_nextSess (sid : Bytes) (role : Role) :
    (s.register sid role).nextSess =
      if s.sessions sid = none then s.nextSess + 1 else s.nextSess := by
  cases mapped : s.sessions sid <;> simp [register, openSess, mapped, broadcast]

@[simp]
theorem register_deliveries (sid : Bytes) (role : Role) :
    (s.register sid role).deliveries = s.deliveries := by
  cases mapped : s.sessions sid <;> simp [register, openSess, mapped, broadcast]

/-- The registration sets one slot of its session object; a fresh object starts
with empty slots. -/
theorem register_slot (sid : Bytes) (role : Role) (j : SessId) (other : Role) :
    ((s.register sid role).sess j).slot other =
      if j = s.target sid then
        if other = role then some s.nextConn else s.displaced sid other
      else (s.sess j).slot other := by
  cases mapped : s.sessions sid with
  | none =>
      by_cases same : j = s.nextSess
      · subst same
        simp [register, openSess, mapped, target, displaced, broadcast]
      · simp [register, openSess, mapped, target, broadcast, same]
  | some i =>
      by_cases same : j = i
      · subst same
        simp [register, openSess, mapped, target, displaced, broadcast]
      · simp [register, openSess, mapped, target, broadcast, same]

end State

/-! ## Inversion of the step function -/

/-- The branches of `step`.  `sv` is the record of the goroutine that moves. -/
inductive Effect (s : State) : Action → State → Prop
  | register (sid : Bytes) (role : Role) :
      Effect s (.register sid role) (s.register sid role)
  | closeOld {nc : ConnId} {sv : Serve} {old : ConnId} (found : s.serve nc = some sv)
      (at_ : sv.pc = .closeOld (some old)) :
      Effect s (.closeOld nc) ((s.closeConn old).modServe nc fun sv =>
        { sv with pc := .read, timer := .armed })
  | noOld {nc : ConnId} {sv : Serve} (found : s.serve nc = some sv)
      (at_ : sv.pc = .closeOld none) :
      Effect s (.closeOld nc) (s.modServe nc fun sv => { sv with pc := .read, timer := .armed })
  | readChunk {nc : ConnId} {sv : Serve} {p : Bytes} {rerr : Bool}
      (found : s.serve nc = some sv) (at_ : sv.pc = .read) (nonempty : p ≠ [])
      (bounded : p.length ≤ bufSize) :
      Effect s (.read nc p rerr) (s.modServe nc fun sv =>
        { sv with pc := .lookup p rerr, got := sv.got ++ [p] })
  | readError {nc : ConnId} {sv : Serve} (found : s.serve nc = some sv) (at_ : sv.pc = .read) :
      Effect s (.read nc [] true) (s.leave nc .readError)
  | readNothing {nc : ConnId} {sv : Serve} (found : s.serve nc = some sv) (at_ : sv.pc = .read) :
      Effect s (.read nc [] false) s
  | capture {nc peer : ConnId} {sv : Serve} {p : Bytes} {rerr : Bool}
      (found : s.serve nc = some sv) (at_ : sv.pc = .lookup p rerr)
      (current : s.mappedCurrent sv nc = true)
      (occupied : (s.sess sv.se).slot sv.role.opposite = some peer) :
      Effect s (.lookup nc) (s.modServe nc fun sv => { sv with pc := .write peer p rerr })
  | wait {nc : ConnId} {sv : Serve} {p : Bytes} {rerr : Bool}
      (found : s.serve nc = some sv) (at_ : sv.pc = .lookup p rerr)
      (current : s.mappedCurrent sv nc = true)
      (empty : (s.sess sv.se).slot sv.role.opposite = none) :
      Effect s (.lookup nc) (s.modServe nc fun serve =>
        { serve with pc := .wait (s.sess sv.se).change p rerr })
  | replaced {nc : ConnId} {sv : Serve} {p : Bytes} {rerr : Bool}
      (found : s.serve nc = some sv) (at_ : sv.pc = .lookup p rerr)
      (retired : s.mappedCurrent sv nc = false) :
      Effect s (.lookup nc) (s.leave nc .replaced)
  | written {nc peer : ConnId} {sv : Serve} {p : Bytes}
      (found : s.serve nc = some sv) (at_ : sv.pc = .write peer p false) :
      Effect s (.write nc true)
        ((s.deliver ⟨nc, peer, p⟩).modServe nc fun sv => { sv with pc := .read })
  | writtenLast {nc peer : ConnId} {sv : Serve} {p : Bytes}
      (found : s.serve nc = some sv) (at_ : sv.pc = .write peer p true) :
      Effect s (.write nc true) ((s.deliver ⟨nc, peer, p⟩).leave nc .readError)
  | writeFailed {nc peer : ConnId} {sv : Serve} {p : Bytes} {rerr : Bool}
      (found : s.serve nc = some sv) (at_ : sv.pc = .write peer p rerr) :
      Effect s (.write nc false) (s.leave nc (.writeFailed peer))
  | wake {nc : ConnId} {sv : Serve} {ch : ChanId} {p : Bytes} {rerr : Bool}
      (found : s.serve nc = some sv) (at_ : sv.pc = .wait ch p rerr)
      (closed : s.chanClosed ch = true) :
      Effect s (.wake nc) (s.modServe nc fun sv => { sv with pc := .lookup p rerr })
  | deadline {nc : ConnId} {sv : Serve} {ch : ChanId} {p : Bytes} {rerr : Bool}
      (found : s.serve nc = some sv) (at_ : sv.pc = .wait ch p rerr) :
      Effect s (.deadline nc) (s.leave nc .noPeer)
  | exit {nc : ConnId} {sv : Serve} (found : s.serve nc = some sv) (at_ : sv.pc = .exit) :
      Effect s (.exit nc) (s.exitBlock sv nc)
  | closeSelf {nc peer : ConnId} {sv : Serve} (found : s.serve nc = some sv)
      (at_ : sv.pc = .closeSelf (some peer)) :
      Effect s (.closeSelf nc) ((s.closeConn nc).modServe nc fun sv =>
        { sv with pc := .closePeer peer })
  | closeLast {nc : ConnId} {sv : Serve} (found : s.serve nc = some sv)
      (at_ : sv.pc = .closeSelf none) :
      Effect s (.closeSelf nc) ((s.closeConn nc).finish nc)
  | closePeer {nc peer : ConnId} {sv : Serve} (found : s.serve nc = some sv)
      (at_ : sv.pc = .closePeer peer) :
      Effect s (.closePeer nc) ((s.closeConn peer).finish nc)
  | timerLone {nc : ConnId} {sv : Serve} (found : s.serve nc = some sv)
      (armed : sv.timer = .armed) (current : s.mappedCurrent sv nc = true)
      (empty : (s.sess sv.se).slot sv.role.opposite = none) :
      Effect s (.timerFire nc) (s.modServe nc fun sv => { sv with timer := .closing })
  | timerPaired {nc : ConnId} {sv : Serve} (found : s.serve nc = some sv)
      (armed : sv.timer = .armed)
      (paired : s.mappedCurrent sv nc = true → (s.sess sv.se).slot sv.role.opposite ≠ none) :
      Effect s (.timerFire nc) (s.modServe nc fun sv => { sv with timer := .spent })
  | timerClose {nc : ConnId} {sv : Serve} (found : s.serve nc = some sv)
      (closing : sv.timer = .closing) :
      Effect s (.timerClose nc) ((s.closeConn nc).modServe nc fun sv =>
        { sv with timer := .closed })
  | die {nc : ConnId} {sv : Serve} (found : s.serve nc = some sv) :
      Effect s (.die nc) (s.modServe nc fun sv => { sv with dead := true })

theorem effect_of_step {s next : State} {action : Action} (taken : step s action = some next) :
    Effect s action next := by
  cases action with
  | register sid role =>
      cases taken
      exact .register sid role
  | closeOld nc =>
      obtain ⟨sv, found, rest⟩ := Option.bind_eq_some_iff.mp taken
      split at rest
      · rename_i old at_
        cases old <;> cases rest
        · exact .noOld found at_
        · exact .closeOld found at_
      · cases rest
  | read nc p rerr =>
      obtain ⟨sv, found, rest⟩ := Option.bind_eq_some_iff.mp taken
      split at rest
      · rename_i enabled
        split at rest
        · rename_i nonempty
          cases rest
          exact .readChunk found enabled.1 nonempty enabled.2
        · rename_i empty
          have nothing : p = [] := by simpa using empty
          subst nothing
          cases rerr <;> cases rest
          · exact .readNothing found enabled.1
          · exact .readError found enabled.1
      · cases rest
  | lookup nc =>
      obtain ⟨sv, found, rest⟩ := Option.bind_eq_some_iff.mp taken
      split at rest
      · rename_i p rerr at_
        split at rest
        · rename_i current
          split at rest
          · rename_i peer occupied
            cases rest
            exact .capture found at_ current occupied
          · rename_i empty
            cases rest
            exact .wait found at_ current empty
        · rename_i retired
          cases rest
          exact .replaced found at_ (by simpa using retired)
      · cases rest
  | write nc ok =>
      obtain ⟨sv, found, rest⟩ := Option.bind_eq_some_iff.mp taken
      split at rest
      · rename_i peer p rerr at_
        cases ok
        · cases rest
          exact .writeFailed found at_
        · cases rerr <;> cases rest
          · exact .written found at_
          · exact .writtenLast found at_
      · cases rest
  | wake nc =>
      obtain ⟨sv, found, rest⟩ := Option.bind_eq_some_iff.mp taken
      split at rest
      · rename_i ch p rerr at_
        split at rest
        · rename_i closed
          cases rest
          exact .wake found at_ closed
        · cases rest
      · cases rest
  | deadline nc =>
      obtain ⟨sv, found, rest⟩ := Option.bind_eq_some_iff.mp taken
      split at rest
      · rename_i ch p rerr at_
        cases rest
        exact .deadline found at_
      · cases rest
  | exit nc =>
      obtain ⟨sv, found, rest⟩ := Option.bind_eq_some_iff.mp taken
      split at rest
      · rename_i at_
        cases rest
        exact .exit found at_
      · cases rest
  | closeSelf nc =>
      obtain ⟨sv, found, rest⟩ := Option.bind_eq_some_iff.mp taken
      split at rest
      · rename_i peer at_
        cases rest
        exact .closeSelf found at_
      · rename_i at_
        cases rest
        exact .closeLast found at_
      · cases rest
  | closePeer nc =>
      obtain ⟨sv, found, rest⟩ := Option.bind_eq_some_iff.mp taken
      split at rest
      · rename_i peer at_
        cases rest
        exact .closePeer found at_
      · cases rest
  | timerFire nc =>
      obtain ⟨sv, found, rest⟩ := Option.bind_eq_some_iff.mp taken
      split at rest
      · rename_i armed
        cases lone : s.mappedCurrent sv nc && ((s.sess sv.se).slot sv.role.opposite).isNone with
        | true =>
            rw [lone] at rest
            cases rest
            simp only [Bool.and_eq_true, Option.isNone_iff_eq_none] at lone
            exact .timerLone found armed lone.1 lone.2
        | false =>
            rw [lone] at rest
            cases rest
            refine .timerPaired found armed fun current empty => ?_
            simp [current, empty] at lone
      · cases rest
  | timerClose nc =>
      obtain ⟨sv, found, rest⟩ := Option.bind_eq_some_iff.mp taken
      split at rest
      · rename_i closing
        cases rest
        exact .timerClose found closing
      · cases rest
  | die nc =>
      obtain ⟨sv, found, rest⟩ := Option.bind_eq_some_iff.mp taken
      cases rest
      exact .die found

end Drover.Relay
