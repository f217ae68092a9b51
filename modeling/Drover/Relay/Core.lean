import Drover.Data.Bytes
import Drover.Transition.Run
import Mathlib.Logic.Function.Basic

/-!
# The relay as a transition system

`Server.serve` runs once per accepted connection, concurrently with all other
calls.  Its interleavings are the runs of a labelled step: a critical section of
`s.mu` is one step, and everything between two critical sections (the close of
the replaced connection, a read, a write to the captured peer, the closes after
the exit block) is a step of its own.  The environment chooses what a read or a
write returns, which ready case a `select` takes, when a timer expires and when
the remote end of a connection dies.

Session objects live on a heap, because a reader keeps the object it registered
in after the map has dropped it.  A channel is a name with a closed flag.
-/

namespace Drover.Relay

open Drover.Transition

/-- The `role` query parameter, which `ServeHTTP` restricts to two values. -/
inductive Role
  | source
  | viewer
  deriving DecidableEq, Repr

/-- The other end of a pairing. -/
def Role.opposite : Role → Role
  | .source => .viewer
  | .viewer => .source

@[simp]
theorem Role.opposite_opposite (role : Role) : role.opposite.opposite = role := by
  cases role <;> rfl

@[simp]
theorem Role.opposite_ne (role : Role) : role.opposite ≠ role := by
  cases role <;> simp [Role.opposite]

/-- Identity of a `net.Conn`; every `serve` call owns a connection of its own. -/
abbrev ConnId := Nat

/-- Address of a `sess` object. -/
abbrev SessId := Nat

/-- Identity of a `chan struct{}`. -/
abbrev ChanId := Nat

/-- `sess`: the two slots and the broadcast channel of one pairing. -/
structure Sess where
  source : Option ConnId := none
  viewer : Option ConnId := none
  change : ChanId
  deriving DecidableEq, Repr

/-- The slot of a role. -/
def Sess.slot (se : Sess) : Role → Option ConnId
  | .source => se.source
  | .viewer => se.viewer

/-- Put `nc` into the slot of a role. -/
def Sess.setSlot (se : Sess) (role : Role) (nc : ConnId) : Sess :=
  match role with
  | .source => { se with source := some nc }
  | .viewer => { se with viewer := some nc }

@[simp]
theorem Sess.slot_setSlot (se : Sess) (role other : Role) (nc : ConnId) :
    (se.setSlot role nc).slot other = if other = role then some nc else se.slot other := by
  cases role <;> cases other <;> rfl

@[simp]
theorem Sess.slot_setChange (se : Sess) (ch : ChanId) (role : Role) :
    ({ se with change := ch } : Sess).slot role = se.slot role := by
  cases role <;> rfl

/-- Why the read loop was left; `writeFailed` remembers the captured peer. -/
inductive ExitCause
  | readError
  | replaced
  | noPeer
  | writeFailed (peer : ConnId)
  deriving DecidableEq, Repr

/-- Program counter of one `serve` call. -/
inductive Pc
  /-- registered and unlocked, `old.Close()` is next -/
  | closeOld (old : Option ConnId)
  /-- blocked in `nc.Read` -/
  | read
  /-- top of the loop of `writePeer`, about to lock and look at the slots -/
  | lookup (p : Bytes) (rerr : Bool)
  /-- unlocked with a captured peer, `peer.Write(p)` is next -/
  | write (peer : ConnId) (p : Bytes) (rerr : Bool)
  /-- in the `select` on the captured channel and the deadline -/
  | wait (ch : ChanId) (p : Bytes) (rerr : Bool)
  /-- left the loop, the exit block is next -/
  | exit
  /-- after the exit block, `nc.Close()` is next -/
  | closeSelf (peer : Option ConnId)
  /-- `peer.Close()` is next -/
  | closePeer (peer : ConnId)
  | done
  deriving DecidableEq, Repr

/-- The `loneTimer` of one `serve` call. -/
inductive Timer
  | unset
  | armed
  /-- the callback found the connection lone and will close it -/
  | closing
  /-- the callback closed the connection -/
  | closed
  /-- stopped, or the callback found a counterpart -/
  | spent
  deriving DecidableEq, Repr

/-- One `serve` call with its connection.  `closed` says that the relay has
closed the connection, `dead` that its remote end has died; `got` lists the
chunks read so far and `cause` keeps the reason for leaving the loop. -/
structure Serve where
  sid : Bytes
  role : Role
  se : SessId
  pc : Pc
  timer : Timer := .unset
  closed : Bool := false
  dead : Bool := false
  got : List Bytes := []
  cause : Option ExitCause := none
  deriving DecidableEq, Repr

/-- A successful `peer.Write(p)` of the reader of `reader`. -/
structure Delivery where
  reader : ConnId
  peer : ConnId
  chunk : Bytes
  deriving DecidableEq, Repr

/-- The whole relay: the session map, the heap of session objects, all `serve`
calls so far, the closed channels, and the successful writes in order. -/
structure State where
  sessions : Bytes → Option SessId := fun _ => none
  sess : SessId → Sess := fun _ => { change := 0 }
  serve : ConnId → Option Serve := fun _ => none
  nextConn : ConnId := 0
  nextSess : SessId := 0
  nextChan : ChanId := 0
  chanClosed : ChanId → Bool := fun _ => false
  /-- a `close` of a closed channel has happened -/
  panicked : Bool := false
  deliveries : List Delivery := []

/-- `NewServer`. -/
def State.init : State := {}

/-- Size of the read buffer of `serve`. -/
def bufSize : Nat := 32 * 1024

/-- What can happen next. -/
inductive Action
  | register (sid : Bytes) (role : Role)
  | closeOld (nc : ConnId)
  | read (nc : ConnId) (p : Bytes) (rerr : Bool)
  | lookup (nc : ConnId)
  | write (nc : ConnId) (ok : Bool)
  | wake (nc : ConnId)
  | deadline (nc : ConnId)
  | exit (nc : ConnId)
  | closeSelf (nc : ConnId)
  | closePeer (nc : ConnId)
  | timerFire (nc : ConnId)
  | timerClose (nc : ConnId)
  | die (nc : ConnId)
  deriving DecidableEq, Repr

namespace State

/-- Apply `f` to the record of one connection. -/
def modServe (s : State) (nc : ConnId) (f : Serve → Serve) : State :=
  { s with serve := Function.update s.serve nc ((s.serve nc).map f) }

/-- `nc.Close()`. -/
def closeConn (s : State) (nc : ConnId) : State :=
  s.modServe nc fun sv => { sv with closed := true }

/-- `close(se.change); se.change = make(chan struct{})`. -/
def broadcast (s : State) (i : SessId) : State :=
  let ch := (s.sess i).change
  { s with
    sess := Function.update s.sess i { s.sess i with change := s.nextChan }
    nextChan := s.nextChan + 1
    chanClosed := Function.update s.chanClosed ch true
    panicked := s.panicked || s.chanClosed ch }

/-- `isCurrentLocked`. -/
def isCurrentLocked (s : State) (i : SessId) (role : Role) (nc : ConnId) : Bool :=
  (s.sess i).slot role == some nc

/-- `s.sessions[sid] == se && s.isCurrentLocked(se, role, nc)`. -/
def mappedCurrent (s : State) (sv : Serve) (nc : ConnId) : Bool :=
  s.sessions sv.sid == some sv.se && s.isCurrentLocked sv.se sv.role nc

/-- `se := s.sessions[sid]`, created and mapped when it is missing. -/
def openSess (s : State) (sid : Bytes) : State × SessId :=
  match s.sessions sid with
  | some i => (s, i)
  | none =>
      ({ s with
          sessions := Function.update s.sessions sid (some s.nextSess)
          sess := Function.update s.sess s.nextSess { change := s.nextChan }
          nextSess := s.nextSess + 1
          nextChan := s.nextChan + 1 },
        s.nextSess)

/-- The first critical section of `serve`: take the slot over and broadcast. -/
def register (s : State) (sid : Bytes) (role : Role) : State :=
  let (s, i) := s.openSess sid
  let nc := s.nextConn
  let old := (s.sess i).slot role
  let s := { s with sess := Function.update s.sess i ((s.sess i).setSlot role nc) }
  let s := s.broadcast i
  { s with
    serve := Function.update s.serve nc (some { sid, role, se := i, pc := .closeOld old })
    nextConn := nc + 1 }

/-- Leave the read loop. -/
def leave (s : State) (nc : ConnId) (cause : ExitCause) : State :=
  s.modServe nc fun sv => { sv with pc := .exit, cause := some cause }

/-- The exit block: a reader that is still current drops the session and
remembers the peer it will close. -/
def exitBlock (s : State) (sv : Serve) (nc : ConnId) : State :=
  if s.mappedCurrent sv nc then
    let peer := (s.sess sv.se).slot sv.role.opposite
    let s := { s with sessions := Function.update s.sessions sv.sid none }
    (s.broadcast sv.se).modServe nc fun sv => { sv with pc := .closeSelf peer }
  else
    s.modServe nc fun sv => { sv with pc := .closeSelf none }

/-- `serve` returns; the deferred `loneTimer.Stop()` keeps a callback that has
not started from running. -/
def finish (s : State) (nc : ConnId) : State :=
  s.modServe nc fun sv =>
    { sv with pc := .done, timer := if sv.timer = .armed then .spent else sv.timer }

/-- `peer.Write(p)` succeeds. -/
def deliver (s : State) (delivery : Delivery) : State :=
  { s with deliveries := s.deliveries ++ [delivery] }

/-- The continuation of the read loop after `writePeer` returned true. -/
def afterWrite (s : State) (nc : ConnId) (rerr : Bool) : State :=
  if rerr then s.leave nc .readError
  else s.modServe nc fun sv => { sv with pc := .read }

end State

/-- One step of the relay; `none` when the labelled instruction is not the next
one of that goroutine. -/
def step : Step State Action
  | s, .register sid role => some (s.register sid role)
  | s, .closeOld nc => do
      let sv ← s.serve nc
      match sv.pc with
      | .closeOld old =>
          let s := match old with
            | some old => s.closeConn old
            | none => s
          some (s.modServe nc fun sv => { sv with pc := .read, timer := .armed })
      | _ => none
  | s, .read nc p rerr => do
      let sv ← s.serve nc
      if sv.pc = .read ∧ p.length ≤ bufSize then
        if p ≠ [] then
          some (s.modServe nc fun sv => { sv with pc := .lookup p rerr, got := sv.got ++ [p] })
        else if rerr then some (s.leave nc .readError)
        else some s
      else none
  | s, .lookup nc => do
      let sv ← s.serve nc
      match sv.pc with
      | .lookup p rerr =>
          if s.mappedCurrent sv nc then
            match (s.sess sv.se).slot sv.role.opposite with
            | some peer => some (s.modServe nc fun sv => { sv with pc := .write peer p rerr })
            | none =>
                let ch := (s.sess sv.se).change
                some (s.modServe nc fun sv => { sv with pc := .wait ch p rerr })
          else some (s.leave nc .replaced)
      | _ => none
  | s, .write nc ok => do
      let sv ← s.serve nc
      match sv.pc with
      | .write peer p rerr =>
          if ok then
            some ((s.deliver ⟨nc, peer, p⟩).afterWrite nc rerr)
          else some (s.leave nc (.writeFailed peer))
      | _ => none
  | s, .wake nc => do
      let sv ← s.serve nc
      match sv.pc with
      | .wait ch p rerr =>
          if s.chanClosed ch then
            some (s.modServe nc fun sv => { sv with pc := .lookup p rerr })
          else none
      | _ => none
  | s, .deadline nc => do
      let sv ← s.serve nc
      match sv.pc with
      | .wait _ _ _ => some (s.leave nc .noPeer)
      | _ => none
  | s, .exit nc => do
      let sv ← s.serve nc
      if sv.pc = .exit then some (s.exitBlock sv nc) else none
  | s, .closeSelf nc => do
      let sv ← s.serve nc
      match sv.pc with
      | .closeSelf (some peer) =>
          some ((s.closeConn nc).modServe nc fun sv => { sv with pc := .closePeer peer })
      | .closeSelf none => some ((s.closeConn nc).finish nc)
      | _ => none
  | s, .closePeer nc => do
      let sv ← s.serve nc
      match sv.pc with
      | .closePeer peer => some ((s.closeConn peer).finish nc)
      | _ => none
  | s, .timerFire nc => do
      let sv ← s.serve nc
      if sv.timer = .armed then
        let lone := s.mappedCurrent sv nc && ((s.sess sv.se).slot sv.role.opposite).isNone
        some (s.modServe nc fun sv => { sv with timer := if lone then .closing else .spent })
      else none
  | s, .timerClose nc => do
      let sv ← s.serve nc
      if sv.timer = .closing then
        some ((s.closeConn nc).modServe nc fun sv => { sv with timer := .closed })
      else none
  | s, .die nc => do
      let _ ← s.serve nc
      some (s.modServe nc fun sv => { sv with dead := true })

end Drover.Relay
