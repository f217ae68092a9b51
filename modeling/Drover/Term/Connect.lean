import Drover.Data.Bytes
import Drover.Transition.Run
import Mathlib.Algebra.Order.Ring.Int

/-!
# The connection of a terminal page

The variables of `run` in `term.js` that decide over its sockets and the queued input,
and the events that change them: keys, the events of the sockets, the retry timers, the
watch interval, pushes of the session document and changes of the visibility.
-/

namespace Drover.Term

/-! ## Gates -/

/-- `readyState`. -/
inductive ReadyState where
  | connecting
  | opened
  | closing
  | closed
  deriving DecidableEq

/-- What `cmReconnectGate` looks at; `none` is the `wsState` of a page without a socket. -/
structure GateState where
  wsState : Option ReadyState
  now : Nat
  lastAttemptAt : Nat
  attempts : Nat

/-- What it returns. -/
structure GateResult where
  connect : Bool
  attempts : Nat
  deriving DecidableEq

/-- The milliseconds between two attempts. -/
def backoff (attempts : Nat) : Nat := min 30000 (1000 * 2 ^ attempts)

/-- `cmReconnectGate`. -/
def cmReconnectGate (s : GateState) : GateResult :=
  if s.wsState = some .connecting ∨ s.wsState = some .opened then ⟨false, s.attempts⟩
  else if s.now - s.lastAttemptAt < backoff s.attempts then ⟨false, s.attempts⟩
  else ⟨true, s.attempts + 1⟩

/-- `cmWatchGate`. -/
def cmWatchGate (visible active : Bool) (wsState : Option ReadyState) : Bool :=
  if visible = false then false
  else if active = false then false
  else if wsState = some .connecting ∨ wsState = some .opened then false
  else true

/-! ## The page -/

/-- `9 << 20`. -/
def QMAX : Nat := 9437184

/-- The delay of `setTimeout` in `onclose`. -/
def retryDelay : Nat := 1100

/-- The variables, with the sockets that were made, the clock, and what the sockets were
handed of the input. -/
structure Line where
  /-- The `readyState` of each socket, in the order in which they were made. -/
  sockets : List ReadyState
  /-- The index of the current one. -/
  ws : Option Nat
  attempts : Nat
  lastAttemptAt : Nat
  inputQ : List Bytes
  inputQBytes : Int
  sessionActive : Bool
  /-- `document.visibilityState === "visible"`. -/
  visible : Bool
  now : Nat
  /-- When the retry timers are due. -/
  timers : List Nat
  /-- The frames that `flushQ` and `sendBytes` have sent, each with its socket. -/
  sent : List (Nat × Bytes)
  deriving DecidableEq

namespace Line

/-- The state of the socket in `ws`, if there is one. -/
def wsState (s : Line) : Option ReadyState := s.ws.bind (s.sockets[·]?)

/-- The current socket, if it is open. -/
def openSocket (s : Line) : Option Nat := if s.wsState = some .opened then s.ws else none

/-- The loop of `flushQ`, for what is queued. -/
def flush : List Bytes → Line → Line
  | [], s => s
  | b :: rest, s =>
      match s.openSocket with
      | some sock => flush rest { s with
          inputQ := rest
          inputQBytes := s.inputQBytes - b.length
          sent := s.sent ++ [(sock, b)] }
      | none => s

/-- `flushQ`. -/
def flushQ (s : Line) : Line := flush s.inputQ s

/-- `connect`, which makes a new socket. -/
def connect (s : Line) : Line :=
  { s with
    sockets := s.sockets ++ [.connecting]
    ws := some s.sockets.length }

/-- The gate of `requestConnect`. -/
def gate (s : Line) : GateResult :=
  cmReconnectGate ⟨s.wsState, s.now, s.lastAttemptAt, s.attempts⟩

/-- `requestConnect`. -/
def requestConnect (s : Line) : Line :=
  if s.gate.connect = false then s
  else { s with attempts := s.gate.attempts, lastAttemptAt := s.now }.connect

/-- `sendBytes`, and whether it returns `true`. -/
def sendBytes (s : Line) (b : Bytes) : Line × Bool :=
  match s.openSocket with
  | some sock => ({ s with sent := s.sent ++ [(sock, b)] }, true)
  | none =>
      if QMAX < s.inputQBytes + b.length then (s, false)
      else
        ({ s with
          inputQ := s.inputQ ++ [b]
          inputQBytes := s.inputQBytes + b.length }.requestConnect, true)

/-- The socket comes to the state. -/
def setSocket (s : Line) (sock : Nat) (state : ReadyState) : Line :=
  { s with sockets := s.sockets.set sock state }

/-- `sock.onopen`. -/
def onopen (s : Line) (sock : Nat) : Line :=
  if s.ws ≠ some sock then s else { s with attempts := 0 }.flushQ

/-- `sock.onclose`. -/
def onclose (s : Line) (sock : Nat) : Line :=
  if s.ws ≠ some sock then s
  else if s.inputQ = [] then s
  else { s with timers := s.timers ++ [s.now + retryDelay] }

/-- The page when it is loaded: it has connected. -/
def load (now : Nat) (visible : Bool) : Line where
  sockets := [.connecting]
  ws := some 0
  attempts := 0
  lastAttemptAt := now
  inputQ := []
  inputQBytes := 0
  sessionActive := false
  visible := visible
  now := now
  timers := []
  sent := []

end Line

/-! ## Events -/

/-- An event of the page.  The error event of a socket changes only a text on the page. -/
inductive PageEvent where
  /-- Time passes. -/
  | tick (now : Nat)
  /-- `sendBytes` is called. -/
  | input (b : Bytes)
  /-- A socket is open, and its open event is handled. -/
  | opened (sock : Nat)
  /-- A socket begins to close. -/
  | closing (sock : Nat)
  | error (sock : Nat)
  /-- A socket is closed, and its close event is handled. -/
  | closed (sock : Nat)
  /-- A retry timer fires that was due at this time. -/
  | retry (due : Nat)
  /-- The watch interval fires. -/
  | watch
  /-- A push of the session document, and its `is_active` if there is a document. -/
  | push (active : Option Bool)
  | visibility (visible : Bool)
  deriving DecidableEq

/-- What an event does, if it can happen. -/
def Line.step (s : Line) : PageEvent → Option Line
  | .tick now => if s.now ≤ now then some { s with now := now } else none
  | .input b => some (s.sendBytes b).1
  | .opened sock =>
      if s.sockets[sock]? = some .connecting then some ((s.setSocket sock .opened).onopen sock)
      else none
  | .closing sock =>
      if s.sockets[sock]? = some .connecting ∨ s.sockets[sock]? = some .opened then
        some (s.setSocket sock .closing)
      else none
  | .error sock => if sock < s.sockets.length then some s else none
  | .closed sock =>
      if sock < s.sockets.length ∧ s.sockets[sock]? ≠ some .closed then
        some ((s.setSocket sock .closed).onclose sock)
      else none
  | .retry due =>
      if due ∈ s.timers ∧ due ≤ s.now then
        some { s with timers := s.timers.erase due }.requestConnect
      else none
  | .watch =>
      some (if cmWatchGate s.visible s.sessionActive s.wsState then s.requestConnect else s)
  | .push active => some { s with sessionActive := active.getD s.sessionActive }.requestConnect
  | .visibility visible =>
      let s := { s with visible := visible }
      some (if visible then s.requestConnect else s)

/-! ## Sockets -/

namespace Line

variable {s : Line} {sock : Nat} {state : ReadyState}

@[simp]
theorem wsState_connect (s : Line) : s.connect.wsState = some .connecting := by
  simp [wsState, connect]

theorem wsState_requestConnect (s : Line) :
    s.requestConnect.wsState = if s.gate.connect then some .connecting else s.wsState := by
  rw [requestConnect]
  split
  · rename_i refused
    rw [refused]
    rfl
  · rename_i allowed
    rw [wsState_connect, if_pos (Bool.eq_true_of_not_eq_false allowed)]

/-- An attempt changes neither the queue nor the timers. -/
theorem requestConnect_keeps (s : Line) :
    s.requestConnect.inputQ = s.inputQ ∧ s.requestConnect.inputQBytes = s.inputQBytes ∧
      s.requestConnect.sent = s.sent ∧ s.requestConnect.timers = s.timers ∧
      s.requestConnect.visible = s.visible ∧
      s.requestConnect.sessionActive = s.sessionActive := by
  rw [requestConnect]
  split <;> exact ⟨rfl, rfl, rfl, rfl, rfl, rfl⟩

theorem wsState_setSocket_of_ne (other : s.ws ≠ some sock) :
    (s.setSocket sock state).wsState = s.wsState := by
  simp only [wsState, setSocket]
  cases isCurrent : s.ws with
  | none => rfl
  | some i =>
      have different : sock ≠ i := by
        rintro rfl
        exact other isCurrent
      simp only [Option.bind_some, List.getElem?_set_ne different]

theorem wsState_setSocket (isCurrent : s.ws = some sock) (made : sock < s.sockets.length) :
    (s.setSocket sock state).wsState = some state := by
  simp [wsState, setSocket, isCurrent, made]

theorem openSocket_eq_some_iff :
    s.openSocket = some sock ↔ s.wsState = some .opened ∧ s.ws = some sock := by
  rw [openSocket]
  split
  · rename_i isOpen
    simp [isOpen]
  · rename_i notOpen
    simp [notOpen]

theorem openSocket_eq_none_iff : s.openSocket = none ↔ s.wsState ≠ some .opened := by
  rw [openSocket]
  split
  · rename_i isOpen
    cases isCurrent : s.ws with
    | none => simp [wsState, isCurrent] at isOpen
    | some i => simp [isOpen]
  · rename_i notOpen
    simp [notOpen]

/-- The bytes of some frames. -/
def total (frames : List Bytes) : Nat := (frames.map List.length).sum

/-- An open socket takes the whole queue. -/
theorem flush_of_open {queue : List Bytes} (isOpen : s.openSocket = some sock)
    (isQueue : s.inputQ = queue) :
    flush queue s =
      { s with
        inputQ := []
        inputQBytes := s.inputQBytes - total queue
        sent := s.sent ++ queue.map (sock, ·) } := by
  induction queue generalizing s with
  | nil =>
      cases s
      cases isQueue
      simp [flush, total]
  | cons b rest ih =>
      simp only [flush, isOpen]
      have restOpen : openSocket { s with
          inputQ := rest
          inputQBytes := s.inputQBytes - b.length
          sent := s.sent ++ [(sock, b)] } = some sock := isOpen
      refine (ih restOpen rfl).trans ?_
      simp only [total, List.map_cons, List.sum_cons, List.append_assoc, List.singleton_append,
        Nat.cast_add, sub_sub]

/-- The page has nothing queued after its current socket has opened. -/
theorem onopen_current (isCurrent : s.ws = some sock) (isOpen : s.wsState = some .opened) :
    s.onopen sock =
      { s with
        attempts := 0
        inputQ := []
        inputQBytes := s.inputQBytes - total s.inputQ
        sent := s.sent ++ s.inputQ.map (sock, ·) } := by
  rw [onopen, if_neg (not_not.mpr isCurrent), flushQ, flush_of_open _ rfl]
  exact openSocket_eq_some_iff.mpr ⟨isOpen, isCurrent⟩

end Line

end Drover.Term
