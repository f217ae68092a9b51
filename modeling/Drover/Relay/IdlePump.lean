import Drover.Data.Bytes
import Drover.Transition.Run

/-!
# Quiescence

`idlePump` of `relay.go` and of `relayclient.go` copies between two ends in both
directions and closes them when no bytes have passed for a while.  Two copy loops
set one clock, which a third loop looks at twice in that while; what the ends
return, and when, is up to the environment.
-/

namespace Drover.Relay

open Drover.Transition

/-! ## The copy loops -/

/-- The length of `buf`. -/
def copyBuffer : Nat := 32 * 1024

/-- Where a copy loop is. -/
inductive CopyPhase where
  | reading
  /-- In `dst.Write(buf[:n])`, after a read that also returned an error or not. -/
  | writing (chunk : Bytes) (err : Bool)
  | ended
  deriving DecidableEq

/-- A copy loop, and what has passed through it. -/
structure Copy where
  phase : CopyPhase := .reading
  /-- The chunks that were read. -/
  chunks : List Bytes := []
  /-- The chunks that were written, the last one perhaps not to its end. -/
  writes : List Bytes := []
  /-- The bytes that the destination took. -/
  delivered : Bytes := []
  deriving DecidableEq

namespace Copy

/-- `src.Read` has returned. -/
def read (c : Copy) (chunk : Bytes) (err : Bool) : Copy :=
  if chunk ≠ [] then { c with phase := .writing chunk err, chunks := c.chunks ++ [chunk] }
  else { c with phase := if err then .ended else .reading }

/-- `dst.Write` has returned, having taken `n` bytes. -/
def wrote (c : Copy) (chunk : Bytes) (err : Bool) (n : Nat) (werr : Bool) : Copy :=
  { c with
    phase := if werr || err then .ended else .reading
    writes := c.writes ++ [chunk]
    delivered := c.delivered ++ chunk.take n }

end Copy

/-! ## The pump -/

/-- The two calls of `cp`. -/
inductive Side where
  /-- `cp(a, b)`. -/
  | toA
  /-- `cp(b, a)`. -/
  | toB
  deriving DecidableEq

/-- Where the pump is. -/
inductive PumpPhase where
  /-- In `pump`, for a duration that is not positive. -/
  | forwarding
  /-- `time.NewTicker` has panicked. -/
  | panicked
  | pumping
  /-- The ends are closed; waits for a copy loop. -/
  | draining
  | returned
  deriving DecidableEq

/-- Why the ends were closed. -/
inductive CloseReason where
  | ended
  | quiescence
  deriving DecidableEq

/-- A call of `idlePump`. -/
structure IdlePump where
  phase : PumpPhase
  now : Nat
  last : Nat
  /-- When the ticker fires next. -/
  nextTick : Nat
  toA : Copy := {}
  toB : Copy := {}
  /-- What is in the channel `d`. -/
  signals : Nat := 0
  /-- Why and when the ends were closed. -/
  closed : Option (CloseReason × Nat) := none
  /-- When reads have completed, and what they returned. -/
  reads : List (Nat × Bytes) := []
  deriving DecidableEq

/-- What can happen next to the pump. -/
inductive PumpEvent where
  /-- Time passes. -/
  | advance (d : Nat)
  /-- A read returns. -/
  | read (side : Side) (chunk : Bytes) (err : Bool)
  /-- A write returns, having taken `n` bytes. -/
  | wrote (side : Side) (n : Nat) (err : Bool)
  /-- The case of the ticker. -/
  | tick
  /-- The case of the channel, and the receive behind it. -/
  | done
  deriving DecidableEq

/-- An end fails. -/
def PumpEvent.fails : PumpEvent → Bool
  | .read _ _ err => err
  | .wrote _ _ err => err
  | _ => false

namespace IdlePump

/-- The copy of a direction. -/
def side (s : IdlePump) : Side → Copy
  | .toA => s.toA
  | .toB => s.toB

/-- The loop goes on there; when it ends, it sends to `d`. -/
def setSide (s : IdlePump) (side : Side) (c : Copy) : IdlePump :=
  let signals := s.signals + if c.phase = .ended then 1 else 0
  match side with
  | .toA => { s with toA := c, signals := signals }
  | .toB => { s with toB := c, signals := signals }

/-- The pump when its loops begin. -/
def start (idle now : Nat) : IdlePump where
  phase := if idle = 0 then .forwarding else if idle / 2 = 0 then .panicked else .pumping
  now := now
  last := now
  nextTick := now + idle / 2

/-- `src.Read` has returned; a read of some bytes sets the clock. -/
def read (s : IdlePump) (side : Side) (chunk : Bytes) (err : Bool) : IdlePump :=
  { s.setSide side ((s.side side).read chunk err) with
    last := if chunk ≠ [] then s.now else s.last
    reads := s.reads ++ [(s.now, chunk)] }

/-- `case <-tick.C`. -/
def tick (idle : Nat) (s : IdlePump) : IdlePump :=
  if idle ≤ s.now - s.last then
    { s with phase := .draining, closed := some (.quiescence, s.now) }
  else { s with nextTick := s.nextTick + idle / 2 }

/-- One step of `idlePump`, where a duration that is not positive counts as 0.  The
ticker fires on time. -/
def step (idle : Nat) : Step IdlePump PumpEvent
  | s, .advance d =>
      if s.phase = .pumping ∧ s.nextTick < s.now + d then none
      else some { s with now := s.now + d }
  | s, .read side chunk err =>
      if (s.side side).phase = .reading ∧ chunk.length ≤ copyBuffer then
        some (s.read side chunk err)
      else none
  | s, .wrote side n werr =>
      match (s.side side).phase with
      | .writing chunk err =>
          if n ≤ chunk.length ∧ (werr = false → n = chunk.length) then
            some (s.setSide side ((s.side side).wrote chunk err n werr))
          else none
      | _ => none
  | s, .tick =>
      if s.phase = .pumping ∧ s.nextTick = s.now then some (s.tick idle) else none
  | s, .done =>
      if s.signals = 0 then none
      else
        match s.phase with
        | .forwarding => some { s with signals := s.signals - 1, phase := .returned }
        | .pumping =>
            some { s with
              signals := s.signals - 1
              phase := .returned
              closed := some (.ended, s.now) }
        | .draining => some { s with signals := s.signals - 1, phase := .returned }
        | _ => none

end IdlePump

/-- `idlePump` of `relay.go`, between two `net.Conn`. -/
def relayIdlePump (idle : Nat) : Step IdlePump PumpEvent := IdlePump.step idle

/-- `idlePump` of `relayclient.go`, between two `io.ReadWriteCloser`. -/
def relayclientIdlePump (idle : Nat) : Step IdlePump PumpEvent := IdlePump.step idle

/-- What `idlePump` has to do, in a state that a run has reached. -/
structure Quiesces (pump : Nat → Step IdlePump PumpEvent) (idle start : Nat)
    (events : List PumpEvent) (s : IdlePump) : Prop where
  /-- A tick closes the ends only if no read has returned bytes within the last `idle`. -/
  silent : ∀ s', pump idle s .tick = some s' → s'.phase = .draining →
    ∀ r ∈ s.reads, r.2 ≠ [] → r.1 + idle ≤ s.now
  /-- If neither end fails and no read returns bytes after `u`, the ends are closed for
  quiescence before `u + 1.5 idle`. -/
  prompt : (∀ event ∈ events, event.fails = false) →
    ∀ u, start ≤ u → (∀ r ∈ s.reads, r.2 ≠ [] → r.1 ≤ u) → 2 * u + 3 * idle ≤ 2 * s.now →
      ∃ t, s.closed = some (.quiescence, t) ∧ 2 * t < 2 * u + 3 * idle
  /-- Each direction writes a prefix of the chunks it has read. -/
  writes : ∀ side, (s.side side).writes <+: (s.side side).chunks
  /-- Its destination takes a prefix of their bytes. -/
  delivered : ∀ side, (s.side side).delivered <+: (s.side side).chunks.flatten

namespace IdlePump

variable {idle begin : Nat} {s s' : IdlePump} {event : PumpEvent}

@[simp]
theorem phase_setSide (s : IdlePump) (side : Side) (c : Copy) :
    (s.setSide side c).phase = s.phase := by
  cases side <;> rfl

@[simp]
theorem now_setSide (s : IdlePump) (side : Side) (c : Copy) :
    (s.setSide side c).now = s.now := by
  cases side <;> rfl

@[simp]
theorem last_setSide (s : IdlePump) (side : Side) (c : Copy) :
    (s.setSide side c).last = s.last := by
  cases side <;> rfl

@[simp]
theorem nextTick_setSide (s : IdlePump) (side : Side) (c : Copy) :
    (s.setSide side c).nextTick = s.nextTick := by
  cases side <;> rfl

@[simp]
theorem closed_setSide (s : IdlePump) (side : Side) (c : Copy) :
    (s.setSide side c).closed = s.closed := by
  cases side <;> rfl

@[simp]
theorem reads_setSide (s : IdlePump) (side : Side) (c : Copy) :
    (s.setSide side c).reads = s.reads := by
  cases side <;> rfl

@[simp]
theorem signals_setSide (s : IdlePump) (side : Side) (c : Copy) :
    (s.setSide side c).signals = s.signals + if c.phase = .ended then 1 else 0 := by
  cases side <;> rfl

theorem side_setSide (s : IdlePump) (side other : Side) (c : Copy) :
    (s.setSide side c).side other = if other = side then c else s.side other := by
  cases side <;> cases other <;> rfl

/-! ## One step -/

/-- The branches of a step. -/
inductive Pumped (idle : Nat) (s : IdlePump) : PumpEvent → IdlePump → Prop where
  | advance (d : Nat) (inTime : s.phase = .pumping → s.now + d ≤ s.nextTick) :
      Pumped idle s (.advance d) { s with now := s.now + d }
  | read (side : Side) (chunk : Bytes) (err : Bool) (reading : (s.side side).phase = .reading) :
      Pumped idle s (.read side chunk err) (s.read side chunk err)
  | wrote (side : Side) (n : Nat) (werr : Bool) {chunk : Bytes} {err : Bool}
      (writing : (s.side side).phase = .writing chunk err)
      (whole : werr = false → n = chunk.length) :
      Pumped idle s (.wrote side n werr) (s.setSide side ((s.side side).wrote chunk err n werr))
  | close (pumping : s.phase = .pumping) (due : s.nextTick = s.now)
      (quiet : idle ≤ s.now - s.last) :
      Pumped idle s .tick { s with phase := .draining, closed := some (.quiescence, s.now) }
  | again (pumping : s.phase = .pumping) (due : s.nextTick = s.now)
      (active : s.now - s.last < idle) :
      Pumped idle s .tick { s with nextTick := s.nextTick + idle / 2 }
  | ended (pumping : s.phase = .pumping) (signal : s.signals ≠ 0) :
      Pumped idle s .done
        { s with
          signals := s.signals - 1
          phase := .returned
          closed := some (.ended, s.now) }
  | returns (waits : s.phase = .forwarding ∨ s.phase = .draining) (signal : s.signals ≠ 0) :
      Pumped idle s .done { s with signals := s.signals - 1, phase := .returned }

theorem pumped_of_step (taken : step idle s event = some s') : Pumped idle s event s' := by
  cases event with
  | advance d =>
      simp only [step] at taken
      split at taken
      · cases taken
      · rename_i notLate
        cases taken
        exact .advance d fun pumping => Nat.le_of_not_lt fun late => notLate ⟨pumping, late⟩
  | read side chunk err =>
      simp only [step] at taken
      split at taken
      · rename_i possible
        cases taken
        exact .read side chunk err possible.1
      · cases taken
  | wrote side n werr =>
      simp only [step] at taken
      split at taken
      · rename_i chunk err writing
        split at taken
        · rename_i possible
          cases taken
          exact .wrote side n werr writing possible.2
        · cases taken
      · cases taken
  | tick =>
      simp only [step] at taken
      split at taken
      · rename_i due
        rw [tick] at taken
        split at taken
        · rename_i quiet
          cases taken
          exact .close due.1 due.2 quiet
        · rename_i active
          cases taken
          exact .again due.1 due.2 (Nat.lt_of_not_le active)
      · cases taken
  | done =>
      simp only [step] at taken
      split at taken
      · cases taken
      · rename_i signal
        split at taken
        · rename_i forwarding
          cases taken
          exact .returns (.inl forwarding) signal
        · rename_i pumping
          cases taken
          exact .ended pumping signal
        · rename_i draining
          cases taken
          exact .returns (.inr draining) signal
        · cases taken

/-! ## The clock -/

/-- The clock was set to `b`: at the start, or by a read of some bytes. -/
def Bumped (begin : Nat) (s : IdlePump) (b : Nat) : Prop :=
  b = begin ∨ ∃ chunk ≠ [], (b, chunk) ∈ s.reads

/-- The clock shows the last read of some bytes, and the ticker is never much later. -/
structure Timed (idle begin : Nat) (s : IdlePump) : Prop where
  begun : s.phase ≠ .forwarding ∧ s.phase ≠ .panicked
  bumped : Bumped begin s s.last
  latest : ∀ r ∈ s.reads, r.2 ≠ [] → r.1 ≤ s.last
  past : s.last ≤ s.now
  pumping : s.phase = .pumping →
    s.closed = none ∧ s.now ≤ s.nextTick ∧ s.nextTick < s.last + idle + idle / 2
  stopped : s.phase ≠ .pumping → s.closed ≠ none
  quiet : ∀ t, s.closed = some (.quiescence, t) → ∃ b, Bumped begin s b ∧ t < b + idle + idle / 2

theorem Timed.start (atLeast : 2 ≤ idle) (begin : Nat) :
    Timed idle begin (IdlePump.start idle begin) := by
  have isPumping : (IdlePump.start idle begin).phase = .pumping := by
    rw [IdlePump.start, if_neg (by omega), if_neg (by omega)]
  constructor
  · rw [isPumping]
    decide
  · exact .inl rfl
  · exact List.forall_mem_nil _
  · exact Nat.le_refl begin
  · intro _
    refine ⟨rfl, Nat.le_add_right _ _, ?_⟩
    change begin + idle / 2 < begin + idle + idle / 2
    omega
  · exact fun notPumping => absurd isPumping notPumping
  · intro t isClosed
    cases isClosed

/-- The clock is set by a read. -/
theorem Bumped.read {b : Nat} (bumped : Bumped begin s b) (side : Side) (chunk : Bytes)
    (err : Bool) : Bumped begin (s.read side chunk err) b := by
  rcases bumped with isBegin | ⟨other, nonempty, mem⟩
  · exact .inl isBegin
  · exact .inr ⟨other, nonempty, List.mem_append_left _ mem⟩

theorem Timed.read (timed : Timed idle begin s) (side : Side) (chunk : Bytes) (err : Bool) :
    Timed idle begin (s.read side chunk err) := by
  have later : s.last ≤ (s.read side chunk err).last := by
    simp only [IdlePump.read]
    split
    · exact timed.past
    · exact Nat.le_refl _
  have isPhase : (s.read side chunk err).phase = s.phase := phase_setSide _ _ _
  have isNow : (s.read side chunk err).now = s.now := now_setSide _ _ _
  have isClosed : (s.read side chunk err).closed = s.closed := closed_setSide _ _ _
  have isNext : (s.read side chunk err).nextTick = s.nextTick := nextTick_setSide _ _ _
  constructor
  · rw [isPhase]
    exact timed.begun
  · by_cases nonempty : chunk = []
    · have same : (s.read side chunk err).last = s.last := if_neg (not_not.mpr nonempty)
      rw [same]
      exact timed.bumped.read side chunk err
    · have isLast : (s.read side chunk err).last = s.now := if_pos nonempty
      rw [isLast]
      exact .inr ⟨chunk, nonempty, List.mem_append_right _ (List.mem_singleton.mpr rfl)⟩
  · intro r mem nonempty
    rcases List.mem_append.mp mem with before | isThis
    · exact Nat.le_trans (timed.latest r before nonempty) later
    · rw [List.mem_singleton.mp isThis] at nonempty ⊢
      exact Nat.le_of_eq (if_pos nonempty).symm
  · rw [isNow]
    simp only [IdlePump.read]
    split
    · exact Nat.le_refl _
    · exact timed.past
  · intro pumping
    obtain ⟨isOpen, inTime, soon⟩ := timed.pumping (isPhase ▸ pumping)
    rw [isClosed, isNow, isNext]
    refine ⟨isOpen, inTime, Nat.lt_of_lt_of_le soon ?_⟩
    exact Nat.add_le_add_right (Nat.add_le_add_right later _) _
  · intro stopped
    rw [isClosed]
    exact timed.stopped (isPhase ▸ stopped)
  · intro t quiet
    obtain ⟨b, bumped, soon⟩ := timed.quiet t (isClosed ▸ quiet)
    exact ⟨b, bumped.read side chunk err, soon⟩

/-- The pump no longer looks at the clock. -/
theorem Timed.leave (timed : Timed idle begin s) {phase : PumpPhase}
    {closed : Option (CloseReason × Nat)} (left : phase = .draining ∨ phase = .returned)
    (isClosed : closed ≠ none)
    (quiet : ∀ t, closed = some (.quiescence, t) →
      ∃ b, Bumped begin s b ∧ t < b + idle + idle / 2) (signals : Nat) :
    Timed idle begin { s with signals := signals, phase := phase, closed := closed } := by
  constructor
  · constructor <;> rcases left with rfl | rfl <;> exact PumpPhase.noConfusion
  · exact timed.bumped
  · exact timed.latest
  · exact timed.past
  · intro isPumping
    rcases left with rfl | rfl <;> cases isPumping
  · exact fun _ => isClosed
  · exact quiet

theorem Timed.step (timed : Timed idle begin s) (pumped : Pumped idle s event s') :
    Timed idle begin s' := by
  cases pumped with
  | advance d inTime =>
      constructor
      · exact timed.begun
      · exact timed.bumped
      · exact timed.latest
      · exact Nat.le_trans timed.past (Nat.le_add_right _ _)
      · intro pumping
        obtain ⟨isOpen, -, soon⟩ := timed.pumping pumping
        exact ⟨isOpen, inTime pumping, soon⟩
      · exact timed.stopped
      · exact timed.quiet
  | read side chunk err reading => exact timed.read side chunk err
  | wrote side n werr writing whole =>
      constructor
      · simpa using timed.begun
      · simpa [Bumped] using timed.bumped
      · simpa using timed.latest
      · simpa using timed.past
      · simpa using timed.pumping
      · simpa using timed.stopped
      · simpa [Bumped] using timed.quiet
  | close pumping due quiet =>
      obtain ⟨-, -, soon⟩ := timed.pumping pumping
      apply timed.leave (.inl rfl) (Option.some_ne_none _)
      intro t isClosed
      cases isClosed
      rw [due] at soon
      exact ⟨s.last, timed.bumped, soon⟩
  | again pumping due active =>
      obtain ⟨isOpen, inTime, soon⟩ := timed.pumping pumping
      have past := timed.past
      constructor
      · exact timed.begun
      · exact timed.bumped
      · exact timed.latest
      · exact past
      · intro _
        refine ⟨isOpen, Nat.le_trans inTime (Nat.le_add_right _ _), ?_⟩
        change s.nextTick + idle / 2 < s.last + idle + idle / 2
        omega
      · exact timed.stopped
      · exact timed.quiet
  | ended pumping signal =>
      apply timed.leave (.inr rfl) (Option.some_ne_none _)
      intro t isClosed
      cases isClosed
  | returns waits signal =>
      have notPumping : s.phase ≠ .pumping := by
        rcases waits with forwarding | draining
        · exact absurd forwarding timed.begun.1
        · rw [draining]
          decide
      exact timed.leave (.inr rfl) (timed.stopped notPumping) timed.quiet _

/-! ## Ends that do not fail -/

/-- Neither end has failed. -/
structure Sound (s : IdlePump) : Prop where
  signals : s.signals = 0
  loops : ∀ side, (s.side side).phase ≠ .ended ∧ ∀ chunk, (s.side side).phase ≠ .writing chunk true
  closed : ∀ t, s.closed ≠ some (.ended, t)

theorem Sound.setSide (sound : s.Sound) (side : Side) {c : Copy} (running : c.phase ≠ .ended)
    (noErr : ∀ chunk, c.phase ≠ .writing chunk true) : (s.setSide side c).Sound where
  signals := by rw [signals_setSide, sound.signals, if_neg running]
  loops other := by
    rw [side_setSide]
    split
    · exact ⟨running, noErr⟩
    · exact sound.loops other
  closed t := by
    rw [closed_setSide]
    exact sound.closed t

theorem Sound.step (sound : s.Sound) (works : event.fails = false)
    (pumped : Pumped idle s event s') : s'.Sound := by
  cases pumped with
  | advance d inTime => exact ⟨sound.signals, sound.loops, sound.closed⟩
  | read side chunk err reading =>
      cases err with
      | true => cases works
      | false =>
          have read : (s.setSide side ((s.side side).read chunk false)).Sound := by
            apply sound.setSide
            · rw [Copy.read]
              split <;> exact CopyPhase.noConfusion
            · intro other
              rw [Copy.read]
              split <;> simp
          exact ⟨read.signals, read.loops, read.closed⟩
  | @wrote side n werr chunk err writing whole =>
      cases werr with
      | true => cases works
      | false =>
          have noErr : err = false := by
            cases err with
            | false => rfl
            | true => exact absurd writing ((sound.loops side).2 chunk)
          subst noErr
          apply sound.setSide
          · exact CopyPhase.noConfusion
          · exact fun _ => CopyPhase.noConfusion
  | close pumping due quiet =>
      refine ⟨sound.signals, sound.loops, ?_⟩
      intro t isClosed
      cases isClosed
  | again pumping due active => exact ⟨sound.signals, sound.loops, sound.closed⟩
  | ended pumping signal => exact absurd sound.signals signal
  | returns waits signal => exact absurd sound.signals signal

end IdlePump

/-! ## What passes through -/

/-- The chunk that is being written. -/
def Copy.pending (c : Copy) : List Bytes :=
  match c.phase with
  | .writing chunk _ => [chunk]
  | _ => []

/-- What was read is what was written and what is being written, and a loop goes on
only after a whole write. -/
structure Copy.Faithful (c : Copy) : Prop where
  chunks : c.chunks = c.writes ++ c.pending
  whole : c.phase ≠ .ended → c.delivered = c.writes.flatten
  delivered : c.delivered <+: c.writes.flatten

namespace Copy

variable {c : Copy} {chunk : Bytes} {err : Bool}

theorem Faithful.read (faithful : c.Faithful) (reading : c.phase = .reading) (chunk : Bytes)
    (err : Bool) : (c.read chunk err).Faithful := by
  have running : c.phase ≠ .ended := by
    rw [reading]
    decide
  have all : c.chunks = c.writes := by
    have chunks := faithful.chunks
    rwa [pending, reading, List.append_nil] at chunks
  rw [Copy.read]
  split
  · constructor
    · rw [pending, all]
    · exact fun _ => faithful.whole running
    · exact faithful.delivered
  · constructor
    · cases err <;> exact all.trans (List.append_nil _).symm
    · exact fun _ => faithful.whole running
    · exact faithful.delivered

theorem Faithful.wrote (faithful : c.Faithful) (writing : c.phase = .writing chunk err) (n : Nat)
    {werr : Bool} (whole : werr = false → n = chunk.length) :
    (c.wrote chunk err n werr).Faithful := by
  have running : c.phase ≠ .ended := by
    rw [writing]
    exact CopyPhase.noConfusion
  have isWhole := faithful.whole running
  have chunks := faithful.chunks
  rw [pending, writing] at chunks
  constructor
  · cases err <;> cases werr <;> exact chunks.trans (List.append_nil _).symm
  · intro goesOn
    cases werr with
    | true => exact absurd rfl goesOn
    | false =>
        change c.delivered ++ chunk.take n = (c.writes ++ [chunk]).flatten
        rw [isWhole, whole rfl, List.take_length, List.flatten_append, List.flatten_singleton]
  · change c.delivered ++ chunk.take n <+: (c.writes ++ [chunk]).flatten
    rw [isWhole, List.flatten_append, List.flatten_singleton]
    exact (List.prefix_append_right_inj _).mpr (List.take_prefix n chunk)

theorem Faithful.writes_isPrefix (faithful : c.Faithful) : c.writes <+: c.chunks := by
  rw [faithful.chunks]
  exact List.prefix_append _ _

theorem Faithful.delivered_isPrefix (faithful : c.Faithful) :
    c.delivered <+: c.chunks.flatten := by
  rw [faithful.chunks, List.flatten_append]
  exact faithful.delivered.trans (List.prefix_append _ _)

end Copy

namespace IdlePump

variable {idle begin : Nat} {s s' : IdlePump} {event : PumpEvent}

theorem faithful_step (faithful : ∀ side, (s.side side).Faithful)
    (pumped : Pumped idle s event s') (side : Side) : (s'.side side).Faithful := by
  have set {t : Side} {c : Copy} (isFaithful : c.Faithful) :
      ((s.setSide t c).side side).Faithful := by
    rw [side_setSide]
    split
    · exact isFaithful
    · exact faithful side
  cases pumped with
  | read t chunk err reading => exact set ((faithful t).read reading chunk err)
  | wrote t n werr writing whole => exact set ((faithful t).wrote writing n whole)
  | advance | close | again | ended | returns => exact faithful side

/-! ## Every run -/

/-- The clock was set no later than the last read of some bytes. -/
theorem Bumped.le {b u : Nat} (bumped : Bumped begin s b) (begun : begin ≤ u)
    (silence : ∀ r ∈ s.reads, r.2 ≠ [] → r.1 ≤ u) : b ≤ u := by
  rcases bumped with rfl | ⟨chunk, nonempty, mem⟩
  · exact begun
  · exact silence _ mem nonempty

/-- A tick that closes the ends finds that the clock has not been set lately. -/
theorem Timed.silent (timed : Timed idle begin s) (positive : 0 < idle)
    (pumped : Pumped idle s .tick s') (draining : s'.phase = .draining) :
    ∀ r ∈ s.reads, r.2 ≠ [] → r.1 + idle ≤ s.now := by
  intro r mem nonempty
  have before := timed.latest r mem nonempty
  cases pumped with
  | close pumping due quiet => omega
  | again pumping due active =>
      rw [pumping] at draining
      cases draining

theorem Timed.prompt (timed : Timed idle begin s) (sound : s.Sound) {u : Nat} (begun : begin ≤ u)
    (silence : ∀ r ∈ s.reads, r.2 ≠ [] → r.1 ≤ u) (late : 2 * u + 3 * idle ≤ 2 * s.now) :
    ∃ t, s.closed = some (.quiescence, t) ∧ 2 * t < 2 * u + 3 * idle := by
  by_cases pumping : s.phase = .pumping
  · obtain ⟨-, inTime, soon⟩ := timed.pumping pumping
    have setBefore := timed.bumped.le begun silence
    omega
  · obtain ⟨⟨reason, t⟩, isClosed⟩ := Option.ne_none_iff_exists'.mp (timed.stopped pumping)
    cases reason with
    | ended => exact absurd isClosed (sound.closed t)
    | quiescence =>
        obtain ⟨b, bumped, soon⟩ := timed.quiet t isClosed
        have setBefore := bumped.le begun silence
        exact ⟨t, isClosed, by omega⟩

theorem always_timed (atLeast : 2 ≤ idle) (begin : Nat) (events : List PumpEvent) :
    Always (step idle) (Timed idle begin) (IdlePump.start idle begin) events :=
  always_of_inductive (fun _ _ _ timed taken => timed.step (pumped_of_step taken)) events
    (.start atLeast begin)

theorem always_sound (idle begin : Nat) {events : List PumpEvent}
    (works : ∀ event ∈ events, event.fails = false) :
    Always (step idle) Sound (IdlePump.start idle begin) events := by
  apply always_of_preserved _ _ (along_of_forall_mem works _)
  · exact fun _ _ _ sound works taken => sound.step works (pumped_of_step taken)
  · refine ⟨rfl, ?_, ?_⟩
    · rintro (_ | _) <;> exact ⟨CopyPhase.noConfusion, fun _ => CopyPhase.noConfusion⟩
    · intro t isClosed
      cases isClosed

theorem always_faithful (idle begin : Nat) (events : List PumpEvent) :
    Always (step idle) (fun s => ∀ side, (s.side side).Faithful) (IdlePump.start idle begin)
      events := by
  apply always_of_inductive
  · exact fun _ _ _ faithful taken => faithful_step faithful (pumped_of_step taken)
  · rintro (_ | _) <;> exact ⟨rfl, fun _ => rfl, List.nil_prefix⟩

end IdlePump

/-- `idlePump` disconnects on two-way silence, and only then, in both versions. -/
theorem idlePump_quiesces {pump : Nat → Step IdlePump PumpEvent}
    (version : pump = relayIdlePump ∨ pump = relayclientIdlePump) {idle : Nat}
    (atLeast : 2 ≤ idle) (begin : Nat) {events : List PumpEvent} {s : IdlePump}
    (run : exec (pump idle) (IdlePump.start idle begin) events = some s) :
    Quiesces pump idle begin events s := by
  have same : pump = IdlePump.step := by
    rcases version with rfl | rfl <;> rfl
  subst same
  have timed := (IdlePump.always_timed atLeast begin events).last run
  have faithful := (IdlePump.always_faithful idle begin events).last run
  constructor
  · intro s' taken
    exact timed.silent (Nat.lt_of_lt_of_le Nat.zero_lt_two atLeast) (IdlePump.pumped_of_step taken)
  · intro works u begun silence late
    have sound := (IdlePump.always_sound idle begin works).last run
    exact timed.prompt sound begun silence late
  · exact fun side => (faithful side).writes_isPrefix
  · exact fun side => (faithful side).delivered_isPrefix

/-- Some bytes pass, and after that the ends are silent. -/
theorem short_session_quiesces :
    ∃ s, exec (relayIdlePump 10) (IdlePump.start 10 0)
        [.advance 3, .read .toA (ascii "ls") false, .wrote .toA 2 false, .advance 2, .tick,
          .advance 5, .tick, .advance 5, .tick] = some s ∧
      s.closed = some (.quiescence, 15) ∧ s.toA.delivered = ascii "ls" ∧
      Quiesces relayIdlePump 10 0
        [.advance 3, .read .toA (ascii "ls") false, .wrote .toA 2 false, .advance 2, .tick,
          .advance 5, .tick, .advance 5, .tick] s := by
  refine ⟨_, rfl, rfl, rfl, ?_⟩
  exact idlePump_quiesces (.inl rfl) (by decide) 0 rfl

/-- A read that returns no bytes and no error is no activity: the ends are closed for
quiescence at the time at which it returns. -/
theorem empty_read_unnoticed :
    ¬ ∀ pump ∈ [relayIdlePump, relayclientIdlePump], ∀ idle, 2 ≤ idle →
      ∀ begin events s s', exec (pump idle) (IdlePump.start idle begin) events = some s →
        pump idle s .tick = some s' → s'.phase = .draining →
          ∀ r ∈ s.reads, r.1 + idle ≤ s.now := by
  intro closes
  have late := closes relayIdlePump (by simp) 10 (by decide) 0
    [.advance 5, .tick, .advance 5, .read .toA [] false] _ _ rfl rfl rfl (10, []) (by decide)
  exact absurd late (by decide)

end Drover.Relay
