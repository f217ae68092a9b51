import Drover.Data.Grouped
import Drover.Relay.Takeover
import Mathlib.Data.Nat.Basic

/-!
# Stale bytes after a takeover

The stream a connection receives should be made of pieces, one per successive
occupant of the opposite slot.  Every piece is contiguous whatever happens.  That
the pieces come in takeover order fails in one way only: a reader captures its
peer, is replaced, and writes after its successor has already written to that
peer, since `writePeer` does not look again between the capture and the write.

Connections are numbered in registration order, so a greater number in a slot is
a newer occupant.
-/

namespace Drover.Relay

open Drover.Transition
open Drover.Data
open State

/-- The bytes the relay has written to a connection. -/
def State.receivedBy (s : State) (peer : ConnId) : Bytes :=
  (s.deliveries.filter fun delivery => delivery.peer = peer).flatMap Delivery.chunk

/-- What was written to a connection came from successive occupants of the
opposite slot, the newer ones later, and each of them contributed one contiguous
piece of what was read from it. -/
structure NoStaleBytes (s : State) : Prop where
  ordered : ∀ peer, (s.deliveries.filter fun delivery => delivery.peer = peer).Pairwise
    fun earlier later => earlier.reader ≤ later.reader
  pieces : ∀ peer, ∃ occupants : List ConnId, occupants.Pairwise (· < ·) ∧
    ∃ piece : ConnId → Bytes, s.receivedBy peer = occupants.flatMap piece ∧
      ∀ nc ∈ occupants, ∃ sv other, s.serve nc = some sv ∧ s.serve peer = some other ∧
        other.se = sv.se ∧ other.role = sv.role.opposite ∧ piece nc <:+: sv.got.flatten

/-- No reader writes to its captured peer after it has been replaced and a newer
occupant of its slot has written to that peer. -/
def NoLateWrite (s : State) : Action → Prop
  | .write nc true => ∀ sv ∈ s.serve nc, ∀ peer ∈ sv.pc.captured,
      s.Occupant sv nc ∨ ∀ delivery ∈ s.deliveries, delivery.peer = peer → delivery.reader ≤ nc
  | _ => True

/-! ## The invariant of the streams -/

/-- `peer` registered opposite to `sv` in the same session object. -/
def State.Faces (s : State) (sv : Serve) (peer : ConnId) : Prop :=
  ∃ other, s.serve peer = some other ∧ other.se = sv.se ∧ other.role = sv.role.opposite

/-- Every reader serves its peers in takeover order. -/
structure Streams (s : State) : Prop where
  book : Bookkeeping s
  registered : ∀ ⦃nc sv⦄, s.serve nc = some sv →
    ∃ current, (s.sess sv.se).slot sv.role = some current ∧ nc ≤ current
  captured : ∀ ⦃nc sv peer⦄, s.serve nc = some sv → sv.pc.captured = some peer → s.Faces sv peer
  delivered : ∀ ⦃delivery⦄, delivery ∈ s.deliveries →
    ∃ sv, s.serve delivery.reader = some sv ∧ s.Faces sv delivery.peer
  ahead : ∀ ⦃nc sv peer⦄, s.serve nc = some sv → sv.pc.captured = some peer →
    ∀ delivery ∈ s.deliveries, delivery.reader = nc → delivery.peer ≤ peer
  monotone : ∀ nc, (s.deliveries.filter fun delivery => delivery.reader = nc).Pairwise
    fun earlier later => earlier.peer ≤ later.peer

theorem streams_init : Streams State.init where
  book := bookkeeping_init
  registered _ _ found := by cases found
  captured _ _ _ found := by cases found
  delivered _ mem := by cases mem
  ahead _ _ _ found := by cases found
  monotone _ := .nil

theorem Pc.captured_eq_some_iff {pc : Pc} {peer : ConnId} :
    pc.captured = some peer ↔ ∃ p rerr, pc = .write peer p rerr := by
  cases pc <;> simp [captured]

theorem State.Faces.next {s next : State} {action : Action} (effect : Effect s action next)
    (wf : Wf s) {sv sv' : Serve} {peer : ConnId} (same : sv'.ident = sv.ident)
    (faces : s.Faces sv peer) : next.Faces sv' peer := by
  simp only [Serve.ident, Prod.mk.injEq] at same
  obtain ⟨-, roleEq, seEq⟩ := same
  obtain ⟨other, found, otherSe, otherRole⟩ := faces
  obtain ⟨other', found', -, roleKept, seKept⟩ := effect.serve_forth wf found
  exact ⟨other', found', by rw [seKept, otherSe, seEq], by rw [roleKept, otherRole, roleEq]⟩

/-- The current occupant opposite to `sv` is the newest connection it faces. -/
theorem Streams.faced_le {s : State} (streams : Streams s) {sv : Serve} {peer current : ConnId}
    (faces : s.Faces sv peer)
    (occupied : (s.sess sv.se).slot sv.role.opposite = some current) : peer ≤ current := by
  obtain ⟨other, found, seEq, roleEq⟩ := faces
  obtain ⟨newest, occupied', bound⟩ := streams.registered found
  rw [seEq, roleEq, occupied, Option.some.injEq] at occupied'
  exact occupied' ▸ bound

theorem Effect.registered_slot {s next : State} {action : Action} (effect : Effect s action next)
    (wf : Wf s)
    (registered : ∀ ⦃nc sv⦄, s.serve nc = some sv →
      ∃ current, (s.sess sv.se).slot sv.role = some current ∧ nc ≤ current)
    {nc : ConnId} {sv' : Serve} (after : next.serve nc = some sv') :
    ∃ current, (next.sess sv'.se).slot sv'.role = some current ∧ nc ≤ current := by
  have later : ∀ {sv : Serve}, s.serve nc = some sv → sv'.role = sv.role → sv'.se = sv.se →
      ∃ current, (next.sess sv'.se).slot sv'.role = some current ∧ nc ≤ current := by
    intro sv found roleEq seEq
    obtain ⟨current, occupied, bound⟩ := registered found
    obtain ⟨newer, occupied', grows⟩ := effect.slot_le wf occupied
    rw [roleEq, seEq]
    exact ⟨newer, occupied', Nat.le_trans bound grows⟩
  cases action with
  | register sid role =>
      rcases effect.serve_back wf after with acts | ⟨-, sv, closed, found, rfl, -⟩ |
        ⟨rfl, sid', role', same, rfl⟩
      · cases acts
      · exact later found rfl rfl
      · cases same
        cases effect
        exact ⟨s.nextConn, by simp [register_slot], Nat.le_refl _⟩
  | _ =>
      obtain ⟨sv, found, -, roleEq, seEq⟩ :=
        (effect.keeps (by simp [Action.actor])).serve_back after
      exact later found roleEq.symm seEq.symm

/-- A reader that has just written holds no peer. -/
theorem Effect.released {s next : State} {nc : ConnId} (effect : Effect s (.write nc true) next)
    {sv' : Serve} (after : next.serve nc = some sv') : sv'.pc.captured = none := by
  cases effect with
  | written found _ | writtenLast found _ =>
      cases eq_of_modServe_serve (s := s.deliver _) found after
      rfl

theorem Effect.streams {s next : State} {action : Action} (effect : Effect s action next)
    (streams : Streams s) : Streams next where
  book := effect.bookkeeping streams.book
  registered nc sv' after := effect.registered_slot streams.book.wf streams.registered after
  captured nc sv' peer after holds := by
    have wf := streams.book.wf
    rcases effect.serve_back wf after with
      acts | ⟨-, sv, closed, found, rfl, -⟩ | ⟨-, sid, role, -, rfl⟩
    · obtain ⟨p, rerr, at'⟩ := Pc.captured_eq_some_iff.mp holds
      obtain ⟨sv, found, same, before | occupied⟩ := effect.captured_self acts after at'
      · have held : sv.pc.captured = some peer := by rw [before, Pc.captured]
        exact (streams.captured found held).next effect wf same
      · obtain ⟨other, otherFound, seEq, roleEq⟩ := wf.slot_serve occupied
        exact State.Faces.next effect wf same ⟨other, otherFound, seEq, roleEq⟩
    · exact (streams.captured found holds).next effect wf rfl
    · cases holds
  delivered delivery mem := by
    have wf := streams.book.wf
    have keep : ∀ {sv}, s.serve delivery.reader = some sv → s.Faces sv delivery.peer →
        ∃ sv', next.serve delivery.reader = some sv' ∧ next.Faces sv' delivery.peer := by
      intro sv found faces
      obtain ⟨sv', found', sidEq, roleEq, seEq⟩ := effect.serve_forth wf found
      have same : sv'.ident = sv.ident := by simp only [Serve.ident, sidEq, roleEq, seEq]
      exact ⟨sv', found', faces.next effect wf same⟩
    rcases effect.deliveries with same | ⟨nc, sv, peer, p, rerr, -, found, at_, grown⟩
    · rw [same] at mem
      obtain ⟨sv, found, faces⟩ := streams.delivered mem
      exact keep found faces
    · rw [grown, List.mem_append, List.mem_singleton] at mem
      rcases mem with mem | rfl
      · obtain ⟨sv, found, faces⟩ := streams.delivered mem
        exact keep found faces
      · exact keep found (streams.captured found (by rw [at_, Pc.captured]))
  ahead nc sv' peer after holds delivery mem reader := by
    have wf := streams.book.wf
    have held : ∀ {sv}, s.serve nc = some sv → sv.pc.captured = some peer →
        delivery ∈ s.deliveries → delivery.peer ≤ peer :=
      fun found held mem => streams.ahead found held delivery mem reader
    rcases effect.serve_back wf after with
      acts | ⟨rests, sv, closed, found, rfl, -⟩ | ⟨-, sid, role, -, rfl⟩
    · have old : delivery ∈ s.deliveries := by
        rcases effect.deliveries with same | ⟨other, sv, peer', p, rerr, rfl, -, -, -⟩
        · rwa [same] at mem
        · cases acts
          rw [effect.released after] at holds
          cases holds
      obtain ⟨p, rerr, at'⟩ := Pc.captured_eq_some_iff.mp holds
      obtain ⟨sv, found, -, before | occupied⟩ := effect.captured_self acts after at'
      · exact held found (by rw [before, Pc.captured]) old
      · obtain ⟨sv'', found'', faces⟩ := streams.delivered old
        rw [reader, found, Option.some.injEq] at found''
        subst found''
        exact streams.faced_le faces occupied
    · rcases effect.deliveries with same | ⟨other, sv, peer', p, rerr, rfl, -, -, grown⟩
      · exact held found holds (same ▸ mem)
      · rw [grown, List.mem_append, List.mem_singleton] at mem
        rcases mem with mem | rfl
        · exact held found holds mem
        · exact absurd (congrArg some reader) rests
    · cases holds
  monotone nc := by
    rcases effect.deliveries with same | ⟨other, sv, peer, p, rerr, rfl, found, at_, grown⟩
    · rw [same]
      exact streams.monotone nc
    · rw [grown, List.filter_append, List.pairwise_append]
      refine ⟨streams.monotone nc, (List.pairwise_singleton ..).filter _, ?_⟩
      intro earlier mem later laterMem
      simp only [List.mem_filter, List.mem_singleton, decide_eq_true_eq] at mem laterMem
      obtain ⟨rfl, rfl⟩ := laterMem
      exact streams.ahead found (by rw [at_, Pc.captured]) earlier mem.1 mem.2

/-! ## Pieces -/

theorem flatten_infix {α : Type} {xs ys : List (List α)} (sub : xs <:+: ys) :
    xs.flatten <:+: ys.flatten := by
  obtain ⟨before, after, rfl⟩ := sub
  exact ⟨before.flatten, after.flatten, by simp⟩

/-- Once the sources of every connection come in takeover order, what it
receives is made of contiguous pieces. -/
theorem Streams.noStaleBytes {s : State} (streams : Streams s)
    (ordered : ∀ peer, (s.deliveries.filter fun delivery => delivery.peer = peer).Pairwise
      fun earlier later => earlier.reader ≤ later.reader) : NoStaleBytes s where
  ordered := ordered
  pieces peer := by
    obtain ⟨occupants, increasing, occurring, parts⟩ :=
      exists_keys_of_pairwise Delivery.reader (ordered peer)
    refine ⟨occupants, increasing, fun nc =>
      ((s.deliveries.filter fun delivery => delivery.peer = peer).filter fun delivery =>
        delivery.reader = nc).flatMap Delivery.chunk, ?_, ?_⟩
    · rw [State.receivedBy]
      conv_lhs => rw [parts]
      rw [List.flatMap_assoc]
    · intro nc mem
      obtain ⟨delivery, sent, rfl⟩ := (occurring nc).mp mem
      rw [List.mem_filter, decide_eq_true_eq] at sent
      obtain ⟨sv, found, other, otherFound, seEq, roleEq⟩ := streams.delivered sent.1
      rw [sent.2] at otherFound
      refine ⟨sv, other, found, otherFound, seEq, roleEq, ?_⟩
      have contiguous := filter_infix_of_pairwise Delivery.peer
        (streams.monotone delivery.reader) peer
      have read := ((streams.book.accounted found).prefix_).1.isInfix
      have chunks := (contiguous.map Delivery.chunk).trans
        (by simpa [State.sentBy, beq_eq_decide] using read)
      simp only [List.flatMap_def]
      apply flatten_infix
      simpa [List.filter_filter, Bool.and_comm] using chunks

/-! ## When the order holds -/

/-- A reader that still occupies its slot is the newest source of its peer. -/
theorem Streams.newest {s : State} (streams : Streams s) {nc peer : ConnId} {sv : Serve}
    (found : s.serve nc = some sv) (held : sv.pc.captured = some peer)
    (occupant : s.Occupant sv nc) {delivery : Delivery} (mem : delivery ∈ s.deliveries)
    (same : delivery.peer = peer) : delivery.reader ≤ nc := by
  obtain ⟨other, otherFound, seEq, roleEq⟩ := streams.captured found held
  obtain ⟨source, sourceFound, target, targetFound, targetSe, targetRole⟩ := streams.delivered mem
  rw [same, otherFound, Option.some.injEq] at targetFound
  subst targetFound
  have sourceRole : source.role = sv.role := by
    rw [← Role.opposite_opposite source.role, ← targetRole, roleEq, Role.opposite_opposite]
  obtain ⟨current, occupied, bound⟩ := streams.registered sourceFound
  rw [← targetSe, seEq, sourceRole, occupant, Option.some.injEq] at occupied
  exact occupied ▸ bound

/-- One step keeps the order exactly if it makes no late write. -/
theorem Effect.noStaleBytes_iff {s next : State} {action : Action}
    (effect : Effect s action next) (streams : Streams s) (before : NoStaleBytes s) :
    NoStaleBytes next ↔ NoLateWrite s action := by
  have streams' := effect.streams streams
  rcases effect.deliveries with same | ⟨nc, sv, peer, p, rerr, rfl, found, at_, grown⟩
  · apply iff_of_true
    · apply streams'.noStaleBytes
      rw [same]
      exact before.ordered
    · cases effect with
      | written | writtenLast => simp [deliver, leave] at same
      | _ => trivial
  · have held : sv.pc.captured = some peer := by rw [at_, Pc.captured]
    constructor
    · intro after sv' found' peer' held'
      cases Option.some.inj (found.symm.trans found')
      cases Option.some.inj (held.symm.trans held')
      refine .inr fun delivery mem samePeer => ?_
      have ordered := after.ordered peer
      rw [grown, List.filter_append, List.pairwise_append] at ordered
      exact ordered.2.2 delivery (by simp [mem, samePeer]) ⟨nc, peer, p⟩ (by simp)
    · intro timely
      apply streams'.noStaleBytes
      intro target
      rw [grown, List.filter_append, List.pairwise_append]
      refine ⟨before.ordered target, (List.pairwise_singleton ..).filter _, ?_⟩
      intro earlier mem later laterMem
      simp only [List.mem_filter, List.mem_singleton, decide_eq_true_eq] at mem laterMem
      obtain ⟨rfl, rfl⟩ := laterMem
      rcases timely sv found peer held with occupant | oldest
      · exact streams.newest found held occupant mem.1 mem.2
      · exact oldest earlier mem.1 mem.2

theorem noStaleBytes_init : NoStaleBytes State.init where
  ordered _ := .nil
  pieces _ := ⟨[], .nil, fun _ => [], rfl, by simp⟩

/-- In every run, no connection ever receives stale bytes exactly if no reader
writes late. -/
theorem noStaleBytes_iff_noLateWrite (actions : List Action) :
    Always step NoStaleBytes State.init actions ↔ Along step NoLateWrite State.init actions := by
  have preserved : ∀ s action next, Streams s → True → step s action = some next → Streams next :=
    fun _ _ _ streams _ taken => (effect_of_step taken).streams streams
  have one : ∀ s action next, Streams s → NoStaleBytes s → True → step s action = some next →
      (NoStaleBytes next ↔ NoLateWrite s action) :=
    fun _ _ _ streams before _ taken => (effect_of_step taken).noStaleBytes_iff streams before
  exact always_iff_along preserved one streams_init noStaleBytes_init
    (along_of_forall_mem (fun _ _ => trivial) _)

/-- Source `0` reads `a` and captures viewer `1`; source `2` takes its slot over
and writes `b` to the viewer; then the write of `a` gets there. -/
def lateWrite : List Action :=
  [.register (ascii "k") .source, .register (ascii "k") .viewer, .closeOld 0, .closeOld 1,
    .read 0 (ascii "a") false, .lookup 0, .register (ascii "k") .source, .closeOld 2,
    .read 2 (ascii "b") false, .lookup 2, .write 2 true, .write 0 true]

theorem lateWrite_stale : ¬ Always step NoStaleBytes State.init lateWrite := by
  intro always
  have sources : (exec step State.init lateWrite).map State.deliveries =
      some [⟨2, 1, ascii "b"⟩, ⟨0, 1, ascii "a"⟩] := by decide
  obtain ⟨last, run, deliveries⟩ := Option.map_eq_some_iff.mp sources
  have ordered := (always.last run).ordered 1
  rw [deliveries] at ordered
  revert ordered
  decide

end Drover.Relay
