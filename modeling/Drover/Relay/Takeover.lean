import Drover.Relay.Transparency

/-!
# Takeovers

A takeover is meant to close the replaced connection only.  `Confined` says what
this asks of a state; the run of `takeover_spreads` breaks it, because a reader
that captured its peer before the takeover meets the closed connection when it
writes and then runs its exit block as the current occupant.  That is the only
way: under faithful failures a run is confined exactly when no exit block is
reached so.
-/

namespace Drover.Relay

open Drover.Transition
open State

/-! ## Confinement -/

/-- The two-minute rule was applied to the connection: `loneTimer` found it
lone, or `writePeer` gave up on its deadline. -/
def Serve.Ruled (sv : Serve) : Prop :=
  sv.timer = .closing ∨ sv.timer = .closed ∨ sv.cause = some .noPeer

instance (s : State) (sv : Serve) (nc : ConnId) : Decidable (s.Occupant sv nc) :=
  inferInstanceAs (Decidable (_ = _))

instance (s : State) (sv : Serve) : Decidable (s.Mapped sv) :=
  inferInstanceAs (Decidable (_ = _))

instance (sv : Serve) : Decidable sv.Ruled :=
  inferInstanceAs (Decidable (_ ∨ _ ∨ _))

/-- An occupant of the session object has lost its remote end or was hit by the
two-minute rule. -/
def State.Afflicted (s : State) (i : SessId) : Prop :=
  ∃ role, ∃ d ∈ (s.sess i).slot role, ∃ sv ∈ s.serve d, sv.dead = true ∨ sv.Ruled

theorem Role.exists_iff {P : Role → Prop} : (∃ role, P role) ↔ P .source ∨ P .viewer :=
  ⟨fun ⟨role, holds⟩ => by cases role <;> simp [holds],
    fun either => either.elim (fun holds => ⟨_, holds⟩) fun holds => ⟨_, holds⟩⟩

instance (s : State) (i : SessId) : Decidable (s.Afflicted i) :=
  decidable_of_iff _ Role.exists_iff.symm

/-- A current occupant is closed only by the two-minute rule, and a session
entry with occupants is deleted only when one of them is afflicted. -/
structure Confined (s : State) : Prop where
  closed : ∀ ⦃nc sv⦄, s.serve nc = some sv → s.Occupant sv nc → s.Mapped sv →
    sv.closed = true → sv.Ruled
  deleted : ∀ ⦃nc sv⦄, s.serve nc = some sv → s.Occupant sv nc → ¬ s.Mapped sv →
    s.Afflicted sv.se

/-- The peer a reader has captured for its write. -/
def Pc.captured : Pc → Option ConnId
  | .write peer _ _ => some peer
  | _ => none

/-- A read or a write fails only because the relay has closed that connection or
its remote end has died. -/
def Faithful (s : State) : Action → Prop
  | .read nc _ true => ∀ sv ∈ s.serve nc, sv.closed = true ∨ sv.dead = true
  | .write nc false => ∀ sv ∈ s.serve nc, ∀ peer ∈ sv.pc.captured,
      ∃ other ∈ s.serve peer, other.closed = true ∨ other.dead = true
  | _ => True

instance (s : State) : (action : Action) → Decidable (Faithful s action)
  | .read nc _ true => inferInstanceAs (Decidable (∀ sv ∈ s.serve nc, _))
  | .write nc false => inferInstanceAs (Decidable (∀ sv ∈ s.serve nc, _))
  | .read _ _ false | .write _ true | .register _ _ | .closeOld _ | .lookup _ | .wake _
  | .deadline _ | .exit _ | .closeSelf _ | .closePeer _ | .timerFire _ | .timerClose _
  | .die _ => isTrue trivial

/-- The peer whose failed write made a reader leave its loop. -/
def Serve.failedPeer (sv : Serve) : Option ConnId :=
  match sv.cause with
  | some (.writeFailed peer) => some peer
  | _ => none

/-- No reader whose write to a captured peer has failed runs its exit block as
the current occupant after that peer has been replaced, unless an occupant is
afflicted anyway. -/
def NoStaleExit (s : State) : Action → Prop
  | .exit nc => ∀ sv ∈ s.serve nc, ∀ peer ∈ sv.failedPeer, s.mappedCurrent sv nc = true →
      (s.sess sv.se).slot sv.role.opposite = some peer ∨ s.Afflicted sv.se
  | _ => True

instance (s : State) : (action : Action) → Decidable (NoStaleExit s action)
  | .exit nc => inferInstanceAs (Decidable (∀ sv ∈ s.serve nc, _))
  | .read _ _ _ | .write _ _ | .register _ _ | .closeOld _ | .lookup _ | .wake _ | .deadline _
  | .closeSelf _ | .closePeer _ | .timerFire _ | .timerClose _ | .die _ => isTrue trivial

/-! ## The invariant of one reader -/

/-- The read loop has been left. -/
def Pc.left : Pc → Bool
  | .exit | .closeSelf _ | .closePeer _ | .done => true
  | _ => false

/-- The error that came with the chunk in hand. -/
def Pc.pendingError : Pc → Bool
  | .lookup _ rerr | .write _ _ rerr | .wait _ _ rerr => rerr
  | _ => false

/-- What the recorded reason for leaving the loop says about the state. -/
def State.CauseHolds (s : State) (sv : Serve) (nc : ConnId) : ExitCause → Prop
  | .readError => sv.closed = true ∨ sv.dead = true
  | .replaced => s.Retired sv nc
  | .noPeer => True
  | .writeFailed peer =>
      ∃ other, s.serve peer = some other ∧ (other.closed = true ∨ other.dead = true)

/-- The invariant of the goroutine of `nc`. -/
structure Reader (s : State) (nc : ConnId) (sv : Serve) : Prop where
  unset : ∀ ⦃old⦄, sv.pc = .closeOld old → sv.timer = .unset
  inLoop : sv.pc.left = false → sv.cause = none
  outOfLoop : sv.pc.left = true → ∃ cause, sv.cause = some cause ∧ s.CauseHolds sv nc cause
  pending : sv.pc.pendingError = true → sv.closed = true ∨ sv.dead = true
  oldOut : ∀ ⦃old⦄, sv.pc = .closeOld (some old) →
    ∃ other, s.serve old = some other ∧ ¬ s.Occupant other old
  retired : ∀ ⦃peer⦄, sv.pc = .closeSelf peer → s.Retired sv nc
  peerOut : ∀ ⦃peer⦄, sv.pc = .closeSelf (some peer) ∨ sv.pc = .closePeer peer →
    ∃ other, s.serve peer = some other ∧ ¬ s.Mapped other

/-- The invariant behind confinement. -/
structure Orderly (s : State) : Prop where
  wf : Wf s
  reader : ∀ ⦃nc sv⦄, s.serve nc = some sv → Reader s nc sv

theorem orderly_init : Orderly State.init where
  wf := wf_init
  reader _ _ found := by cases found

/-- How a record can only change: the identity stays, the flags and the
two-minute rule are never taken back. -/
structure Serve.Later (sv sv' : Serve) : Prop where
  ident : sv'.ident = sv.ident
  closed : sv.closed = true → sv'.closed = true
  dead : sv.dead = true → sv'.dead = true
  ruled : sv.Ruled → sv'.Ruled

theorem Serve.Later.refl (sv : Serve) : sv.Later sv :=
  ⟨rfl, id, id, id⟩

/-- Leaving the loop keeps a rule that the timer has applied. -/
theorem Reader.ruled_timer {s : State} {nc : ConnId} {sv : Serve} (reader : Reader s nc sv)
    (inside : sv.pc.left = false) (ruled : sv.Ruled) :
    sv.timer = .closing ∨ sv.timer = .closed := by
  rcases ruled with closing | closed | gaveUp
  · exact .inl closing
  · exact .inr closed
  · rw [reader.inLoop inside] at gaveUp
    cases gaveUp

theorem Reader.later_leave {s : State} {nc : ConnId} {sv : Serve} (reader : Reader s nc sv)
    (inside : sv.pc.left = false) (cause : ExitCause) :
    sv.Later { sv with pc := .exit, cause := some cause } where
  ident := rfl
  closed := id
  dead := id
  ruled ruled := (reader.ruled_timer inside ruled).elim .inl fun closed => .inr (.inl closed)

/-- `Later` for a change that leaves the timer and the cause alone. -/
theorem Serve.later_of_eq {sv sv' : Serve} (ident : sv'.ident = sv.ident)
    (closed : sv.closed = true → sv'.closed = true) (dead : sv'.dead = sv.dead)
    (timer : sv'.timer = sv.timer) (cause : sv'.cause = sv.cause) : sv.Later sv' where
  ident := ident
  closed := closed
  dead lost := dead.trans lost
  ruled ruled := by simpa only [Ruled, timer, cause] using ruled

/-- What any step can do to any record. -/
theorem Effect.later {s next : State} {action : Action} (effect : Effect s action next)
    (orderly : Orderly s) {d : ConnId} {sv : Serve} (found : s.serve d = some sv) :
    ∃ sv', next.serve d = some sv' ∧ sv.Later sv' := by
  by_cases acts : action.actor = some d
  · have reader := orderly.reader found
    have moved : ∀ f : Serve → Serve, sv.Later (f sv) →
        ∃ sv', (s.modServe d f).serve d = some sv' ∧ sv.Later sv' :=
      fun f later => ⟨f sv, modServe_serve_self f found, later⟩
    have closedThen : ∀ (other : ConnId) (f : Serve → Serve),
        (∀ closed, (sv.closed = true → closed = true) → sv.Later (f { sv with closed })) →
        ∃ sv', ((s.closeConn other).modServe d f).serve d = some sv' ∧ sv.Later sv' := by
      intro other f later
      obtain ⟨closed, closedFound, kept, -⟩ := closeConn_serve other found
      exact ⟨_, modServe_serve_self f closedFound, later closed kept⟩
    cases effect with
    | register sid role => cases acts
    | closeOld found' at_ =>
        cases acts
        cases found.symm.trans found'
        refine closedThen _ _ fun closed kept => ⟨rfl, kept, id, fun ruled => ?_⟩
        have fresh := reader.unset at_
        rcases reader.ruled_timer (by simp [at_, Pc.left]) ruled with timer | timer <;>
          simp [fresh] at timer
    | noOld found' at_ =>
        cases acts
        cases found.symm.trans found'
        refine moved _ ⟨rfl, id, id, fun ruled => ?_⟩
        have fresh := reader.unset at_
        rcases reader.ruled_timer (by simp [at_, Pc.left]) ruled with timer | timer <;>
          simp [fresh] at timer
    | readChunk | capture | wait | wake =>
        cases acts
        exact moved _ (Serve.later_of_eq rfl id rfl rfl rfl)
    | readNothing =>
        exact ⟨sv, found, .refl sv⟩
    | readError found' at_ | replaced found' at_ | writeFailed found' at_ | deadline found' at_ =>
        cases acts
        cases found.symm.trans found'
        exact moved _ (reader.later_leave (by simp [at_, Pc.left]) _)
    | written =>
        cases acts
        exact ⟨_, modServe_serve_self (s := s.deliver _) _ found,
          Serve.later_of_eq rfl id rfl rfl rfl⟩
    | writtenLast found' at_ =>
        cases acts
        cases found.symm.trans found'
        exact ⟨_, modServe_serve_self (s := s.deliver _) _ found,
          reader.later_leave (by simp [at_, Pc.left]) _⟩
    | exit found' at_ =>
        cases acts
        cases found.symm.trans found'
        obtain ⟨peer, after⟩ := exitBlock_serve_self found
        exact ⟨_, after, Serve.later_of_eq rfl id rfl rfl rfl⟩
    | closeSelf =>
        cases acts
        exact closedThen _ _ fun closed kept => Serve.later_of_eq rfl kept rfl rfl rfl
    | closeLast | closePeer =>
        cases acts
        refine closedThen _ _ fun closed kept => ⟨rfl, kept, id, fun ruled => ?_⟩
        rcases ruled with timer | timer | gaveUp
        · exact .inl (by simp [timer])
        · exact .inr (.inl (by simp [timer]))
        · exact .inr (.inr gaveUp)
    | timerLone =>
        cases acts
        exact moved _ ⟨rfl, id, id, fun _ => .inl rfl⟩
    | timerPaired found' armed _ =>
        cases acts
        cases found.symm.trans found'
        refine moved _ ⟨rfl, id, id, fun ruled => ?_⟩
        rcases ruled with timer | timer | gaveUp
        · simp [armed] at timer
        · simp [armed] at timer
        · exact .inr (.inr gaveUp)
    | timerClose =>
        cases acts
        exact closedThen _ _ fun closed kept => ⟨rfl, kept, id, fun _ => .inr (.inl rfl)⟩
    | die =>
        cases acts
        exact moved _ ⟨rfl, id, fun _ => rfl, id⟩
  · obtain ⟨closed, rested, kept⟩ := effect.others found (orderly.wf.conn_lt found) acts
    exact ⟨_, rested, Serve.later_of_eq rfl kept rfl rfl rfl⟩

/-! ## Preservation of the invariant -/

theorem State.CauseHolds.next {s next : State} {action : Action} (effect : Effect s action next)
    (orderly : Orderly s) {nc : ConnId} {sv sv' : Serve} (found : s.serve nc = some sv)
    (later : sv.Later sv') {cause : ExitCause} (holds : s.CauseHolds sv nc cause) :
    next.CauseHolds sv' nc cause := by
  cases cause with
  | readError => exact holds.imp later.closed later.dead
  | replaced => exact effect.retired orderly.wf found later.ident holds
  | noPeer => trivial
  | writeFailed peer =>
      obtain ⟨other, otherFound, failed⟩ := holds
      obtain ⟨other', otherFound', otherLater⟩ := effect.later orderly otherFound
      exact ⟨other', otherFound', failed.imp otherLater.closed otherLater.dead⟩

theorem Effect.out {s next : State} {action : Action} (effect : Effect s action next)
    (orderly : Orderly s) {old : ConnId}
    (out : ∃ other, s.serve old = some other ∧ ¬ s.Occupant other old) :
    ∃ other, next.serve old = some other ∧ ¬ next.Occupant other old := by
  obtain ⟨other, found, out⟩ := out
  obtain ⟨other', found', later⟩ := effect.later orderly found
  refine ⟨other', found', ?_⟩
  have same := later.ident
  simp only [Serve.ident, Prod.mk.injEq] at same
  rw [Occupant, same.2.1, same.2.2]
  exact effect.slot_ne out (orderly.wf.conn_lt found) (orderly.wf.sess_lt found)

theorem Effect.unmapped {s next : State} {action : Action} (effect : Effect s action next)
    (orderly : Orderly s) {peer : ConnId}
    (out : ∃ other, s.serve peer = some other ∧ ¬ s.Mapped other) :
    ∃ other, next.serve peer = some other ∧ ¬ next.Mapped other := by
  obtain ⟨other, found, out⟩ := out
  obtain ⟨other', found', later⟩ := effect.later orderly found
  refine ⟨other', found', ?_⟩
  have same := later.ident
  simp only [Serve.ident, Prod.mk.injEq] at same
  rw [Mapped, same.1, same.2.2]
  exact effect.sessions_ne out (orderly.wf.sess_lt found)

/-- A reader that does not move its program counter keeps its invariant. -/
theorem Reader.rest {s next : State} {action : Action} (effect : Effect s action next)
    (orderly : Orderly s) {nc : ConnId} {sv sv' : Serve} (found : s.serve nc = some sv)
    (later : sv.Later sv') (pc : sv'.pc = sv.pc) (cause : sv'.cause = sv.cause)
    (timer : sv.timer = .unset → sv'.timer = .unset) : Reader next nc sv' where
  unset old at_ := timer ((orderly.reader found).unset (pc ▸ at_))
  inLoop inside := cause.trans ((orderly.reader found).inLoop (pc ▸ inside))
  outOfLoop outside := by
    obtain ⟨why, whyEq, holds⟩ := (orderly.reader found).outOfLoop (pc ▸ outside)
    exact ⟨why, cause.trans whyEq, holds.next effect orderly found later⟩
  pending error := ((orderly.reader found).pending (pc ▸ error)).imp later.closed later.dead
  oldOut old at_ := effect.out orderly ((orderly.reader found).oldOut (pc ▸ at_))
  retired peer at_ :=
    effect.retired orderly.wf found later.ident ((orderly.reader found).retired (pc ▸ at_))
  peerOut peer at_ := effect.unmapped orderly ((orderly.reader found).peerOut (pc ▸ at_))

/-- A reader inside its loop owes only its pending error. -/
theorem Reader.inside {s : State} {nc : ConnId} {sv : Serve} (inside : sv.pc.left = false)
    (started : ∀ old, sv.pc ≠ .closeOld old) (cause : sv.cause = none)
    (pending : sv.pc.pendingError = true → sv.closed = true ∨ sv.dead = true) :
    Reader s nc sv where
  unset old at_ := absurd at_ (started old)
  inLoop _ := cause
  outOfLoop outside := by
    rw [inside] at outside
    cases outside
  pending := pending
  oldOut old at_ := absurd at_ (started _)
  retired peer at_ := by simp [at_, Pc.left] at inside
  peerOut peer at_ := by rcases at_ with at_ | at_ <;> simp [at_, Pc.left] at inside

/-- A reader that has just left its loop owes the truth of its cause. -/
theorem Reader.leave {s : State} {nc : ConnId} {sv : Serve} {cause : ExitCause}
    (at_ : sv.pc = .exit) (why : sv.cause = some cause) (holds : s.CauseHolds sv nc cause) :
    Reader s nc sv where
  unset old other := by simp [at_] at other
  inLoop inside := by simp [at_, Pc.left] at inside
  outOfLoop _ := ⟨cause, why, holds⟩
  pending error := by simp [at_, Pc.pendingError] at error
  oldOut old other := by simp [at_] at other
  retired peer other := by simp [at_] at other
  peerOut peer other := by simp [at_] at other

/-- The reader after its exit block. -/
theorem Reader.outside {s : State} {nc : ConnId} {sv : Serve} {cause : ExitCause}
    (outside : sv.pc.left = true) (why : sv.cause = some cause)
    (holds : s.CauseHolds sv nc cause)
    (retired : ∀ peer, sv.pc = .closeSelf peer → s.Retired sv nc)
    (peerOut : ∀ peer, sv.pc = .closeSelf (some peer) ∨ sv.pc = .closePeer peer →
      ∃ other, s.serve peer = some other ∧ ¬ s.Mapped other) : Reader s nc sv where
  unset old at_ := by simp [at_, Pc.left] at outside
  inLoop inside := by
    rw [outside] at inside
    cases inside
  outOfLoop _ := ⟨cause, why, holds⟩
  pending error := by
    revert outside error
    cases sv.pc <;> simp [Pc.left, Pc.pendingError]
  oldOut old at_ := by simp [at_, Pc.left] at outside
  retired peer at_ := retired peer at_
  peerOut peer at_ := peerOut peer at_

/-- The registering connection displaces an occupant for good. -/
theorem Reader.fresh {s : State} (wf : Wf s) (sid : Bytes) (role : Role) :
    Reader (s.register sid role) s.nextConn
      { sid, role, se := s.target sid, pc := .closeOld (s.displaced sid role) } where
  unset _ _ := rfl
  inLoop _ := rfl
  outOfLoop outside := by cases outside
  pending error := by cases error
  oldOut old at_ := by
    simp only [Pc.closeOld.injEq] at at_
    obtain ⟨other, found, seEq, roleEq⟩ := displaced_serve wf at_
    have ne : old ≠ s.nextConn := Nat.ne_of_lt (wf.conn_lt found)
    refine ⟨other, by rw [register_serve, Function.update_of_ne ne, found], ?_⟩
    rw [Occupant, register_slot, if_pos seEq, if_pos roleEq]
    exact fun same => ne (Option.some.inj same).symm
  retired peer at_ := by cases at_
  peerOut peer at_ := by rcases at_ with at_ | at_ <;> cases at_

/-- The exit block retires its reader, and the peer it remembers is no longer in
a mapped session. -/
theorem exitBlock_retires {s : State} (wf : Wf s) {nc : ConnId} {sv : Serve}
    (found : s.serve nc = some sv) :
    ∃ peer, (s.exitBlock sv nc).serve nc = some { sv with pc := .closeSelf peer } ∧
      (s.exitBlock sv nc).Retired sv nc ∧
      ∀ q, peer = some q →
        ∃ other, (s.exitBlock sv nc).serve q = some other ∧ ¬ (s.exitBlock sv nc).Mapped other := by
  cases current : s.mappedCurrent sv nc with
  | false =>
      have retired := (mappedCurrent_eq_false_iff s sv nc).mp current
      refine ⟨none, ?_, ?_, fun q absent => by cases absent⟩
      · simp [exitBlock, current, modServe_serve_self _ found]
      · simpa [exitBlock, current, Retired, Mapped, Occupant] using retired
  | true =>
      have dropped : (s.exitBlock sv nc).sessions sv.sid = none := by
        simp [exitBlock_sessions, current]
      refine ⟨(s.sess sv.se).slot sv.role.opposite, ?_, ?_, fun q occupied => ?_⟩
      · unfold exitBlock
        rw [if_pos current]
        exact modServe_serve_self _ found
      · rintro ⟨mapped, -⟩
        rw [Mapped, dropped] at mapped
        cases mapped
      · obtain ⟨other, otherFound, seEq, roleEq⟩ := wf.slot_serve occupied
        have ne : q ≠ nc := by
          rintro rfl
          rw [found, Option.some.injEq] at otherFound
          exact Role.opposite_ne sv.role (roleEq.symm.trans (by rw [otherFound]))
        refine ⟨other, by simp [exitBlock, current, modServe_serve_ne _ ne, otherFound], ?_⟩
        rw [Mapped, wf.same_sid otherFound found seEq, dropped]
        exact fun mapped => by cases mapped

/-- The reader that moves keeps its invariant on every branch. -/
theorem Effect.reader_self {s next : State} {action : Action} (effect : Effect s action next)
    (orderly : Orderly s) (faithful : Faithful s action) {nc : ConnId} {sv' : Serve}
    (acts : action.actor = some nc) (after : next.serve nc = some sv') : Reader next nc sv' := by
  have whole := effect
  have stays : ∀ {sv}, s.serve nc = some sv → sv'.pc = sv.pc → sv'.cause = sv.cause →
      (sv.timer = .unset → sv'.timer = .unset) → Reader next nc sv' := by
    intro sv found pc cause timer
    obtain ⟨later', found', later⟩ := whole.later orderly found
    rw [after, Option.some.injEq] at found'
    subst found'
    exact Reader.rest whole orderly found later pc cause timer
  cases effect with
  | register sid role => cases acts
  | @closeOld _ sv _ found at_ =>
      cases acts
      obtain ⟨closed, closedFound, -⟩ := closeConn_serve _ found
      rw [eq_of_modServe_serve closedFound after]
      exact .inside rfl (fun _ => by simp)
        ((orderly.reader found).inLoop (by simp [at_, Pc.left])) (fun error => by cases error)
  | noOld found at_ =>
      cases acts
      rw [eq_of_modServe_serve found after]
      exact .inside rfl (fun _ => by simp)
        ((orderly.reader found).inLoop (by simp [at_, Pc.left])) (fun error => by cases error)
  | @readChunk _ sv p rerr found at_ _ _ =>
      cases acts
      rw [eq_of_modServe_serve found after]
      refine .inside rfl (fun _ => by simp)
        ((orderly.reader found).inLoop (by simp [at_, Pc.left])) fun error => ?_
      cases rerr
      · cases error
      · exact faithful sv found
  | @readError _ sv found at_ =>
      cases acts
      rw [eq_of_modServe_serve found after]
      exact .leave rfl rfl (faithful sv found)
  | readNothing found at_ =>
      cases acts
      exact orderly.reader after
  | capture found at_ current occupied | wait found at_ current empty | wake found at_ closed =>
      cases acts
      rw [eq_of_modServe_serve found after]
      exact .inside rfl (fun _ => by simp)
        ((orderly.reader found).inLoop (by simp [at_, Pc.left]))
        fun error => (orderly.reader found).pending (by simpa [at_, Pc.pendingError] using error)
  | @replaced _ sv _ _ found at_ retired =>
      cases acts
      rw [eq_of_modServe_serve found after]
      have same : ({ sv with pc := .exit, cause := some .replaced } : Serve).ident = sv.ident := rfl
      exact .leave rfl rfl
        (whole.retired orderly.wf found same ((mappedCurrent_eq_false_iff s sv nc).mp retired))
  | written found at_ =>
      cases acts
      rw [eq_of_modServe_serve (s := s.deliver _) found after]
      exact .inside rfl (fun _ => by simp)
        ((orderly.reader found).inLoop (by simp [at_, Pc.left])) (fun error => by cases error)
  | writtenLast found at_ =>
      cases acts
      rw [eq_of_modServe_serve (s := s.deliver _) found after]
      exact .leave rfl rfl ((orderly.reader found).pending (by simp [at_, Pc.pendingError]))
  | @writeFailed _ peer sv _ _ found at_ =>
      cases acts
      have holds : s.CauseHolds sv nc (.writeFailed peer) :=
        faithful sv found peer (by simp [Pc.captured, at_])
      obtain ⟨later', found', later⟩ := whole.later orderly found
      rw [after, Option.some.injEq] at found'
      subst found'
      rw [eq_of_modServe_serve found after] at later ⊢
      exact .leave rfl rfl (holds.next whole orderly found later)
  | deadline found at_ =>
      cases acts
      rw [eq_of_modServe_serve found after]
      exact .leave rfl rfl trivial
  | @exit _ sv found at_ =>
      cases acts
      obtain ⟨cause, why, holds⟩ := (orderly.reader found).outOfLoop (by simp [at_, Pc.left])
      obtain ⟨peer, afterExit, retired, peerOut⟩ := exitBlock_retires orderly.wf found
      obtain ⟨later', found', later⟩ := whole.later orderly found
      rw [afterExit, Option.some.injEq] at found' after
      subst found' after
      refine .outside rfl why (holds.next whole orderly found later) (fun _ _ => retired) ?_
      intro q at'
      rcases at' with at' | at'
      · exact peerOut q (Pc.closeSelf.inj at')
      · cases at'
  | @closeSelf _ peer sv found at_ =>
      cases acts
      obtain ⟨cause, why, holds⟩ := (orderly.reader found).outOfLoop (by simp [at_, Pc.left])
      obtain ⟨later', found', later⟩ := whole.later orderly found
      rw [after, Option.some.injEq] at found'
      subst found'
      obtain ⟨closed, closedFound, -⟩ := closeConn_serve nc found
      rw [eq_of_modServe_serve closedFound after] at later ⊢
      refine .outside rfl why (holds.next whole orderly found later) (fun _ at' => by cases at') ?_
      intro q at'
      rcases at' with at' | at'
      · cases at'
      · cases at'
        exact whole.unmapped orderly ((orderly.reader found).peerOut (.inl at_))
  | @closeLast _ sv found at_ =>
      cases acts
      obtain ⟨cause, why, holds⟩ := (orderly.reader found).outOfLoop (by simp [at_, Pc.left])
      obtain ⟨later', found', later⟩ := whole.later orderly found
      rw [after, Option.some.injEq] at found'
      subst found'
      obtain ⟨closed, closedFound, -⟩ := closeConn_serve nc found
      rw [eq_of_modServe_serve closedFound after] at later ⊢
      exact .outside rfl why (holds.next whole orderly found later) (fun _ at' => by cases at')
        fun q at' => by rcases at' with at' | at' <;> cases at'
  | @closePeer _ peer sv found at_ =>
      cases acts
      obtain ⟨cause, why, holds⟩ := (orderly.reader found).outOfLoop (by simp [at_, Pc.left])
      obtain ⟨later', found', later⟩ := whole.later orderly found
      rw [after, Option.some.injEq] at found'
      subst found'
      obtain ⟨closed, closedFound, -⟩ := closeConn_serve peer found
      rw [eq_of_modServe_serve closedFound after] at later ⊢
      exact .outside rfl why (holds.next whole orderly found later) (fun _ at' => by cases at')
        fun q at' => by rcases at' with at' | at' <;> cases at'
  | timerLone found armed _ _ | timerPaired found armed _ =>
      cases acts
      have svEq := eq_of_modServe_serve found after
      subst svEq
      exact stays found rfl rfl fun unset => by simp [armed] at unset
  | timerClose found closing =>
      cases acts
      obtain ⟨closed, closedFound, -⟩ := closeConn_serve _ found
      have svEq := eq_of_modServe_serve closedFound after
      subst svEq
      exact stays found rfl rfl fun unset => by simp [closing] at unset
  | die found =>
      cases acts
      have svEq := eq_of_modServe_serve found after
      subst svEq
      exact stays found rfl rfl id

theorem Effect.orderly {s next : State} {action : Action} (effect : Effect s action next)
    (orderly : Orderly s) (faithful : Faithful s action) : Orderly next where
  wf := effect.wf orderly.wf
  reader nc sv' after := by
    rcases effect.serve_back orderly.wf after with
      acts | ⟨-, sv, closed, found, rfl, kept⟩ | ⟨rfl, sid, role, rfl, rfl⟩
    · exact effect.reader_self orderly faithful acts after
    · exact Reader.rest effect orderly found (Serve.later_of_eq rfl kept rfl rfl rfl) rfl rfl id
    · cases effect
      exact .fresh orderly.wf sid role

/-! ## Who gets closed -/

/-- An update of one record that keeps the `closed` flag keeps it everywhere. -/
theorem State.closed_modServe {t : State} {nc d : ConnId} {f : Serve → Serve} {sv sv' : Serve}
    (after : (t.modServe nc f).serve d = some sv') (found : t.serve d = some sv)
    (same : ∀ sv, (f sv).closed = sv.closed) : sv'.closed = sv.closed := by
  by_cases moved : d = nc
  · subst moved
    rw [eq_of_modServe_serve found after, same]
  · rw [modServe_serve_ne f moved, found, Option.some.injEq] at after
    rw [after]

/-- A step closes a connection that is retired, or one the two-minute rule has
been applied to. -/
theorem Effect.closes {s next : State} {action : Action} (effect : Effect s action next)
    (orderly : Orderly s) {d : ConnId} {sv sv' : Serve} (found : s.serve d = some sv)
    (after : next.serve d = some sv') (closed : sv'.closed = true) :
    sv.closed = true ∨ s.Retired sv d ∨ sv'.Ruled := by
  have closing : ∀ {nc other : ConnId} {f : Serve → Serve},
      ((s.closeConn other).modServe nc f).serve d = some sv' →
      (∀ sv, (f sv).closed = sv.closed) → (d = other → s.Retired sv d) →
      sv.closed = true ∨ s.Retired sv d ∨ sv'.Ruled := by
    intro nc other f after same out
    obtain ⟨flag, flagFound, -, cause⟩ := closeConn_serve other found
    have flagged : sv'.closed = flag := closed_modServe after flagFound same
    exact (cause (flagged.symm.trans closed)).imp_right fun hit => .inl (out hit)
  cases effect with
  | register sid role =>
      rw [register_serve, Function.update_of_ne (Nat.ne_of_lt (orderly.wf.conn_lt found)), found,
        Option.some.injEq] at after
      exact .inl (after ▸ closed)
  | closeOld found' at_ =>
      apply closing after (fun _ => rfl)
      intro hit
      obtain ⟨other, otherFound, out⟩ := (orderly.reader found').oldOut at_
      rw [← hit, found, Option.some.injEq] at otherFound
      subst otherFound hit
      exact fun current => out current.2
  | closeSelf found' at_ | closeLast found' at_ =>
      apply closing after (fun _ => rfl)
      intro hit
      subst hit
      cases found.symm.trans found'
      exact (orderly.reader found').retired at_
  | closePeer found' at_ =>
      apply closing after (fun _ => rfl)
      intro hit
      obtain ⟨other, otherFound, out⟩ := (orderly.reader found').peerOut (.inr at_)
      rw [← hit, found, Option.some.injEq] at otherFound
      subst otherFound
      exact fun current => out current.1
  | @timerClose nc _ _ _ =>
      by_cases hit : d = nc
      · subst hit
        obtain ⟨flag, flagFound, -⟩ := closeConn_serve d found
        rw [eq_of_modServe_serve flagFound after]
        exact .inr (.inr (.inr (.inl rfl)))
      · exact closing after (fun _ => rfl) fun same => absurd same hit
  | exit =>
      unfold exitBlock at after
      split at after <;> exact .inl ((closed_modServe after found fun _ => rfl).symm.trans closed)
  | readNothing =>
      rw [found, Option.some.injEq] at after
      exact .inl (after ▸ closed)
  | _ => exact .inl ((closed_modServe after found fun _ => rfl).symm.trans closed)

/-! ## Confinement of a step -/

theorem Serve.Later.se_eq {sv sv' : Serve} (later : sv.Later sv') :
    sv'.sid = sv.sid ∧ sv'.role = sv.role ∧ sv'.se = sv.se := by
  simpa only [Serve.ident, Prod.mk.injEq] using later.ident

theorem State.Afflicted.of_occupant {s : State} {d : ConnId} {sv : Serve}
    (found : s.serve d = some sv) (occupant : s.Occupant sv d)
    (why : sv.dead = true ∨ sv.Ruled) : s.Afflicted sv.se :=
  ⟨sv.role, d, occupant, sv, found, why⟩

theorem State.Afflicted.elim {s : State} (wf : Wf s) {i : SessId} (afflicted : s.Afflicted i) :
    ∃ d sv, s.serve d = some sv ∧ sv.se = i ∧ s.Occupant sv d ∧ (sv.dead = true ∨ sv.Ruled) := by
  obtain ⟨role, d, occupied, sv, found, why⟩ := afflicted
  obtain ⟨other, otherFound, seEq, roleEq⟩ := wf.slot_serve occupied
  cases otherFound.symm.trans found
  exact ⟨d, sv, found, seEq, by rw [Occupant, seEq, roleEq]; exact occupied, why⟩

/-- What has happened to an occupant of a frozen session object stays. -/
theorem State.Afflicted.next {s next : State} {action : Action} (effect : Effect s action next)
    (orderly : Orderly s) {i : SessId}
    (frozen : ∀ role, (next.sess i).slot role = (s.sess i).slot role) (afflicted : s.Afflicted i) :
    next.Afflicted i := by
  obtain ⟨role, d, occupied, sv, found, why⟩ := afflicted
  obtain ⟨sv', found', later⟩ := effect.later orderly found
  exact ⟨role, d, (frozen role).trans occupied, sv', found', why.imp later.dead later.ruled⟩

/-- An occupant after a step was one before, or has just registered. -/
theorem Effect.occupant_back {s next : State} {action : Action} (effect : Effect s action next)
    (orderly : Orderly s) {d : ConnId} {sv sv' : Serve} (found : s.serve d = some sv)
    (later : sv.Later sv') (occupant : next.Occupant sv' d) : s.Occupant sv d := by
  obtain ⟨-, roleEq, seEq⟩ := later.se_eq
  by_contra out
  rw [Occupant, roleEq, seEq] at occupant
  exact effect.slot_ne out (orderly.wf.conn_lt found) (orderly.wf.sess_lt found) occupant

theorem Effect.mapped_back {s next : State} {action : Action} (effect : Effect s action next)
    (orderly : Orderly s) {d : ConnId} {sv sv' : Serve} (found : s.serve d = some sv)
    (later : sv.Later sv') (mapped : next.Mapped sv') : s.Mapped sv := by
  obtain ⟨sidEq, -, seEq⟩ := later.se_eq
  by_contra out
  rw [Mapped, sidEq, seEq] at mapped
  exact effect.sessions_ne out (orderly.wf.sess_lt found) mapped

/-- A record after a step continues one before, or belongs to a registration
that has just been mapped. -/
theorem Effect.origin {s next : State} {action : Action} (effect : Effect s action next)
    (orderly : Orderly s) {d : ConnId} {sv' : Serve} (after : next.serve d = some sv') :
    (∃ sv, s.serve d = some sv ∧ sv.Later sv') ∨
      (sv'.closed = false ∧ next.Mapped sv') := by
  cases before : s.serve d with
  | some sv =>
      obtain ⟨later', found', later⟩ := effect.later orderly before
      rw [after, Option.some.injEq] at found'
      exact .inl ⟨sv, rfl, found' ▸ later⟩
  | none =>
      rcases effect.serve_back orderly.wf after with
        acts | ⟨-, sv, closed, found, -, -⟩ | ⟨-, sid, role, rfl, rfl⟩
      · obtain ⟨sv, found, -⟩ :=
          (effect.keeps (by simp [acts])).serve_back after
        rw [before] at found
        cases found
      · rw [before] at found
        cases found
      · cases effect
        exact .inr ⟨rfl, by simp [Mapped]⟩

/-- A step that drops no session entry keeps the relay confined; one that does
has to leave an affliction behind. -/
theorem Effect.confined {s next : State} {action : Action} (effect : Effect s action next)
    (orderly : Orderly s) (confined : Confined s)
    (drops : ∀ ⦃d sv⦄, s.serve d = some sv → s.Occupant sv d → s.Mapped sv →
      next.sessions sv.sid ≠ some sv.se → next.Afflicted sv.se) : Confined next where
  closed d sv' after occupant mapped closed := by
    rcases effect.origin orderly after with ⟨sv, found, later⟩ | ⟨notClosed, -⟩
    · have wasOccupant := effect.occupant_back orderly found later occupant
      have wasMapped := effect.mapped_back orderly found later mapped
      rcases effect.closes orderly found after closed with before | retired | ruled
      · exact later.ruled (confined.closed found wasOccupant wasMapped before)
      · exact absurd ⟨wasMapped, wasOccupant⟩ retired
      · exact ruled
    · rw [notClosed] at closed
      cases closed
  deleted d sv' after occupant unmapped := by
    rcases effect.origin orderly after with ⟨sv, found, later⟩ | ⟨-, mapped⟩
    · obtain ⟨sidEq, -, seEq⟩ := later.se_eq
      have wasOccupant := effect.occupant_back orderly found later occupant
      rw [seEq]
      by_cases wasMapped : s.Mapped sv
      · exact drops found wasOccupant wasMapped (by rwa [Mapped, sidEq, seEq] at unmapped)
      · exact (confined.deleted found wasOccupant wasMapped).next effect orderly
          (effect.frozen orderly.wf found wasMapped)
    · exact absurd mapped unmapped

/-- Only exit blocks drop session entries. -/
theorem Effect.mapped_forth {s next : State} {action : Action} (effect : Effect s action next)
    (exits : ∀ nc, action ≠ .exit nc) {sv : Serve} (mapped : s.Mapped sv) :
    next.sessions sv.sid = some sv.se := by
  cases action with
  | register sid role =>
      cases effect
      rw [register_sessions]
      by_cases same : sv.sid = sid
      · subst same
        rw [Function.update_self, target_of_mapped s mapped]
      · rwa [Function.update_of_ne same]
  | _ =>
      rcases effect.sessions (by simp [Action.actor]) with same | ⟨nc, other, isExit, -⟩
      · rw [same]
        exact mapped
      · exact absurd isExit (exits nc)

/-- The exit block of a current reader leaves an affliction behind exactly when
it is not a stale exit. -/
theorem Orderly.afflicted_of_exit {s : State} (orderly : Orderly s) (confined : Confined s)
    {nc : ConnId} {sv : Serve} (found : s.serve nc = some sv) (at_ : sv.pc = .exit)
    (mapped : s.Mapped sv) (occupant : s.Occupant sv nc) (fresh : NoStaleExit s (.exit nc)) :
    s.Afflicted sv.se := by
  obtain ⟨cause, why, holds⟩ := (orderly.reader found).outOfLoop (by simp [at_, Pc.left])
  cases cause with
  | readError =>
      refine .of_occupant found occupant ?_
      rcases holds with closed | dead
      · exact .inr (confined.closed found occupant mapped closed)
      · exact .inl dead
  | replaced => exact absurd ⟨mapped, occupant⟩ holds
  | noPeer => exact .of_occupant found occupant (.inr (.inr (.inr why)))
  | writeFailed peer =>
      obtain occupied | afflicted :=
        fresh sv found peer (by simp [Serve.failedPeer, why])
          ((mappedCurrent_iff s sv nc).mpr ⟨mapped, occupant⟩)
      · -- the peer still occupies the opposite slot, so its failure is an affliction
        obtain ⟨other, otherFound, failed⟩ := holds
        obtain ⟨other', otherFound', seEq, roleEq⟩ := orderly.wf.slot_serve occupied
        rw [otherFound, Option.some.injEq] at otherFound'
        subst otherFound'
        have otherOccupant : s.Occupant other peer := by rwa [Occupant, seEq, roleEq]
        have otherMapped : s.Mapped other := by
          rw [Mapped, seEq, orderly.wf.same_sid otherFound found seEq]
          exact mapped
        rw [← seEq]
        refine .of_occupant otherFound otherOccupant ?_
        rcases failed with closed | dead
        · exact .inr (confined.closed otherFound otherOccupant otherMapped closed)
        · exact .inl dead
      · exact afflicted

/-- Under faithful failures a step keeps the relay confined exactly when it is
not a stale exit. -/
theorem Effect.confined_iff {s next : State} {action : Action} (effect : Effect s action next)
    (orderly : Orderly s) (confined : Confined s) :
    Confined next ↔ NoStaleExit s action := by
  by_cases exits : ∃ nc, action = .exit nc
  · obtain ⟨nc, rfl⟩ := exits
    have keeps := effect.keeps (by simp [Action.actor])
    have nextWf := effect.wf orderly.wf
    have frozen : ∀ i role, (next.sess i).slot role = (s.sess i).slot role := keeps.slot
    constructor
    · intro nextConfined sv found peer _ current
      refine .inr ?_
      obtain ⟨mapped, occupant⟩ := (mappedCurrent_iff s sv nc).mp current
      cases effect with
      | exit found' at_ =>
          cases found.symm.trans found'
          obtain ⟨q, after, retired, -⟩ := exitBlock_retires orderly.wf found
          have occupant' : (s.exitBlock sv nc).Occupant { sv with pc := .closeSelf q } nc := by
            rw [Occupant, frozen]
            exact occupant
          have unmapped : ¬ (s.exitBlock sv nc).Mapped { sv with pc := .closeSelf q } :=
            fun stillMapped => retired ⟨stillMapped, occupant'⟩
          -- the exit block touches neither flags nor timers, so the affliction is an old one
          obtain ⟨d, hit', hitFound', seEq, hitOccupant, whyHit⟩ :=
            (nextConfined.deleted after occupant' unmapped).elim nextWf
          obtain ⟨hit, hitFound, sameSid, roleEq, sameSe⟩ := keeps.serve_back hitFound'
          have flags : hit'.dead = hit.dead ∧ (hit'.Ruled ↔ hit.Ruled) := by
            by_cases own : d = nc
            · subst own
              rw [found, Option.some.injEq] at hitFound
              rw [after, Option.some.injEq] at hitFound'
              subst hitFound hitFound'
              exact ⟨rfl, Iff.rfl⟩
            · have rests : (Action.exit nc).actor ≠ some d :=
                fun same => own (Option.some.inj same).symm
              obtain ⟨closed, rested, -⟩ :=
                (Effect.exit found at_).others hitFound (orderly.wf.conn_lt hitFound) rests
              rw [hitFound', Option.some.injEq] at rested
              subst rested
              exact ⟨rfl, Iff.rfl⟩
          have seEq' : hit.se = sv.se := sameSe.trans seEq
          rw [← seEq']
          refine .of_occupant hitFound ?_ ?_
          · rwa [Occupant, frozen, ← roleEq, ← sameSe] at hitOccupant
          · rwa [flags.1, flags.2] at whyHit
    · intro fresh
      apply effect.confined orderly confined
      intro d sv found occupant mapped dropped
      rcases effect.sessions (by simp [Action.actor]) with same | ⟨nc', exiting, sameNc, rest⟩
      · rw [same] at dropped
        exact absurd mapped dropped
      · obtain ⟨exitFound, exitMapped, exitOccupant, droppedOne⟩ := rest
        cases sameNc
        have sidEq : sv.sid = exiting.sid := by
          by_contra ne
          rw [droppedOne, Function.update_of_ne ne] at dropped
          exact dropped mapped
        have seEq : exiting.se = sv.se := by
          have both := exitMapped
          rw [Mapped, ← sidEq, mapped, Option.some.injEq] at both
          exact both.symm
        have at_ : exiting.pc = .exit := by
          cases effect with
          | exit found' at_ =>
              cases exitFound.symm.trans found'
              exact at_
        have afflicted :=
          orderly.afflicted_of_exit confined exitFound at_ exitMapped exitOccupant fresh
        rw [← seEq]
        exact afflicted.next effect orderly (frozen exiting.se)
  · have noExit : ∀ nc, action ≠ .exit nc := fun nc same => exits ⟨nc, same⟩
    refine iff_of_true ?_ ?_
    · apply effect.confined orderly confined
      intro d sv _ _ mapped dropped
      exact absurd (effect.mapped_forth noExit mapped) dropped
    · cases action with
      | exit nc => exact absurd rfl (noExit nc)
      | _ => trivial

/-! ## Runs -/

theorem confined_init : Confined State.init where
  closed _ _ found := by cases found
  deleted _ _ found := by cases found

/-- A run in which reads and writes fail faithfully stays confined exactly when
none of its exit blocks is stale. -/
theorem takeover_confined_iff (actions : List Action)
    (faithful : Along step Faithful State.init actions) :
    Always step Confined State.init actions ↔ Along step NoStaleExit State.init actions :=
  always_iff_along
    (fun _ _ _ orderly faithful taken => (effect_of_step taken).orderly orderly faithful)
    (fun _ _ _ orderly confined _ taken => (effect_of_step taken).confined_iff orderly confined)
    orderly_init confined_init faithful

/-- Source 0 captures viewer 1, viewer 2 takes the slot over and viewer 1 is
closed, and only then does the reader of 0 write. -/
def staleRun : List Action :=
  [.register (ascii "s") .source, .closeOld 0, .register (ascii "s") .viewer, .closeOld 1,
    .read 0 (ascii "x") false, .lookup 0,
    .register (ascii "s") .viewer, .closeOld 2,
    .write 0 false, .exit 0, .closeSelf 0, .closePeer 0]

/-- Nobody dies and no timer fires, yet the takeover by viewer 2 ends with the
entry deleted and both the source and viewer 2 closed. -/
theorem takeover_spreads :
    Along step Faithful State.init staleRun ∧
      (exec step State.init staleRun).map (fun s =>
        (s.sessions (ascii "s"), (s.serve 0).map Serve.closed, (s.serve 2).map Serve.closed)) =
          some (none, some true, some true) ∧
      ¬ Always step Confined State.init staleRun := by
  refine ⟨by decide, by decide, fun always => ?_⟩
  obtain ⟨s, run⟩ : ∃ s, exec step State.init staleRun = some s := Option.isSome_iff_exists.mp
    (by decide)
  have deleted : ∀ sv ∈ s.serve 0, s.Occupant sv 0 → ¬ s.Mapped sv → s.Afflicted sv.se :=
    fun sv found => (always.last run).deleted found
  have stale : ∀ t ∈ exec step State.init staleRun,
      ∃ sv ∈ t.serve 0, t.Occupant sv 0 ∧ ¬ t.Mapped sv ∧ ¬ t.Afflicted sv.se := by
    decide
  obtain ⟨sv, found, occupant, unmapped, spared⟩ := stale s run
  exact spared (deleted sv found occupant unmapped)

/-- The same takeover with the write before it: the run stays confined. -/
def orderlyRun : List Action :=
  [.register (ascii "s") .source, .closeOld 0, .register (ascii "s") .viewer, .closeOld 1,
    .read 0 (ascii "x") false, .lookup 0, .write 0 true,
    .register (ascii "s") .viewer, .closeOld 2, .read 1 [] true, .exit 1, .closeSelf 1]

theorem orderlyRun_confined : Always step Confined State.init orderlyRun :=
  (takeover_confined_iff orderlyRun (by decide)).mpr (by decide)

end Drover.Relay
