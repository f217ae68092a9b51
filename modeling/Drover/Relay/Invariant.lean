import Drover.Relay.Transparency

/-!
# The registry invariant

What holds of the session map whenever the mutex is free: who occupies the slots
of an entry, that its broadcast channel is open, and that a reader asleep on an
open channel is the current occupant with nobody opposite.  The last one says
that no wakeup is lost; it rests on `Effect.untouched_or_broadcast`, by which
every change to a session object closes the channel its readers may hold.
-/

namespace Drover.Relay

open Drover.Transition
open State

/-- The exit block has been executed. -/
def Pc.exited : Pc → Bool
  | .closeSelf _ | .closePeer _ | .done => true
  | _ => false

/-- What the relay promises of its registry whenever the mutex is free. -/
structure RegistryInvariant (s : State) : Prop where
  /-- a slot of an entry holds a connection of that key and role whose `serve`
  call is before its exit block -/
  occupant : ∀ ⦃sid i role nc⦄, s.sessions sid = some i → (s.sess i).slot role = some nc →
    ∃ sv, s.serve nc = some sv ∧ sv.sid = sid ∧ sv.role = role ∧ sv.pc.exited = false
  inhabited : ∀ ⦃sid i⦄, s.sessions sid = some i → ∃ role nc, (s.sess i).slot role = some nc
  changeOpen : ∀ ⦃sid i⦄, s.sessions sid = some i → s.chanClosed (s.sess i).change = false
  /-- no closed channel has been closed -/
  sound : s.panicked = false
  /-- no wakeup is lost -/
  asleep : ∀ ⦃nc sv ch p rerr⦄, s.serve nc = some sv → sv.pc = .wait ch p rerr →
    s.chanClosed ch = false →
      s.Mapped sv ∧ s.Occupant sv nc ∧ (s.sess sv.se).slot sv.role.opposite = none
  released : ∀ ⦃sid⦄, (∀ nc sv, s.serve nc = some sv → sv.sid = sid → sv.pc = .done) →
    s.sessions sid = none

/-- Both slots of a session object hold a connection. -/
def State.Paired (s : State) (i : SessId) : Prop :=
  ∀ role, ((s.sess i).slot role).isSome = true

/-! ## Channels -/

/-- The channels of the allocated session objects are open and pairwise
different, and no channel has been closed twice. -/
structure Channels (s : State) : Prop where
  change_lt : ∀ ⦃i⦄, i < s.nextSess → (s.sess i).change < s.nextChan
  change_open : ∀ ⦃i⦄, i < s.nextSess → s.chanClosed (s.sess i).change = false
  change_inj : ∀ ⦃i j⦄, i < s.nextSess → j < s.nextSess →
    (s.sess i).change = (s.sess j).change → i = j
  fresh_open : ∀ ⦃ch⦄, s.nextChan ≤ ch → s.chanClosed ch = false
  sound : s.panicked = false

theorem channels_init : Channels State.init where
  change_lt _ allocated := by cases allocated
  change_open _ allocated := by cases allocated
  change_inj _ _ allocated _ _ := by cases allocated
  fresh_open _ _ := rfl
  sound := rfl

/-- A new session object comes with a new channel. -/
theorem Channels.openSess {s : State} (channels : Channels s) (sid : Bytes) :
    Channels (s.openSess sid).1 := by
  cases mapped : s.sessions sid with
  | some i => simpa [State.openSess, mapped] using channels
  | none =>
      have cases_ : ∀ {i}, i < s.nextSess + 1 → i < s.nextSess ∨ i = s.nextSess :=
        fun allocated => Nat.lt_succ_iff_lt_or_eq.mp allocated
      have old : ∀ {i}, i < s.nextSess →
          Function.update s.sess s.nextSess ({ change := s.nextChan } : Sess) i = s.sess i :=
        fun allocated => Function.update_of_ne (Nat.ne_of_lt allocated) _ _
      simp only [State.openSess, mapped]
      constructor
      case change_lt =>
        intro i allocated
        rcases cases_ allocated with before | rfl
        · simp only [old before]
          exact Nat.lt_succ_of_lt (channels.change_lt before)
        · simp
      case change_open =>
        intro i allocated
        rcases cases_ allocated with before | rfl
        · simp only [old before]
          exact channels.change_open before
        · simpa using channels.fresh_open (Nat.le_refl _)
      case change_inj =>
        intro i j iAllocated jAllocated same
        rcases cases_ iAllocated with iBefore | rfl <;>
          rcases cases_ jAllocated with jBefore | rfl
        · simp only [old iBefore, old jBefore] at same
          exact channels.change_inj iBefore jBefore same
        · simp only [old iBefore, Function.update_self] at same
          exact absurd same (Nat.ne_of_lt (channels.change_lt iBefore))
        · simp only [old jBefore, Function.update_self] at same
          exact absurd same.symm (Nat.ne_of_lt (channels.change_lt jBefore))
        · rfl
      case fresh_open =>
        intro ch fresh
        exact channels.fresh_open (Nat.le_of_succ_le fresh)
      case sound => exact channels.sound

/-- A broadcast closes an open channel and replaces it by a new one. -/
theorem Channels.broadcast {s : State} (channels : Channels s) {i : SessId}
    (allocated : i < s.nextSess) : Channels (s.broadcast i) := by
  have moved : ∀ {j}, j ≠ i → ((s.broadcast i).sess j).change = (s.sess j).change := by
    intro j ne
    simp [State.broadcast, ne]
  have renewed : ((s.broadcast i).sess i).change = s.nextChan := by
    simp [State.broadcast]
  have stillOpen : ∀ {ch}, ch ≠ (s.sess i).change →
      (s.broadcast i).chanClosed ch = s.chanClosed ch := by
    intro ch ne
    simp [State.broadcast, ne]
  constructor
  case change_lt =>
    intro j jAllocated
    by_cases same : j = i
    · rw [same, renewed]
      exact Nat.lt_succ_self _
    · rw [moved same]
      exact Nat.lt_succ_of_lt (channels.change_lt jAllocated)
  case change_open =>
    intro j jAllocated
    by_cases same : j = i
    · rw [same, renewed, stillOpen (Nat.ne_of_gt (channels.change_lt allocated))]
      exact channels.fresh_open (Nat.le_refl _)
    · rw [moved same, stillOpen fun clash => same (channels.change_inj jAllocated allocated clash)]
      exact channels.change_open jAllocated
  case change_inj =>
    intro j k jAllocated kAllocated
    by_cases jSame : j = i <;> by_cases kSame : k = i
    · exact fun _ => jSame.trans kSame.symm
    · rw [jSame, renewed, moved kSame]
      exact fun clash => absurd clash.symm (Nat.ne_of_lt (channels.change_lt kAllocated))
    · rw [kSame, renewed, moved jSame]
      exact fun clash => absurd clash (Nat.ne_of_lt (channels.change_lt jAllocated))
    · rw [moved jSame, moved kSame]
      exact channels.change_inj jAllocated kAllocated
  case fresh_open =>
    intro ch fresh
    rw [stillOpen (Nat.ne_of_gt (Nat.lt_of_lt_of_le (channels.change_lt allocated)
      (Nat.le_of_succ_le fresh)))]
    exact channels.fresh_open (Nat.le_of_succ_le fresh)
  case sound =>
    simp [State.broadcast, channels.sound, channels.change_open allocated]

theorem Channels.congr {s next : State} (channels : Channels s)
    (change : ∀ i, (next.sess i).change = (s.sess i).change) (nextSess : next.nextSess = s.nextSess)
    (nextChan : next.nextChan = s.nextChan) (chanClosed : next.chanClosed = s.chanClosed)
    (panicked : next.panicked = s.panicked) : Channels next where
  change_lt i allocated := by
    rw [change, nextChan]
    exact channels.change_lt (nextSess ▸ allocated)
  change_open i allocated := by
    rw [change, chanClosed]
    exact channels.change_open (nextSess ▸ allocated)
  change_inj i j iAllocated jAllocated same := by
    rw [change, change] at same
    exact channels.change_inj (nextSess ▸ iAllocated) (nextSess ▸ jAllocated) same
  fresh_open ch fresh := by
    rw [chanClosed]
    exact channels.fresh_open (nextChan ▸ fresh)
  sound := panicked.trans channels.sound

theorem State.openSess_lt {s : State} (wf : Wf s) (sid : Bytes) :
    (s.openSess sid).2 < (s.openSess sid).1.nextSess := by
  cases mapped : s.sessions sid with
  | none => simp [openSess, mapped]
  | some i => simpa [openSess, mapped] using wf.map_lt mapped

theorem Channels.register {s : State} (channels : Channels s) (wf : Wf s) (sid : Bytes)
    (role : Role) : Channels (s.register sid role) := by
  have opened := channels.openSess sid
  have placed : Channels { (s.openSess sid).1 with
      sess := Function.update (s.openSess sid).1.sess (s.openSess sid).2
        (((s.openSess sid).1.sess (s.openSess sid).2).setSlot role
          (s.openSess sid).1.nextConn) } := by
    refine opened.congr (fun i => ?_) rfl rfl rfl rfl
    by_cases same : i = (s.openSess sid).2
    · subst same
      cases role <;> simp [Sess.setSlot]
    · simp [same]
  exact (placed.broadcast (State.openSess_lt wf sid)).congr (fun _ => rfl) rfl rfl rfl rfl

theorem Effect.channels {s next : State} {action : Action} (effect : Effect s action next)
    (wf : Wf s) (channels : Channels s) : Channels next := by
  cases effect with
  | register sid role => exact channels.register wf sid role
  | @exit nc sv found at_ =>
      unfold exitBlock
      split
      · have dropped : Channels { s with sessions := Function.update s.sessions sv.sid none } :=
          channels.congr (fun _ => rfl) rfl rfl rfl rfl
        exact (dropped.broadcast (wf.sess_lt found)).congr (fun _ => rfl) rfl rfl rfl rfl
      · exact channels.congr (fun _ => rfl) rfl rfl rfl rfl
  | readNothing => exact channels
  | _ => exact channels.congr (fun _ => rfl) rfl rfl rfl rfl

/-! ## No lost wakeup -/

theorem State.register_sess_ne (s : State) (sid : Bytes) (role : Role) {i : SessId}
    (ne : i ≠ s.target sid) : (s.register sid role).sess i = s.sess i := by
  cases mapped : s.sessions sid with
  | none =>
      rw [target_of_unmapped s mapped] at ne
      simp [register, openSess, mapped, broadcast, ne]
  | some j =>
      rw [target_of_mapped s mapped] at ne
      simp [register, openSess, mapped, broadcast, ne]

theorem State.register_chanClosed (s : State) (sid : Bytes) (role : Role) :
    (s.register sid role).chanClosed = Function.update s.chanClosed
      (if s.sessions sid = none then s.nextChan else (s.sess (s.target sid)).change) true := by
  cases mapped : s.sessions sid <;> cases role <;>
    simp [register, openSess, mapped, target, broadcast, Sess.setSlot]

/-- A session object is left alone, or the channel it had is closed. -/
theorem Effect.untouched_or_broadcast {s next : State} {action : Action}
    (effect : Effect s action next) {i : SessId} (allocated : i < s.nextSess) :
    (next.sess i = s.sess i ∧ ∀ sid, next.sessions sid = some i ↔ s.sessions sid = some i) ∨
      next.chanClosed (s.sess i).change = true := by
  cases effect with
  | register sid role =>
      by_cases hit : i = s.target sid
      · apply Or.inr
        cases mapped : s.sessions sid with
        | none =>
            rw [target_of_unmapped s mapped] at hit
            exact absurd hit (Nat.ne_of_lt allocated)
        | some j => simp [register_chanClosed, mapped, hit]
      · refine .inl ⟨s.register_sess_ne sid role hit, fun other => ?_⟩
        rw [register_sessions]
        by_cases same : other = sid
        · subst same
          rw [Function.update_self]
          constructor
          · exact fun taken => absurd (Option.some.inj taken).symm hit
          · exact fun mapped => absurd (target_of_mapped s mapped).symm hit
        · rw [Function.update_of_ne same]
  | @exit nc sv found at_ =>
      unfold exitBlock
      split
      · rename_i current
        by_cases hit : i = sv.se
        · subst hit
          exact .inr (by simp [modServe, broadcast])
        · refine .inl ⟨by simp [broadcast, hit], fun other => ?_⟩
          have mapped := ((mappedCurrent_iff s sv nc).mp current).1
          by_cases same : other = sv.sid
          · subst same
            simp only [modServe_sessions, broadcast_sessions, Function.update_self, reduceCtorEq,
              false_iff]
            exact fun taken => hit (Option.some.inj (taken.symm.trans mapped))
          · simp [Function.update_of_ne same]
      · exact .inl ⟨rfl, fun _ => Iff.rfl⟩
  | _ => exact .inl ⟨rfl, fun _ => Iff.rfl⟩

/-- A closed channel stays closed. -/
theorem Effect.chanClosed {s next : State} {action : Action} (effect : Effect s action next)
    {ch : ChanId} (closed : s.chanClosed ch = true) : next.chanClosed ch = true := by
  have updated : ∀ other, Function.update s.chanClosed other true ch = true := by
    intro other
    by_cases same : ch = other
    · rw [same, Function.update_self]
    · rw [Function.update_of_ne same, closed]
  cases effect with
  | register sid role =>
      rw [register_chanClosed]
      exact updated _
  | exit =>
      unfold exitBlock
      split
      · exact updated _
      · exact closed
  | _ => exact closed

/-- What the program counter of the reader that moves can become, as far as
sleeping and leaving are concerned. -/
theorem Effect.moved {s next : State} {action : Action} (effect : Effect s action next)
    {nc : ConnId} {sv' : Serve} (acts : action.actor = some nc)
    (after : next.serve nc = some sv') :
    ∃ sv, s.serve nc = some sv ∧ sv'.ident = sv.ident ∧
      (sv'.pc.exited = true → sv.pc.exited = true ∨ next.Retired sv nc) ∧
      (∀ ch p rerr, sv'.pc = .wait ch p rerr → sv.pc = .wait ch p rerr ∨
        next = s.modServe nc (fun sv => { sv with pc := .wait ch p rerr }) ∧
          ch = (s.sess sv.se).change ∧ s.Mapped sv ∧ s.Occupant sv nc ∧
            (s.sess sv.se).slot sv.role.opposite = none) := by
  cases effect with
  | register sid role => cases acts
  | closeOld found _ =>
      cases acts
      obtain ⟨closed, closedFound, -⟩ := closeConn_serve _ found
      cases eq_of_modServe_serve closedFound after
      exact ⟨_, found, rfl, by simp [Pc.exited], by simp⟩
  | closeSelf found at_ | closeLast found at_ | closePeer found at_ =>
      cases acts
      obtain ⟨closed, closedFound, -⟩ := closeConn_serve _ found
      cases eq_of_modServe_serve closedFound after
      exact ⟨_, found, rfl, by simp [at_, Pc.exited], by simp⟩
  | timerClose found _ =>
      cases acts
      obtain ⟨closed, closedFound, -⟩ := closeConn_serve _ found
      cases eq_of_modServe_serve closedFound after
      exact ⟨_, found, rfl, .inl, fun _ _ _ => .inl⟩
  | timerLone found _ _ _ | timerPaired found _ _ | die found =>
      cases acts
      cases eq_of_modServe_serve found after
      exact ⟨_, found, rfl, .inl, fun _ _ _ => .inl⟩
  | readNothing found _ =>
      cases acts
      exact ⟨_, after, rfl, .inl, fun _ _ _ => .inl⟩
  | written found _ | writtenLast found _ =>
      cases acts
      cases eq_of_modServe_serve (s := s.deliver _) found after
      exact ⟨_, found, rfl, by simp [Pc.exited], by simp⟩
  | @exit _ sv found _ =>
      cases acts
      obtain ⟨_, afterExit⟩ := exitBlock_serve_self found
      rw [afterExit, Option.some.injEq] at after
      subst after
      refine ⟨_, found, rfl, fun _ => .inr ?_, by simp⟩
      rintro ⟨mapped, occupant⟩
      rw [Mapped, exitBlock_sessions] at mapped
      rw [Occupant, (keeps_exitBlock s sv nc).slot] at occupant
      cases current : s.mappedCurrent sv nc with
      | true => simp [current] at mapped
      | false =>
          simp only [current, Bool.false_eq_true, if_false] at mapped
          exact (mappedCurrent_eq_false_iff s sv nc).mp current ⟨mapped, occupant⟩
  | wait found _ current empty =>
      cases acts
      cases eq_of_modServe_serve found after
      obtain ⟨mapped, occupant⟩ := (mappedCurrent_iff s _ nc).mp current
      refine ⟨_, found, rfl, by simp [Pc.exited], fun ch p rerr at_ => .inr ?_⟩
      cases at_
      exact ⟨rfl, rfl, mapped, occupant, empty⟩
  | noOld found _ | readChunk found _ _ _ | readError found _ | capture found _ _ _
  | replaced found _ _ | writeFailed found _ | wake found _ _ | deadline found _ =>
      cases acts
      cases eq_of_modServe_serve found after
      exact ⟨_, found, rfl, by simp [Pc.exited], by simp⟩

/-! ## The invariant of the registry -/

/-- A reader asleep has the channel of its session object, unless it is closed. -/
def State.Asleep (s : State) (sv : Serve) (nc : ConnId) (ch : ChanId) : Prop :=
  s.chanClosed ch = true ∨
    ch = (s.sess sv.se).change ∧ s.Mapped sv ∧ s.Occupant sv nc ∧
      (s.sess sv.se).slot sv.role.opposite = none

/-- The invariant behind `RegistryInvariant`. -/
structure Registered (s : State) : Prop where
  wf : Wf s
  channels : Channels s
  inhabited : ∀ ⦃sid i⦄, s.sessions sid = some i → ∃ role nc, (s.sess i).slot role = some nc
  exited : ∀ ⦃nc sv⦄, s.serve nc = some sv → sv.pc.exited = true → s.Retired sv nc
  asleep : ∀ ⦃nc sv ch p rerr⦄, s.serve nc = some sv → sv.pc = .wait ch p rerr →
    s.Asleep sv nc ch

theorem registered_init : Registered State.init where
  wf := wf_init
  channels := channels_init
  inhabited _ _ mapped := by cases mapped
  exited _ _ found := by cases found
  asleep _ _ _ _ _ found := by cases found

theorem Effect.inhabited {s next : State} {action : Action} (effect : Effect s action next)
    (inhabited : ∀ ⦃sid i⦄, s.sessions sid = some i → ∃ role nc, (s.sess i).slot role = some nc)
    {sid : Bytes} {i : SessId} (mapped : next.sessions sid = some i) :
    ∃ role nc, (next.sess i).slot role = some nc := by
  cases action with
  | register other role =>
      cases effect
      by_cases hit : i = s.target other
      · exact ⟨role, s.nextConn, by simp [register_slot, hit]⟩
      · have before : s.sessions sid = some i := by
          rw [register_sessions] at mapped
          by_cases same : sid = other
          · subst same
            rw [Function.update_self] at mapped
            exact absurd (Option.some.inj mapped).symm hit
          · rwa [Function.update_of_ne same] at mapped
        rw [s.register_sess_ne other role hit]
        exact inhabited before
  | _ =>
      have keeps := effect.keeps (by simp [Action.actor])
      have before : s.sessions sid = some i := by
        rcases effect.sessions (by simp [Action.actor]) with same | ⟨_, sv, -, -, -, -, dropped⟩
        · rwa [same] at mapped
        · rw [dropped] at mapped
          by_cases hit : sid = sv.sid
          · subst hit
            simp at mapped
          · rwa [Function.update_of_ne hit] at mapped
      obtain ⟨role, nc, occupied⟩ := inhabited before
      exact ⟨role, nc, (keeps.slot i role).trans occupied⟩

/-- A sleeping reader that does not move stays asleep on the channel of its
session object, or finds it closed. -/
theorem State.Asleep.rest {s next : State} {action : Action} (effect : Effect s action next)
    {nc : ConnId} {sv sv' : Serve} {ch : ChanId} (allocated : sv.se < s.nextSess)
    (same : sv'.ident = sv.ident) (asleep : s.Asleep sv nc ch) : next.Asleep sv' nc ch := by
  simp only [Serve.ident, Prod.mk.injEq] at same
  obtain ⟨sidEq, roleEq, seEq⟩ := same
  rcases asleep with closed | ⟨chEq, mapped, occupant, empty⟩
  · exact .inl (effect.chanClosed closed)
  · rcases effect.untouched_or_broadcast allocated with ⟨untouched, mappings⟩ | closed
    · apply Or.inr
      rw [Mapped, Occupant, sidEq, roleEq, seEq, untouched]
      exact ⟨chEq, (mappings sv.sid).mpr mapped, occupant, empty⟩
    · exact .inl (chEq ▸ closed)

theorem Effect.registered {s next : State} {action : Action} (effect : Effect s action next)
    (registered : Registered s) : Registered next where
  wf := effect.wf registered.wf
  channels := effect.channels registered.wf registered.channels
  inhabited _ _ mapped := effect.inhabited registered.inhabited mapped
  exited nc sv' after exited := by
    rcases effect.serve_back registered.wf after with
      acts | ⟨-, sv, closed, found, rfl, -⟩ | ⟨-, sid, role, -, rfl⟩
    · obtain ⟨sv, found, same, retires, -⟩ := effect.moved acts after
      rcases retires exited with before | retired
      · exact effect.retired registered.wf found same (registered.exited found before)
      · simp only [Serve.ident, Prod.mk.injEq] at same
        rw [Retired, Mapped, Occupant, same.1, same.2.1, same.2.2]
        exact retired
    · exact effect.retired registered.wf found rfl (registered.exited found exited)
    · cases exited
  asleep nc sv' ch p rerr after at_ := by
    rcases effect.serve_back registered.wf after with
      acts | ⟨-, sv, closed, found, rfl, -⟩ | ⟨-, sid, role, -, rfl⟩
    · obtain ⟨sv, found, same, -, sleeps⟩ := effect.moved acts after
      rcases sleeps ch p rerr at_ with before | ⟨rfl, chEq, mapped, occupant, empty⟩
      · exact (registered.asleep found before).rest effect (registered.wf.sess_lt found) same
      · cases eq_of_modServe_serve found after
        exact .inr ⟨chEq, mapped, occupant, empty⟩
    · exact (registered.asleep found at_).rest effect (registered.wf.sess_lt found) rfl
    · cases at_

theorem Registered.invariant {s : State} (registered : Registered s) : RegistryInvariant s := by
  have occupant : ∀ ⦃sid i role nc⦄, s.sessions sid = some i → (s.sess i).slot role = some nc →
      ∃ sv, s.serve nc = some sv ∧ sv.sid = sid ∧ sv.role = role ∧ sv.pc.exited = false := by
    intro sid i role nc mapped occupied
    obtain ⟨sv, found, rfl, rfl⟩ := registered.wf.slot_serve occupied
    have sidEq := registered.wf.map_sid mapped found rfl
    refine ⟨sv, found, sidEq, rfl, ?_⟩
    rw [Bool.eq_false_iff]
    intro exited
    exact registered.exited found exited ⟨by rw [Mapped, sidEq, mapped], occupied⟩
  constructor
  case occupant => exact occupant
  case inhabited => exact registered.inhabited
  case changeOpen =>
    intro sid i mapped
    exact registered.channels.change_open (registered.wf.map_lt mapped)
  case sound => exact registered.channels.sound
  case asleep =>
    intro nc sv ch p rerr found at_ stillOpen
    rcases registered.asleep found at_ with closed | ⟨-, holds⟩
    · rw [closed] at stillOpen
      cases stillOpen
    · exact holds
  case released =>
    intro sid allReturned
    rw [Option.eq_none_iff_forall_ne_some]
    intro i mapped
    obtain ⟨role, nc, occupied⟩ := registered.inhabited mapped
    obtain ⟨sv, found, sidEq, -, before⟩ := occupant mapped occupied
    rw [allReturned nc sv found sidEq] at before
    cases before

/-! ## Pairings last -/

/-- Once both slots of a session object are filled, they are filled for good. -/
theorem paired_always {s : State} {i : SessId} (wf : Wf s) (paired : s.Paired i)
    (actions : List Action) : Always step (fun next => next.Paired i) s actions := by
  have both : Always step (fun next => Wf next ∧ next.Paired i) s actions := by
    apply always_of_inductive
    · rintro state action next ⟨wf, paired⟩ taken
      have effect := effect_of_step taken
      refine ⟨effect.wf wf, fun role => ?_⟩
      obtain ⟨nc, occupied⟩ := Option.isSome_iff_exists.mp (paired role)
      obtain ⟨nc', occupied', -⟩ := effect.slot_le wf occupied
      rw [occupied']
      rfl
    · exact ⟨wf, paired⟩
  exact both.imp fun _ => And.right

theorem registered_always (actions : List Action) :
    Always step Registered State.init actions :=
  always_of_inductive (fun _ _ _ registered taken => (effect_of_step taken).registered registered)
    actions registered_init

/-- The registry invariant holds in every reachable state, and once an entry has
both slots filled they are filled in every later state. -/
theorem registry_invariant (actions : List Action) :
    Always step RegistryInvariant State.init actions ∧
      ∀ s, exec step State.init actions = some s →
        ∀ sid i, s.sessions sid = some i → s.Paired i →
          ∀ more, Always step (fun next => next.Paired i) s more := by
  constructor
  · exact (registered_always actions).imp fun _ => Registered.invariant
  · intro s run sid i _ paired more
    have registered := (registered_always actions).last run
    exact paired_always registered.wf paired more

end Drover.Relay
