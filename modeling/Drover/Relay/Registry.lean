import Drover.Relay.Step

/-!
# The session registry

Which session object a key maps to, which connection occupies a slot, and who
registered where.  Slots are only ever overwritten by fresh connections and
dropped session objects are never mapped again, so being retired is permanent.
-/

namespace Drover.Relay

open Drover.Transition

/-- The part of a `serve` record that never changes. -/
def Serve.ident (sv : Serve) : Bytes × Role × SessId := (sv.sid, sv.role, sv.se)

/-- The goroutine that executes a labelled instruction. -/
def Action.actor : Action → Option ConnId
  | .register _ _ => none
  | .closeOld nc | .read nc _ _ | .lookup nc | .write nc _ | .wake nc | .deadline nc
  | .exit nc | .closeSelf nc | .closePeer nc | .timerFire nc | .timerClose nc | .die nc => some nc

namespace State

/-- `nc` occupies the slot it registered in. -/
def Occupant (s : State) (sv : Serve) (nc : ConnId) : Prop :=
  (s.sess sv.se).slot sv.role = some nc

/-- The session object of `sv` is the one its key maps to. -/
def Mapped (s : State) (sv : Serve) : Prop := s.sessions sv.sid = some sv.se

theorem mappedCurrent_iff (s : State) (sv : Serve) (nc : ConnId) :
    s.mappedCurrent sv nc = true ↔ s.Mapped sv ∧ s.Occupant sv nc := by
  simp [mappedCurrent, isCurrentLocked, Mapped, Occupant]

theorem mappedCurrent_eq_false_iff (s : State) (sv : Serve) (nc : ConnId) :
    s.mappedCurrent sv nc = false ↔ ¬ (s.Mapped sv ∧ s.Occupant sv nc) := by
  rw [← mappedCurrent_iff, Bool.not_eq_true]

theorem modServe_serve_self {s : State} {nc : ConnId} {sv : Serve} (f : Serve → Serve)
    (found : s.serve nc = some sv) : (s.modServe nc f).serve nc = some (f sv) := by
  simp [modServe_serve, found]

theorem eq_of_modServe_serve {s : State} {nc : ConnId} {sv sv' : Serve} {f : Serve → Serve}
    (found : s.serve nc = some sv) (after : (s.modServe nc f).serve nc = some sv') :
    sv' = f sv := by
  rw [modServe_serve_self f found] at after
  exact (Option.some.inj after).symm

theorem modServe_serve_ne {s : State} {nc d : ConnId} (f : Serve → Serve) (ne : d ≠ nc) :
    (s.modServe nc f).serve d = s.serve d := by
  simp [modServe_serve, ne]

/-- Closing a connection changes the `closed` flag of one record. -/
theorem closeConn_serve {s : State} {d : ConnId} {sv : Serve} (nc : ConnId)
    (found : s.serve d = some sv) :
    ∃ closed, (s.closeConn nc).serve d = some { sv with closed } ∧
      (sv.closed = true → closed = true) ∧ (closed = true → sv.closed = true ∨ d = nc) := by
  by_cases same : d = nc
  · subst same
    exact ⟨true, modServe_serve_self _ found, fun _ => rfl, fun _ => .inr rfl⟩
  · exact ⟨sv.closed, by simpa [closeConn, modServe_serve_ne _ same] using found, id, .inl⟩

end State

open State

/-! ## Frame conditions -/

/-- The slots, the counters and the identities are as before. -/
structure Keeps (s next : State) : Prop where
  slot : ∀ i role, (next.sess i).slot role = (s.sess i).slot role
  nextConn : next.nextConn = s.nextConn
  nextSess : next.nextSess = s.nextSess
  ident : ∀ d, (next.serve d).map Serve.ident = (s.serve d).map Serve.ident

theorem Keeps.refl (s : State) : Keeps s s :=
  ⟨fun _ _ => rfl, rfl, rfl, fun _ => rfl⟩

theorem Keeps.trans {s middle next : State} (first : Keeps s middle) (last : Keeps middle next) :
    Keeps s next where
  slot i role := (last.slot i role).trans (first.slot i role)
  nextConn := last.nextConn.trans first.nextConn
  nextSess := last.nextSess.trans first.nextSess
  ident d := (last.ident d).trans (first.ident d)

theorem keeps_modServe (s : State) (nc : ConnId) {f : Serve → Serve}
    (same : ∀ sv, (f sv).ident = sv.ident) : Keeps s (s.modServe nc f) where
  slot _ _ := rfl
  nextConn := rfl
  nextSess := rfl
  ident d := by
    rw [modServe_serve]
    split
    · cases s.serve d <;> simp [same]
    · rfl

theorem keeps_closeConn (s : State) (nc : ConnId) : Keeps s (s.closeConn nc) :=
  keeps_modServe s nc fun _ => rfl

theorem keeps_leave (s : State) (nc : ConnId) (cause : ExitCause) : Keeps s (s.leave nc cause) :=
  keeps_modServe s nc fun _ => rfl

theorem keeps_finish (s : State) (nc : ConnId) : Keeps s (s.finish nc) :=
  keeps_modServe s nc fun _ => rfl

theorem keeps_deliver (s : State) (delivery : Delivery) : Keeps s (s.deliver delivery) :=
  ⟨fun _ _ => rfl, rfl, rfl, fun _ => rfl⟩

theorem keeps_drop (s : State) (sid : Bytes) (i : SessId) :
    Keeps s (({ s with sessions := Function.update s.sessions sid none } : State).broadcast i) where
  slot j role := by simp
  nextConn := rfl
  nextSess := rfl
  ident _ := rfl

theorem keeps_exitBlock (s : State) (sv : Serve) (nc : ConnId) : Keeps s (s.exitBlock sv nc) := by
  unfold exitBlock
  split
  · exact (keeps_drop s sv.sid sv.se).trans (keeps_modServe _ nc fun _ => rfl)
  · exact keeps_modServe s nc fun _ => rfl

/-- Only a registration touches slots and counters. -/
theorem Effect.keeps {s next : State} {action : Action} (effect : Effect s action next)
    (acts : action.actor ≠ none) : Keeps s next := by
  cases effect with
  | register sid role => exact absurd rfl acts
  | closeOld => exact (keeps_closeConn s _).trans (keeps_modServe _ _ fun _ => rfl)
  | noOld | readChunk | capture | wait | wake | timerLone | timerPaired | die =>
      exact keeps_modServe s _ fun _ => rfl
  | readNothing => exact Keeps.refl s
  | readError | replaced | writeFailed | deadline => exact keeps_leave s _ _
  | written => exact (keeps_deliver s _).trans (keeps_modServe _ _ fun _ => rfl)
  | writtenLast => exact (keeps_deliver s _).trans (keeps_leave _ _ _)
  | exit => exact keeps_exitBlock s _ _
  | closeSelf => exact (keeps_closeConn s _).trans (keeps_modServe _ _ fun _ => rfl)
  | closeLast | closePeer => exact (keeps_closeConn s _).trans (keeps_finish _ _)
  | timerClose => exact (keeps_closeConn s _).trans (keeps_modServe _ _ fun _ => rfl)

theorem exitBlock_sessions (s : State) (sv : Serve) (nc : ConnId) :
    (s.exitBlock sv nc).sessions =
      if s.mappedCurrent sv nc then Function.update s.sessions sv.sid none else s.sessions := by
  unfold exitBlock
  split <;> simp

/-- Only the exit block of a current reader drops a mapping. -/
theorem Effect.sessions {s next : State} {action : Action} (effect : Effect s action next)
    (acts : action.actor ≠ none) :
    next.sessions = s.sessions ∨
      ∃ nc sv, action = .exit nc ∧ s.serve nc = some sv ∧ s.Mapped sv ∧ s.Occupant sv nc ∧
        next.sessions = Function.update s.sessions sv.sid none := by
  cases effect with
  | register sid role => exact absurd rfl acts
  | @exit nc sv found _ =>
      cases current : s.mappedCurrent sv nc with
      | false => exact .inl (by simp [exitBlock_sessions, current])
      | true =>
          obtain ⟨mapped, occupant⟩ := (mappedCurrent_iff s sv nc).mp current
          exact .inr ⟨nc, sv, rfl, found, mapped, occupant, by simp [exitBlock_sessions, current]⟩
  | _ => exact .inl rfl

/-- A step changes at most the `closed` flag of a connection that does not
move. -/
theorem Effect.others {s next : State} {action : Action} (effect : Effect s action next)
    {d : ConnId} {sv : Serve} (found : s.serve d = some sv) (old : d < s.nextConn)
    (rests : action.actor ≠ some d) :
    ∃ closed, next.serve d = some { sv with closed } ∧ (sv.closed = true → closed = true) := by
  have closeThen : ∀ (nc other : ConnId) (f : Serve → Serve), d ≠ nc →
      ∃ closed, ((s.closeConn other).modServe nc f).serve d = some { sv with closed } ∧
        (sv.closed = true → closed = true) := by
    intro nc other f ne
    obtain ⟨closed, closedFound, kept, -⟩ := closeConn_serve other found
    exact ⟨closed, by rw [modServe_serve_ne f ne, closedFound], kept⟩
  have unmoved : ∀ (nc : ConnId) (f : Serve → Serve), d ≠ nc →
      ∃ closed, (s.modServe nc f).serve d = some { sv with closed } ∧
        (sv.closed = true → closed = true) :=
    fun nc f ne => ⟨sv.closed, by rw [modServe_serve_ne f ne, found], id⟩
  cases effect with
  | register sid role =>
      exact ⟨sv.closed, by simp [Function.update_of_ne (Nat.ne_of_lt old), found], id⟩
  | readNothing => exact ⟨sv.closed, found, id⟩
  | written | writtenLast =>
      have ne := fun same => rests (congrArg some (Eq.symm same))
      exact ⟨sv.closed, (modServe_serve_ne _ ne).trans found, id⟩
  | @exit nc other _ _ =>
      have ne : d ≠ nc := fun same => rests (congrArg some same.symm)
      refine ⟨sv.closed, ?_, id⟩
      unfold exitBlock
      split <;> simp [modServe_serve_ne _ ne, found]
  | closeOld | closeSelf | closeLast | closePeer | timerClose =>
      exact closeThen _ _ _ fun same => rests (congrArg some same.symm)
  | _ => exact unmoved _ _ fun same => rests (congrArg some same.symm)

/-! ## Well-formed registries -/

/-- The registry invariant: counters are above everything in use, a session
object belongs to one key, and slots hold connections that registered in them. -/
structure Wf (s : State) : Prop where
  conn_lt : ∀ ⦃nc sv⦄, s.serve nc = some sv → nc < s.nextConn
  sess_lt : ∀ ⦃nc sv⦄, s.serve nc = some sv → sv.se < s.nextSess
  map_lt : ∀ ⦃sid i⦄, s.sessions sid = some i → i < s.nextSess
  map_inj : ∀ ⦃sid other i⦄, s.sessions sid = some i → s.sessions other = some i → sid = other
  same_sid : ∀ ⦃nc sv d other⦄, s.serve nc = some sv → s.serve d = some other →
    sv.se = other.se → sv.sid = other.sid
  map_sid : ∀ ⦃sid i nc sv⦄, s.sessions sid = some i → s.serve nc = some sv →
    sv.se = i → sv.sid = sid
  slot_serve : ∀ ⦃i role nc⦄, (s.sess i).slot role = some nc →
    ∃ sv, s.serve nc = some sv ∧ sv.se = i ∧ sv.role = role

theorem wf_init : Wf State.init where
  conn_lt _ _ found := by cases found
  sess_lt _ _ found := by cases found
  map_lt _ _ mapped := by cases mapped
  map_inj _ _ _ mapped _ := by cases mapped
  same_sid _ _ _ _ found _ _ := by cases found
  map_sid _ _ _ _ mapped _ _ := by cases mapped
  slot_serve i role nc occupied := by cases role <;> cases occupied

/-- A record after a quiet step comes from a record with the same identity. -/
theorem Keeps.serve_back {s next : State} (keeps : Keeps s next) {d : ConnId} {sv' : Serve}
    (found : next.serve d = some sv') :
    ∃ sv, s.serve d = some sv ∧ sv.sid = sv'.sid ∧ sv.role = sv'.role ∧ sv.se = sv'.se := by
  have same := keeps.ident d
  rw [found] at same
  cases before : s.serve d with
  | none => simp [before] at same
  | some sv =>
      simp only [before, Option.map_some, Option.some.injEq, Serve.ident, Prod.mk.injEq] at same
      exact ⟨sv, rfl, same.1.symm, same.2.1.symm, same.2.2.symm⟩

theorem Keeps.serve_forth {s next : State} (keeps : Keeps s next) {d : ConnId} {sv : Serve}
    (found : s.serve d = some sv) :
    ∃ sv', next.serve d = some sv' ∧ sv'.sid = sv.sid ∧ sv'.role = sv.role ∧ sv'.se = sv.se := by
  have same := keeps.ident d
  rw [found] at same
  cases after : next.serve d with
  | none => simp [after] at same
  | some sv' =>
      simp only [after, Option.map_some, Option.some.injEq, Serve.ident, Prod.mk.injEq] at same
      exact ⟨sv', rfl, same.1, same.2.1, same.2.2⟩

theorem Wf.keeps {s next : State} (wf : Wf s) (keeps : Keeps s next)
    (maps : ∀ ⦃sid i⦄, next.sessions sid = some i → s.sessions sid = some i) : Wf next where
  conn_lt nc sv' found := by
    obtain ⟨sv, before, -⟩ := keeps.serve_back found
    rw [keeps.nextConn]
    exact wf.conn_lt before
  sess_lt nc sv' found := by
    obtain ⟨sv, before, -, -, seEq⟩ := keeps.serve_back found
    rw [keeps.nextSess, ← seEq]
    exact wf.sess_lt before
  map_lt sid i mapped := by
    rw [keeps.nextSess]
    exact wf.map_lt (maps mapped)
  map_inj sid other i mapped otherMapped := wf.map_inj (maps mapped) (maps otherMapped)
  same_sid nc sv' d other' found otherFound seEq := by
    obtain ⟨sv, before, sidEq, -, svSe⟩ := keeps.serve_back found
    obtain ⟨other, otherBefore, otherSid, -, otherSe⟩ := keeps.serve_back otherFound
    rw [← sidEq, ← otherSid]
    exact wf.same_sid before otherBefore (by rw [svSe, otherSe, seEq])
  map_sid sid i nc sv' mapped found seEq := by
    obtain ⟨sv, before, sidEq, -, svSe⟩ := keeps.serve_back found
    rw [← sidEq]
    exact wf.map_sid (maps mapped) before (svSe.trans seEq)
  slot_serve i role nc occupied := by
    rw [keeps.slot] at occupied
    obtain ⟨sv, before, seEq, roleEq⟩ := wf.slot_serve occupied
    obtain ⟨sv', found, -, roleEq', seEq'⟩ := keeps.serve_forth before
    exact ⟨sv', found, seEq'.trans seEq, roleEq'.trans roleEq⟩

theorem State.target_lt {s : State} (wf : Wf s) (sid : Bytes) (role : Role) :
    s.target sid < (s.register sid role).nextSess := by
  rw [register_nextSess]
  cases mapped : s.sessions sid with
  | none => simp [target_of_unmapped s mapped]
  | some i =>
      rw [target_of_mapped s mapped, if_neg (by simp)]
      exact wf.map_lt mapped

theorem State.nextSess_le_register (s : State) (sid : Bytes) (role : Role) :
    s.nextSess ≤ (s.register sid role).nextSess := by
  rw [register_nextSess]
  split
  · exact Nat.le_succ _
  · exact Nat.le_refl _

/-- Who registered in the target of a registration registered for its key. -/
theorem State.sid_of_target {s : State} (wf : Wf s) {sid : Bytes} {nc : ConnId} {sv : Serve}
    (found : s.serve nc = some sv) (seEq : sv.se = s.target sid) : sv.sid = sid := by
  cases mapped : s.sessions sid with
  | none =>
      rw [target_of_unmapped s mapped] at seEq
      exact absurd seEq (Nat.ne_of_lt (wf.sess_lt found))
  | some i => exact wf.map_sid mapped found (seEq.trans (target_of_mapped s mapped))

/-- A displaced connection registered in the same session object and slot. -/
theorem State.displaced_serve {s : State} (wf : Wf s) {sid : Bytes} {role : Role} {nc : ConnId}
    (displaced : s.displaced sid role = some nc) :
    ∃ sv, s.serve nc = some sv ∧ sv.se = s.target sid ∧ sv.role = role := by
  cases mapped : s.sessions sid with
  | none =>
      rw [displaced_of_unmapped s mapped] at displaced
      cases displaced
  | some i =>
      rw [displaced_of_mapped s mapped] at displaced
      rw [target_of_mapped s mapped]
      exact wf.slot_serve displaced

/-- Another key is not mapped to the target of a registration. -/
theorem State.sessions_ne_target {s : State} (wf : Wf s) {sid other : Bytes} (ne : other ≠ sid) :
    s.sessions other ≠ some (s.target sid) := by
  intro otherMapped
  cases mapped : s.sessions sid with
  | none =>
      rw [target_of_unmapped s mapped] at otherMapped
      exact Nat.lt_irrefl _ (wf.map_lt otherMapped)
  | some i =>
      rw [target_of_mapped s mapped] at otherMapped
      exact ne (wf.map_inj otherMapped mapped)

theorem Wf.register {s : State} (wf : Wf s) (sid : Bytes) (role : Role) :
    Wf (s.register sid role) := by
  have old : ∀ {d sv}, s.serve d = some sv → (s.register sid role).serve d = some sv := by
    intro d sv found
    have ne : d ≠ s.nextConn := Nat.ne_of_lt (wf.conn_lt found)
    simp [Function.update_of_ne ne, found]
  have cases_ : ∀ {d sv}, (s.register sid role).serve d = some sv →
      (s.serve d = some sv) ∨ (d = s.nextConn ∧ sv.sid = sid ∧ sv.se = s.target sid) := by
    intro d sv found
    by_cases fresh : d = s.nextConn
    · subst fresh
      simp only [register_serve, Function.update_self, Option.some.injEq] at found
      subst found
      exact .inr ⟨rfl, rfl, rfl⟩
    · simp only [register_serve, Function.update_of_ne fresh] at found
      exact .inl found
  have bound := State.target_lt wf sid role
  have grows := s.nextSess_le_register sid role
  constructor
  · intro d sv found
    rw [register_nextConn]
    rcases cases_ found with before | ⟨rfl, -⟩
    · exact Nat.lt_succ_of_lt (wf.conn_lt before)
    · exact Nat.lt_succ_self _
  · intro d sv found
    rcases cases_ found with before | ⟨-, -, seEq⟩
    · exact Nat.lt_of_lt_of_le (wf.sess_lt before) grows
    · rw [seEq]
      exact bound
  · intro other i mapped
    by_cases same : other = sid
    · subst same
      simp only [register_sessions, Function.update_self, Option.some.injEq] at mapped
      exact mapped ▸ bound
    · simp only [register_sessions, Function.update_of_ne same] at mapped
      exact Nat.lt_of_lt_of_le (wf.map_lt mapped) grows
  · intro first second i firstMapped secondMapped
    rw [register_sessions] at firstMapped secondMapped
    by_cases firstSame : first = sid <;> by_cases secondSame : second = sid
    · exact firstSame.trans secondSame.symm
    · rw [firstSame, Function.update_self] at firstMapped
      rw [Function.update_of_ne secondSame, ← firstMapped] at secondMapped
      exact absurd secondMapped (sessions_ne_target wf secondSame)
    · rw [secondSame, Function.update_self] at secondMapped
      rw [Function.update_of_ne firstSame, ← secondMapped] at firstMapped
      exact absurd firstMapped (sessions_ne_target wf firstSame)
    · rw [Function.update_of_ne firstSame] at firstMapped
      rw [Function.update_of_ne secondSame] at secondMapped
      exact wf.map_inj firstMapped secondMapped
  · intro nc sv d other found otherFound seEq
    rcases cases_ found with before | ⟨-, sidEq, svSe⟩ <;>
      rcases cases_ otherFound with otherBefore | ⟨-, otherSid, otherSe⟩
    · exact wf.same_sid before otherBefore seEq
    · rw [otherSid]
      exact sid_of_target wf before (seEq.trans otherSe)
    · rw [sidEq]
      exact (sid_of_target wf otherBefore (seEq.symm.trans svSe)).symm
    · rw [sidEq, otherSid]
  · intro other i nc sv mapped found seEq
    by_cases same : other = sid
    · subst same
      simp only [register_sessions, Function.update_self, Option.some.injEq] at mapped
      rcases cases_ found with before | ⟨-, sidEq, -⟩
      · exact sid_of_target wf before (seEq.trans mapped.symm)
      · exact sidEq
    · simp only [register_sessions, Function.update_of_ne same] at mapped
      rcases cases_ found with before | ⟨-, -, svSe⟩
      · exact wf.map_sid mapped before seEq
      · rw [← seEq, svSe] at mapped
        exact absurd mapped (sessions_ne_target wf same)
  · intro i other nc occupied
    rw [register_slot] at occupied
    by_cases hit : i = s.target sid
    · rw [if_pos hit] at occupied
      by_cases own : other = role
      · rw [if_pos own, Option.some.injEq] at occupied
        subst occupied
        exact ⟨_, by rw [register_serve, Function.update_self], hit.symm, own.symm⟩
      · rw [if_neg own] at occupied
        obtain ⟨sv, found, seEq, roleEq⟩ := displaced_serve wf occupied
        exact ⟨sv, old found, seEq.trans hit.symm, roleEq⟩
    · rw [if_neg hit] at occupied
      obtain ⟨sv, found, seEq, roleEq⟩ := wf.slot_serve occupied
      exact ⟨sv, old found, seEq, roleEq⟩

theorem Effect.wf {s next : State} {action : Action} (effect : Effect s action next)
    (wf : Wf s) : Wf next := by
  cases action with
  | register sid role =>
      cases effect
      exact wf.register sid role
  | _ =>
      apply wf.keeps (effect.keeps (by simp [Action.actor]))
      intro sid i mapped
      rcases effect.sessions (by simp [Action.actor]) with same | ⟨nc, sv, -, -, -, -, dropped⟩
      · rwa [same] at mapped
      · rw [dropped] at mapped
        by_cases hit : sid = sv.sid
        · subst hit
          simp at mapped
        · rwa [Function.update_of_ne hit] at mapped

/-! ## Permanent facts -/

/-- A displaced connection never occupies its slot again. -/
theorem Effect.slot_ne {s next : State} {action : Action} (effect : Effect s action next)
    {i : SessId} {role : Role} {d : ConnId} (ne : (s.sess i).slot role ≠ some d)
    (old : d < s.nextConn) (allocated : i < s.nextSess) :
    (next.sess i).slot role ≠ some d := by
  cases action with
  | register sid takes =>
      cases effect
      rw [register_slot]
      split
      · rename_i hit
        split
        · intro fresh
          exact Nat.ne_of_gt old (Option.some.inj fresh)
        · cases mapped : s.sessions sid with
          | none =>
              rw [target_of_unmapped s mapped] at hit
              exact absurd hit (Nat.ne_of_lt allocated)
          | some j =>
              rw [target_of_mapped s mapped] at hit
              rwa [displaced_of_mapped s mapped, ← hit]
      · exact ne
  | _ => rwa [(effect.keeps (by simp [Action.actor])).slot]

/-- A slot is never emptied, and its later occupants registered later. -/
theorem Effect.slot_le {s next : State} {action : Action} (effect : Effect s action next)
    (wf : Wf s) {i : SessId} {role : Role} {d : ConnId} (occupied : (s.sess i).slot role = some d) :
    ∃ d', (next.sess i).slot role = some d' ∧ d ≤ d' := by
  cases action with
  | register sid takes =>
      cases effect
      obtain ⟨sv, found, seEq, -⟩ := wf.slot_serve occupied
      rw [register_slot]
      split
      · rename_i hit
        split
        · exact ⟨s.nextConn, rfl, Nat.le_of_lt (wf.conn_lt found)⟩
        · cases mapped : s.sessions sid with
          | none =>
              rw [target_of_unmapped s mapped, ← seEq] at hit
              exact absurd hit (Nat.ne_of_lt (wf.sess_lt found))
          | some j =>
              rw [target_of_mapped s mapped] at hit
              rw [displaced_of_mapped s mapped, ← hit]
              exact ⟨d, occupied, Nat.le_refl d⟩
      · exact ⟨d, occupied, Nat.le_refl d⟩
  | _ =>
      rw [(effect.keeps (by simp [Action.actor])).slot]
      exact ⟨d, occupied, Nat.le_refl d⟩

/-- A dropped session object is never mapped again. -/
theorem Effect.sessions_ne {s next : State} {action : Action} (effect : Effect s action next)
    {sid : Bytes} {i : SessId} (ne : s.sessions sid ≠ some i) (allocated : i < s.nextSess) :
    next.sessions sid ≠ some i := by
  cases action with
  | register other role =>
      cases effect
      rw [register_sessions]
      by_cases same : sid = other
      · subst same
        rw [Function.update_self]
        intro hit
        cases mapped : s.sessions sid with
        | none =>
            rw [target_of_unmapped s mapped] at hit
            exact Nat.ne_of_lt allocated (Option.some.inj hit).symm
        | some j =>
            rw [target_of_mapped s mapped] at hit
            exact ne (mapped.trans hit)
      · rwa [Function.update_of_ne same]
  | _ =>
      rcases effect.sessions (by simp [Action.actor]) with same | ⟨nc, sv, -, -, -, -, dropped⟩
      · rwa [same]
      · rw [dropped]
        by_cases hit : sid = sv.sid
        · subst hit
          simp
        · rwa [Function.update_of_ne hit]

/-- The key whose session a step serves. -/
def State.keyOf (s : State) : Action → Option Bytes
  | .register sid _ => some sid
  | action => (action.actor.bind s.serve).map Serve.sid

/-- The session of the key is the same, and so are its slots. -/
def State.SameAt (key : Bytes) (s next : State) : Prop :=
  next.sessions key = s.sessions key ∧
    ∀ i, s.sessions key = some i → ∀ role, (next.sess i).slot role = (s.sess i).slot role

/-- A step for one key leaves the session of another. -/
theorem Effect.sameAt {s next : State} {action : Action} (effect : Effect s action next)
    (wf : Wf s) {served key : Bytes} (serves : s.keyOf action = some served)
    (other : key ≠ served) : s.SameAt key next := by
  by_cases acts : action.actor = none
  · cases action with
    | register sid takes =>
        cases effect
        cases serves
        constructor
        · rw [register_sessions, Function.update_of_ne other]
        · intro i mapped role
          rw [register_slot, if_neg]
          rintro rfl
          exact sessions_ne_target wf other mapped
    | _ => cases acts
  · constructor
    · rcases effect.sessions acts with same | ⟨nc, sv, rfl, found, -, -, dropped⟩
      · rw [same]
      · have isKey : (s.serve nc).map Serve.sid = some served := serves
        rw [found] at isKey
        cases isKey
        rw [dropped, Function.update_of_ne other]
    · intro i mapped role
      rw [(effect.keeps acts).slot]

/-- The slots of a dropped session object are frozen. -/
theorem Effect.frozen {s next : State} {action : Action} (effect : Effect s action next)
    (wf : Wf s) {d : ConnId} {sv : Serve} (found : s.serve d = some sv) (dropped : ¬ s.Mapped sv)
    (role : Role) : (next.sess sv.se).slot role = (s.sess sv.se).slot role := by
  cases action with
  | register sid takes =>
      cases effect
      rw [register_slot, if_neg]
      intro hit
      cases mapped : s.sessions sid with
      | none =>
          rw [target_of_unmapped s mapped] at hit
          exact Nat.ne_of_lt (wf.sess_lt found) hit
      | some i =>
          apply dropped
          rw [target_of_mapped s mapped] at hit
          rw [Mapped, wf.map_sid mapped found hit, mapped, hit]
  | _ => rw [(effect.keeps (by simp [Action.actor])).slot]

/-- Not both the current occupant of the slot and in the mapped session. -/
def State.Retired (s : State) (sv : Serve) (nc : ConnId) : Prop :=
  ¬ (s.Mapped sv ∧ s.Occupant sv nc)

theorem Effect.retired {s next : State} {action : Action} (effect : Effect s action next)
    (wf : Wf s) {d : ConnId} {sv sv' : Serve} (found : s.serve d = some sv)
    (same : sv'.ident = sv.ident) (retired : s.Retired sv d) : next.Retired sv' d := by
  simp only [Serve.ident, Prod.mk.injEq] at same
  obtain ⟨sidEq, roleEq, seEq⟩ := same
  rintro ⟨mapped, occupant⟩
  rw [Mapped, sidEq, seEq] at mapped
  rw [Occupant, roleEq, seEq] at occupant
  by_cases wasMapped : s.Mapped sv
  · have wasOut : ¬ s.Occupant sv d := fun wasOccupant => retired ⟨wasMapped, wasOccupant⟩
    exact effect.slot_ne wasOut (wf.conn_lt found) (wf.sess_lt found) occupant
  · exact effect.sessions_ne wasMapped (wf.sess_lt found) mapped

end Drover.Relay
