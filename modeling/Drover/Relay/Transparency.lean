import Drover.Relay.Registry

/-!
# Byte transparency of the relay

Each reader accounts for every chunk it has read: all of them were written, or
all but the one it is still holding or gave up with when it left the loop.
-/

namespace Drover.Relay

open Drover.Transition
open State

/-- The chunks the reader of `nc` has written successfully, over all peers. -/
def State.sentBy (s : State) (nc : ConnId) : List Bytes :=
  (s.deliveries.filter fun delivery => delivery.reader == nc).map Delivery.chunk

/-- The chunks read from `nc` against the chunks its reader has written. -/
def Accounted (s : State) (nc : ConnId) (sv : Serve) : Prop :=
  match sv.pc with
  | .closeOld _ | .read => sv.got = s.sentBy nc
  | .lookup p _ | .write _ p _ | .wait _ p _ => sv.got = s.sentBy nc ++ [p]
  | .exit | .closeSelf _ | .closePeer _ | .done =>
      sv.got = s.sentBy nc ∨ ∃ p, sv.got = s.sentBy nc ++ [p]

/-- `peer` is a connection registered for the key of `sv` in the other role. -/
def State.Counterpart (s : State) (sv : Serve) (peer : ConnId) : Prop :=
  ∃ other, s.serve peer = some other ∧ other.sid = sv.sid ∧ other.role = sv.role.opposite

/-- The bookkeeping invariant behind transparency. -/
structure Bookkeeping (s : State) : Prop where
  wf : Wf s
  accounted : ∀ ⦃nc sv⦄, s.serve nc = some sv → Accounted s nc sv
  captured : ∀ ⦃nc sv peer p rerr⦄, s.serve nc = some sv → sv.pc = .write peer p rerr →
    s.Counterpart sv peer
  delivered : ∀ ⦃delivery⦄, delivery ∈ s.deliveries →
    ∃ sv, s.serve delivery.reader = some sv ∧ s.Counterpart sv delivery.peer

theorem bookkeeping_init : Bookkeeping State.init where
  wf := wf_init
  accounted _ _ found := by cases found
  captured _ _ _ _ _ found _ := by cases found
  delivered _ mem := by cases mem

/-! ## Preservation -/

/-- Identities survive every step. -/
theorem Effect.serve_forth {s next : State} {action : Action} (effect : Effect s action next)
    (wf : Wf s) {d : ConnId} {sv : Serve} (found : s.serve d = some sv) :
    ∃ sv', next.serve d = some sv' ∧ sv'.sid = sv.sid ∧ sv'.role = sv.role ∧ sv'.se = sv.se := by
  cases action with
  | register sid role =>
      cases effect
      have ne : d ≠ s.nextConn := Nat.ne_of_lt (wf.conn_lt found)
      exact ⟨sv, by simp [Function.update_of_ne ne, found], rfl, rfl, rfl⟩
  | _ => exact (effect.keeps (by simp [Action.actor])).serve_forth found

theorem Effect.counterpart {s next : State} {action : Action} (effect : Effect s action next)
    (wf : Wf s) {sv sv' : Serve} {peer : ConnId} (same : sv'.ident = sv.ident)
    (counterpart : s.Counterpart sv peer) : next.Counterpart sv' peer := by
  simp only [Serve.ident, Prod.mk.injEq] at same
  obtain ⟨other, found, sidEq, roleEq⟩ := counterpart
  obtain ⟨other', found', sidEq', roleEq', -⟩ := effect.serve_forth wf found
  exact ⟨other', found', by rw [sidEq', sidEq, same.1], by rw [roleEq', roleEq, same.2.1]⟩

@[simp]
theorem exitBlock_deliveries (s : State) (sv : Serve) (nc : ConnId) :
    (s.exitBlock sv nc).deliveries = s.deliveries := by
  unfold exitBlock
  split <;> simp

/-- The successful write of a step, if there is one. -/
theorem Effect.deliveries {s next : State} {action : Action} (effect : Effect s action next) :
    next.deliveries = s.deliveries ∨
      ∃ nc sv peer p rerr, action = .write nc true ∧ s.serve nc = some sv ∧
        sv.pc = .write peer p rerr ∧ next.deliveries = s.deliveries ++ [⟨nc, peer, p⟩] := by
  cases effect with
  | register sid role => exact .inl (by simp)
  | @written nc peer sv p found at_ => exact .inr ⟨nc, sv, peer, p, false, rfl, found, at_, rfl⟩
  | @writtenLast nc peer sv p found at_ => exact .inr ⟨nc, sv, peer, p, true, rfl, found, at_, rfl⟩
  | exit => exact .inl (exitBlock_deliveries s _ _)
  | _ => exact .inl rfl

theorem State.sentBy_append_self {s next : State} {nc peer : ConnId} {p : Bytes}
    (grown : next.deliveries = s.deliveries ++ [⟨nc, peer, p⟩]) :
    next.sentBy nc = s.sentBy nc ++ [p] := by
  simp [sentBy, grown]

theorem Effect.sentBy_of_rests {s next : State} {action : Action} (effect : Effect s action next)
    {d : ConnId} (rests : action.actor ≠ some d) : next.sentBy d = s.sentBy d := by
  rcases effect.deliveries with same | ⟨nc, sv, peer, p, rerr, rfl, -, -, grown⟩
  · simp [sentBy, same]
  · have ne : nc ≠ d := fun same => rests (congrArg some same)
    simp [sentBy, grown, ne]

/-- No chunk has been sent on behalf of a connection that is yet to register. -/
theorem Bookkeeping.sentBy_fresh {s : State} (book : Bookkeeping s) {nc : ConnId}
    (fresh : s.nextConn ≤ nc) : s.sentBy nc = [] := by
  simp only [sentBy, List.map_eq_nil_iff, List.filter_eq_nil_iff, beq_iff_eq]
  intro delivery mem same
  obtain ⟨sv, found, -⟩ := book.delivered mem
  rw [same] at found
  exact Nat.lt_irrefl _ (Nat.lt_of_lt_of_le (book.wf.conn_lt found) fresh)

/-- What the exit block does to the record of its own reader. -/
theorem exitBlock_serve_self {s : State} {sv : Serve} {nc : ConnId}
    (found : s.serve nc = some sv) :
    ∃ peer, (s.exitBlock sv nc).serve nc = some { sv with pc := .closeSelf peer } := by
  unfold exitBlock
  split
  · exact ⟨_, modServe_serve_self _ found⟩
  · exact ⟨none, modServe_serve_self _ found⟩

/-- A chunk is accounted for on every branch of the reader that moves. -/
theorem Effect.accounted_self {s next : State} {action : Action} (effect : Effect s action next)
    (book : Bookkeeping s) {nc : ConnId} {sv' : Serve} (acts : action.actor = some nc)
    (after : next.serve nc = some sv') : Accounted next nc sv' := by
  cases effect with
  | register sid role => cases acts
  | closeOld found at_ =>
      cases acts
      have before := book.accounted found
      simp only [Accounted, at_] at before
      obtain ⟨closed, closedFound, -⟩ := closeConn_serve _ found
      rw [eq_of_modServe_serve closedFound after]
      exact before
  | noOld found at_ =>
      cases acts
      have before := book.accounted found
      simp only [Accounted, at_] at before
      rw [eq_of_modServe_serve found after]
      exact before
  | readChunk found at_ _ _ =>
      cases acts
      have before := book.accounted found
      simp only [Accounted, at_] at before
      rw [eq_of_modServe_serve found after]
      exact congrArg (· ++ [_]) before
  | readError found at_ =>
      cases acts
      have before := book.accounted found
      simp only [Accounted, at_] at before
      rw [eq_of_modServe_serve found after]
      exact .inl before
  | readNothing found at_ =>
      cases acts
      exact book.accounted after
  | capture found at_ _ _ | wait found at_ _ _ | wake found at_ _ =>
      cases acts
      have before := book.accounted found
      simp only [Accounted, at_] at before
      rw [eq_of_modServe_serve found after]
      exact before
  | replaced found at_ _ | writeFailed found at_ | deadline found at_ =>
      -- the chunk in hand is the one chunk that stays undelivered
      cases acts
      have before := book.accounted found
      simp only [Accounted, at_] at before
      rw [eq_of_modServe_serve found after]
      exact .inr ⟨_, before⟩
  | written found at_ =>
      cases acts
      have before := book.accounted found
      simp only [Accounted, at_] at before
      rw [eq_of_modServe_serve (s := s.deliver _) found after]
      exact before.trans (sentBy_append_self rfl).symm
  | writtenLast found at_ =>
      cases acts
      have before := book.accounted found
      simp only [Accounted, at_] at before
      rw [eq_of_modServe_serve (s := s.deliver _) found after]
      exact .inl (before.trans (sentBy_append_self rfl).symm)
  | exit found at_ =>
      cases acts
      have before := book.accounted found
      simp only [Accounted, at_] at before
      obtain ⟨peer, afterExit⟩ := exitBlock_serve_self found
      rw [afterExit, Option.some.injEq] at after
      subst after
      simpa only [Accounted, sentBy, exitBlock_deliveries] using before
  | closeSelf found at_ | closeLast found at_ | closePeer found at_ =>
      cases acts
      have before := book.accounted found
      simp only [Accounted, at_] at before
      obtain ⟨closed, closedFound, -⟩ := closeConn_serve _ found
      rw [eq_of_modServe_serve closedFound after]
      exact before
  | timerClose found _ =>
      cases acts
      have before := book.accounted found
      obtain ⟨closed, closedFound, -⟩ := closeConn_serve _ found
      rw [eq_of_modServe_serve closedFound after]
      exact before
  | timerLone found _ _ _ | timerPaired found _ _ | die found =>
      cases acts
      have before := book.accounted found
      rw [eq_of_modServe_serve found after]
      exact before

/-- A captured peer was captured earlier, or occupies the opposite slot now. -/
theorem Effect.captured_self {s next : State} {action : Action} (effect : Effect s action next)
    {nc peer : ConnId} {sv' : Serve} {p : Bytes} {rerr : Bool} (acts : action.actor = some nc)
    (after : next.serve nc = some sv') (at' : sv'.pc = .write peer p rerr) :
    ∃ sv, s.serve nc = some sv ∧ sv'.ident = sv.ident ∧
      (sv.pc = .write peer p rerr ∨ (s.sess sv.se).slot sv.role.opposite = some peer) := by
  cases effect with
  | register sid role => cases acts
  | capture found _ _ occupied =>
      cases acts
      have svEq := eq_of_modServe_serve found after
      subst svEq
      cases at'
      exact ⟨_, found, rfl, .inr occupied⟩
  | closeOld found _ | closeSelf found _ | closeLast found _ | closePeer found _ =>
      cases acts
      obtain ⟨closed, closedFound, -⟩ := closeConn_serve _ found
      have svEq := eq_of_modServe_serve closedFound after
      subst svEq
      cases at'
  | timerClose found _ =>
      cases acts
      obtain ⟨closed, closedFound, -⟩ := closeConn_serve _ found
      have svEq := eq_of_modServe_serve closedFound after
      subst svEq
      exact ⟨_, found, rfl, .inl at'⟩
  | timerLone found _ _ _ | timerPaired found _ _ | die found =>
      cases acts
      have svEq := eq_of_modServe_serve found after
      subst svEq
      exact ⟨_, found, rfl, .inl at'⟩
  | readNothing found _ =>
      cases acts
      exact ⟨_, after, rfl, .inl at'⟩
  | written found _ | writtenLast found _ =>
      cases acts
      have svEq := eq_of_modServe_serve (s := s.deliver _) found after
      subst svEq
      cases at'
  | exit found _ =>
      cases acts
      obtain ⟨_, afterExit⟩ := exitBlock_serve_self found
      rw [afterExit, Option.some.injEq] at after
      subst after
      cases at'
  | noOld found _ | readChunk found _ _ _ | readError found _ | wait found _ _ _
  | replaced found _ _ | writeFailed found _ | wake found _ _ | deadline found _ =>
      cases acts
      have svEq := eq_of_modServe_serve found after
      subst svEq
      cases at'

/-- The occupant of the opposite slot registered for the same key. -/
theorem Wf.counterpart {s : State} (wf : Wf s) {nc peer : ConnId} {sv : Serve}
    (found : s.serve nc = some sv) (occupied : (s.sess sv.se).slot sv.role.opposite = some peer) :
    s.Counterpart sv peer := by
  obtain ⟨other, otherFound, seEq, roleEq⟩ := wf.slot_serve occupied
  exact ⟨other, otherFound, wf.same_sid otherFound found seEq, roleEq⟩

/-- A record after a step belongs to the reader that moved, to a connection that
rested, or to the connection that has just registered. -/
theorem Effect.serve_back {s next : State} {action : Action} (effect : Effect s action next)
    (wf : Wf s) {d : ConnId} {sv' : Serve} (after : next.serve d = some sv') :
    action.actor = some d ∨
    (action.actor ≠ some d ∧ ∃ sv closed, s.serve d = some sv ∧ sv' = { sv with closed } ∧
      (sv.closed = true → closed = true)) ∨
    (d = s.nextConn ∧ ∃ sid role, action = .register sid role ∧
      sv' = { sid, role, se := s.target sid, pc := .closeOld (s.displaced sid role) }) := by
  by_cases acts : action.actor = some d
  · exact .inl acts
  refine .inr ?_
  cases before : s.serve d with
  | some sv =>
      obtain ⟨closed, rested, kept⟩ := effect.others before (wf.conn_lt before) acts
      rw [rested, Option.some.injEq] at after
      exact .inl ⟨acts, sv, closed, rfl, after.symm, kept⟩
  | none =>
      cases action with
      | register sid role =>
          cases effect
          rw [register_serve] at after
          by_cases fresh : d = s.nextConn
          · subst fresh
            rw [Function.update_self, Option.some.injEq] at after
            exact .inr ⟨rfl, sid, role, rfl, after.symm⟩
          · rw [Function.update_of_ne fresh, before] at after
            cases after
      | _ =>
          obtain ⟨sv, found, -⟩ := (effect.keeps (by simp [Action.actor])).serve_back after
          rw [before] at found
          cases found

theorem Effect.bookkeeping {s next : State} {action : Action} (effect : Effect s action next)
    (book : Bookkeeping s) : Bookkeeping next where
  wf := effect.wf book.wf
  accounted nc sv' after := by
    rcases effect.serve_back book.wf after with
      acts | ⟨rests, sv, closed, found, rfl, -⟩ | ⟨fresh, sid, role, rfl, rfl⟩
    · exact effect.accounted_self book acts after
    · have before := book.accounted found
      simpa only [Accounted, effect.sentBy_of_rests rests] using before
    · have silent := effect.sentBy_of_rests (d := nc) (by simp [Action.actor])
      simp only [Accounted, silent]
      exact (book.sentBy_fresh (Nat.le_of_eq fresh.symm)).symm
  captured nc sv' peer p rerr after at' := by
    rcases effect.serve_back book.wf after with
      acts | ⟨-, sv, closed, found, rfl, -⟩ | ⟨-, sid, role, -, rfl⟩
    · obtain ⟨sv, found, same, captured | occupied⟩ := effect.captured_self acts after at'
      · exact effect.counterpart book.wf same (book.captured found captured)
      · exact effect.counterpart book.wf same (book.wf.counterpart found occupied)
    · have same : ({ sv with closed } : Serve).ident = sv.ident := rfl
      exact effect.counterpart book.wf same (book.captured found at')
    · cases at'
  delivered delivery mem := by
    have keep : ∀ {sv}, s.serve delivery.reader = some sv → s.Counterpart sv delivery.peer →
        ∃ sv', next.serve delivery.reader = some sv' ∧ next.Counterpart sv' delivery.peer := by
      intro sv found counterpart
      obtain ⟨sv', found', sidEq, roleEq, seEq⟩ := effect.serve_forth book.wf found
      have same : sv'.ident = sv.ident := by simp only [Serve.ident, sidEq, roleEq, seEq]
      exact ⟨sv', found', effect.counterpart book.wf same counterpart⟩
    rcases effect.deliveries with same | ⟨nc, sv, peer, p, rerr, -, found, at_, grown⟩
    · rw [same] at mem
      obtain ⟨sv, found, counterpart⟩ := book.delivered mem
      exact keep found counterpart
    · rw [grown, List.mem_append, List.mem_singleton] at mem
      rcases mem with mem | rfl
      · obtain ⟨sv, found, counterpart⟩ := book.delivered mem
        exact keep found counterpart
      · exact keep found (book.captured found at_)

/-! ## Transparency -/

/-- For every connection the chunks its reader has written are a prefix of the
chunks it has read, at most the last of them missing, and every one of these
writes went to a connection of the same key and the opposite role. -/
def Transparent (s : State) : Prop :=
  ∀ nc sv, s.serve nc = some sv →
    s.sentBy nc <+: sv.got ∧ sv.got.length ≤ (s.sentBy nc).length + 1 ∧
      ∀ delivery ∈ s.deliveries, delivery.reader = nc → s.Counterpart sv delivery.peer

theorem Accounted.prefix_ {s : State} {nc : ConnId} {sv : Serve} (accounted : Accounted s nc sv) :
    s.sentBy nc <+: sv.got ∧ sv.got.length ≤ (s.sentBy nc).length + 1 := by
  have all : sv.got = s.sentBy nc →
      s.sentBy nc <+: sv.got ∧ sv.got.length ≤ (s.sentBy nc).length + 1 := by
    intro equal
    rw [equal]
    exact ⟨List.prefix_refl _, Nat.le_succ _⟩
  have allButOne : ∀ p, sv.got = s.sentBy nc ++ [p] →
      s.sentBy nc <+: sv.got ∧ sv.got.length ≤ (s.sentBy nc).length + 1 := by
    intro p equal
    rw [equal]
    exact ⟨List.prefix_append _ _, by simp⟩
  unfold Accounted at accounted
  split at accounted
  · exact all accounted
  · exact all accounted
  · exact allButOne _ accounted
  · exact allButOne _ accounted
  · exact allButOne _ accounted
  all_goals exact accounted.elim all fun ⟨p, equal⟩ => allButOne p equal

theorem Bookkeeping.transparent {s : State} (book : Bookkeeping s) : Transparent s := by
  intro nc sv found
  obtain ⟨isPrefix, short⟩ := (book.accounted found).prefix_
  refine ⟨isPrefix, short, fun delivery mem reader => ?_⟩
  obtain ⟨other, otherFound, counterpart⟩ := book.delivered mem
  rw [reader, found, Option.some.injEq] at otherFound
  rwa [otherFound]

/-- Byte transparency in every state of every run of the relay. -/
theorem relay_transparent (actions : List Action) :
    Always step Transparent State.init actions := by
  have book : Always step Bookkeeping State.init actions :=
    always_of_inductive (fun _ _ _ book taken => (effect_of_step taken).bookkeeping book)
      actions bookkeeping_init
  exact book.imp fun _ => Bookkeeping.transparent

end Drover.Relay
