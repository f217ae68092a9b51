import Drover.Slave.Operations

/-!
# Shared PCs do not interfere

Requests with the bearer of one PC write only its own documents and cache entries,
and what they answer depends only on these, on the documents `wake`, `revoked` and
`slaves` of the PC, and on the settings.  Both hold for any requests, however their
operations interleave and whichever of them fail.
-/

namespace Drover.Slave

open Drover.Store Drover.Transition

variable {α : Type}

/-- The documents that the requests of a PC may write: `pcs/{pc}` and what is below
it, the slave grants whose id starts with the PC and a colon, and its commands. -/
def Own (pc : Bytes) (path : Path) : Prop :=
  path = pcPath pc ∨ pcPath pc ++ [slash] <+: path ∨
    docPath (ascii "slavegrants") (pc ++ [colon]) <+: path ∨ cmdCol pc ++ [slash] <+: path

/-- The documents that they may read. -/
def Seen (pc : Bytes) (path : Path) : Prop :=
  Own pc path ∨ path = wakePath pc ∨ path = revokedPath pc ∨ path = slavePath pc ∨
    ascii "settings" ++ [slash] <+: path

/-- The entries of the push cache that are theirs. -/
def OwnKey (pc key : Bytes) : Prop := pc ++ [slash] <+: key

/-- A request to `/slave/*` of a PC: its bearer names no other, and neither does the
body of a request for a bearer. -/
def Request.Of (server : Server α) (pc : Bytes) : Request α → Prop
  | .slave authorization _ =>
      ∀ now pc', server.verifySlaveToken (bearer authorization) now = some pc' → pc' = pc
  | .token _ body => ∀ p ∈ body, p.1 = pc
  | _ => False

theorem prefix_docPath (col : Path) (id : Bytes) : col ++ [slash] <+: docPath col id := by
  rw [docPath_eq]
  exact List.prefix_append _ _

theorem own_sessionPath (pc id : Bytes) : Own pc (sessionPath pc id) := by
  refine .inr (.inl ?_)
  rw [sessionPath, docPath_eq, sessionsCol, docPath_eq, List.append_assoc, List.append_assoc]
  exact List.prefix_append _ _

theorem own_slaveGrantPath (pc sid : Bytes) : Own pc (slaveGrantPath pc sid) := by
  refine .inr (.inr (.inl ⟨sid, ?_⟩))
  simp only [slaveGrantPath, slaveGrantDocID, docPath, List.append_assoc, List.cons_append,
    List.nil_append]

theorem own_commandPath (pc id : Bytes) : Own pc (commandPath pc id) :=
  .inr (.inr (.inr (prefix_docPath _ id)))

theorem ownKey_pushKey (pc id : Bytes) : OwnKey pc (pushKey pc id) :=
  ⟨id, by rw [pushKey, List.append_assoc, List.singleton_append]⟩

/-- The operations of a request behind the guard stay inside. -/
theorem SlaveOp.inside {pc : Bytes} {req : SlaveRequest α} {o : ClientOp α}
    (does : SlaveOp pc req o) : o.ReadsIn (Seen pc) ∧ o.WritesIn (Own pc) (OwnKey pc) := by
  cases does with
  | now | send => exact ⟨trivial, trivial⟩
  | isRevoked => exact ⟨.inr (.inr (.inl rfl)), trivial⟩
  | slaveRevoked => exact ⟨.inr (.inr (.inr (.inl rfl))), trivial⟩
  | register | parent => exact ⟨trivial, .inl rfl⟩
  | getSession id => exact ⟨.inl (own_sessionPath pc id), trivial⟩
  | setSession id => exact ⟨trivial, own_sessionPath pc id⟩
  | listSessions => exact ⟨fun id => .inl (own_sessionPath pc id), trivial⟩
  | lookup id | remember id => exact ⟨trivial, ownKey_pushKey pc id⟩
  | getWebhook | getRelay => exact ⟨.inr (.inr (.inr (.inr (prefix_docPath ..)))), trivial⟩
  | getWake => exact ⟨.inr (.inl rfl), trivial⟩
  | grant sid => exact ⟨trivial, own_slaveGrantPath pc sid⟩
  | listCommands => exact ⟨fun id => .inl (own_commandPath pc id), trivial⟩
  | claim id => exact ⟨.inl (own_commandPath pc id), own_commandPath pc id⟩
  | ack id => exact ⟨trivial, own_commandPath pc id⟩

theorem Does.inside {server : Server α} {pc : Bytes} {req : Request α} {o : ClientOp α}
    (of : req.Of server pc) (does : Does server req o) :
    o.ReadsIn (Seen pc) ∧ o.WritesIn (Own pc) (OwnKey pc) := by
  cases does with
  | now => exact ⟨trivial, trivial⟩
  | slave verified does =>
      cases of _ _ verified
      exact does.inside
  | tokenSlave =>
      cases of _ rfl
      exact ⟨.inr (.inr (.inr (.inl rfl))), trivial⟩
  | tokenRevoked =>
      cases of _ rfl
      exact ⟨.inr (.inr (.inl rfl)), trivial⟩
  | gate | pair | getPairing | bind | forget | revoke | list | enrollDeletes | deletes =>
      exact of.elim

/-- Requests of a PC leave every document but its own as it was, and the cache entries
of the other PCs; and from a store that agrees on what they may read, and a cache that
agrees on the entries of the PC, they get the same answers and send the same
webhooks. -/
theorem slave_isolated (server : Server α) (pc : Bytes) {labels : List (Label α)}
    (of : ∀ label ∈ labels, label.Begins (Request.Of server pc)) {s s' : System α}
    (idle : s.calls = fun _ => none) (run : exec server.step s labels = some s') :
    s.machine.SameOutside (Own pc) (OwnKey pc) s'.machine ∧
      ∀ t : System α, t.calls = s.calls → s.machine.Agree (Seen pc) (OwnKey pc) t.machine →
        ∃ t', exec server.step t labels = some t' ∧ t'.answer = s'.answer ∧
          t'.machine.outputs = s'.machine.outputs := by
  have none : ∀ may, s.Calls (Request.Of server pc) may := by
    intro may r c running
    rw [idle] at running
    cases running
  constructor
  · refine sameOutside_of_exec (fun req of => ?_) (none _) of run
    exact (server.handle_only req).imp fun o does => (does.inside of).2
  · intro t sameCalls agree
    have each : ∀ req : Request α, req.Of server pc → (server.handle req).Only fun o =>
        o.ReadsIn (Seen pc) ∧ o.WritesIn (Seen pc) (OwnKey pc) := by
      intro req of
      apply (server.handle_only req).imp
      intro o does
      obtain ⟨reads, writes⟩ := does.inside of
      exact ⟨reads, writes.mono fun _ => .inl⟩
    obtain ⟨t', run', sameCalls, agree⟩ := exec_agree each (none _) of run sameCalls agree
    refine ⟨t', run', ?_, agree.outputs⟩
    funext r
    rw [State.answer, State.answer, sameCalls]

/-- The bearer of a PC, and a push with it. -/
def samplePush : Request Unit :=
  .slave (sampleAuthorization (ascii "mac")) (.push (some [sampleSession (ascii "w1")]))

/-- Two stores that differ in a session of another PC. -/
def sampleStart (key : Bytes) : System Unit where
  machine := {
    docs := changeDocument ∅ .ok (sessionPath (ascii "air") key) fun _ =>
      some (.fields (sampleSession key)) }

theorem of_sampleAuthorization (req : SlaveRequest Unit) :
    Request.Of sampleServer (ascii "mac") (.slave (sampleAuthorization (ascii "mac")) req) := by
  intro now pc' verified
  obtain ⟨claims, signed, isUID, -⟩ := Server.uid_of_verifySlaveToken verified
  have known : sampleServer.signedClaims (bearer (sampleAuthorization (ascii "mac"))) =
      some ⟨60 * 60, slavePrefix ++ ascii "mac"⟩ := by decide +kernel
  cases known.symm.trans signed
  exact (List.append_cancel_left isUID).symm

/-- A push of `mac` leaves a session of `air` alone, and is answered in the same way if
that session is another one. -/
theorem samplePush_isolated :
    ∃ s', exec sampleServer.step (sampleStart (ascii "a1")) (callLabels 0 samplePush 13) = some s' ∧
      s'.answer 0 = some (.changed 1) ∧
      s'.machine.docs[sessionPath (ascii "air") (ascii "a1")]? =
        (sampleStart (ascii "a1")).machine.docs[sessionPath (ascii "air") (ascii "a1")]? ∧
      ∃ t', exec sampleServer.step (sampleStart (ascii "a2")) (callLabels 0 samplePush 13) =
        some t' ∧ t'.answer = s'.answer := by
  have outside : ∀ key, ¬ Seen (ascii "mac") (sessionPath (ascii "air") key) := by
    intro key seen
    have head : (sessionPath (ascii "air") key).take 7 = ascii "pcs/air" := rfl
    have noPrefix : ∀ p : Path, ¬ p.take 7 <+: ascii "pcs/air" →
        ¬ p <+: sessionPath (ascii "air") key := by
      intro p differs isPrefix
      apply differs
      rw [← head, List.prefix_take_iff]
      exact ⟨(List.take_prefix 7 p).trans isPrefix, List.length_take_le 7 p⟩
    rcases seen with (same | own | own | own) | same | same | same | own
    · exact noPrefix (pcPath (ascii "mac")) (by decide) (same ▸ List.prefix_rfl)
    · exact noPrefix _ (by decide) own
    · exact noPrefix _ (by decide) own
    · exact noPrefix _ (by decide) own
    · exact noPrefix (wakePath (ascii "mac")) (by decide) (same ▸ List.prefix_rfl)
    · exact noPrefix (revokedPath (ascii "mac")) (by decide) (same ▸ List.prefix_rfl)
    · exact noPrefix (slavePath (ascii "mac")) (by decide) (same ▸ List.prefix_rfl)
    · exact noPrefix _ (by decide) own
  have of : ∀ label ∈ callLabels 0 samplePush 13,
      label.Begins (Request.Of sampleServer (ascii "mac")) := by
    intro label mem
    rcases List.mem_cons.mp mem with rfl | mem
    · exact of_sampleAuthorization (.push (some [sampleSession (ascii "w1")]))
    · rw [List.eq_of_mem_replicate mem]
      exact trivial
  have ends : ((exec sampleServer.step (sampleStart (ascii "a1")) (callLabels 0 samplePush 13)).bind
      fun s' => s'.answer 0) = some (.changed 1) := by decide +kernel
  obtain ⟨s', run, answer⟩ := Option.bind_eq_some_iff.mp ends
  obtain ⟨same, agree⟩ := slave_isolated sampleServer (ascii "mac") of rfl run
  have stores : (sampleStart (ascii "a1")).machine.Agree (Seen (ascii "mac")) (OwnKey (ascii "mac"))
      (sampleStart (ascii "a2")).machine := by
    refine ⟨fun path seen => ?_, fun _ _ => rfl, rfl, rfl⟩
    rw [sampleStart, sampleStart, changeDocument_of_ne, changeDocument_of_ne]
    · rintro rfl
      exact outside _ seen
    · rintro rfl
      exact outside _ seen
  obtain ⟨t', run', answers, -⟩ := agree (sampleStart (ascii "a2")) rfl stores
  exact ⟨s', run, answer, same.docs _ fun own => outside _ (.inl own), t', run', answers⟩

end Drover.Slave
