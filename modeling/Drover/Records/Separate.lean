import Drover.Glasses.Effects
import Drover.Relay.Invariant
import Drover.Slave.Grants
import Drover.Slave.Isolation
import Drover.Web.Pairing
import Mathlib.Data.Set.Operations

/-!
# Composite identifiers

Five kinds of records are kept under a name that is made of two strings: the grants of the
relay and of the shared PCs, the pairings of the relay, the entries of the push cache, and the
documents of the glasses.  Each name tells its parts for the strings that the callers let
through, so that what is done to one pair leaves the record of another alone.
-/

namespace Drover.Records

open Drover.Store Drover.Transition
open Drover.Glasses (docID answerPath askPath validPC validRequestID)
open Drover.Push (Fields PushEntry sessionKey)
open Drover.Slave
open Drover.Web (slaveSessionKey)

variable {α : Type}

/-- A pair of strings. -/
abbrev Pair := Bytes × Bytes

/-- The pairs that name a record. -/
def relayPairs : Set Pair := {p | p.2 = ascii "source" ∨ p.2 = ascii "viewer"}

/-- A valid PC name and a session. -/
def slavePairs : Set Pair := {p | ValidPCName p.1 = true}

/-- A PC and a session that are pushed. -/
def pushPairs : Set Pair := {p | slash ∉ p.1}

/-- A PC and a request id that the glasses accept. -/
def glassesPairs : Set Pair := {p | validPC p.1 = true ∧ validRequestID p.2 = true}

/-! ## The names tell their parts -/

theorem relayGrantID_injOn : Set.InjOn (Function.uncurry relayGrantID) relayPairs := by
  have clean : ∀ p ∈ relayPairs, colon ∉ p.2 := by
    rintro p (isRole | isRole)
    · rw [isRole]
      decide
    · rw [isRole]
      decide
  intro p mem q mem' same
  exact Prod.ext_iff.mpr ((separated_inj_right (clean q mem') (clean p mem)).mp same)

theorem slaveGrantDocID_injOn : Set.InjOn (Function.uncurry slaveGrantDocID) slavePairs := by
  intro p mem q mem' same
  exact Prod.ext_iff.mpr ((slaveGrantDocID_inj mem mem').mp same)

theorem slaveSessionKey_injOn : Set.InjOn (Function.uncurry slaveSessionKey) slavePairs := by
  intro p mem q mem' same
  exact Prod.ext_iff.mpr
    ((separated_inj (Web.nul_notMem_of_validPCName mem') (Web.nul_notMem_of_validPCName mem)).mp
      same)

theorem pushKey_injOn : Set.InjOn (Function.uncurry pushKey) pushPairs := by
  intro p mem q mem' same
  exact Prod.ext_iff.mpr ((separated_inj mem' mem).mp same)

theorem docID_injOn : Set.InjOn (Function.uncurry docID) glassesPairs := by
  rintro p mem q ⟨validPC, validID⟩ same
  exact Prod.ext_iff.mpr ((Glasses.docID_inj ⟨validPC, validID⟩).mp same)

/-! ## Grants -/

/-- What is done to a pair leaves the records of the others alone. -/
def Isolated {δ ε η ρ : Type} (pairs : Set Pair) (record : Pair → Path)
    (operation : Pair → Prog δ ε η ρ) : Prop :=
  ∀ p ∈ pairs, ∀ q ∈ pairs, p ≠ q → (operation p).Only (Op.Spares (record q))

theorem relayGrantPath_ne {p q : Pair} (mem : p ∈ relayPairs) (mem' : q ∈ relayPairs)
    (other : p ≠ q) : relayGrantPath p.1 p.2 ≠ relayGrantPath q.1 q.2 := by
  intro same
  exact other (relayGrantID_injOn mem mem' (docPath_inj.mp same))

theorem putRelayGrant_isolated (pcID : Bytes) (ttl : Nat) :
    Isolated relayPairs (fun p => relayGrantPath p.1 p.2)
      fun p => putRelayGrant (α := α) pcID p.1 p.2 ttl := by
  intro p mem q mem' other
  have apart := relayGrantPath_ne mem mem' other
  simp only [putRelayGrant]
  split
  · exact .pure _
  · apply Prog.Only.bind (.op ⟨trivial, trivial⟩)
    intro now
    exact .op ⟨trivial, apart⟩

theorem checkRelayGrant_isolated :
    Isolated relayPairs (fun p => relayGrantPath p.1 p.2)
      fun p => checkRelayGrant (α := α) p.1 p.2 := by
  intro p mem q mem' other
  have apart := relayGrantPath_ne mem mem' other
  have revoked : ∀ pc, revokedPath pc ≠ relayGrantPath q.1 q.2 :=
    fun pc => docPath_ne (by decide) (by decide) (by decide)
  simp only [checkRelayGrant]
  split
  · exact .pure _
  · apply Prog.Only.bind (.op ⟨apart, trivial⟩)
    intro snap
    split
    · rename_i pc exp
      apply Prog.Only.bind (.op ⟨trivial, trivial⟩)
      intro now
      split
      · split
        · apply Prog.Only.bind (isRevoked_only ⟨revoked pc, trivial⟩)
          intro isRevoked
          exact .pure _
        · exact .pure _
      · exact .pure _
    · exact .pure _

theorem slaveGrantPath_ne {p q : Pair} (mem : p ∈ slavePairs) (mem' : q ∈ slavePairs)
    (other : p ≠ q) : slaveGrantPath p.1 p.2 ≠ slaveGrantPath q.1 q.2 := by
  intro same
  exact other (Prod.ext_iff.mpr ((slaveGrantPath_inj mem mem').mp same))

theorem putSlaveGrant_isolated (ttl : Nat) :
    Isolated slavePairs (fun p => slaveGrantPath p.1 p.2)
      fun p => putSlaveGrant (α := α) p.1 p.2 ttl := by
  intro p mem q mem' other
  have apart := slaveGrantPath_ne mem mem' other
  simp only [putSlaveGrant]
  split
  · exact .pure _
  · apply Prog.Only.bind (.op ⟨trivial, trivial⟩)
    intro now
    exact .op ⟨trivial, apart⟩

theorem slaveGrantValid_isolated :
    Isolated slavePairs (fun p => slaveGrantPath p.1 p.2)
      fun p => slaveGrantValid (α := α) p.1 p.2 := by
  intro p mem q mem' other
  have apart := slaveGrantPath_ne mem mem' other
  simp only [slaveGrantValid]
  split
  · exact .pure _
  · apply Prog.Only.bind (.op ⟨apart, trivial⟩)
    intro snap
    split
    · exact Prog.Only.bind (.op ⟨trivial, trivial⟩) fun now => .pure _
    · exact .pure _

/-! ## Pairings -/

/-- A step of the relay for one pairing leaves the others alone, in every state that it
reaches. -/
def PairingsIsolated : Prop :=
  ∀ actions s, exec Relay.step Relay.State.init actions = some s →
    ∀ p ∈ slavePairs, ∀ q ∈ slavePairs, p ≠ q → ∀ action next,
      Relay.step s action = some next → s.keyOf action = some (slaveSessionKey p.1 p.2) →
        s.SameAt (slaveSessionKey q.1 q.2) next

theorem pairingsIsolated : PairingsIsolated := by
  intro actions s reached p mem q mem' other action next taken serves
  have wf := ((Relay.registered_always actions).last reached).wf
  apply (Relay.effect_of_step taken).sameAt wf serves
  intro same
  exact other (slaveSessionKey_injOn mem mem' same.symm)

/-! ## The push cache -/

theorem pushKey_ne {p q : Pair} (mem : p ∈ pushPairs) (mem' : q ∈ pushPairs) (other : p ≠ q) :
    pushKey p.1 p.2 ≠ pushKey q.1 q.2 := by
  intro same
  exact other (pushKey_injOn mem mem' same)

/-- The key is that of an entry of the PC. -/
theorem isPrefixOf_iff_pushKey {pc key : Bytes} :
    (pc ++ [slash]).isPrefixOf key = true ↔ ∃ id, key = pushKey pc id := by
  rw [List.isPrefixOf_iff_prefix]
  constructor
  · rintro ⟨id, rfl⟩
    exact ⟨id, by rw [pushKey, List.append_assoc, List.singleton_append]⟩
  · rintro ⟨id, rfl⟩
    exact ownKey_pushKey pc id

/-- `forgetPC` removes exactly the entries of the PC. -/
def ForgetsPC (α : Type) : Prop :=
  ∀ (m : Machine (Doc α) PushEntry Delivery) choice pc, slash ∉ pc →
    (∀ p ∈ pushPairs, (m.after choice (.forget (pc ++ [slash]))).memory (pushKey p.1 p.2) =
      if p.1 = pc then none else m.memory (pushKey p.1 p.2)) ∧
    ∀ key, (∀ id, key ≠ pushKey pc id) →
      (m.after choice (.forget (pc ++ [slash]))).memory key = m.memory key

theorem forgetsPC (α : Type) : ForgetsPC α := by
  intro m choice pc clean
  have others : ∀ key, (∀ id, key ≠ pushKey pc id) →
      (m.after choice (.forget (pc ++ [slash]))).memory key = m.memory key := by
    intro key other
    apply if_neg
    rw [isPrefixOf_iff_pushKey]
    rintro ⟨id, isKey⟩
    exact other id isKey
  constructor
  · intro p mem
    split
    · rename_i isPC
      apply if_pos
      rw [isPrefixOf_iff_pushKey, isPC]
      exact ⟨p.2, rfl⟩
    · rename_i notPC
      apply others
      intro id same
      have samePair := pushKey_injOn mem (show (pc, id) ∈ pushPairs from clean) same
      exact notPC (congrArg Prod.fst samePair)
  · exact others

theorem setSession_sparesKey (server : Server α) {pc key : Bytes} (now : Nat) (session : Fields α)
    (changed : Nat) (ver : Int64) (other : pushKey pc (sessionKey session) ≠ key) :
    (setSession server pc now session changed ver).Only (Op.SparesKey key) := by
  apply Prog.Only.bind (.op trivial)
  intro stamp
  apply Prog.Only.bind (.op trivial)
  intro ok
  split
  · exact Prog.Only.bind (.op other) fun _ => .pure _
  · exact Prog.Only.bind (.op other) fun _ => .pure _

/-- A push of one session leaves the entries of the others alone. -/
theorem pushSession_sparesKey (server : Server α) {pc key : Bytes} (now : Nat)
    (session : Fields α) (changed : Nat) (other : pushKey pc (sessionKey session) ≠ key) :
    (pushSession server pc now session changed).Only (Op.SparesKey key) := by
  apply Prog.Only.bind (.op other)
  intro entry
  split
  · exact .pure _
  · apply Prog.Only.bind (.op trivial)
    intro snap
    split
    · split
      · exact Prog.Only.bind (.op other) fun _ => .pure _
      · exact setSession_sparesKey server now session changed _ other
    · exact setSession_sparesKey server now session changed _ other

theorem deleteSessionFor_sparesKey {pc id key : Bytes} (other : pushKey pc id ≠ key) :
    (deleteSessionFor (α := α) pc id).Only (Op.SparesKey key) := by
  rw [deleteSessionFor]
  split
  · exact .pure _
  · exact Prog.Only.bind (.op other) fun _ => .op trivial

/-- The push and the deletion of one session leave the entries of the others alone. -/
def PushIsolated (α : Type) : Prop :=
  ∀ p ∈ pushPairs, ∀ q ∈ pushPairs, p ≠ q →
    (∀ (server : Server α) now session changed, sessionKey session = p.2 →
      (pushSession server p.1 now session changed).Only (Op.SparesKey (pushKey q.1 q.2))) ∧
    (deleteSessionFor (α := α) p.1 p.2).Only (Op.SparesKey (pushKey q.1 q.2))

theorem pushIsolated (α : Type) : PushIsolated α := by
  intro p mem q mem' other
  have apart := pushKey_ne mem mem' other
  constructor
  · intro server now session changed isKey
    exact pushSession_sparesKey server now session changed (isKey ▸ apart)
  · exact deleteSessionFor_sparesKey apart

/-! ## The documents of the glasses -/

/-- What is done for a pair: a read or an update of its question, or a write of its answer;
whether the PC is registered is read elsewhere. -/
inductive PairOp (pc requestID : Bytes) : Glasses.ClientOp → Prop
  | now : PairOp pc requestID .now
  | isRevoked : PairOp pc requestID (.get (Glasses.revokedPath pc))
  | listPCs : PairOp pc requestID (.list Glasses.pcsCol)
  | getAsk : PairOp pc requestID (.get (askPath pc requestID))
  | setAsk (change : Option Glasses.Doc → Option Glasses.Doc) :
      PairOp pc requestID (.write (askPath pc requestID) change)
  | updateAsk
      (change : Snapshot Glasses.Doc → Option (Option Glasses.Doc → Option Glasses.Doc)) :
      PairOp pc requestID (.transact (askPath pc requestID) (askPath pc requestID) change)
  | setAnswer (change : Option Glasses.Doc → Option Glasses.Doc) :
      PairOp pc requestID (.write (answerPath pc requestID) change)

section

variable {pc requestID : Bytes}

theorem put_only (text : Bytes) : (Glasses.put pc requestID text).Only (PairOp pc requestID) := by
  rw [Glasses.put]
  split
  · exact .pure _
  · apply Prog.Only.bind (.op .now)
    intro now
    exact Prog.Only.bind (.op (.setAnswer _)) fun ok => .pure _

theorem registerAsk_only :
    (Glasses.registerAsk pc requestID).Only (PairOp pc requestID) := by
  rw [Glasses.registerAsk]
  split
  · exact .pure _
  · apply Prog.Only.bind (.op .now)
    intro now
    exact Prog.Only.bind (.op (.setAsk _)) fun ok => .pure _

theorem askDoc_only : (Glasses.askDoc pc requestID).Only (PairOp pc requestID) := by
  apply Prog.Only.bind (.op .getAsk)
  intro snap
  split
  · exact .pure _
  · exact Prog.Only.bind (.op .now) fun now => .pure _
  · exact .pure _

theorem answerAsk_only (text : Bytes) :
    (Glasses.answerAsk pc requestID text).Only (PairOp pc requestID) := by
  rw [Glasses.answerAsk]
  split
  · exact .pure _
  · apply Prog.Only.bind askDoc_only
    intro result
    split
    · exact .pure _
    · exact .pure _
    · apply Prog.Only.bind (.op .now)
      intro now
      exact Prog.Only.bind (.op (.updateAsk _)) fun result => .pure _

theorem takeAskReply_only : (Glasses.takeAskReply pc requestID).Only (PairOp pc requestID) := by
  apply Prog.Only.bind askDoc_only
  intro result
  split
  · exact .pure _
  · exact .pure _
  · split
    · exact .pure _
    · split
      · exact .pure _
      · apply Prog.Only.bind (.op .now)
        intro now
        exact Prog.Only.bind (.op (.updateAsk _)) fun result => .pure _

theorem registered_only : (Glasses.registered pc).Only (PairOp pc requestID) := by
  apply Prog.Only.bind
  · rw [Glasses.isRevoked]
    split
    · exact .pure _
    · apply Prog.Only.bind (.op .isRevoked)
      intro snap
      split <;> exact .pure _
  · intro revoked
    split
    · exact .pure _
    · apply Prog.Only.bind (.op .listPCs)
      intro docs
      split <;> exact .pure _

theorem putAnswer_only (text : Bytes) :
    (Glasses.putAnswer pc requestID text).Only (PairOp pc requestID) := by
  rw [Glasses.putAnswer]
  split
  · exact .pure _
  · apply Prog.Only.bind registered_only
    intro isRegistered
    split
    · exact .pure _
    · exact .pure _
    · apply Prog.Only.bind (answerAsk_only text)
      intro result
      split
      · exact .pure _
      · exact .pure _
      · exact put_only text

/-- An acknowledgement deletes answers of its ids. -/
theorem ackEach_only (ids : List Bytes) :
    (Glasses.ackEach pc ids).Only fun o => ∃ id ∈ ids, PairOp pc id o := by
  induction ids with
  | nil => exact .pure _
  | cons id rest ih =>
      have later : (Glasses.ackEach pc rest).Only fun o => ∃ id' ∈ id :: rest, PairOp pc id' o := by
        apply ih.imp
        rintro o ⟨id', mem, does⟩
        exact ⟨id', List.mem_cons_of_mem _ mem, does⟩
      rw [Glasses.ackEach]
      split
      · exact later
      · apply Prog.Only.bind (.op ⟨id, List.mem_cons_self, .setAnswer _⟩)
        intro ok
        split
        · exact later
        · exact .pure _

theorem ack_only (ids : List Bytes) :
    (Glasses.ack pc ids).Only fun o => ∃ id ∈ ids, PairOp pc id o := by
  rw [Glasses.ack]
  split
  · exact .pure _
  · exact ackEach_only ids

end

/-- What is done for a pair touches neither document of another. -/
theorem PairOp.spares {p q : Pair} (mem : q ∈ glassesPairs) (other : p ≠ q)
    {o : Glasses.ClientOp} (does : PairOp p.1 p.2 o) :
    o.Spares (answerPath q.1 q.2) ∧ o.Spares (askPath q.1 q.2) := by
  have apart : docID p.1 p.2 ≠ docID q.1 q.2 := by
    intro same
    exact other (Prod.ext_iff.mpr ((Glasses.docID_inj ⟨mem.1, mem.2⟩).mp same))
  have answers : answerPath p.1 p.2 ≠ answerPath q.1 q.2 := mt docPath_inj.mp apart
  have asks : askPath p.1 p.2 ≠ askPath q.1 q.2 := mt docPath_inj.mp apart
  have cross := Glasses.answerPath_ne_askPath p.1 p.2 q.1 q.2
  have cross' := (Glasses.answerPath_ne_askPath q.1 q.2 p.1 p.2).symm
  cases does with
  | now => exact ⟨⟨trivial, trivial⟩, ⟨trivial, trivial⟩⟩
  | isRevoked =>
      have notAnswer : Glasses.revokedPath p.1 ≠ answerPath q.1 q.2 :=
        docPath_ne (by decide) (by decide) (by decide)
      have notAsk : Glasses.revokedPath p.1 ≠ askPath q.1 q.2 :=
        docPath_ne (by decide) (by decide) (by decide)
      exact ⟨⟨notAnswer, trivial⟩, ⟨notAsk, trivial⟩⟩
  | listPCs =>
      have notAnswer : ∀ id, docPath Glasses.pcsCol id ≠ answerPath q.1 q.2 :=
        fun id => docPath_ne (by decide) (by decide) (by decide)
      have notAsk : ∀ id, docPath Glasses.pcsCol id ≠ askPath q.1 q.2 :=
        fun id => docPath_ne (by decide) (by decide) (by decide)
      exact ⟨⟨notAnswer, trivial⟩, ⟨notAsk, trivial⟩⟩
  | getAsk => exact ⟨⟨cross', trivial⟩, ⟨asks, trivial⟩⟩
  | setAsk change => exact ⟨⟨trivial, cross'⟩, ⟨trivial, asks⟩⟩
  | updateAsk change => exact ⟨⟨cross', cross'⟩, ⟨asks, asks⟩⟩
  | setAnswer change => exact ⟨⟨trivial, answers⟩, ⟨trivial, cross⟩⟩

/-- What is done to a pair leaves the answer and the question of the others alone. -/
def GlassesIsolated {ρ : Type} (operation : Pair → Glasses.Client ρ) : Prop :=
  Isolated glassesPairs (fun p => answerPath p.1 p.2) operation ∧
    Isolated glassesPairs (fun p => askPath p.1 p.2) operation

theorem glassesIsolated_of_only {ρ : Type} {operation : Pair → Glasses.Client ρ}
    (only : ∀ p, (operation p).Only (PairOp p.1 p.2)) : GlassesIsolated operation := by
  constructor
  · intro p mem q mem' other
    exact (only p).imp fun o does => (does.spares mem' other).1
  · intro p mem q mem' other
    exact (only p).imp fun o does => (does.spares mem' other).2

/-- An acknowledgement leaves what it does not name. -/
def AckIsolated : Prop :=
  ∀ pc ids, ∀ q ∈ glassesPairs, (∀ id ∈ ids, (pc, id) ≠ q) →
    (Glasses.ack pc ids).Only fun o =>
      o.Spares (answerPath q.1 q.2) ∧ o.Spares (askPath q.1 q.2)

theorem ackIsolated : AckIsolated := by
  intro pc ids q mem others
  apply (ack_only ids).imp
  rintro o ⟨id, inIDs, does⟩
  exact PairOp.spares (p := (pc, id)) mem (others id inIDs) does

/-! ## All records -/

/-- Composite identifiers never alias: the names are injective on what the callers let
through, `forgetPC` removes exactly the entries of its PC, and no operation on a pair touches
the record of another. -/
theorem separate (α : Type) :
    Set.InjOn (Function.uncurry relayGrantID) relayPairs ∧
    Set.InjOn (Function.uncurry slaveGrantDocID) slavePairs ∧
    Set.InjOn (Function.uncurry slaveSessionKey) slavePairs ∧
    Set.InjOn (Function.uncurry pushKey) pushPairs ∧
    Set.InjOn (Function.uncurry docID) glassesPairs ∧
    (∀ pcID ttl, Isolated relayPairs (fun p => relayGrantPath p.1 p.2)
      fun p => putRelayGrant (α := α) pcID p.1 p.2 ttl) ∧
    (Isolated relayPairs (fun p => relayGrantPath p.1 p.2)
      fun p => checkRelayGrant (α := α) p.1 p.2) ∧
    (∀ ttl, Isolated slavePairs (fun p => slaveGrantPath p.1 p.2)
      fun p => putSlaveGrant (α := α) p.1 p.2 ttl) ∧
    (Isolated slavePairs (fun p => slaveGrantPath p.1 p.2)
      fun p => slaveGrantValid (α := α) p.1 p.2) ∧
    PairingsIsolated ∧ ForgetsPC α ∧ PushIsolated α ∧
    (∀ text, GlassesIsolated (fun p => Glasses.put p.1 p.2 text) ∧
      GlassesIsolated (fun p => Glasses.putAnswer p.1 p.2 text) ∧
      GlassesIsolated fun p => Glasses.answerAsk p.1 p.2 text) ∧
    GlassesIsolated (fun p => Glasses.registerAsk p.1 p.2) ∧
    GlassesIsolated (fun p => Glasses.takeAskReply p.1 p.2) ∧ AckIsolated := by
  have answers : ∀ text, GlassesIsolated (fun p => Glasses.put p.1 p.2 text) ∧
      GlassesIsolated (fun p => Glasses.putAnswer p.1 p.2 text) ∧
      GlassesIsolated fun p => Glasses.answerAsk p.1 p.2 text := by
    intro text
    exact ⟨glassesIsolated_of_only fun _ => put_only text,
      glassesIsolated_of_only fun _ => putAnswer_only text,
      glassesIsolated_of_only fun _ => answerAsk_only text⟩
  exact ⟨relayGrantID_injOn, slaveGrantDocID_injOn, slaveSessionKey_injOn, pushKey_injOn,
    docID_injOn, putRelayGrant_isolated, checkRelayGrant_isolated, putSlaveGrant_isolated,
    slaveGrantValid_isolated, pairingsIsolated, forgetsPC α, pushIsolated α, answers,
    glassesIsolated_of_only fun _ => registerAsk_only,
    glassesIsolated_of_only fun _ => takeAskReply_only, ackIsolated⟩

/-- Session ids with a separator in them. -/
theorem separate_sample :
    slaveGrantDocID (ascii "mac") (ascii "air:w1") ≠ slaveGrantDocID (ascii "air") (ascii "w1") ∧
      relayGrantID (ascii "w1:source") (ascii "viewer") ≠
        relayGrantID (ascii "w1") (ascii "source") := by
  have all := separate Unit
  constructor
  · intro same
    have samePair := @all.2.1 (ascii "mac", ascii "air:w1")
      (show ValidPCName (ascii "mac") = true by decide) (ascii "air", ascii "w1")
      (show ValidPCName (ascii "air") = true by decide) same
    cases samePair
  · intro same
    have samePair := @all.1 (ascii "w1:source", ascii "viewer") (.inr rfl)
      (ascii "w1", ascii "source") (.inl rfl) same
    cases samePair

end Drover.Records
