import Drover.Slave.Role
import Drover.Store.Runs

/-!
# The runs of a push

What the rounds of `pushSessions` do, whatever the environment decides: a round skips a
session that the memory knows, or reads its document and may write it.
-/

namespace Drover.Slave

open Drover.Store
open Drover.Push (Fields PushEntry sessionKey contentHash)

variable {α : Type}

/-- A push at the time skips the session. -/
def Known (server : Server α) (pc : Bytes) (now : Nat) (m : RelayMachine α) (session : Fields α) :
    Prop :=
  remembered server now (contentHash server.digest session)
    (m.memory (pushKey pc (sessionKey session))) = true

instance (server : Server α) (pc : Bytes) (now : Nat) (m : RelayMachine α) (session : Fields α) :
    Decidable (Known server pc now m session) :=
  inferInstanceAs (Decidable (_ = true))

/-- The rest of a round, for a session that is not known. -/
def readSession (server : Server α) (pc : Bytes) (now : Nat) (session : Fields α) (changed : Nat) :
    Client α (Option Nat) := do
  let id := sessionKey session
  let hash := contentHash server.digest session
  match ← Prog.get (sessionPath pc id) with
  | .found d =>
      if Push.stringField d.data Push.contentHashKey = hash then
        Prog.remember (pushKey pc id) (some ⟨hash, Push.int64Field d.data Push.version, now⟩)
        pure (some changed)
      else setSession server pc now session changed (Push.int64Field d.data Push.version + 1)
  | _ => setSession server pc now session changed 1

/-- The write of a session. -/
def setOp (server : Server α) (pc : Bytes) (session : Fields α) (ver : Int64) (stamp : Bytes) :
    ClientOp α :=
  .write (sessionPath pc (sessionKey session)) fun _ =>
    some (.fields (Push.document session ver (contentHash server.digest session) stamp))

/-- What a push remembers of a session. -/
def rememberOp (server : Server α) (pc : Bytes) (now : Nat) (session : Fields α) (ver : Int64) :
    ClientOp α :=
  .remember (pushKey pc (sessionKey session)) (some ⟨contentHash server.digest session, ver, now⟩)

/-- The removal of a session from the cache. -/
def forgetOp (pc : Bytes) (session : Fields α) : ClientOp α :=
  .remember (pushKey pc (sessionKey session)) none

/-! ## The rounds of a push -/

section

variable {server : Server α} {pc : Bytes} {now : Nat} {m : RelayMachine α}

section

variable {session : Fields α} {changed : Nat} {ver : Int64}
  {post : List (Performed (Doc α) PushEntry Delivery) → RelayMachine α → Option Nat → Prop}

theorem setSession_ensures
    (done : ∀ c c' c'', c'.write = .ok →
      post [⟨.now, c⟩, ⟨setOp server pc session ver (server.rfc3339 m.clock), c'⟩,
          ⟨rememberOp server pc now session ver, c''⟩]
        ((m.after c' (setOp server pc session ver (server.rfc3339 m.clock))).after c''
          (rememberOp server pc now session ver)) (some (changed + 1)))
    (failed : ∀ c c' c'', c'.write ≠ .ok →
      post [⟨.now, c⟩, ⟨setOp server pc session ver (server.rfc3339 m.clock), c'⟩,
          ⟨forgetOp pc session, c''⟩]
        ((m.after c' (setOp server pc session ver (server.rfc3339 m.clock))).after c''
          (forgetOp pc session)) none) :
    (setSession server pc now session changed ver).Ensures m post := by
  apply Prog.Ensures.op
  intro c
  apply Prog.Ensures.op
  intro c'
  change Prog.Ensures (if decide (c'.write = .ok) = true then _ else _) _ _
  split
  · rename_i isOk
    apply Prog.Ensures.op
    intro c''
    exact .pure (done c c' c'' (of_decide_eq_true isOk))
  · rename_i isFailed
    apply Prog.Ensures.op
    intro c''
    exact .pure (failed c c' c'' fun isOk => isFailed (decide_eq_true isOk))

theorem readSession_ensures
    (same : ∀ c c' d, readDocument m.docs c.read (sessionPath pc (sessionKey session)) = .found d →
      Push.stringField d.data Push.contentHashKey = contentHash server.digest session →
      post [⟨.get (sessionPath pc (sessionKey session)), c⟩,
          ⟨rememberOp server pc now session (Push.int64Field d.data Push.version), c'⟩]
        (m.after c' (rememberOp server pc now session (Push.int64Field d.data Push.version)))
        (some changed))
    (sets : ∀ c ver, (setSession server pc now session changed ver).Ensures m fun steps =>
      post (⟨.get (sessionPath pc (sessionKey session)), c⟩ :: steps)) :
    (readSession server pc now session changed).Ensures m post := by
  apply Prog.Ensures.op
  intro c
  change Prog.Ensures (match readDocument m.docs c.read (sessionPath pc (sessionKey session)) with
    | .found d => _
    | _ => setSession server pc now session changed 1) m _
  split
  · rename_i d read
    change Prog.Ensures (if Push.stringField d.data Push.contentHashKey = _ then _ else _) m _
    split
    · rename_i isSame
      apply Prog.Ensures.op
      intro c'
      exact .pure (same c c' d read isSame)
    · exact sets c _
  · exact sets c 1

/-- A round looks into the memory first. -/
theorem pushSession_ensures
    (known : Known server pc now m session → ∀ choice,
      post [⟨.lookup (pushKey pc (sessionKey session)), choice⟩] m (some changed))
    (unknown : ¬Known server pc now m session → ∀ choice,
      (readSession server pc now session changed).Ensures m fun steps =>
        post (⟨.lookup (pushKey pc (sessionKey session)), choice⟩ :: steps)) :
    (pushSession server pc now session changed).Ensures m post := by
  apply Prog.Ensures.op
  intro choice
  change Prog.Ensures (if remembered server now (contentHash server.digest session)
      (m.memory (pushKey pc (sessionKey session))) = true
    then pure (some changed) else readSession server pc now session changed) m _
  split
  · rename_i isKnown
    exact .pure (known isKnown choice)
  · rename_i isUnknown
    exact unknown isUnknown choice

end

end

end Drover.Slave
