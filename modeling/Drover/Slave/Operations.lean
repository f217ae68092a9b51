import Drover.Slave.Endpoints

/-!
# What the endpoints do to the store

`SlaveOp` and `Does` list the operations that a request may perform, with the
documents that they address and the changes that they make.  Every handler keeps to
them, whatever the operations bring back; what a request can do is then read off by
cases.
-/

namespace Drover.Slave

open Drover.Store
open Drover.Push (Fields PushEntry sessionKey contentHash)

variable {α ρ : Type}

/-- An operation of the client. -/
abbrev ClientOp (α : Type) := Op (Doc α) PushEntry Delivery

/-- The operations of a request behind `slaveGuard`, for the PC of its bearer. -/
inductive SlaveOp (pc : Bytes) : SlaveRequest α → ClientOp α → Prop
  | now {req : SlaveRequest α} : SlaveOp pc req .now
  | isRevoked {req : SlaveRequest α} : SlaveOp pc req (.get (revokedPath pc))
  | slaveRevoked {req : SlaveRequest α} : SlaveOp pc req (.get (slavePath pc))
  | register {agentVersion : Bytes} (stamp : Bytes) :
      SlaveOp pc (.register agentVersion)
        (.write (pcPath pc) fun _ => some (.fields (slavePC pc agentVersion stamp)))
  | parent {body : Option (List (Fields α))} (stamp : Bytes) :
      SlaveOp pc (.push body) (.write (pcPath pc) fun old => some (.fields (parent pc stamp old)))
  | getSession {req : SlaveRequest α} (id : Bytes) : SlaveOp pc req (.get (sessionPath pc id))
  | setSession {req : SlaveRequest α} (id : Bytes) (change : Option (Doc α) → Option (Doc α))
      (isData : ∀ old d, change old = some d → ∃ f, d = .fields f) :
      SlaveOp pc req (.write (sessionPath pc id) change)
  | listSessions {req : SlaveRequest α} : SlaveOp pc req (.list (sessionsCol pc))
  | lookup {req : SlaveRequest α} (id : Bytes) : SlaveOp pc req (.lookup (pushKey pc id))
  | remember {req : SlaveRequest α} (id : Bytes) (entry : Option PushEntry) :
      SlaveOp pc req (.remember (pushKey pc id) entry)
  | getWebhook {req : SlaveRequest α} : SlaveOp pc req (.get webhookPath)
  | send {req : SlaveRequest α} (delivery : Delivery) : SlaveOp pc req (.emit delivery)
  | getWake {req : SlaveRequest α} : SlaveOp pc req (.get (wakePath pc))
  | grant {body : Option (Bytes × Int)} (sid : Bytes) (exp : Option Nat) :
      SlaveOp pc (.grant body)
        (.write (slaveGrantPath pc sid) fun _ => some (.slaveGrant pc sid exp))
  | getRelay {req : SlaveRequest α} : SlaveOp pc req (.get relaySettingsPath)
  | listCommands {req : SlaveRequest α} : SlaveOp pc req (.list (cmdCol pc))
  | claim {req : SlaveRequest α} (id : Bytes) :
      SlaveOp pc req (.transact (commandPath pc id) (commandPath pc id) claimChange)
  | ack {req : SlaveRequest α} (id status detail finishedAt : Bytes) :
      SlaveOp pc req (.write (commandPath pc id) (ackChange status detail finishedAt))

/-- The operations of a push of sessions. -/
inductive PushOp (server : Server α) (pc : Bytes) : ClientOp α → Prop
  | now : PushOp server pc .now
  | getSession (id : Bytes) : PushOp server pc (.get (sessionPath pc id))
  | setSession (session : Fields α) (ver : Int64) (stamp : Bytes) :
      PushOp server pc (.write (sessionPath pc (sessionKey session)) fun _ =>
        some (.fields (Push.document session ver (contentHash server.digest session) stamp)))
  | lookup (id : Bytes) : PushOp server pc (.lookup (pushKey pc id))
  | remember (id : Bytes) (entry : Option PushEntry) :
      PushOp server pc (.remember (pushKey pc id) entry)
  | parent (stamp : Bytes) :
      PushOp server pc (.write (pcPath pc) fun old => some (.fields (parent pc stamp old)))

/-- The operations of a deletion of a PC. -/
inductive DeleteOp (pc : Bytes) : ClientOp α → Prop
  | forget : DeleteOp pc (.forget (pc ++ [slash]))
  | list : DeleteOp pc (.list (sessionsCol pc))
  | deletes (path : Path) : DeleteOp pc (.write path fun _ => none)

/-- The operations of a request. -/
inductive Does (server : Server α) : Request α → ClientOp α → Prop
  | now {req : Request α} : Does server req .now
  | slave {authorization : Bytes} {req : SlaveRequest α} {pc : Bytes} {time : Nat} {o : ClientOp α}
      (verified : server.verifySlaveToken (bearer authorization) time = some pc)
      (does : SlaveOp pc req o) : Does server (.slave authorization req) o
  | tokenSlave {post : Bool} {pc secret : Bytes} :
      Does server (.token post (some (pc, secret))) (.get (slavePath pc))
  | tokenRevoked {post : Bool} {pc secret : Bytes} :
      Does server (.token post (some (pc, secret))) (.get (revokedPath pc))
  | gate {authorization sid role pc : Bytes} {time : Nat} {path : Path}
      (verified : server.verifySlaveToken (bearer authorization) time = some pc)
      (isGet : path = revokedPath pc ∨ path = slavePath pc ∨ path = slaveGrantPath pc sid) :
      Does server (.session authorization sid role) (.get path)
  | pair {role : Bytes} {code : Option Bytes} (codeHash : Bytes) (p : Secrets.Pairing) :
      Does server (.apiEnroll role code) (.write (pairingPath codeHash) fun _ => some (.pairing p))
  | getPairing {post : Bool} {code pc : Bytes} {secret : Option Bytes} (codeHash : Bytes) :
      Does server (.enroll post code pc secret) (.get (pairingPath codeHash))
  | bind {post : Bool} {code pc secret : Bytes} (valid : ValidPCName pc = true) :
      Does server (.enroll post code pc (some secret))
        (.transact (pcPath pc) (slavePath pc) (bindChange (server.sha256Hex secret)))
  | forget {post : Bool} {scope pc : Bytes} :
      Does server (.apiDeletePC post scope pc) (.forget (pc ++ [slash]))
  | revoke {post : Bool} {scope pc : Bytes} :
      Does server (.apiDeletePC post scope pc) (.write (revokedPath pc) fun _ => some .revoked)
  | list {post : Bool} {scope pc : Bytes} :
      Does server (.apiDeletePC post scope pc) (.list (sessionsCol pc))
  /-- The owner's calls may delete documents. -/
  | enrollDeletes {post : Bool} {code pc : Bytes} {secret : Option Bytes} (path : Path) :
      Does server (.enroll post code pc secret) (.write path fun _ => none)
  | deletes {post : Bool} {scope pc : Bytes} (path : Path) :
      Does server (.apiDeletePC post scope pc) (.write path fun _ => none)

/-! ## Paths -/

theorem sessionPath_eq (pc id : Bytes) :
    sessionPath pc id =
      docPath (ascii "pcs") (pc ++ slash :: (ascii "sessions" ++ slash :: id)) := by
  simp only [sessionPath, sessionsCol, pcPath, docPath, List.append_assoc, List.cons_append]

theorem sessionPath_ne_own_pcPath (pc id : Bytes) : sessionPath pc id ≠ pcPath pc := by
  rw [sessionPath_eq, pcPath, Ne, docPath_inj]
  intro same
  exact absurd (congrArg List.length same) (by simp)

theorem commandPath_eq (pc id : Bytes) :
    commandPath pc id = docPath (ascii "commands") (pc ++ slash :: (ascii "q" ++ slash :: id)) := by
  simp only [commandPath, cmdCol, docPath, List.append_assoc, List.cons_append]

theorem pushKey_inj {pc id id' : Bytes} : pushKey pc id = pushKey pc id' ↔ id = id' := by
  rw [pushKey, pushKey, List.append_cancel_left_eq, List.cons_inj_right]

theorem slash_notMem_of_valid {pc : Bytes} (valid : ValidPCName pc = true) : slash ∉ pc :=
  fun mem => absurd (isPCNameByte_of_mem valid mem) (by decide)

theorem colon_notMem_of_valid {pc : Bytes} (valid : ValidPCName pc = true) : colon ∉ pc :=
  fun mem => absurd (isPCNameByte_of_mem valid mem) (by decide)

/-! ## Methods of the client -/

section

variable {may : ClientOp α → Prop} {pc : Bytes}

theorem isRevoked_only (get : may (.get (revokedPath pc))) : (isRevoked pc).Only may := by
  rw [isRevoked]
  split
  · exact .pure _
  · apply Prog.Only.bind (.op get)
    intro snap
    split <;> exact .pure _

theorem slaveRevoked_only (get : may (.get (slavePath pc))) : (slaveRevoked pc).Only may := by
  rw [slaveRevoked]
  split
  · exact .pure _
  · apply Prog.Only.bind (.op get)
    intro snap
    split <;> exact .pure _

theorem refuses_only (revoked : may (.get (revokedPath pc))) (slave : may (.get (slavePath pc))) :
    (refuses pc).Only may := by
  apply Prog.Only.bind (isRevoked_only revoked)
  intro isRevoked
  split
  · exact .pure _
  · exact slaveRevoked_only slave

/-- A poll that is a program of a kind can be held. -/
theorem longPoll_only {poll : Client α (Option Reply)} (revoked : may (.get (revokedPath pc)))
    (slave : may (.get (slavePath pc))) (polls : poll.Only may) (fires : Nat) :
    (longPoll pc poll fires).Only may := by
  have holds : ∀ fires, (hold pc poll fires).Only may := by
    intro fires
    induction fires with
    | zero => exact .pure _
    | succ fires ih =>
        rw [hold]
        apply Prog.Only.bind (refuses_only revoked slave)
        intro refused
        split
        · exact .pure _
        · apply Prog.Only.bind polls
          intro reply
          split
          · exact .pure _
          · exact ih
  apply Prog.Only.bind polls
  intro reply
  split
  · exact .pure _
  · exact holds fires

end

/-- A handler of a kind can be put behind the guard. -/
theorem guarded_only (server : Server α) {may : ClientOp α → Prop} (now : may .now)
    (get : ∀ path, may (.get path)) (authorization : Bytes) {h : Bytes → Client α Reply}
    (handles : ∀ pc, (h pc).Only may) : (slaveGuard server authorization h).Only may := by
  rw [slaveGuard]
  split
  · exact .pure _
  · apply Prog.Only.bind (.op now)
    intro now
    split
    · exact .pure _
    · apply Prog.Only.bind (refuses_only (get _) (get _))
      intro refused
      split
      · exact .pure _
      · exact handles _

section

variable (server : Server α) (pc : Bytes) {req : SlaveRequest α}

theorem setSession_only (now : Nat) (session : Fields α) (changed : Nat) (ver : Int64) :
    (setSession server pc now session changed ver).Only (PushOp server pc) := by
  rw [setSession]
  refine .bind (.op .now) fun stamp => .bind (.op (.setSession ..)) fun ok => ?_
  split
  · exact .bind (.op (.remember ..)) fun _ => .pure _
  · exact .bind (.op (.remember ..)) fun _ => .pure _

theorem pushSession_only (now : Nat) (session : Fields α) (changed : Nat) :
    (pushSession server pc now session changed).Only (PushOp server pc) := by
  rw [pushSession]
  apply Prog.Only.bind (.op (.lookup _))
  intro entry
  split
  · exact .pure _
  · apply Prog.Only.bind (.op (.getSession _))
    intro snap
    split
    · split
      · exact .bind (.op (.remember ..)) fun _ => .pure _
      · exact setSession_only server pc now session changed _
    · exact setSession_only server pc now session changed _

theorem pushRounds_only (now : Nat) (sessions : List (Fields α)) (changed : Nat) :
    (pushRounds server pc now sessions changed).Only (PushOp server pc) := by
  induction sessions generalizing changed with
  | nil => exact .pure _
  | cons session sessions ih =>
      apply Prog.Only.bind (pushSession_only server pc now session changed)
      intro result
      split
      · exact ih _
      · exact .pure _

theorem pushStatusFor_only (sessions : List (Fields α)) :
    (pushStatusFor server pc sessions).Only (PushOp server pc) := by
  refine .bind (.op .now) fun now => .bind (pushRounds_only server pc now sessions 0)
    fun result => ?_
  split
  · exact .pure _
  · split
    · exact .bind (.op .now) fun stamp => .bind (.op (.parent _)) fun _ => .pure _
    · exact .pure _

theorem PushOp.slave {body : Option (List (Fields α))} {o : ClientOp α}
    (does : PushOp server pc o) :
    SlaveOp pc (.push body) o := by
  cases does with
  | now => exact .now
  | getSession id => exact .getSession id
  | setSession => exact .setSession _ _ fun _ _ same => ⟨_, (Option.some.inj same).symm⟩
  | lookup id => exact .lookup id
  | remember id entry => exact .remember id entry
  | parent stamp => exact .parent stamp

theorem dispatchWebhooksForTransitions_only (old : Bytes → Option Bytes)
    (sessions : List (Fields α)) :
    (dispatchWebhooksForTransitions server pc old sessions).Only (SlaveOp pc req) := by
  have dispatches : ∀ cfg, (dispatchWebhooks server cfg pc old sessions).Only (SlaveOp pc req) := by
    intro cfg
    induction sessions with
    | nil => exact .pure _
    | cons x xs ih =>
        rw [dispatchWebhooks]
        split
        · exact ih
        · exact .bind (.op .now) fun now => .bind (.op (.send _)) fun _ => ih
  have reads : (getWebhookConfig : Client α _).Only (SlaveOp pc req) := by
    apply Prog.Only.bind (.op .getWebhook)
    intro snap
    split <;> exact .pure _
  apply Prog.Only.bind reads
  intro cfg
  split
  · split
    · exact dispatches _
    · exact .pure _
  · exact .pure _

theorem slavePush_only (body : Option (List (Fields α))) :
    (slavePush server body pc).Only (SlaveOp pc (.push body)) := by
  cases body with
  | none => exact .pure _
  | some sessions =>
      apply Prog.Only.bind (.bind (.op .listSessions) fun docs => .pure _)
      intro listed
      apply Prog.Only.bind ((pushStatusFor_only server pc _).imp fun _ => PushOp.slave server pc)
      intro result
      split
      · exact .pure _
      · exact .bind (dispatchWebhooksForTransitions_only server pc ..) fun _ => .pure _

theorem slaveDelete_only (body : Option Bytes) : (slaveDelete body pc).Only (SlaveOp pc req) := by
  have deletes : ∀ key, (deleteSessionFor pc key).Only (SlaveOp pc req) := by
    intro key
    rw [deleteSessionFor]
    split
    · exact .pure _
    · refine .bind (.op (.remember ..)) fun _ => .op (.setSession _ _ ?_)
      rintro _ _ ⟨⟩
  cases body with
  | none => exact .pure _
  | some key =>
      apply Prog.Only.bind (deletes key)
      intro ok
      split <;> exact .pure _

theorem slaveSessions_only : (slaveSessions pc).Only (SlaveOp pc req) := by
  apply Prog.Only.bind (.bind (.op .listSessions) fun docs => .pure _)
  intro ids
  split <;> exact .pure _

theorem slaveWake_only {may : ClientOp α → Prop} (revoked : may (.get (revokedPath pc)))
    (slave : may (.get (slavePath pc))) (wake : may (.get (wakePath pc))) (since : Bytes)
    (fires : Nat) : (slaveWake server since fires pc).Only may := by
  apply longPoll_only revoked slave
  refine .bind (.bind (.op wake) fun snap => ?_) fun found => ?_
  · split <;> exact .pure _
  · split <;> exact .pure _

theorem slaveCommands_only (fires : Nat) : (slaveCommands fires pc).Only (SlaveOp pc req) := by
  have claims : ∀ docs, (claimCommands pc docs).Only (SlaveOp pc req) := by
    intro docs
    induction docs with
    | nil => exact .pure _
    | cons p docs ih =>
        rw [claimCommands.eq_def]
        split
        · exact .pure _
        · rename_i same
          cases same
          split
          · exact ih
          · apply Prog.Only.bind (.bind (.op (.claim _)) fun result => .pure _)
            intro claimed
            exact .bind ih fun cms => .pure _
        · rename_i same
          cases same
          exact ih
  apply longPoll_only .isRevoked .slaveRevoked
  refine .bind (.bind (.op .listCommands) fun docs => ?_) fun found => ?_
  · split
    · exact .bind (claims _) fun cms => .pure _
    · exact .pure _
  · split <;> exact .pure _

theorem slaveAckCommand_only (post : Bool) (body : Option (Bytes × Bytes × Bytes)) :
    (slaveAckCommand server post body pc).Only (SlaveOp pc req) := by
  rw [slaveAckCommand.eq_def]
  split
  · exact .pure _
  · split
    · exact .pure _
    · split
      · exact .pure _
      · refine .bind (.bind (.op .now) fun now => .op (.ack ..)) fun ok => ?_
        split <;> exact .pure _

theorem sessionOwnedBy_only (sid : Bytes) : (sessionOwnedBy pc sid).Only (SlaveOp pc req) := by
  rw [sessionOwnedBy]
  split
  · exact .pure _
  · apply Prog.Only.bind (.op (.getSession _))
    intro snap
    split <;> exact .pure _

theorem slaveGrant_only (body : Option (Bytes × Int)) :
    (slaveGrant body pc).Only (SlaveOp (α := α) pc (.grant body)) := by
  have puts : ∀ sid ttl,
      (putSlaveGrant pc sid ttl).Only (SlaveOp (α := α) pc (.grant body)) := by
    intro sid ttl
    rw [putSlaveGrant]
    split
    · exact .pure _
    · exact .bind (.op .now) fun now => .op (.grant ..)
  rw [slaveGrant.eq_def]
  split
  · exact .pure _
  · split
    · exact .pure _
    · apply Prog.Only.bind (sessionOwnedBy_only pc _)
      intro owned
      split
      · apply Prog.Only.bind (puts ..)
        intro ok
        split <;> exact .pure _
      · exact .pure _

theorem slaveRevokedHandler_only : (server.slaveRevoked pc).Only (SlaveOp pc req) := by
  apply Prog.Only.bind (refuses_only .isRevoked .slaveRevoked)
  intro rv
  refine .bind ?_ fun wsURL => .bind ?_ fun httpURL => .pure _
  · rw [relayUpstream]
    split
    · exact .pure _
    · apply Prog.Only.bind (.op .getRelay)
      intro snap
      split <;> exact .pure _
  · apply Prog.Only.bind (.op .getRelay)
    intro snap
    split <;> exact .pure _

/-- A request behind the guard keeps to its operations. -/
theorem SlaveRequest.handle_only (req : SlaveRequest α) :
    (req.handle server pc).Only (SlaveOp pc req) := by
  cases req with
  | register agentVersion =>
      refine .bind (.bind (.op .now) fun now => .op (.register _)) fun ok => ?_
      split <;> exact .pure _
  | push body => exact slavePush_only server pc body
  | delete body => exact slaveDelete_only pc body
  | sessions => exact slaveSessions_only pc
  | wake since fires =>
      exact slaveWake_only server pc .isRevoked .slaveRevoked .getWake since fires
  | grant body => exact slaveGrant_only pc body
  | revoked => exact slaveRevokedHandler_only server pc
  | commands fires => exact slaveCommands_only pc fires
  | commandAck post body => exact slaveAckCommand_only server pc post body

end

/-! ## Handlers -/

section

variable (server : Server α)

theorem slaveGuard_only (authorization : Bytes) (req : SlaveRequest α) :
    (slaveGuard server authorization (req.handle server)).Only
      (Does server (.slave authorization req)) := by
  rw [slaveGuard]
  split
  · exact .pure _
  · apply Prog.Only.bind (.op .now)
    intro now
    split
    · exact .pure _
    · rename_i pc verified
      refine .bind (refuses_only (.slave verified .isRevoked) (.slave verified .slaveRevoked))
        fun refused => ?_
      split
      · exact .pure _
      · exact (req.handle_only server pc).imp fun o does => .slave verified does

theorem slaveToken_only (post : Bool) (body : Option (Bytes × Bytes)) :
    (slaveToken server post body).Only (Does server (.token post body)) := by
  rw [slaveToken.eq_def]
  split
  · exact .pure _
  · split
    · exact .pure _
    · split
      · exact .pure _
      · split
        · exact .pure _
        · refine .bind (.bind (.op .tokenSlave) fun snap => ?_) fun hash => ?_
          · split <;> exact .pure _
          · rw [tokenForHash]
            split
            · exact .pure _
            · apply Prog.Only.bind (refuses_only .tokenRevoked .tokenSlave)
              intro refused
              split
              · exact .pure _
              · apply Prog.Only.bind (.op .now)
                intro now
                split <;> exact .pure _

theorem session_only (authorization sid role : Bytes) :
    (session server authorization sid role).Only
      (Does server (.session authorization sid role)) := by
  refine .bind ?_ fun verdict => .pure _
  rw [newSlaveGate]
  split
  · exact .pure _
  · split
    · exact .pure _
    · apply Prog.Only.bind (.op .now)
      intro now
      split
      · exact .pure _
      · rename_i pc verified
        split
        · exact .pure _
        · refine .bind (refuses_only (.gate verified (.inl rfl)) (.gate verified (.inr (.inl rfl))))
            fun refused => ?_
          split
          · exact .pure _
          · refine .bind ?_ fun valid => ?_
            · rw [slaveGrantValid]
              split
              · exact .pure _
              · apply Prog.Only.bind (.op (.gate verified (.inr (.inr rfl))))
                intro snap
                split
                · exact .bind (.op .now) fun now => .pure _
                · exact .pure _
            · split <;> exact .pure _

theorem apiEnroll_only (role : Bytes) (code : Option Bytes) :
    (apiEnroll server role code).Only (Does server (.apiEnroll role code)) := by
  rw [apiEnroll.eq_def]
  split
  · exact .pure _
  · refine .bind (.bind (.op .now) fun now => .op (.pair ..)) fun ok => ?_
    split <;> exact .pure _

theorem consumePairing_only {post : Bool} {code pc : Bytes} {secret : Option Bytes}
    (codeHash : Bytes) :
    (consumePairing codeHash).Only (Does server (.enroll post code pc secret)) := by
  apply Prog.Only.bind (.op (.getPairing _))
  intro snap
  split
  · exact .bind (.op (.enrollDeletes _)) fun _ => .bind (.op .now) fun now => .pure _
  · exact .pure _

theorem enroll_only (post : Bool) (code pc : Bytes) (secret : Option Bytes) :
    (enroll server post code pc secret).Only (Does server (.enroll post code pc secret)) := by
  rw [enroll.eq_def]
  split
  · exact .pure _
  · split
    · exact .pure _
    · apply Prog.Only.bind (consumePairing_only server _)
      intro consumed
      split
      · exact .pure _
      · split
        · exact .pure _
        · split
          · exact .pure _
          · split
            · exact .pure _
            · split
              · exact .pure _
              · rename_i valid
                rw [Bool.not_eq_false] at valid
                cases secret with
                | none => exact .pure _
                | some secret =>
                    refine .bind ?_ fun bound => ?_
                    · rw [bindSlave, if_neg (by simp [valid])]
                      exact .bind (.op (.bind valid)) fun result => .pure _
                    · split
                      · exact .pure _
                      · exact .pure _
                      · refine .bind ?_ fun _ => .pure _
                        rw [clearRevoked]
                        split
                        · exact .pure _
                        · exact .op (.enrollDeletes _)

theorem deletePC_only (pc : Bytes) : (deletePC pc).Only (DeleteOp (α := α) pc) := by
  have deletes : ∀ docs, (deleteSessions pc docs).Only (DeleteOp (α := α) pc) := by
    intro docs
    induction docs with
    | nil => exact .pure _
    | cons p docs ih => exact .bind (.op (.deletes _)) fun _ => ih
  rw [deletePC]
  split
  · exact .pure _
  · refine .bind (.op .list) fun docs => .bind (deletes _) fun _ => ?_
    exact .bind (.op (.deletes _)) fun _ => .bind (.op (.deletes _)) fun _ => .op (.deletes _)

theorem deletePCByID_only (pc : Bytes) : (deletePCByID pc).Only (DeleteOp (α := α) pc) :=
  .bind (.op .forget) fun _ => deletePC_only pc

theorem DeleteOp.does {post : Bool} {scope pc : Bytes} {o : ClientOp α} (deletes : DeleteOp pc o) :
    Does server (.apiDeletePC post scope pc) o := by
  cases deletes with
  | forget => exact .forget
  | list => exact .list
  | deletes path => exact .deletes path

theorem apiDeletePC_only (post : Bool) (scope pc : Bytes) :
    (apiDeletePC post scope pc).Only (Does server (.apiDeletePC post scope pc)) := by
  rw [apiDeletePC]
  split
  · exact .pure _
  · split
    · exact .pure _
    · refine .bind ?_ fun ok => ?_
      · rw [setRevoked]
        split
        · exact .pure _
        · exact .op .revoke
      · split
        · apply Prog.Only.bind ((deletePCByID_only pc).imp fun _ => DeleteOp.does server)
          intro ok
          split <;> exact .pure _
        · exact .pure _

end

/-- Every request keeps to its operations. -/
theorem Server.handle_only (server : Server α) (req : Request α) :
    (server.handle req).Only (Does server req) := by
  cases req with
  | token post body => exact slaveToken_only server post body
  | slave authorization req => exact slaveGuard_only server authorization req
  | session authorization sid role => exact session_only server authorization sid role
  | apiEnroll role code => exact apiEnroll_only server role code
  | enroll post code pc secret => exact enroll_only server post code pc secret
  | apiDeletePC post scope pc => exact apiDeletePC_only server post scope pc

end Drover.Slave
