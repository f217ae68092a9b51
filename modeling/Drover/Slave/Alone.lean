import Drover.Slave.Operations
import Drover.Web.SlaveToken

/-!
# Endpoints that run alone

A handler that runs alone, where every operation goes well, does in one step what the
models of its parts say: the gate decides like `Web.slaveGate` on what the store holds,
and a push does to the documents and the cache what `Push.pushSessions` does.  With the
key of a service account, the bearers are the tokens of `Web.mintSlaveToken`.
-/

namespace Drover.Slave

open Drover.Store
open Drover.Push (Fields PushEntry stringField sessionKey contentHash contentHashKey)
open Drover.Web (Verdict slaveSessionKey)

variable {α ρ σ : Type}

/-- The machine and the value after the method has run alone. -/
def Client.alone (p : Client α ρ) (m : Machine (Doc α) PushEntry Delivery) :
    Machine (Doc α) PushEntry Delivery × ρ :=
  p.run (fun _ => .ok) m

theorem Client.alone_bind (p : Client α ρ) (f : ρ → Client α σ)
    (m : Machine (Doc α) PushEntry Delivery) :
    Client.alone (p >>= f) m = (f (p.alone m).2).alone (p.alone m).1 :=
  Prog.run_bind .ok p f m

/-! ## Bearers -/

/-- The server with the key of a service account, and the texts of its tokens. -/
def Server.withAccount (server : Server α) (sa : Web.ServiceAccount) : Server α :=
  { server with
    verifies := sa.privateKey.map Web.Key.verify
    sign :=
      if sa.clientEmail = [] then none else sa.privateKey.map fun key msg => some (key.sign msg)
    header := Web.encodeSegment Web.jwtHead
    marshal := fun uid iat =>
      JsonText.renderObject (Web.jwtClaims sa.clientEmail uid (iat * Web.nanoseconds))
    unmarshal := fun cb => (Web.unmarshalClaims cb).map fun c => ⟨c.exp, c.uid⟩
    encode := Base64.encodeToString
    decode := Base64.decodeString }

section

variable (server : Server α) (sa : Web.ServiceAccount)

/-- The claims are those of the second of the token. -/
theorem jwtClaims_second (clientEmail uid : Bytes) (now : Nat) :
    Web.jwtClaims clientEmail uid (now / second * Web.nanoseconds) =
      Web.jwtClaims clientEmail uid now := by
  have iat : Web.unix (now / second * Web.nanoseconds) = Web.unix now :=
    Nat.mul_div_cancel _ (by decide)
  have exp (time : Nat) : Web.unix (time + Web.hour) = Web.unix time + 3600 :=
    Nat.add_mul_div_right _ _ (by decide)
  rw [Web.jwtClaims, Web.jwtClaims, exp, exp, iat]

theorem mintSlaveToken_withAccount (pc : Bytes) (now : Nat) :
    (server.withAccount sa).mintSlaveToken pc now = Web.mintSlaveToken sa pc now := by
  simp only [Server.mintSlaveToken, Server.firebaseCustomToken, Server.withAccount,
    jwtClaims_second]
  rw [Web.mintSlaveToken, Web.firebaseCustomToken]
  split
  · rfl
  · cases sa.privateKey <;> rfl

theorem verifySlaveToken_withAccount (tok : Bytes) (now : Nat) :
    (server.withAccount sa).verifySlaveToken tok now = Web.verifySlaveToken sa tok now := by
  have claims (cb : Bytes) : ((Web.unmarshalClaims cb).map fun c => (⟨c.exp, c.uid⟩ : Claims)).bind
      (fun c => c.pc now) = (Web.unmarshalClaims cb).bind fun c => Web.pcOfClaims c now := by
    cases Web.unmarshalClaims cb <;> rfl
  rw [Server.verifySlaveToken, Server.signedClaims, Web.verifySlaveToken]
  simp only [Server.withAccount]
  cases sa.privateKey with
  | none => rfl
  | some key =>
      have parts : tok.splitOn dot = tok.splitOn WebAuth.dot := rfl
      simp only [Option.map_some, parts]
      rcases tok.splitOn WebAuth.dot with _ | ⟨first, _ | ⟨second, _ | ⟨third, _ | ⟨more, rest⟩⟩⟩⟩
      · rfl
      · rfl
      · rfl
      · simp only [Web.checkSegments]
        cases Base64.decodeString third with
        | none => rfl
        | some sig =>
            have same : (dot : UInt8) = WebAuth.dot := rfl
            simp only [same]
            cases key.verify (first ++ WebAuth.dot :: second) sig with
            | false => rfl
            | true =>
                simp only [if_true, Bool.true_eq_false, if_false, Option.bind_assoc]
                exact congrArg (Option.bind _) (funext claims)
      · rfl

end

/-! ## The gate -/

section

variable (server : Server α) (m : Machine (Doc α) PushEntry Delivery)

/-- What the store tells the handlers of the relay. -/
def answers : Web.Answers where
  verifySlaveToken tok := server.verifySlaveToken tok m.clock
  isRevoked pc := ((isRevoked pc).alone m).2
  slaveRevoked pc := ((slaveRevoked pc).alone m).2
  slaveGrantValid pc sid := ((slaveGrantValid pc sid).alone m).2
  checkRelayGrant sid role := ((checkRelayGrant sid role).alone m).2
  getPC pc :=
    match m.docs[pcPath pc]? with
    | some d => .found (some d.role)
    | none => .absent

theorem refuses_alone (pc : Bytes) :
    ((refuses pc).alone m) =
      (m, (answers server m).isRevoked pc || (answers server m).slaveRevoked pc) := by
  have looks : ((isRevoked pc).alone m).1 = m := (isRevoked_only fun _ _ => rfl).run_fst m
  have looks' : ((slaveRevoked pc).alone m).1 = m := (slaveRevoked_only fun _ _ => rfl).run_fst m
  rw [refuses, Client.alone_bind, looks]
  change _ = (m, ((isRevoked pc).alone m).2 || ((slaveRevoked pc).alone m).2)
  cases ((isRevoked pc).alone m).2 with
  | true => rfl
  | false => exact Prod.ext looks' rfl

/-- The gate decides on what the store tells. -/
theorem newSlaveGate_alone (r : Web.Request) {authorization : Bytes}
    (isBearer : r.bearer = bearer authorization) (sid role : Bytes) :
    ((newSlaveGate server authorization sid role).alone m).2 =
      Web.slaveGate server.enrollSA (answers server m) r sid role := by
  rw [newSlaveGate, Web.slaveGate, isBearer]
  split
  · rfl
  · split
    · rfl
    · have clock : Client.alone (Prog.now : Client α Nat) m = (m, m.clock) := rfl
      rw [Client.alone_bind, clock]
      cases verified : server.verifySlaveToken (bearer authorization) m.clock with
      | none =>
          have asked : (answers server m).verifySlaveToken (bearer authorization) = none := verified
          simp only [asked]
          rfl
      | some pc =>
          have asked : (answers server m).verifySlaveToken (bearer authorization) = some pc :=
            verified
          have named : pc ≠ [] := by
            obtain ⟨-, -, -, named⟩ := Server.uid_of_verifySlaveToken verified
            exact named
          simp only [asked, if_neg named]
          split
          · rfl
          · rw [Client.alone_bind, refuses_alone server]
            split
            · rfl
            · rw [Client.alone_bind]
              change _ = if ((slaveGrantValid pc sid).alone m).2 = true then _ else _
              cases ((slaveGrantValid pc sid).alone m).2 <;> rfl

/-- The role that decides over the key of a viewer. -/
theorem pcRole_alone (pc : Bytes) :
    ((pcRole pc).alone m).2 = Web.pcRole ((answers server m).getPC pc) := by
  have read : Client.alone (Prog.get (pcPath pc) : Client α _) m =
      (m, readDocument m.docs true (pcPath pc)) := rfl
  rw [pcRole, Client.alone_bind, read]
  cases found : m.docs[pcPath pc]? with
  | none =>
      have snap : readDocument m.docs true (pcPath pc) = .absent := by simp [readDocument, found]
      have asked : (answers server m).getPC pc = .absent := by simp [answers, found]
      rw [snap, asked]
      rfl
  | some d =>
      have snap : readDocument m.docs true (pcPath pc) = .found d := by simp [readDocument, found]
      have asked : (answers server m).getPC pc = .found (some d.role) := by simp [answers, found]
      rw [snap, asked]
      rfl

end

/-! ## Pushes -/

/-- The cache and the documents under `pcs` are those of the client. -/
structure Reflects (m : Machine (Doc α) PushEntry Delivery) (s : Push.Client α) : Prop where
  entries : m.memory = s.entries
  sessions : ∀ path : Push.Path,
    (m.docs[sessionPath path.1.text path.2]?).map Doc.data = s.sessions path
  pcs : ∀ pc : Push.PCName, (m.docs[pcPath pc.text]?).map Doc.data = s.pcs pc

/-- What the server fixes for the pushes of a PC. -/
def Server.config (server : Server α) (pc : Push.PCName) : Push.Config α :=
  ⟨pc, server.digest, server.verifyEvery⟩

theorem sessionPath_inj {path path' : Push.Path}
    (same : sessionPath path.1.text path.2 = sessionPath path'.1.text path'.2) : path = path' := by
  obtain ⟨⟨text, clean⟩, id⟩ := path
  obtain ⟨⟨text', clean'⟩, id'⟩ := path'
  have top : slash ∉ text := clean
  have top' : slash ∉ text' := clean'
  simp only [sessionPath_eq, docPath_inj] at same
  obtain ⟨rfl, tail⟩ := (separated_inj top' top).mp same
  rw [List.append_cancel_left_eq, List.cons.injEq] at tail
  obtain ⟨-, rfl⟩ := tail
  rfl

theorem sessionPath_ne_pcPath (path : Push.Path) (pc : Push.PCName) :
    sessionPath path.1.text path.2 ≠ pcPath pc.text := by
  rw [sessionPath_eq, pcPath, Ne, docPath_inj]
  intro same
  exact pc.slash_notMem (same ▸ List.mem_append_right _ List.mem_cons_self)

section

variable {m : Machine (Doc α) PushEntry Delivery} {s : Push.Client α}

theorem Reflects.remember (reflects : Reflects m s) (path : Push.Path) (e : PushEntry) :
    Reflects { m with memory := Function.update m.memory (pushKey path.1.text path.2) (some e) }
      (s.set (Push.key path) e) :=
  { reflects with entries := by rw [reflects.entries]; rfl }

theorem Reflects.set (reflects : Reflects m s) (path : Push.Path) (doc : Option (Fields α)) :
    Reflects
      { m with
        docs := changeDocument m.docs .ok (sessionPath path.1.text path.2) fun _ =>
          doc.map Doc.fields }
      { s with sessions := Function.update s.sessions path doc } where
  entries := reflects.entries
  sessions path' := by
    change _ = Function.update s.sessions path doc path'
    by_cases same : path' = path
    · rw [same, changeDocument_same, Function.update_self]
      cases doc <;> rfl
    · rw [changeDocument_of_ne fun eq => same (sessionPath_inj eq), Function.update_of_ne same]
      exact reflects.sessions path'
  pcs pc := by
    rw [changeDocument_of_ne (sessionPath_ne_pcPath path pc).symm]
    exact reflects.pcs pc

variable {server : Server α} {pc : Push.PCName}

/-- Alone, the method returns the count and leaves the machine like the client. -/
def Performs (p : Client α (Option Nat)) (m : Machine (Doc α) PushEntry Delivery)
    (out : Push.Client α × Nat) : Prop :=
  ∃ m', p.alone m = (m', some out.2) ∧ Reflects m' out.1 ∧ m'.clock = m.clock

theorem performs_lookup {key : Bytes} {f : Option PushEntry → Client α (Option Nat)}
    {out : Push.Client α × Nat} (rest : Performs (f (m.memory key)) m out) :
    Performs (Prog.lookup key >>= f) m out := rest

theorem performs_get {path : Path} {f : Snapshot (Doc α) → Client α (Option Nat)}
    {out : Push.Client α × Nat} (rest : Performs (f (readDocument m.docs true path)) m out) :
    Performs (Prog.get path >>= f) m out := rest

theorem setSession_performs (reflects : Reflects m s) (session : Fields α) (changed : Nat)
    (ver : Int64) :
    Performs (setSession server pc.text m.clock session changed ver) m
      (s.write (server.config pc) pc m.clock (server.rfc3339 m.clock) session ver, changed + 1) :=
  ⟨_, rfl,
    (reflects.set (pc, sessionKey session) (some _)).remember (pc, sessionKey session) _, rfl⟩

/-- What the read of a session document finds. -/
theorem Reflects.read (reflects : Reflects m s) (path : Push.Path) :
    (readDocument m.docs true (sessionPath path.1.text path.2) = .absent ∧
        s.sessions path = none) ∨
      ∃ d, readDocument m.docs true (sessionPath path.1.text path.2) = .found d ∧
        s.sessions path = some d.data := by
  rw [← reflects.sessions, readDocument, if_pos rfl]
  cases m.docs[sessionPath path.1.text path.2]? with
  | none => exact .inl ⟨rfl, rfl⟩
  | some d => exact .inr ⟨d, rfl, rfl⟩

/-- A round of a push. -/
theorem pushSession_performs (reflects : Reflects m s) (session : Fields α) (changed : Nat) :
    Performs (pushSession server pc.text m.clock session changed) m
      (Push.pushSession (server.config pc) pc m.clock (server.rfc3339 m.clock) (s, changed)
        session) := by
  have entry : remembered server m.clock (contentHash server.digest session)
      (m.memory (pushKey pc.text (sessionKey session))) =
        s.remembers (server.config pc) pc m.clock session := by
    rw [reflects.entries]
    rfl
  have looked : Reflects m { s with gets := s.gets + 1 } := { reflects with }
  simp only [pushSession, Push.pushSession]
  apply performs_lookup
  rw [entry]
  split
  · exact ⟨m, rfl, reflects, rfl⟩
  · apply performs_get
    rcases reflects.read (pc, sessionKey session) with ⟨read, absent⟩ | ⟨d, read, found⟩
    · simp only [read, absent]
      exact setSession_performs looked session changed 1
    · simp only [read, found]
      change Performs (if stringField d.data contentHashKey = contentHash server.digest session
        then _ else _) m (if stringField d.data contentHashKey = contentHash server.digest session
        then _ else _)
      split
      · exact ⟨_, rfl, looked.remember (pc, sessionKey session) _, rfl⟩
      · exact setSession_performs looked session changed _

theorem Performs.bind {p : Client α (Option Nat)} {f : Option Nat → Client α (Option Nat)}
    {out out' : Push.Client α × Nat} (first : Performs p m out)
    (rest : ∀ m', Reflects m' out.1 → m'.clock = m.clock → Performs (f (some out.2)) m' out') :
    Performs (p >>= f) m out' := by
  obtain ⟨m', ran, reflects, clock⟩ := first
  obtain ⟨m'', ran', reflects', clock'⟩ := rest m' reflects clock
  exact ⟨m'', by rw [Client.alone_bind, ran, ran'], reflects', clock'.trans clock⟩

theorem pushRounds_performs (reflects : Reflects m s) (sessions : List (Fields α)) (changed : Nat) :
    Performs (pushRounds server pc.text m.clock sessions changed) m
      (sessions.foldl (Push.pushSession (server.config pc) pc m.clock (server.rfc3339 m.clock))
        (s, changed)) := by
  induction sessions generalizing m s changed with
  | nil => exact ⟨m, rfl, reflects, rfl⟩
  | cons session sessions ih =>
      apply (pushSession_performs reflects session changed).bind
      intro m' reflects' clock
      have rest := ih reflects' (Push.pushSession (server.config pc) pc m.clock
        (server.rfc3339 m.clock) (s, changed) session).2
      rw [clock] at rest
      exact rest

/-- The merge into the document of the PC. -/
theorem Reflects.parent (reflects : Reflects m s) (pc : Push.PCName) (stamp : Bytes) :
    Reflects
      { m with
        docs := changeDocument m.docs .ok (pcPath pc.text) fun old =>
          some (.fields (parent pc.text stamp old)) }
      { s with pcs := Function.update s.pcs pc (some (Push.parent pc stamp (s.pcs pc))) } where
  entries := reflects.entries
  sessions path := by
    rw [changeDocument_of_ne (sessionPath_ne_pcPath path pc)]
    exact reflects.sessions path
  pcs pc' := by
    change _ = Function.update s.pcs pc (some (Push.parent pc stamp (s.pcs pc))) pc'
    by_cases same : pc' = pc
    · rw [same, changeDocument_same, Function.update_self, ← reflects.pcs pc]
      cases m.docs[pcPath pc.text]? <;> rfl
    · rw [changeDocument_of_ne, Function.update_of_ne same]
      · exact reflects.pcs pc'
      · rw [pcPath, pcPath, Ne, docPath_inj]
        intro sameText
        cases pc
        cases pc'
        cases sameText
        exact same rfl

/-- A push alone is the push of the client. -/
theorem pushStatusFor_performs (reflects : Reflects m s) (sessions : List (Fields α)) :
    Performs (pushStatusFor server pc.text sessions) m
      (Push.pushSessions (server.config pc) pc m.clock (server.rfc3339 m.clock) s sessions,
        (Push.pushRounds (server.config pc) pc m.clock (server.rfc3339 m.clock) s sessions).2) := by
  have rounds : Performs (pushRounds server pc.text m.clock sessions 0) m
      (Push.pushRounds (server.config pc) pc m.clock (server.rfc3339 m.clock) s sessions) :=
    pushRounds_performs reflects sessions 0
  change Performs (pushRounds server pc.text m.clock sessions 0 >>= _) m _
  apply rounds.bind
  intro m' reflects' clock
  rw [← clock] at reflects' ⊢
  by_cases changed : 0 < (Push.pushRounds (server.config pc) pc m'.clock (server.rfc3339 m'.clock)
      s sessions).2
  · simp only [Push.pushSessions, if_pos changed]
    exact ⟨_, rfl, { reflects'.parent pc (server.rfc3339 m'.clock) with }, rfl⟩
  · simp only [Push.pushSessions, if_neg changed]
    exact ⟨m', rfl, { reflects' with }, rfl⟩

/-- So is the deletion of a session. -/
theorem deleteSessionFor_alone (reflects : Reflects m s) (id : Bytes) :
    ((deleteSessionFor pc.text id).alone m).2 = true ∧
      Reflects ((deleteSessionFor pc.text id).alone m).1 (Push.deleteSessionFor s pc id) := by
  rw [deleteSessionFor, Push.deleteSessionFor]
  split
  · exact ⟨rfl, reflects⟩
  · refine ⟨rfl, ?_⟩
    refine { reflects.set (pc, id) none with entries := ?_ }
    change Function.update m.memory (pushKey pc.text id) none = _
    rw [reflects.entries]
    rfl

/-- A document after another one, or itself, is deleted. -/
theorem getElem_delete (docs : Documents (Doc α)) (path path' : Path) :
    (changeDocument docs .ok path fun _ => none)[path']? =
      if path' = path then none else docs[path']? := by
  split
  · rename_i same
    rw [same, changeDocument_same]
    rfl
  · rename_i other
    exact changeDocument_of_ne other

/-- The deletions of the listed sessions. -/
theorem deleteSessions_alone (pc : Bytes) (docs : List (Bytes × Doc α))
    (m : Machine (Doc α) PushEntry Delivery) :
    ((deleteSessions pc docs).alone m).1.memory = m.memory ∧
      ∀ path, ((deleteSessions pc docs).alone m).1.docs[path]? =
        if path ∈ docs.map fun d => sessionPath pc d.1 then none else m.docs[path]? := by
  induction docs generalizing m with
  | nil => exact ⟨rfl, fun path => rfl⟩
  | cons d docs ih =>
      obtain ⟨memory, deleted⟩ := ih { m with
        docs := changeDocument m.docs .ok (sessionPath pc d.1) fun _ => none }
      refine ⟨memory, fun path => (deleted path).trans ?_⟩
      simp only [getElem_delete, List.map_cons, List.mem_cons]
      by_cases here : path = sessionPath pc d.1
      · rw [if_pos here, ite_self, if_pos (.inl here)]
      · rw [if_neg here]
        exact if_congr (or_iff_right here).symm rfl rfl

/-- What `deletePC` leaves of the documents below `pcs`, and of the cache. -/
theorem deletePC_leaves {pc : Bytes} (named : pc ≠ []) (m : Machine (Doc α) PushEntry Delivery) :
    ((deletePC pc).alone m).2 = true ∧ ((deletePC pc).alone m).1.memory = m.memory ∧
      ∀ rest, ((deletePC pc).alone m).1.docs[docPath (ascii "pcs") rest]? =
        if docPath (ascii "pcs") rest = pcPath pc ∨ docPath (ascii "pcs") rest ∈
            (listDocuments m.docs (sessionsCol pc)).map fun d => sessionPath pc d.1 then none
        else m.docs[docPath (ascii "pcs") rest]? := by
  obtain ⟨memory, listed⟩ := deleteSessions_alone pc (listDocuments m.docs (sessionsCol pc)) m
  let rest : Client α Bool := do
    let _ ← Prog.write (pcPath pc) fun _ => none
    let _ ← Prog.write (slavePath pc) fun _ => none
    Prog.write (wakePath pc) fun _ => none
  have ran : (deletePC pc).alone m =
      (deleteSessions pc (listDocuments m.docs (sessionsCol pc)) >>= fun _ => rest).alone m := by
    rw [deletePC, if_neg named]
    rfl
  rw [ran, Client.alone_bind]
  refine ⟨rfl, memory, fun id => ?_⟩
  have wake : docPath (ascii "pcs") id ≠ wakePath pc :=
    docPath_ne (by decide) (by decide) (by decide)
  have slave : docPath (ascii "pcs") id ≠ slavePath pc :=
    docPath_ne (by decide) (by decide) (by decide)
  change (changeDocument (changeDocument (changeDocument _ .ok (pcPath pc) fun _ => none) .ok
    (slavePath pc) fun _ => none) .ok (wakePath pc) fun _ => none)[docPath (ascii "pcs") id]? = _
  rw [getElem_delete, if_neg wake, getElem_delete, if_neg slave, getElem_delete, listed]
  by_cases isPC : docPath (ascii "pcs") id = pcPath pc
  · rw [if_pos isPC, if_pos (.inl isPC)]
  · rw [if_neg isPC]
    exact if_congr (or_iff_right isPC).symm rfl rfl

/-- A session document is listed exactly if it is there and is one of the collection. -/
theorem mem_listed_iff {pc : Bytes} {path : Path} {docs : Documents (Doc α)} :
    (path ∈ (listDocuments docs (sessionsCol pc)).map fun d => sessionPath pc d.1) ↔
      docs[path]? ≠ none ∧ (childID (sessionsCol pc) path).isSome = true := by
  rw [List.mem_map, Option.isSome_iff_exists]
  constructor
  · rintro ⟨⟨id, d⟩, listed, rfl⟩
    obtain ⟨found, proper⟩ := mem_listDocuments.mp listed
    exact ⟨ne_of_eq_of_ne found (Option.some_ne_none d), id, childID_eq_some_iff.mpr ⟨rfl, proper⟩⟩
  · rintro ⟨present, id, isChild⟩
    obtain ⟨rfl, proper⟩ := childID_eq_some_iff.mp isChild
    obtain ⟨d, found⟩ := Option.ne_none_iff_exists'.mp present
    exact ⟨(id, d), mem_listDocuments.mpr ⟨found, proper⟩, rfl⟩

/-- `deletePC` on the documents is that of the client, for any text. -/
theorem deletePC_alone (pc : Bytes) (reflects : Reflects m s) :
    ((deletePC pc).alone m).2 = true ∧
      Reflects ((deletePC pc).alone m).1 (Push.deletePC s pc) := by
  rw [Push.deletePC]
  split
  · rename_i empty
    rw [deletePC, if_pos empty]
    exact ⟨rfl, reflects⟩
  · rename_i named
    obtain ⟨succeeds, memory, left⟩ := deletePC_leaves named m
    refine ⟨succeeds, memory.trans reflects.entries, fun path => ?_, fun name => ?_⟩
    · rw [sessionPath_eq, left, ← sessionPath_eq]
      change _ = if Push.goesWith pc path = true then none else s.sessions path
      have goes : Push.goesWith pc path = true ↔ sessionPath path.1.text path.2 = pcPath pc ∨
          (childID (sessionsCol pc) (sessionPath path.1.text path.2)).isSome = true := by
        rw [Push.goesWith, Bool.or_eq_true, decide_eq_true_iff]
        rfl
      rw [← reflects.sessions path]
      simp only [mem_listed_iff, goes]
      by_cases present : m.docs[sessionPath path.1.text path.2]? = none
      · simp [present]
      · simp only [present, ne_eq, not_false_eq_true, true_and]
        split <;> rfl
    · have other : pcPath name.text ∉
          (listDocuments m.docs (sessionsCol pc)).map fun d => sessionPath pc d.1 := by
        intro listed
        obtain ⟨d, -, same⟩ := List.mem_map.mp listed
        rw [sessionPath_eq, pcPath, docPath_inj] at same
        exact name.slash_notMem (same ▸ List.mem_append_right _ List.mem_cons_self)
      rw [pcPath, left, ← pcPath, if_congr (or_iff_left other) rfl rfl]
      change _ = if name.text = pc then none else s.pcs name
      rw [← reflects.pcs name, if_congr (show pcPath name.text = pcPath pc ↔ name.text = pc from
        docPath_inj) rfl rfl]
      split <;> rfl

/-- `DeletePCByID` on the documents is that of the client, for any text. -/
theorem deletePCByID_alone (pc : Bytes) (reflects : Reflects m s) :
    ((deletePCByID pc).alone m).2 = true ∧
      Reflects ((deletePCByID pc).alone m).1 (Push.deletePCByID s pc) := by
  have forgotten : Reflects { m with
      memory := fun key => if (pc ++ [slash]).isPrefixOf key then none else m.memory key }
      (s.forgetPC pc) :=
    { reflects with entries := by rw [reflects.entries]; rfl }
  exact deletePC_alone pc forgotten

end

end Drover.Slave
