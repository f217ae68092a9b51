import Drover.Glasses.Chat
import Drover.Glasses.Effects
import Drover.Mcp.Tools
import Drover.Store.Interference

/-!
# Records past their expiry

The lookups that accept or return a record with an expiry.  All but one compare it with the
clock after they have read the record, whatever others do in between; `GetCommandResult`
leaves it to the deletion by Firestore.
-/

namespace Drover.Expiry

open Drover.Store
open Drover.Push (PushEntry)

variable {α : Type}

/-- What the calls of the state client meet. -/
abbrev StateEnv (α : Type) := Environment (Slave.Doc α) PushEntry Slave.Delivery

/-- What the calls of the store of the glasses meet. -/
abbrev GlassesEnv := Environment Glasses.Doc Unit Glasses.Sent

/-- A lookup, with all that it depends on.  The lookups of the token endpoint are the steps
of a request that has read the document. -/
inductive Lookup (α : Type) where
  | consumePairing (codeHash : Bytes) (env : StateEnv α)
  | consumeOAuthCode (server : OAuth.Endpoint.Server) (s : OAuth.Endpoint.State)
      (r : OAuth.Endpoint.RequestId) (draws : OAuth.Endpoint.Draws) (outcome : Outcome)
  | getOAuthToken (tokens : OAuth.Tokens) (now : Nat) (tokenHash : OAuth.Hash)
  | tokenFromRefresh (server : OAuth.Endpoint.Server) (s : OAuth.Endpoint.State)
      (r : OAuth.Endpoint.RequestId) (draws : OAuth.Endpoint.Draws) (outcome : Outcome)
  | checkRelayGrant (sid role : Bytes) (env : StateEnv α)
  | slaveGrantValid (pc sid : Bytes) (env : StateEnv α)
  | pull (h : Glasses.Handler) (pc : Bytes) (wait : Int) (rounds : Nat) (env : GlassesEnv)
  | answerAsk (pc requestID text : Bytes) (env : GlassesEnv)
  | takeAskReply (pc requestID : Bytes) (env : GlassesEnv)
  | recentChat (sortChat : SliceSort Glasses.ChatItem Glasses.ChatItem.before)
      (limit since : Int) (env : GlassesEnv)
  | getCommandResult (server : Mcp.Server α) (id : Bytes) (env : StateEnv α)

/-- What the lookup accepts or returns is a record that was stored and not past its expiry when
it was read. -/
def Lookup.Timely : Lookup α → Prop
  | .consumePairing codeHash env =>
      ∀ scope, (Slave.consumePairing codeHash).answer env = some scope →
        ∃ p e, env.readFirst (Slave.pairingPath codeHash) = .found (.pairing p) ∧
          p.scope = scope ∧ p.expiresAt = some e ∧ env.clock 0 ≤ e
  | .consumeOAuthCode server s r draws outcome =>
      ∀ form oc s', s.requests r = some (.gotCode form oc) →
        OAuth.Endpoint.step server s (.advance r draws outcome) = some s' →
        s'.requests r ≠ some OAuth.Endpoint.Server.codeInvalid →
        ∃ e, oc.expiresAt = some e ∧ s.clock ≤ e
  | .getOAuthToken tokens now tokenHash =>
      ∀ t, OAuth.Endpoint.getOAuthToken tokens now tokenHash = some t →
        tokens tokenHash = some t ∧ ∃ e, t.expiresAt = some e ∧ now ≤ e
  | .tokenFromRefresh server s r draws outcome =>
      ∀ form t s', s.requests r = some (.gotToken form t) →
        OAuth.Endpoint.step server s (.advance r draws outcome) = some s' →
        s'.requests r = some (.mark form t) →
        ∃ e, t.expiresAt = some e ∧ s.clock ≤ e
  | .checkRelayGrant sid role env =>
      (Slave.checkRelayGrant sid role).answer env = true →
        ∃ pc e, env.readFirst (Slave.relayGrantPath sid role) = .found (.relayGrant pc (some e)) ∧
          env.clock 0 ≤ e
  | .slaveGrantValid pc sid env =>
      (Slave.slaveGrantValid pc sid).answer env = true →
        ∃ pc' sid' e, env.readFirst (Slave.slaveGrantPath pc sid) =
          .found (.slaveGrant pc' sid' (some e)) ∧ env.clock 0 ≤ e
  | .pull h pc wait rounds env =>
      ∀ items, (h.pull pc wait rounds).answer env = .ok items → ∀ x ∈ items,
        ∃ n id a, (id, .answer a) ∈ listDocuments (env.machine n).docs Glasses.answersCol ∧
          x = ⟨a.requestID, a.text, a.createdAt⟩ ∧ env.clock n ≤ a.expireAt
  | .answerAsk pc requestID text env =>
      ∀ exp, (Glasses.answerAsk pc requestID text).answer env = .ok (some exp) →
        ∃ k, env.readFirst (Glasses.askPath pc requestID) = .found (.ask k) ∧
          env.clock 0 ≤ k.expireAt
  | .takeAskReply pc requestID env =>
      ∀ reply, (Glasses.takeAskReply pc requestID).answer env = .ok reply →
        ∃ k, env.readFirst (Glasses.askPath pc requestID) = .found (.ask k) ∧
          env.clock 0 ≤ k.expireAt
  | .recentChat sortChat limit since env =>
      ∀ items, (Glasses.recentChat sortChat limit since).answer env = some items → ∀ x ∈ items,
        ∃ c, (x.id, .chat c) ∈ listDocuments (env.machine 0).docs Glasses.chatCol ∧
          x = ⟨x.id, c.role, c.kind, c.text, c.ts⟩ ∧ env.clock 0 ≤ c.expireAt
  | .getCommandResult server id env =>
      ∀ r, (Mcp.getCommandResult server id).answer env = .found r →
        (∃ d, env.readFirst (Mcp.resultPath id) = .found d ∧
          server.commandResult d.data = some r) ∧
        ∀ e, server.parseTime r.expireAt = some e → env.clock 0 ≤ e

/-- The lookup is not that of a command result, or finds none past its expiry that it can
read. -/
def Lookup.NoStaleResult : Lookup α → Prop
  | .getCommandResult server id env =>
      ∀ d r e, env.readFirst (Mcp.resultPath id) = .found d →
        server.commandResult d.data = some r → server.parseTime r.expireAt = some e →
        env.clock 0 ≤ e
  | _ => True

/-! ## The state client -/

theorem Secrets.le_of_notAfter {expiresAt : Option Nat} {now : Nat}
    (still : Drover.Secrets.notAfter expiresAt now = true) :
    ∃ e, expiresAt = some e ∧ now ≤ e := by
  cases expiresAt with
  | none => cases still
  | some e => exact ⟨e, rfl, of_decide_eq_true still⟩

section

variable (env : StateEnv α)

theorem consumePairing_timely (codeHash : Bytes) :
    (Lookup.consumePairing codeHash env).Timely := by
  intro scope accepts
  rw [Slave.consumePairing, Prog.answer_get] at accepts
  split at accepts
  · rename_i p found
    change (if Drover.Secrets.notAfter p.expiresAt (env.clock 2) then some p.scope else none) =
      some scope at accepts
    split at accepts
    · rename_i still
      cases accepts
      obtain ⟨e, isExp, le⟩ := Secrets.le_of_notAfter still
      exact ⟨p, e, found, rfl, isExp, Environment.clock_zero_le le⟩
    · cases accepts
  · cases accepts

theorem checkRelayGrant_timely (sid role : Bytes) :
    (Lookup.checkRelayGrant sid role env).Timely := by
  intro accepts
  rw [Slave.checkRelayGrant] at accepts
  split at accepts
  · cases accepts
  · rw [Prog.answer_get] at accepts
    split at accepts
    · rename_i pc exp found
      change Prog.answer (if env.clock 1 < exp then _ else _) _ = true at accepts
      split at accepts
      · rename_i before
        have le := Environment.clock_zero_le (Nat.le_of_lt before)
        exact ⟨pc, exp, found, le⟩
      · cases accepts
    · cases accepts

theorem slaveGrantValid_timely (pc sid : Bytes) :
    (Lookup.slaveGrantValid pc sid env).Timely := by
  intro accepts
  rw [Slave.slaveGrantValid] at accepts
  split at accepts
  · cases accepts
  · rw [Prog.answer_get] at accepts
    split at accepts
    · rename_i pc' sid' exp found
      change decide (env.clock 1 < exp) = true at accepts
      have before := of_decide_eq_true accepts
      have le := Environment.clock_zero_le (Nat.le_of_lt before)
      exact ⟨pc', sid', exp, found, le⟩
    · cases accepts

theorem getCommandResult_eq_found_iff {server : Mcp.Server α} {id : Bytes}
    {r : Mcp.CommandResult} :
    (Mcp.getCommandResult server id).answer env = .found r ↔
      ∃ d, env.readFirst (Mcp.resultPath id) = .found d ∧
        server.commandResult d.data = some r := by
  rw [Mcp.getCommandResult, Prog.answer_get]
  constructor
  · intro returned
    split at returned
    · rename_i d found
      split at returned
      · rename_i decodes
        cases returned
        exact ⟨d, found, decodes⟩
      · cases returned
    · cases returned
  · rintro ⟨d, found, decodes⟩
    rw [found]
    simp only [decodes]
    rfl

theorem getCommandResult_timely_iff (server : Mcp.Server α) (id : Bytes) :
    (Lookup.getCommandResult server id env).Timely ↔
      (Lookup.getCommandResult server id env).NoStaleResult := by
  constructor
  · intro timely d r e found decodes
    exact (timely r (getCommandResult_eq_found_iff env |>.mpr ⟨d, found, decodes⟩)).2 e
  · intro fresh r returned
    obtain ⟨d, found, decodes⟩ := (getCommandResult_eq_found_iff env).mp returned
    exact ⟨⟨d, found, decodes⟩, fun e => fresh d r e found decodes⟩

end

/-! ## The token endpoint -/

theorem consumeOAuthCode_timely (server : OAuth.Endpoint.Server) (s : OAuth.Endpoint.State)
    (r : OAuth.Endpoint.RequestId) (draws : OAuth.Endpoint.Draws) (outcome : Outcome) :
    (Lookup.consumeOAuthCode (α := α) server s r draws outcome).Timely := by
  intro form oc s' phase taken accepts
  rw [OAuth.Endpoint.step, phase, Option.bind_some, OAuth.Endpoint.advance] at taken
  cases taken
  have next : (s.setRequest r (server.checkCode s.clock form oc)).requests r =
      some (server.checkCode s.clock form oc) := Function.update_self ..
  rw [next, OAuth.Endpoint.Server.checkCode] at accepts
  split at accepts
  · exact absurd rfl accepts
  · rename_i still
    exact Secrets.le_of_notAfter ((Bool.not_eq_false _).mp still)

theorem OAuthToken.le_of_notExpired {t : OAuth.OAuthToken} {now : Nat}
    (still : ¬ t.notExpired now = false) : ∃ e, t.expiresAt = some e ∧ now ≤ e := by
  have inTime := (Bool.not_eq_false _).mp still
  rw [OAuth.OAuthToken.notExpired, Option.any_eq_true] at inTime
  obtain ⟨e, isExp, le⟩ := inTime
  exact ⟨e, isExp, of_decide_eq_true le⟩

theorem getOAuthToken_timely (tokens : OAuth.Tokens) (now : Nat) (tokenHash : OAuth.Hash) :
    (Lookup.getOAuthToken (α := α) tokens now tokenHash).Timely := by
  intro t found
  rw [OAuth.Endpoint.getOAuthToken] at found
  split at found
  · cases found
  · rename_i t' stored
    split at found
    · cases found
    · split at found
      · cases found
      · rename_i still
        cases found
        exact ⟨stored, OAuthToken.le_of_notExpired still⟩

theorem tokenFromRefresh_timely (server : OAuth.Endpoint.Server) (s : OAuth.Endpoint.State)
    (r : OAuth.Endpoint.RequestId) (draws : OAuth.Endpoint.Draws) (outcome : Outcome) :
    (Lookup.tokenFromRefresh (α := α) server s r draws outcome).Timely := by
  intro form t s' phase taken accepts
  rw [OAuth.Endpoint.step, phase, Option.bind_some, OAuth.Endpoint.advance] at taken
  cases taken
  have next : (s.setRequest r (OAuth.Endpoint.Server.checkToken s.clock form t)).requests r =
      some (OAuth.Endpoint.Server.checkToken s.clock form t) := Function.update_self ..
  rw [next, OAuth.Endpoint.Server.checkToken] at accepts
  split at accepts
  · cases accepts
  · split at accepts
    · cases accepts
    · split at accepts
      · cases accepts
      · rename_i still
        exact OAuthToken.le_of_notExpired still

/-! ## The glasses -/

section

variable (env : GlassesEnv)

theorem recentChat_timely (sortChat : SliceSort Glasses.ChatItem Glasses.ChatItem.before)
    (limit since : Int) : (Lookup.recentChat (α := α) sortChat limit since env).Timely := by
  intro items returned x mem
  rw [Glasses.recentChat, Prog.answer_list] at returned
  split at returned
  · cases returned
  · rename_i docs listed
    cases Environment.listFirst_eq_some listed
    rw [Prog.answer_now] at returned
    cases returned
    obtain ⟨c, stored, isItem, lt⟩ := Glasses.exists_of_mem_recent mem
    exact ⟨c, stored, isItem, Environment.clock_zero_le (Nat.le_of_lt lt)⟩

/-- What `askDoc` finds. -/
theorem askDoc_timely {pc requestID : Bytes} {k : Glasses.StoredAsk}
    (found : (Glasses.askDoc pc requestID).answer env = .ok (some k)) :
    env.readFirst (Glasses.askPath pc requestID) = .found (.ask k) ∧ env.clock 0 ≤ k.expireAt := by
  rw [Glasses.askDoc, Prog.answer_get] at found
  split at found
  · cases found
  · rename_i k' stored
    change Except.ok (if k'.expireAt ≤ env.clock 1 then none else some k') = _ at found
    split at found
    · cases found
    · rename_i fresh
      cases found
      have lt := Nat.lt_of_not_le fresh
      exact ⟨stored, Environment.clock_zero_le (Nat.le_of_lt lt)⟩
  · cases found

theorem answerAsk_timely (pc requestID text : Bytes) :
    (Lookup.answerAsk (α := α) pc requestID text env).Timely := by
  intro exp accepts
  rw [Glasses.answerAsk] at accepts
  split at accepts
  · cases accepts
  · rw [Prog.answer_bind] at accepts
    split at accepts
    · cases accepts
    · cases accepts
    · rename_i k found
      exact ⟨k, askDoc_timely env found⟩

theorem takeAskReply_timely (pc requestID : Bytes) :
    (Lookup.takeAskReply (α := α) pc requestID env).Timely := by
  intro reply accepts
  rw [Glasses.takeAskReply, Prog.answer_bind] at accepts
  split at accepts
  · cases accepts
  · cases accepts
  · rename_i k found
    exact ⟨k, askDoc_timely env found⟩

/-- What a query of answers finds. -/
theorem query_timely {h : Glasses.Handler} {pc : Bytes} {items : List Glasses.Answer}
    (found : (h.query pc).answer env = some items) {x : Glasses.Answer} (mem : x ∈ items) :
    ∃ id a, (id, .answer a) ∈ listDocuments (env.machine 0).docs Glasses.answersCol ∧
      x = ⟨a.requestID, a.text, a.createdAt⟩ ∧ env.clock 0 ≤ a.expireAt := by
  rw [Glasses.Handler.query, Prog.answer_list] at found
  split at found
  · cases found
  · rename_i docs listed
    cases Environment.listFirst_eq_some listed
    rw [Prog.answer_now] at found
    cases found
    obtain ⟨id, a, stored, -, lt, isItem⟩ := Glasses.mem_selected mem
    exact ⟨id, a, stored, isItem, Environment.clock_zero_le (Nat.le_of_lt lt)⟩

/-- What a pull returns is what one of its queries finds. -/
theorem exists_query_of_pullLoop {query : Glasses.Client (Option (List Glasses.Answer))}
    {deadline rounds : Nat} {items : List Glasses.Answer}
    (returned : (Glasses.pullLoop query deadline rounds).answer env = .ok items)
    {x : Glasses.Answer} (mem : x ∈ items) :
    ∃ n, query.answer (env.drop n) = some items := by
  induction rounds generalizing env with
  | zero => cases returned
  | succ rounds ih =>
      rw [Glasses.pullLoop, Prog.answer_bind] at returned
      split at returned
      · cases returned
      · change Prog.answer (if (env.drop _).clock 0 < deadline then _ else _) _ = _ at returned
        split at returned
        · obtain ⟨n, found⟩ := ih _ returned
          rw [Environment.drop_drop, Environment.drop_drop] at found
          exact ⟨_, found⟩
        · cases returned
          cases mem
      · rename_i found
        cases returned
        exact ⟨0, found⟩

theorem pull_timely (h : Glasses.Handler) (pc : Bytes) (wait : Int) (rounds : Nat) :
    (Lookup.pull (α := α) h pc wait rounds env).Timely := by
  intro items returned x mem
  rw [Glasses.Handler.pull] at returned
  split at returned
  · cases returned
  · change (Glasses.pullLoop (h.query pc) _ (rounds + 1)).answer (env.drop 1) = _ at returned
    obtain ⟨n, found⟩ := exists_query_of_pullLoop (env.drop 1) returned mem
    rw [Environment.drop_drop] at found
    obtain ⟨id, a, stored, isItem, le⟩ := query_timely _ found mem
    rw [Environment.clock_drop, Nat.zero_add] at le
    rw [Environment.machine_drop, Nat.zero_add] at stored
    exact ⟨_, id, a, stored, isItem, le⟩

end

/-- Every lookup is timely, but for that of a command result where one past its expiry is
stored. -/
theorem lookup_timely_iff (l : Lookup α) : l.Timely ↔ l.NoStaleResult := by
  cases l with
  | consumePairing codeHash env => exact iff_of_true (consumePairing_timely env codeHash) trivial
  | consumeOAuthCode server s r draws outcome =>
      exact iff_of_true (consumeOAuthCode_timely server s r draws outcome) trivial
  | getOAuthToken tokens now tokenHash =>
      exact iff_of_true (getOAuthToken_timely tokens now tokenHash) trivial
  | tokenFromRefresh server s r draws outcome =>
      exact iff_of_true (tokenFromRefresh_timely server s r draws outcome) trivial
  | checkRelayGrant sid role env => exact iff_of_true (checkRelayGrant_timely env sid role) trivial
  | slaveGrantValid pc sid env => exact iff_of_true (slaveGrantValid_timely env pc sid) trivial
  | pull h pc wait rounds env => exact iff_of_true (pull_timely env h pc wait rounds) trivial
  | answerAsk pc requestID text env =>
      exact iff_of_true (answerAsk_timely env pc requestID text) trivial
  | takeAskReply pc requestID env =>
      exact iff_of_true (takeAskReply_timely env pc requestID) trivial
  | recentChat sortChat limit since env =>
      exact iff_of_true (recentChat_timely env sortChat limit since) trivial
  | getCommandResult server id env => exact getCommandResult_timely_iff env server id

/-! ## A result past its expiry -/

/-- Its format of times is unary. -/
def unaryServer : Mcp.Server Unit where
  slaveAccess := ascii "off"
  readPane _ := none
  sendInput _ := none
  interrupt _ := none
  commandID _ := none
  pcSIDFromArgs _ := ([], [])
  dataToString _ := none
  dataToBool _ := some false
  sha256 s := Vector.ofFn fun i => s.getD i 0
  rfc3339Nano now := List.replicate now 0x30
  parseTime s := some s.length
  errorText := ascii "unavailable"

/-- The store at the time 5, after a result was put at 0 for a time of 1. -/
def lateStore : Machine (Slave.Doc Unit) PushEntry Slave.Delivery :=
  let put := Mcp.putCommandResultFor unaryServer (ascii "mac") (ascii "c1") (ascii "ls")
    (.other ()) 1
  { (put.run (fun _ => .ok) {}).1 with clock := 5 }

/-- It is returned. -/
theorem late_result_returned :
    ¬ (Lookup.getCommandResult unaryServer (ascii "c1") (.still lateStore)).Timely := by
  intro timely
  have le := (timely ⟨ascii "mac", ascii "ls", false, [], [0x30]⟩ (by rfl)).2 1 rfl
  exact absurd le (by decide)

end Drover.Expiry
