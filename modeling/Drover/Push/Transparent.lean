import Drover.Push.Cache

/-!
# The cache against the store

The same calls on a client with the cache and on one that always reads.  The two
agree until a push goes by a remembered hash whose document is gone.  `DeletePC`
brings this about, which does not forget the PC, and so does `DeletePCByID` for a
text that is the path of a session's document below `pcs`.
-/

namespace Drover.Push

open Drover.Transition

variable {α : Type}

/-- The client that checks every push against the store. -/
def Config.plain (cfg : Config α) : Config α := { cfg with verifyEvery := 0 }

/-- The client with the cache, and the one that always reads. -/
structure Pair (α : Type) where
  cached : Client α
  plain : Client α

/-- The same call on both clients; the clock does not go back. -/
def step (cfg : Config α) (s : Pair α) (call : Call α) : Option (Pair α) :=
  if ∀ p ∈ call.push cfg, s.cached.clock ≤ p.2.1 then
    some ⟨call.run cfg s.cached, call.run cfg.plain s.plain⟩
  else none

/-- Two new clients on one store. -/
def start (pcs : PCName → Option (Fields α)) (sessions : Path → Option (Fields α)) (clock : Int) :
    Pair α :=
  ⟨⟨fun _ => none, 0, pcs, sessions, clock, []⟩, ⟨fun _ => none, 0, pcs, sessions, clock, []⟩⟩

/-- The documents are the same in all fields except `updated_at`. -/
def AgreeDoc (d d' : Fields α) : Prop := ∀ k, k ≠ updatedAt → d k = d' k

/-- The stores hold the same session documents. -/
def Same (c p : Client α) : Prop := ∀ path, Option.Rel AgreeDoc (c.sessions path) (p.sessions path)

/-- The stores hold the same session documents, and the calls have returned the
same counts. -/
structure Agree (s : Pair α) : Prop where
  sessions : Same s.cached s.plain
  returned : s.cached.returned = s.plain.returned

/-- The first session that is pushed under some key has its hash remembered, but
its document is gone; `seen` are the keys before. -/
def goesStale (cfg : Config α) (pc : PCName) (now : Int) (s : Client α) :
    List Bytes → List (Fields α) → Bool
  | _, [] => false
  | seen, session :: rest =>
      (sessionKey session ∉ seen && s.remembers cfg pc now session &&
        (s.sessions (pc, sessionKey session)).isNone) ||
      goesStale cfg pc now s (sessionKey session :: seen) rest

/-- The call pushes no session by a remembered hash whose document is gone. -/
def Backed (cfg : Config α) (s : Pair α) (call : Call α) : Prop :=
  ∀ p ∈ call.push cfg, goesStale cfg p.1 p.2.1 s.cached [] p.2.2.2 = false

/-! ## Rounds -/

section

variable {cfg : Config α} {pc : PCName} {now : Int} {stamp : Bytes} {s c p : Client α}
  {changed n m : Nat} {session : Fields α} {out outC outP : Client α × Nat}

/-- The remembered hash is that of the document, where there is one. -/
def Held (s : Client α) : Prop :=
  ∀ path e d, s.entries (key path) = some e → s.sessions path = some d →
    stringField d contentHashKey = e.hash

/-- What is remembered was checked before. -/
def Past (now : Int) (s : Client α) : Prop := ∀ k e, s.entries k = some e → e.verifiedAt ≤ now

theorem Round.sessions_of_ne (round : Round cfg pc now stamp session s changed out) {path : Path}
    (ne : path ≠ (pc, sessionKey session)) : out.1.sessions path = s.sessions path := by
  cases round with
  | remembered | verified => rfl
  | changes | creates => exact Function.update_of_ne ne ..

theorem Round.entries_of_ne (round : Round cfg pc now stamp session s changed out) {k : Bytes}
    (ne : k ≠ key (pc, sessionKey session)) : out.1.entries k = s.entries k := by
  cases round with
  | remembered => rfl
  | verified | changes | creates => exact Function.update_of_ne ne ..

/-- After a round that does not go by the cache, the store and the cache have the
hash of the session. -/
theorem Round.of_misses (round : Round cfg pc now stamp session s changed out)
    (misses : s.remembers cfg pc now session = false) :
    out.1.hashAt (pc, sessionKey session) = some (contentHash cfg.digest session) ∧
      (∃ e, out.1.entries (key (pc, sessionKey session)) = some e ∧
        e.hash = contentHash cfg.digest session ∧ e.verifiedAt = now) ∧
      out.2 = changed +
        if s.hashAt (pc, sessionKey session) = some (contentHash cfg.digest session) then 0
        else 1 := by
  cases round with
  | remembered remembers => rw [misses] at remembers; cases remembers
  | verified _ found same =>
      have hash : s.hashAt (pc, sessionKey session) = some (contentHash cfg.digest session) := by
        rw [Client.hashAt, found, Option.map_some, same]
      exact ⟨hash, ⟨_, Function.update_self .., rfl, rfl⟩, by rw [if_pos hash]; rfl⟩
  | changes _ found differs =>
      refine ⟨?_, ⟨_, Function.update_self .., rfl, rfl⟩, ?_⟩
      · simp [Client.hashAt, Client.write, stringField_document]
      · simp [Client.hashAt, found, differs]
  | creates _ absent =>
      refine ⟨?_, ⟨_, Function.update_self .., rfl, rfl⟩, ?_⟩
      · simp [Client.hashAt, Client.write, stringField_document]
      · simp [Client.hashAt, absent]

theorem Round.of_remembers (round : Round cfg pc now stamp session s changed out)
    (remembers : s.remembers cfg pc now session = true) : out = (s, changed) := by
  cases round with
  | remembered => rfl
  | verified misses | changes misses | creates misses => rw [remembers] at misses; cases misses

theorem Round.held (round : Round cfg pc now stamp session s changed out) (held : Held s) :
    Held out.1 := by
  intro path e d entry found
  by_cases same : path = (pc, sessionKey session)
  · subst same
    cases hit : s.remembers cfg pc now session with
    | true =>
        rw [round.of_remembers hit] at entry found
        exact held _ e d entry found
    | false =>
        obtain ⟨hash, ⟨e', entry', hash', -⟩, -⟩ := round.of_misses hit
        rw [entry, Option.some.injEq] at entry'
        rw [Client.hashAt, found, Option.map_some, Option.some.injEq] at hash
        rw [hash, entry', hash']
  · rw [round.sessions_of_ne same] at found
    rw [round.entries_of_ne (key_ne same)] at entry
    exact held path e d entry found

theorem Round.past (round : Round cfg pc now stamp session s changed out) (past : Past now s) :
    Past now out.1 := by
  intro k e entry
  by_cases same : k = key (pc, sessionKey session)
  · subst same
    cases hit : s.remembers cfg pc now session with
    | true =>
        rw [round.of_remembers hit] at entry
        exact past _ e entry
    | false =>
        obtain ⟨-, ⟨e', entry', -, at'⟩, -⟩ := round.of_misses hit
        rw [entry, Option.some.injEq] at entry'
        exact entry' ▸ Int.le_of_eq at'
  · rw [round.entries_of_ne same] at entry
    exact past k e entry

theorem Past.not_remembers (past : Past now p) : p.remembers cfg.plain pc now session = false := by
  rw [Bool.eq_false_iff]
  intro remembers
  obtain ⟨e, entry, -, recent⟩ := Client.remembers_eq_true_iff.mp remembers
  have before := past _ e entry
  have never : now - e.verifiedAt < 0 := recent
  omega

theorem AgreeDoc.stringField_eq {d d' : Fields α} (agree : AgreeDoc d d') :
    stringField d contentHashKey = stringField d' contentHashKey := by
  rw [stringField, agree contentHashKey (by decide), stringField]

theorem AgreeDoc.int64Field_eq {d d' : Fields α} (agree : AgreeDoc d d') :
    int64Field d version = int64Field d' version := by
  rw [int64Field, agree version (by decide), int64Field]

theorem hash_eq_of_rel {d d' : Option (Fields α)} (rel : Option.Rel AgreeDoc d d') :
    (d.map fun d => stringField d contentHashKey) =
      d'.map fun d => stringField d contentHashKey := by
  cases rel with
  | none => rfl
  | some agree => rw [Option.map_some, Option.map_some, agree.stringField_eq]

theorem Same.hashAt_eq (same : Same c p) (path : Path) : c.hashAt path = p.hashAt path :=
  hash_eq_of_rel (same path)

theorem Same.write (same : Same c p) (now : Int) (ver : Int64) :
    Same (c.write cfg pc now stamp session ver) (p.write cfg.plain pc now stamp session ver) := by
  intro path
  simp only [Client.write]
  by_cases eq : path = (pc, sessionKey session)
  · subst eq
    rw [Function.update_self, Function.update_self]
    exact .some fun _ _ => rfl
  · rw [Function.update_of_ne eq, Function.update_of_ne eq]
    exact same path

/-- A round keeps the stores the same, and counts the same, unless it goes by a
remembered hash whose document is gone. -/
theorem Round.same (roundC : Round cfg pc now stamp session c n outC)
    (roundP : Round cfg.plain pc now stamp session p n outP) (held : Held c) (past : Past now p)
    (same : Same c p)
    (backed : c.remembers cfg pc now session = true → c.sessions (pc, sessionKey session) ≠ none) :
    Same outC.1 outP.1 ∧ outC.2 = outP.2 := by
  have hashes := same.hashAt_eq (pc, sessionKey session)
  -- Whenever the store has the hash of the session, the plain client keeps its store.
  have keeps : p.hashAt (pc, sessionKey session) = some (contentHash cfg.digest session) →
      outP.1.sessions = p.sessions ∧ outP.2 = n := by
    intro holds
    cases roundP with
    | remembered remembers => rw [past.not_remembers] at remembers; cases remembers
    | verified => exact ⟨rfl, rfl⟩
    | changes _ found differs =>
        rw [Client.hashAt_of_found found, Option.some.injEq] at holds
        exact absurd holds differs
    | creates _ absent => rw [Client.hashAt_of_absent absent] at holds; cases holds
  cases roundC with
  | remembered remembers =>
      obtain ⟨d, found⟩ := Option.ne_none_iff_exists'.mp (backed remembers)
      obtain ⟨e, entry, hash, -⟩ := Client.remembers_eq_true_iff.mp remembers
      obtain ⟨sessions, count⟩ := keeps (by
        rw [← hashes, Client.hashAt_of_found found, held _ e d entry found, hash])
      exact ⟨fun path => by rw [sessions]; exact same path, count.symm⟩
  | verified _ found eq =>
      obtain ⟨sessions, count⟩ := keeps (by rw [← hashes, Client.hashAt_of_found found, eq])
      exact ⟨fun path => by rw [sessions]; exact same path, count.symm⟩
  | @changes d _ found differs =>
      cases roundP with
      | remembered remembers => rw [past.not_remembers] at remembers; cases remembers
      | verified _ found' eq =>
          rw [Client.hashAt_of_found found, Client.hashAt_of_found found', eq] at hashes
          exact absurd (Option.some.inj hashes) differs
      | @changes d' _ found' _ =>
          have rel := same (pc, sessionKey session)
          rw [found, found'] at rel
          cases rel with
          | some agree =>
              rw [agree.int64Field_eq]
              exact ⟨same.write now _, rfl⟩
      | creates _ absent =>
          rw [Client.hashAt_of_found found, Client.hashAt_of_absent absent] at hashes
          cases hashes
  | creates _ absent =>
      cases roundP with
      | remembered remembers => rw [past.not_remembers] at remembers; cases remembers
      | verified _ found | changes _ found =>
          rw [Client.hashAt_of_absent absent, Client.hashAt_of_found found] at hashes
          cases hashes
      | creates => exact ⟨same.write now _, rfl⟩

/-! ## After a round went astray -/

/-- The plain client is ahead at most by documents that the cached one remembers
and that are gone from its store. -/
def Lags (cfg : Config α) (pc : PCName) (now : Int) (c p : Client α) : Prop :=
  ∀ id, c.hashAt (pc, id) = p.hashAt (pc, id) ∨
    c.sessions (pc, id) = none ∧ ∃ e, c.entries (key (pc, id)) = some e ∧
      now - e.verifiedAt < cfg.verifyEvery ∧ p.hashAt (pc, id) = some e.hash

theorem Same.lags (same : Same c p) : Lags cfg pc now c p :=
  fun id => .inl (same.hashAt_eq (pc, id))

/-- A round of the plain client counts at least as much, and more where the cached
one goes by a remembered hash whose document is gone. -/
theorem Round.counts (roundC : Round cfg pc now stamp session c n outC)
    (roundP : Round cfg.plain pc now stamp session p m outP) (past : Past now p)
    (lags : Lags cfg pc now c p) {gap : Nat} (ahead : n + gap ≤ m) : outC.2 + gap ≤ outP.2 := by
  have countP : outP.2 = m +
      if p.hashAt (pc, sessionKey session) = some (contentHash cfg.digest session) then 0 else 1 :=
    (roundP.of_misses past.not_remembers).2.2
  cases hit : c.remembers cfg pc now session with
  | true =>
      rw [roundC.of_remembers hit, countP]
      omega
  | false =>
      obtain ⟨-, -, countC⟩ := roundC.of_misses hit
      have less : p.hashAt (pc, sessionKey session) = some (contentHash cfg.digest session) →
          c.hashAt (pc, sessionKey session) = some (contentHash cfg.digest session) := by
        intro holds
        rcases lags (sessionKey session) with eq | ⟨-, e, entry, recent, hash⟩
        · exact eq.trans holds
        · rw [holds, Option.some.injEq] at hash
          rw [Client.remembers_eq_true_iff.mpr ⟨e, entry, hash.symm, recent⟩] at hit
          cases hit
      rw [countC, countP]
      split
      · omega
      · rename_i differs
        rw [if_neg fun holds => differs (less holds)]
        omega

theorem Round.lags (roundC : Round cfg pc now stamp session c n outC)
    (roundP : Round cfg.plain pc now stamp session p m outP) (held : Held c) (past : Past now p)
    (lags : Lags cfg pc now c p) : Lags cfg pc now outC.1 outP.1 := by
  intro id
  by_cases eq : id = sessionKey session
  · subst eq
    obtain ⟨hashP, -, -⟩ := roundP.of_misses past.not_remembers
    cases hit : c.remembers cfg pc now session with
    | true =>
        rw [roundC.of_remembers hit, hashP]
        obtain ⟨e, entry, hash, recent⟩ := Client.remembers_eq_true_iff.mp hit
        cases found : c.sessions (pc, sessionKey session) with
        | none => exact .inr ⟨rfl, e, entry, recent, congrArg some hash.symm⟩
        | some d =>
            refine .inl ?_
            rw [Client.hashAt_of_found found, held _ e d entry found, hash]
            rfl
    | false =>
        obtain ⟨hashC, -, -⟩ := roundC.of_misses hit
        exact .inl (hashC.trans hashP.symm)
  · have ne : ((pc, id) : Path) ≠ (pc, sessionKey session) := fun same => eq (Prod.mk.inj same).2
    rw [Client.hashAt, Client.hashAt, roundC.sessions_of_ne ne, roundC.entries_of_ne (key_ne ne),
      roundP.sessions_of_ne ne]
    exact lags id

end

/-! ## Pushes -/

section

variable {cfg : Config α} {pc : PCName} {now : Int} {stamp : Bytes} {c p : Client α}

theorem foldl_counts {n m gap : Nat} (sessions : List (Fields α)) (held : Held c)
    (past : Past now p) (lags : Lags cfg pc now c p) (ahead : n + gap ≤ m) :
    (sessions.foldl (pushSession cfg pc now stamp) (c, n)).2 + gap ≤
      (sessions.foldl (pushSession cfg.plain pc now stamp) (p, m)).2 := by
  induction sessions generalizing c p n m with
  | nil => exact ahead
  | cons session rest ih =>
      have roundC := round_pushSession cfg pc now stamp c n session
      have roundP := round_pushSession cfg.plain pc now stamp p m session
      exact ih (roundC.held held) (roundP.past past) (roundC.lags roundP held past lags)
        (roundC.counts roundP past lags ahead)

theorem foldl_held {n : Nat} (sessions : List (Fields α)) (held : Held c) :
    Held (sessions.foldl (pushSession cfg pc now stamp) (c, n)).1 := by
  induction sessions generalizing c n with
  | nil => exact held
  | cons session rest ih => exact ih ((round_pushSession cfg pc now stamp c n session).held held)

theorem foldl_past {n : Nat} (sessions : List (Fields α)) (past : Past now p) :
    Past now (sessions.foldl (pushSession cfg pc now stamp) (p, n)).1 := by
  induction sessions generalizing p n with
  | nil => exact past
  | cons session rest ih => exact ih ((round_pushSession cfg pc now stamp p n session).past past)

/-- Where rounds over the keys `seen` have left a client that started as `s`. -/
structure After (pc : PCName) (s : Client α) (seen : List Bytes) (c : Client α) : Prop where
  present : ∀ id ∈ seen, c.sessions (pc, id) ≠ none
  sessions : ∀ id, id ∉ seen → c.sessions (pc, id) = s.sessions (pc, id)
  entries : ∀ id, id ∉ seen → c.entries (key (pc, id)) = s.entries (key (pc, id))

theorem After.round {s : Client α} {seen : List Bytes} {n : Nat} {session : Fields α}
    {out : Client α × Nat} (after : After pc s seen c)
    (round : Round cfg pc now stamp session c n out)
    (backed : c.remembers cfg pc now session = true → c.sessions (pc, sessionKey session) ≠ none) :
    After pc s (sessionKey session :: seen) out.1 := by
  have ne : ∀ id, id ≠ sessionKey session → ((pc, id) : Path) ≠ (pc, sessionKey session) :=
    fun id other same => other (Prod.mk.inj same).2
  have here : out.1.sessions (pc, sessionKey session) ≠ none := by
    cases hit : c.remembers cfg pc now session with
    | true =>
        rw [round.of_remembers hit]
        exact backed hit
    | false =>
        intro absent
        have hash := (round.of_misses hit).1
        rw [Client.hashAt_of_absent absent] at hash
        cases hash
  refine ⟨fun id mem => ?_, fun id notMem => ?_, fun id notMem => ?_⟩
  · by_cases eq : id = sessionKey session
    · exact eq ▸ here
    · rw [round.sessions_of_ne (ne id eq)]
      exact after.present id (List.mem_of_ne_of_mem eq mem)
  · rw [List.mem_cons, not_or] at notMem
    rw [round.sessions_of_ne (ne id notMem.1)]
    exact after.sessions id notMem.2
  · rw [List.mem_cons, not_or] at notMem
    rw [round.entries_of_ne (key_ne (ne id notMem.1))]
    exact after.entries id notMem.2

/-- Whether a round goes by a remembered hash whose document is gone shows in the
client before the push. -/
theorem After.stale_iff {s : Client α} {seen : List Bytes} (after : After pc s seen c)
    (session : Fields α) :
    (sessionKey session ∉ seen && s.remembers cfg pc now session &&
        (s.sessions (pc, sessionKey session)).isNone) = true ↔
      c.remembers cfg pc now session = true ∧ c.sessions (pc, sessionKey session) = none := by
  by_cases mem : sessionKey session ∈ seen
  · simp [mem, after.present _ mem]
  · simp [mem, Client.remembers, after.entries _ mem, after.sessions _ mem]

/-- A push agrees with the plain one if no round goes astray, and counts less if
one does. -/
theorem foldl_agrees {s : Client α} {seen : List Bytes} {n m : Nat} (sessions : List (Fields α))
    (after : After pc s seen c) (held : Held c) (past : Past now p) (same : Same c p)
    (count : n = m) :
    if goesStale cfg pc now s seen sessions then
      (sessions.foldl (pushSession cfg pc now stamp) (c, n)).2 <
        (sessions.foldl (pushSession cfg.plain pc now stamp) (p, m)).2
    else
      Same (sessions.foldl (pushSession cfg pc now stamp) (c, n)).1
          (sessions.foldl (pushSession cfg.plain pc now stamp) (p, m)).1 ∧
        (sessions.foldl (pushSession cfg pc now stamp) (c, n)).2 =
          (sessions.foldl (pushSession cfg.plain pc now stamp) (p, m)).2 := by
  induction sessions generalizing c p n m seen with
  | nil => exact ⟨same, count⟩
  | cons session rest ih =>
      have roundC := round_pushSession cfg pc now stamp c n session
      have roundP := round_pushSession cfg.plain pc now stamp p m session
      rw [goesStale, List.foldl_cons, List.foldl_cons]
      by_cases stale : c.remembers cfg pc now session = true ∧
          c.sessions (pc, sessionKey session) = none
      · rw [(after.stale_iff session).mpr stale, Bool.true_or, if_pos rfl]
        have absent : p.hashAt (pc, sessionKey session) = none :=
          (same.hashAt_eq _).symm.trans (Client.hashAt_of_absent stale.2)
        have countC : (pushSession cfg pc now stamp (c, n) session).2 = n :=
          congrArg Prod.snd (roundC.of_remembers stale.1)
        have countP : (pushSession cfg.plain pc now stamp (p, m) session).2 = m + 1 := by
          rw [(roundP.of_misses past.not_remembers).2.2, absent, if_neg (by simp)]
        have ahead : (pushSession cfg pc now stamp (c, n) session).2 + 1 ≤
            (pushSession cfg.plain pc now stamp (p, m) session).2 := by omega
        exact foldl_counts rest (roundC.held held) (roundP.past past)
          (roundC.lags roundP held past same.lags) ahead
      · have backed : c.remembers cfg pc now session = true →
            c.sessions (pc, sessionKey session) ≠ none := fun hit absent => stale ⟨hit, absent⟩
        rw [Bool.eq_false_iff.mpr fun isStale => stale ((after.stale_iff session).mp isStale),
          Bool.false_or]
        subst count
        obtain ⟨sameRound, countRound⟩ := roundC.same roundP held past same backed
        exact ih (after.round roundC backed) (roundC.held held) (roundP.past past)
          sameRound countRound

end

/-! ## Calls -/

theorem after_nil (pc : PCName) (s : Client α) : After pc s [] s :=
  ⟨fun _ mem => (List.not_mem_nil mem).elim, fun _ _ => rfl, fun _ _ => rfl⟩

theorem pushRounds_agrees (cfg : Config α) (pc : PCName) {now : Int} {c p : Client α}
    (stamp : Bytes)
    (sessions : List (Fields α)) (held : Held c) (past : Past now p) (same : Same c p) :
    if goesStale cfg pc now c [] sessions then
      (pushRounds cfg pc now stamp c sessions).2 < (pushRounds cfg.plain pc now stamp p sessions).2
    else
      Same (pushRounds cfg pc now stamp c sessions).1
          (pushRounds cfg.plain pc now stamp p sessions).1 ∧
        (pushRounds cfg pc now stamp c sessions).2 =
          (pushRounds cfg.plain pc now stamp p sessions).2 :=
  foldl_agrees sessions (after_nil pc c) held past same rfl

/-- The call loses documents and forgets entries, and does nothing else. -/
structure Drops (gone : Path → Bool) (s s' : Client α) : Prop where
  entries : ∀ k e, s'.entries k = some e → s.entries k = some e
  sessions : ∀ path, s'.sessions path = if gone path then none else s.sessions path
  clock : s'.clock = s.clock
  returned : s'.returned = s.returned

theorem drops_deleteSessionFor (s : Client α) (pc : PCName) (id : Bytes) :
    Drops (fun path => decide (path = (pc, id)) && decide (id ≠ [])) s
      (deleteSessionFor s pc id) := by
  by_cases empty : id = []
  · simp only [deleteSessionFor, if_pos empty]
    exact ⟨fun _ _ found => found, fun _ => by simp [empty], rfl, rfl⟩
  · simp only [deleteSessionFor, if_neg empty]
    refine ⟨fun k e found => ?_, fun path => ?_, rfl, rfl⟩
    · by_cases same : k = key (pc, id)
      · simp only [Client.forget, same, Function.update_self] at found
        cases found
      · simpa only [Client.forget, Function.update_of_ne same] using found
    · by_cases same : path = (pc, id)
      · simp [same, empty]
      · simp [same]

theorem drops_deletePC (s : Client α) (pc : Bytes) :
    Drops (fun path => goesWith pc path && decide (pc ≠ [])) s (deletePC s pc) := by
  by_cases empty : pc = []
  · simp only [deletePC, if_pos empty]
    exact ⟨fun _ _ found => found, fun _ => by simp [empty], rfl, rfl⟩
  · simp only [deletePC, if_neg empty]
    exact ⟨fun _ _ found => found, fun path => by simp [empty], rfl, rfl⟩

theorem drops_deletePCByID (s : Client α) (pc : Bytes) :
    Drops (fun path => goesWith pc path && decide (pc ≠ [])) s (deletePCByID s pc) := by
  have drops := drops_deletePC (s.forgetPC pc) pc
  refine ⟨fun k e found => ?_, drops.sessions, drops.clock, drops.returned⟩
  have kept := drops.entries k e found
  rw [Client.forgetPC, Option.ite_none_left_eq_some] at kept
  exact kept.2

/-- A call is a push, or drops the same documents on both clients. -/
theorem Call.push_or_drops (cfg : Config α) (call : Call α) :
    (∃ pc now stamp sessions, call.push cfg = some (pc, now, stamp, sessions) ∧
        (∀ s, call.run cfg s = pushSessions cfg pc now stamp s sessions) ∧
        ∀ s, call.run cfg.plain s = pushSessions cfg.plain pc now stamp s sessions) ∨
      call.push cfg = none ∧
        ∃ gone, ∀ s, Drops gone s (call.run cfg s) ∧ Drops gone s (call.run cfg.plain s) := by
  cases call with
  | pushStatus now stamp sessions =>
      exact .inl ⟨cfg.pcID, now, stamp, sessions, rfl, fun _ => rfl, fun _ => rfl⟩
  | pushStatusFor pc now stamp sessions =>
      exact .inl ⟨pc, now, stamp, sessions, rfl, fun _ => rfl, fun _ => rfl⟩
  | deleteSession id =>
      exact .inr ⟨rfl, _, fun s => ⟨drops_deleteSessionFor s cfg.pcID id,
        drops_deleteSessionFor s cfg.pcID id⟩⟩
  | deleteSessionFor pc id =>
      exact .inr ⟨rfl, _, fun s => ⟨drops_deleteSessionFor s pc id, drops_deleteSessionFor s pc id⟩⟩
  | deletePC =>
      exact .inr ⟨rfl, _, fun s => ⟨drops_deletePC s cfg.pcID.text, drops_deletePC s cfg.pcID.text⟩⟩
  | deletePCByID pc =>
      exact .inr ⟨rfl, _, fun s => ⟨drops_deletePCByID s pc, drops_deletePCByID s pc⟩⟩

theorem step_eq_some_iff {cfg : Config α} {s s' : Pair α} {call : Call α} :
    step cfg s call = some s' ↔
      (∀ p ∈ call.push cfg, s.cached.clock ≤ p.2.1) ∧
        ⟨call.run cfg s.cached, call.run cfg.plain s.plain⟩ = s' := by
  rw [step, Option.ite_none_right_eq_some, Option.some.injEq]

/-- What holds of the two clients whatever was called. -/
structure Inv (s : Pair α) : Prop where
  held : Held s.cached
  past : Past s.plain.clock s.plain
  clock : s.cached.clock = s.plain.clock

theorem inv_start (pcs : PCName → Option (Fields α)) (sessions : Path → Option (Fields α))
    (clock : Int) : Inv (start pcs sessions clock) where
  held _ _ _ entry := by cases entry
  past _ _ entry := by cases entry
  clock := rfl

theorem agree_start (pcs : PCName → Option (Fields α)) (sessions : Path → Option (Fields α))
    (clock : Int) : Agree (start pcs sessions clock) := by
  refine ⟨fun path => ?_, rfl⟩
  change Option.Rel AgreeDoc (sessions path) (sessions path)
  cases sessions path with
  | none => exact .none
  | some d => exact .some fun _ _ => rfl

theorem Inv.step {cfg : Config α} {s s' : Pair α} {call : Call α} (inv : Inv s)
    (taken : step cfg s call = some s') : Inv s' := by
  obtain ⟨onTime, rfl⟩ := step_eq_some_iff.mp taken
  rcases call.push_or_drops cfg with
    ⟨pc, now, stamp, sessions, push, runC, runP⟩ | ⟨-, gone, drops⟩
  · have le : s.plain.clock ≤ now := inv.clock ▸ onTime _ push
    have past : Past now s.plain := fun k e entry => Int.le_trans (inv.past k e entry) le
    rw [runC, runP]
    exact ⟨foldl_held sessions inv.held, foldl_past sessions past, rfl⟩
  · obtain ⟨dropsC, -⟩ := drops s.cached
    obtain ⟨-, dropsP⟩ := drops s.plain
    refine ⟨fun path e d entry found => ?_, fun k e entry => ?_, ?_⟩
    · rw [dropsC.sessions, Option.ite_none_left_eq_some] at found
      exact inv.held path e d (dropsC.entries _ e entry) found.2
    · rw [dropsP.clock]
      exact inv.past k e (dropsP.entries k e entry)
    · rw [dropsC.clock, dropsP.clock]
      exact inv.clock

/-- A call keeps the clients in agreement exactly if it is backed. -/
theorem agree_iff_backed {cfg : Config α} {s s' : Pair α} {call : Call α} (inv : Inv s)
    (agree : Agree s) (taken : step cfg s call = some s') : Agree s' ↔ Backed cfg s call := by
  obtain ⟨onTime, rfl⟩ := step_eq_some_iff.mp taken
  rcases call.push_or_drops cfg with
    ⟨pc, now, stamp, sessions, push, runC, runP⟩ | ⟨noPush, gone, drops⟩
  · have le : s.plain.clock ≤ now := inv.clock ▸ onTime _ push
    have past : Past now s.plain := fun k e entry => Int.le_trans (inv.past k e entry) le
    have rounds := pushRounds_agrees cfg pc stamp sessions inv.held past agree.sessions
    have backed : Backed cfg s call ↔ goesStale cfg pc now s.cached [] sessions = false := by
      rw [Backed, push]
      exact ⟨fun all => all _ rfl, fun notStale _ mem => Option.mem_some_iff.mp mem ▸ notStale⟩
    rw [backed, runC, runP]
    split at rounds
    · rename_i stale
      refine iff_of_false (fun agreed => ?_) (by rw [stale]; exact Bool.noConfusion)
      exact absurd (List.cons.inj agreed.returned).1 (Nat.ne_of_lt rounds)
    · rename_i notStale
      exact iff_of_true ⟨rounds.1, congrArg₂ List.cons rounds.2 agree.returned⟩
        (Bool.eq_false_iff.mpr notStale)
  · rw [Backed, noPush]
    refine iff_of_true ⟨fun path => ?_, ?_⟩ (fun p mem => by cases mem)
    · rw [(drops s.cached).1.sessions, (drops s.plain).2.sessions]
      split
      · exact .none
      · exact agree.sessions path
    · rw [(drops s.cached).1.returned, (drops s.plain).2.returned]
      exact agree.returned

/-- The cache shows in no call and no session document, exactly in the runs in
which no push goes by a remembered hash whose document is gone. -/
theorem push_cache_transparent_iff (cfg : Config α) (pcs : PCName → Option (Fields α))
    (sessions : Path → Option (Fields α)) (clock : Int) (calls : List (Call α)) :
    Always (step cfg) Agree (start pcs sessions clock) calls ↔
      Along (step cfg) (Backed cfg) (start pcs sessions clock) calls := by
  have preserved : ∀ s call s', Inv s → True → step cfg s call = some s' → Inv s' :=
    fun _ _ _ inv _ taken => inv.step taken
  have one : ∀ s call s', Inv s → Agree s → True → step cfg s call = some s' →
      (Agree s' ↔ Backed cfg s call) :=
    fun _ _ _ inv agree _ taken => agree_iff_backed inv agree taken
  exact always_iff_along preserved one (inv_start ..) (agree_start ..)
    (along_of_forall_mem (fun _ _ => trivial) _)

/-! ## Deletions of whole PCs by name -/

/-- The document of every remembered session is there. -/
def Kept (s : Client α) : Prop := ∀ path, s.entries (key path) ≠ none → s.sessions path ≠ none

theorem Round.kept {cfg : Config α} {pc : PCName} {now : Int} {stamp : Bytes} {session : Fields α}
    {s : Client α} {changed : Nat} {out : Client α × Nat}
    (round : Round cfg pc now stamp session s changed out) (kept : Kept s) : Kept out.1 := by
  intro path entry
  by_cases same : path = (pc, sessionKey session)
  · subst same
    cases hit : s.remembers cfg pc now session with
    | true =>
        rw [round.of_remembers hit] at entry ⊢
        exact kept _ entry
    | false =>
        intro absent
        have hash := (round.of_misses hit).1
        rw [Client.hashAt_of_absent absent] at hash
        cases hash
  · rw [round.sessions_of_ne same]
    rw [round.entries_of_ne (key_ne same)] at entry
    exact kept path entry

theorem foldl_kept {cfg : Config α} {pc : PCName} {now : Int} {stamp : Bytes} {s : Client α}
    {n : Nat}
    (sessions : List (Fields α)) (kept : Kept s) :
    Kept (sessions.foldl (pushSession cfg pc now stamp) (s, n)).1 := by
  induction sessions generalizing s n with
  | nil => exact kept
  | cons session rest ih => exact ih ((round_pushSession cfg pc now stamp s n session).kept kept)

theorem Kept.deleteSessionFor {s : Client α} (kept : Kept s) (pc : PCName) (id : Bytes) :
    Kept (deleteSessionFor s pc id) := by
  rw [Push.deleteSessionFor]
  split
  · exact kept
  · intro path entry
    by_cases same : path = (pc, id)
    · subst same
      exact absurd (Function.update_self ..) entry
    · have before : s.entries (key path) ≠ none := by
        simpa only [Client.forget, Function.update_of_ne (key_ne same)] using entry
      simpa only [Function.update_of_ne same] using kept path before

/-- `forgetPC` forgets all sessions of the PC. -/
theorem entries_forgetPC {s : Client α} {pc : Bytes} {path : Path}
    (entry : (s.forgetPC pc).entries (key path) ≠ none) :
    path.1.text ≠ pc ∧ s.entries (key path) ≠ none := by
  rw [Client.forgetPC, ne_eq, ite_eq_left_iff, Classical.not_imp,
    List.isPrefixOf_iff_prefix] at entry
  refine ⟨?_, entry.2⟩
  rintro rfl
  exact entry.1 ⟨path.2, by simp [key]⟩

theorem entries_deletePCByID (s : Client α) (pc : Bytes) :
    (deletePCByID s pc).entries = (s.forgetPC pc).entries := by
  rw [deletePCByID, deletePC]
  split <;> rfl

/-- With a PC that is named without a slash, only its own sessions go. -/
theorem goesWith_of_named {pc : Bytes} {path : Path} (named : slash ∉ pc)
    (goes : goesWith pc path = true) : path.1.text = pc := by
  have refEq : ref path =
      pcRef (path.1.text ++ slash :: (ascii "sessions" ++ slash :: path.2)) := by
    simp only [ref, sessionsCol, pcRef, Store.docPath, List.append_assoc, List.cons_append]
    rfl
  rw [goesWith, Bool.or_eq_true, decide_eq_true_iff, refEq] at goes
  rcases goes with isPC | isChild
  · rw [pcRef, pcRef, Store.docPath_inj] at isPC
    exact absurd (isPC ▸ List.mem_append_right _ List.mem_cons_self) named
  · obtain ⟨id, isChild⟩ := Option.isSome_iff_exists.mp isChild
    have same := (Store.childID_eq_some_iff.mp isChild).1
    have childEq : Store.docPath (sessionsCol pc) id =
        pcRef (pc ++ slash :: (ascii "sessions" ++ slash :: id)) := by
      simp only [sessionsCol, pcRef, Store.docPath, List.append_assoc, List.cons_append]
      rfl
    rw [childEq, pcRef, pcRef, Store.docPath_inj] at same
    exact ((separated_inj named path.1.slash_notMem).mp same).1

theorem Kept.deletePCByID {s : Client α} (kept : Kept s) {pc : Bytes} (named : slash ∉ pc) :
    Kept (deletePCByID s pc) := by
  intro path entry
  rw [entries_deletePCByID] at entry
  obtain ⟨ofOther, before⟩ := entries_forgetPC entry
  rw [(drops_deletePCByID s pc).sessions, if_neg]
  · exact kept path before
  · rw [Bool.and_eq_true]
    exact fun goes => ofOther (goesWith_of_named named goes.1)

/-- The call deletes no document of a session whose entry it leaves: it is not `DeletePC`,
and it names a PC where it is `DeletePCByID`. -/
def Call.Names : Call α → Prop
  | .deletePC => False
  | .deletePCByID pc => slash ∉ pc
  | _ => True

theorem Kept.run {cfg : Config α} {s : Client α} (kept : Kept s) {call : Call α}
    (names : call.Names) : Kept (call.run cfg s) := by
  cases call with
  | pushStatus now stamp sessions => exact foldl_kept sessions kept
  | pushStatusFor pc now stamp sessions => exact foldl_kept sessions kept
  | deleteSession id => exact kept.deleteSessionFor cfg.pcID id
  | deleteSessionFor pc id => exact kept.deleteSessionFor pc id
  | deletePC => exact names.elim
  | deletePCByID pc => exact kept.deletePCByID names

theorem Kept.backed {cfg : Config α} {s : Pair α} (kept : Kept s.cached) (call : Call α) :
    Backed cfg s call := by
  have never : ∀ pc now seen sessions, goesStale cfg pc now s.cached seen sessions = false := by
    intro pc now seen sessions
    induction sessions generalizing seen with
    | nil => rfl
    | cons session rest ih =>
        rw [goesStale, ih, Bool.or_false, Bool.eq_false_iff, ne_eq, Bool.and_eq_true,
          Bool.and_eq_true, Option.isNone_iff_eq_none]
        rintro ⟨⟨-, hit⟩, absent⟩
        obtain ⟨e, entry, -, -⟩ := Client.remembers_eq_true_iff.mp hit
        exact kept (pc, sessionKey session) (by rw [entry]; exact Option.some_ne_none e) absent
  exact fun p _ => never p.1 p.2.1 [] p.2.2.2

/-- Without `DeletePC`, and where `DeletePCByID` gets the names of PCs, the cache is
transparent. -/
theorem transparent_of_names (cfg : Config α) (pcs : PCName → Option (Fields α))
    (sessions : Path → Option (Fields α)) (clock : Int) {calls : List (Call α)}
    (names : ∀ call ∈ calls, call.Names) :
    Always (step cfg) Agree (start pcs sessions clock) calls := by
  have preserved : ∀ s call s', Inv s ∧ Agree s ∧ Kept s.cached → call.Names →
      step cfg s call = some s' → Inv s' ∧ Agree s' ∧ Kept s'.cached := by
    rintro s call s' ⟨inv, agree, kept⟩ names taken
    refine ⟨inv.step taken, (agree_iff_backed inv agree taken).mpr (kept.backed call), ?_⟩
    obtain ⟨-, rfl⟩ := step_eq_some_iff.mp taken
    exact kept.run names
  have kept : Kept (start pcs sessions clock).cached := fun _ entry => absurd rfl entry
  exact (always_of_preserved preserved ⟨inv_start .., agree_start .., kept⟩
    (along_of_forall_mem names _)).imp fun _ all => all.2.1

/-- A session of one PC. -/
def session : Fields Unit := fun k =>
  if k = ascii "key" then some (.string (ascii "s1"))
  else if k = ascii "status" then some (.string (ascii "working"))
  else none

/-- A PC. -/
def host : PCName := ⟨ascii "host", by decide⟩

/-- A client with the `PushVerifyEvery` of the code. -/
def hostConfig : Config Unit where
  pcID := host
  digest := fun m => stringField m (ascii "status")
  verifyEvery := 10 * 60 * 1000000000

/-- The session is pushed, its PC deleted, and the session pushed again. -/
def deletedRun : List (Call Unit) :=
  [.pushStatus 0 [] [session], .deletePC, .pushStatus 1 [] [session]]

/-- The second push writes nothing, and the session stays deleted. -/
theorem deleted_session_not_pushed :
    (exec (step hostConfig) (start (fun _ => none) (fun _ => none) 0) deletedRun).map (fun s =>
        (s.cached.returned, (s.cached.sessions (host, ascii "s1")).isSome,
          s.plain.returned, (s.plain.sessions (host, ascii "s1")).isSome)) =
      some ([0, 1], false, [1, 1], true) ∧
    ¬ Always (step hostConfig) Agree (start (fun _ => none) (fun _ => none) 0) deletedRun := by
  have counts : (exec (step hostConfig) (start (fun _ => none) (fun _ => none) 0) deletedRun).map
      (fun s => (s.cached.returned, s.plain.returned)) = some ([0, 1], [1, 1]) := by decide
  refine ⟨by decide, fun always => ?_⟩
  obtain ⟨s, run, eq⟩ := Option.map_eq_some_iff.mp counts
  have returned := (always.last run).returned
  rw [Prod.mk.injEq] at eq
  rw [eq.1, eq.2] at returned
  exact absurd returned (by decide)

end Drover.Push
