import Drover.Slave.PushRuns

/-!
# Pushing a list again

A push that finds every session in the memory, with its hash and lately verified, neither
reads nor writes.  The push before it leaves the memory so, unless two sessions of one key
have different hashes, or an entry that it relied on has become too old in between.
-/

namespace Drover.Slave

open Drover.Store
open Drover.Push (Fields PushEntry sessionKey contentHash)

variable {α : Type}

/-- Sessions of one key have one hash. -/
def OneHash (server : Server α) (sessions : List (Fields α)) : Prop :=
  ∀ x ∈ sessions, ∀ y ∈ sessions, sessionKey x = sessionKey y →
    contentHash server.digest x = contentHash server.digest y

/-- What a push skips now, it also skips later. -/
def StaysKnown (server : Server α) (pc : Bytes) (m : RelayMachine α) (later : Nat)
    (sessions : List (Fields α)) : Prop :=
  ∀ x ∈ sessions, Known server pc m.clock m x → Known server pc later m x

/-- A push of the sessions returns 0, leaves the machine as it is, and neither reads nor
writes a document. -/
def Free (server : Server α) (pc : Bytes) (sessions : List (Fields α)) (m : RelayMachine α) :
    Prop :=
  (pushStatusFor server pc sessions).Ensures m fun steps m' value =>
    value = some 0 ∧ m' = m ∧ ∀ step ∈ steps, step.op.quiet = true

/-! ## A push that does nothing -/

section

variable {server : Server α} {pc : Bytes} {now : Nat} {m : RelayMachine α}

theorem pushSession_of_known {session : Fields α} {changed : Nat}
    (known : Known server pc now m session) :
    (pushSession server pc now session changed).Ensures m fun steps m' value =>
      value = some changed ∧ m' = m ∧ ∀ step ∈ steps, step.op.quiet = true := by
  apply pushSession_ensures
  · intro _ choice
    exact ⟨rfl, rfl, by simp [Op.quiet]⟩
  · exact fun unknown => absurd known unknown

/-- A session that is not known is read. -/
theorem pushSession_reads {session : Fields α} {changed : Nat}
    (unknown : ¬Known server pc now m session) :
    (pushSession server pc now session changed).Ensures m fun steps _ _ =>
      ∃ step ∈ steps, step.op.quiet = false := by
  apply pushSession_ensures
  · exact fun known => absurd known unknown
  · intro _ choice
    apply Prog.Ensures.op
    intro choice' choices
    exact ⟨_, List.mem_cons_of_mem _ List.mem_cons_self, rfl⟩

theorem pushRounds_of_known {sessions : List (Fields α)} {changed : Nat}
    (known : ∀ x ∈ sessions, Known server pc now m x) :
    (pushRounds server pc now sessions changed).Ensures m fun steps m' value =>
      value = some changed ∧ m' = m ∧ ∀ step ∈ steps, step.op.quiet = true := by
  induction sessions with
  | nil => exact .pure ⟨rfl, rfl, nofun⟩
  | cons session sessions ih =>
      rw [List.forall_mem_cons] at known
      refine (pushSession_of_known known.1).andThen ?_
      rintro steps m' value ⟨rfl, rfl, quiet⟩
      refine (ih known.2).imp ?_
      rintro steps' m'' value' ⟨rfl, rfl, quiet'⟩
      refine ⟨rfl, rfl, ?_⟩
      intro step mem
      exact (List.mem_append.mp mem).elim (quiet step) (quiet' step)

theorem known_of_quiet {sessions : List (Fields α)} {changed : Nat} :
    (pushRounds server pc now sessions changed).Ensures m fun steps _ _ =>
      (∀ step ∈ steps, step.op.quiet = true) → ∀ x ∈ sessions, Known server pc now m x := by
  induction sessions with
  | nil => exact .pure fun _ => nofun
  | cons session sessions ih =>
      by_cases known : Known server pc now m session
      · refine (pushSession_of_known known).andThen ?_
        rintro steps m' value ⟨rfl, rfl, -⟩
        refine ih.imp ?_
        intro steps' m'' value' rest quiet
        rw [List.forall_mem_append] at quiet
        exact List.forall_mem_cons.mpr ⟨known, rest quiet.2⟩
      · refine (pushSession_reads known).andThen ?_
        rintro steps m' value ⟨step, mem, reads⟩ choices quiet
        rw [quiet step (List.mem_append_left _ mem)] at reads
        cases reads

/-- The push of sessions that does nothing is the one that knows them all. -/
theorem free_iff (sessions : List (Fields α)) :
    Free server pc sessions m ↔ ∀ x ∈ sessions, Known server pc m.clock m x := by
  constructor
  · intro free
    have knows : (pushStatusFor server pc sessions).Ensures m fun steps _ _ =>
        (∀ step ∈ steps, step.op.quiet = true) → ∀ x ∈ sessions, Known server pc m.clock m x := by
      apply Prog.Ensures.op
      intro choice
      refine known_of_quiet.andThen ?_
      intro steps m' value rounds choices quiet
      exact rounds fun step mem =>
        quiet step (List.mem_cons_of_mem _ (List.mem_append_left _ mem))
    exact knows (fun _ => .ok) (free fun _ => .ok).2.2
  · intro known
    apply Prog.Ensures.op
    intro choice
    refine (pushRounds_of_known known).andThen ?_
    rintro steps m' value ⟨rfl, rfl, quiet⟩
    apply Prog.Ensures.pure
    refine ⟨rfl, rfl, ?_⟩
    simpa [Op.quiet, Machine.after] using quiet

/-! ## What a push leaves in the memory -/

/-- The round puts the session into the memory. -/
theorem readSession_remembers {session : Fields α} {changed : Nat} :
    (readSession server pc now session changed).Ensures m fun steps m' value =>
      (∀ step ∈ steps, step.choice = .ok) → m'.clock = m.clock ∧ (∃ n, value = some n) ∧
        ∃ ver, m'.memory = Function.update m.memory (pushKey pc (sessionKey session))
          (some ⟨contentHash server.digest session, ver, now⟩) := by
  apply readSession_ensures
  · intro c c' d _ _ _
    exact ⟨rfl, ⟨_, rfl⟩, _, rfl⟩
  · intro c ver
    apply setSession_ensures
    · intro c₁ c₂ c₃ _ _
      exact ⟨rfl, ⟨_, rfl⟩, ver, rfl⟩
    · intro c₁ c₂ c₃ isFailed allOk
      simp only [List.forall_mem_cons] at allOk
      exact absurd (congrArg Choice.write allOk.2.2.1) isFailed

/-- So does a round that does not know the session. -/
theorem pushSession_remembers {session : Fields α} {changed : Nat}
    (unknown : ¬Known server pc now m session) :
    (pushSession server pc now session changed).Ensures m fun steps m' value =>
      (∀ step ∈ steps, step.choice = .ok) → m'.clock = m.clock ∧ (∃ n, value = some n) ∧
        ∃ ver, m'.memory = Function.update m.memory (pushKey pc (sessionKey session))
          (some ⟨contentHash server.digest session, ver, now⟩) := by
  apply pushSession_ensures
  · exact fun known => absurd known unknown
  · intro _ c
    refine readSession_remembers.imp ?_
    intro steps m' value remembers allOk
    exact remembers (List.forall_mem_cons.mp allOk).2

/-- What a push leaves in an entry whose sessions all have the hash `h`: it has relied on the
old one, or made a new one. -/
def Leaves (server : Server α) (now : Nat) (h : Bytes) (used : Prop) (old new : Option PushEntry) :
    Prop :=
  (new = old ∧ (used → remembered server now h old = true)) ∨
    (remembered server now h old = false ∧ ∃ ver, new = some ⟨h, ver, now⟩)

theorem pushRounds_remembers {sessions : List (Fields α)} {changed : Nat} :
    (pushRounds server pc now sessions changed).Ensures m fun steps m' value =>
      (∀ step ∈ steps, step.choice = .ok) → m'.clock = m.clock ∧ (∃ n, value = some n) ∧
        ∀ k h, (∀ y ∈ sessions, sessionKey y = k → contentHash server.digest y = h) →
          Leaves server now h (∃ y ∈ sessions, sessionKey y = k) (m.memory (pushKey pc k))
            (m'.memory (pushKey pc k)) := by
  induction sessions generalizing m changed with
  | nil =>
      exact .pure fun _ =>
        ⟨rfl, ⟨_, rfl⟩, fun k h _ => .inl ⟨rfl, fun ⟨y, mem, _⟩ => nomatch mem⟩⟩
  | cons session sessions ih =>
      by_cases known : Known server pc now m session
      · refine (pushSession_of_known known).andThen ?_
        rintro steps m' value ⟨rfl, rfl, -⟩
        refine ih.imp ?_
        intro steps' m'' value' rest allOk
        obtain ⟨clock, isSome, leaves⟩ := rest (List.forall_mem_append.mp allOk).2
        refine ⟨clock, isSome, ?_⟩
        intro k h sameHash
        rw [List.forall_mem_cons] at sameHash
        rcases leaves k h sameHash.2 with ⟨kept, relied⟩ | renewed
        · refine .inl ⟨kept, ?_⟩
          rintro ⟨y, mem, isKey⟩
          rcases List.mem_cons.mp mem with rfl | later
          · rw [← isKey, ← sameHash.1 isKey]
            exact known
          · exact relied ⟨y, later, isKey⟩
        · exact .inr renewed
      · refine (pushSession_remembers known).andThen ?_
        intro steps m' value remembers
        by_cases first : ∀ step ∈ steps, step.choice = .ok
        · obtain ⟨clock, ⟨n, rfl⟩, ver, memory⟩ := remembers first
          refine ih.imp ?_
          intro steps' m'' value' rest allOk
          obtain ⟨clock', isSome, leaves⟩ := rest (List.forall_mem_append.mp allOk).2
          refine ⟨clock'.trans clock, isSome, ?_⟩
          intro k h sameHash
          rw [List.forall_mem_cons] at sameHash
          have leaves := leaves k h sameHash.2
          by_cases isKey : sessionKey session = k
          · subst isKey
            obtain rfl := sameHash.1 rfl
            rw [memory, Function.update_self] at leaves
            have unknown := Bool.eq_false_iff.mpr known
            rcases leaves with ⟨kept, -⟩ | ⟨-, ver', renewed⟩
            · exact .inr ⟨unknown, ver, kept⟩
            · exact .inr ⟨unknown, ver', renewed⟩
          · have otherKey : pushKey pc k ≠ pushKey pc (sessionKey session) :=
              fun same => isKey (pushKey_inj.mp same).symm
            rw [memory, Function.update_of_ne otherKey] at leaves
            rcases leaves with ⟨kept, relied⟩ | renewed
            · refine .inl ⟨kept, ?_⟩
              rintro ⟨y, mem, isKey'⟩
              rcases List.mem_cons.mp mem with rfl | later
              · exact absurd isKey' isKey
              · exact relied ⟨y, later, isKey'⟩
            · exact .inr renewed
        · intro choices allOk
          exact absurd (List.forall_mem_append.mp allOk).1 first

/-- A push that succeeds leaves so what it leaves in the memory. -/
theorem pushStatusFor_remembers (sessions : List (Fields α)) :
    (pushStatusFor server pc sessions).Ensures m fun steps m' value =>
      (∀ step ∈ steps, step.choice = .ok) → (∃ n, value = some n) ∧
        ∀ k h, (∀ y ∈ sessions, sessionKey y = k → contentHash server.digest y = h) →
          Leaves server m.clock h (∃ y ∈ sessions, sessionKey y = k) (m.memory (pushKey pc k))
            (m'.memory (pushKey pc k)) := by
  apply Prog.Ensures.op
  intro c
  refine pushRounds_remembers.andThen ?_
  intro steps m' value rounds
  by_cases first : ∀ step ∈ steps, step.choice = .ok
  · obtain ⟨-, ⟨n, rfl⟩, leaves⟩ := rounds first
    change Prog.Ensures (if 0 < n then _ else _) _ _
    split
    · apply Prog.Ensures.op
      intro c₁
      apply Prog.Ensures.op
      intro c₂
      exact .pure fun _ => ⟨⟨n, rfl⟩, leaves⟩
    · exact .pure fun _ => ⟨⟨n, rfl⟩, leaves⟩
  · intro choices allOk
    have both := (List.forall_mem_cons.mp allOk).2
    exact absurd (List.forall_mem_append.mp both).1 first

theorem Known.hash {session : Fields α} (known : Known server pc now m session) :
    (m.memory (pushKey pc (sessionKey session))).map PushEntry.hash =
      some (contentHash server.digest session) := by
  rw [Known, remembered, Option.any_eq_true] at known
  obtain ⟨e, entry, fits⟩ := known
  rw [Bool.and_eq_true, decide_eq_true_iff] at fits
  rw [entry, Option.map_some, fits.1]

theorem remembered_new {h : Bytes} {ver : Int64} {later : Nat}
    (soon : later < now + server.verifyEvery) :
    remembered server later h (some ⟨h, ver, now⟩) = true := by
  simp only [remembered, Option.any_some, decide_true, Bool.true_and, decide_eq_true_iff]
  omega

/-- After a push that succeeds, the sessions are known later if those of one key have one hash
and what it relied on is still known. -/
theorem known_later_iff (sessions : List (Fields α)) {later : Nat}
    (soon : later < m.clock + server.verifyEvery) :
    (pushStatusFor server pc sessions).Ensures m fun steps m' _ =>
      (∀ step ∈ steps, step.choice = .ok) →
        ((∀ x ∈ sessions, Known server pc later m' x) ↔
          OneHash server sessions ∧ StaysKnown server pc m later sessions) := by
  refine (pushStatusFor_remembers sessions).imp ?_
  intro steps m' value remembers allOk
  have leaves := (remembers allOk).2
  constructor
  · intro known
    have oneHash : OneHash server sessions := by
      intro x xMem y yMem sameKey
      have hash := (known x xMem).hash
      rw [sameKey, (known y yMem).hash] at hash
      exact (Option.some.inj hash).symm
    refine ⟨oneHash, ?_⟩
    intro x mem knownNow
    rcases leaves (sessionKey x) (contentHash server.digest x)
      (fun y yMem sameKey => oneHash y yMem x mem sameKey) with ⟨kept, -⟩ | ⟨unknown, -⟩
    · have knownLater := known x mem
      rwa [Known, kept] at knownLater
    · rw [Known, unknown] at knownNow
      cases knownNow
  · rintro ⟨oneHash, staysKnown⟩ x mem
    rcases leaves (sessionKey x) (contentHash server.digest x)
      (fun y yMem sameKey => oneHash y yMem x mem sameKey) with ⟨kept, relied⟩ | ⟨-, ver, renewed⟩
    · rw [Known, kept]
      exact staysKnown x mem (relied ⟨x, mem, rfl⟩)
    · rw [Known, renewed]
      exact remembered_new soon

end

/-- Pushing the list again, before `verifyEvery` has gone by, is free if sessions of one key
have one hash and what the first push relied on is not too old for the second. -/
theorem pushed_again_free (server : Server α) (pc : Bytes) (sessions : List (Fields α))
    (m : RelayMachine α) (later : Nat) (soon : later < m.clock + server.verifyEvery)
    (oneHash : OneHash server sessions) (staysKnown : StaysKnown server pc m later sessions) :
    (pushStatusFor server pc sessions).Ensures m fun steps m' _ =>
      (∀ step ∈ steps, step.choice = .ok) → Free server pc sessions { m' with clock := later } := by
  refine (known_later_iff sessions soon).imp ?_
  intro steps m' value known allOk
  exact (free_iff sessions).mpr ((known allOk).mpr ⟨oneHash, staysKnown⟩)

/-! ### Sample pushes -/

theorem samplePush_again_free :
    Free sampleServer (ascii "mac") [sampleSession (ascii "a")]
      { ((pushStatusFor sampleServer (ascii "mac") [sampleSession (ascii "a")]).run
          (fun _ => .ok) {}).1 with clock := 5000000000 } := by
  apply pushed_again_free sampleServer (ascii "mac") [sampleSession (ascii "a")] {} 5000000000
    (by decide)
  · intro x xMem y yMem _
    rw [List.mem_singleton.mp xMem, List.mem_singleton.mp yMem]
  · exact fun x _ known => absurd known (by simp [Known, remembered])
  · exact Prog.performed_const _ _ _

/-- A session that was verified nine minutes ago. -/
def rememberedStore : RelayMachine Unit where
  memory := Function.update (fun _ => none) (pushKey (ascii "mac") (ascii "a"))
    (some ⟨contentHash sampleServer.digest (sampleSession (ascii "a")), 1, 0⟩)
  clock := 9 * minute

/-- The sample session, of another status. -/
def busySession (key : Bytes) : Fields Unit :=
  Function.update (sampleSession key) (ascii "agent_status") (some (.string (ascii "busy")))

theorem free_later_iff {server : Server α} {pc : Bytes} {sessions : List (Fields α)}
    {m : RelayMachine α} {later : Nat} (soon : later < m.clock + server.verifyEvery) :
    Free server pc sessions
        { ((pushStatusFor server pc sessions).run (fun _ => .ok) m).1 with clock := later } ↔
      OneHash server sessions ∧ StaysKnown server pc m later sessions := by
  rw [free_iff]
  exact known_later_iff sessions soon _ (Prog.performed_const _ _ _)

/-- Three minutes later the first session is verified again; of the two others, each push
writes both. -/
theorem pushed_again_reads :
    ¬Free sampleServer (ascii "mac") [sampleSession (ascii "a")]
        { ((pushStatusFor sampleServer (ascii "mac") [sampleSession (ascii "a")]).run
            (fun _ => .ok) rememberedStore).1 with clock := 12 * minute } ∧
      ¬Free sampleServer (ascii "mac") [sampleSession (ascii "a"), busySession (ascii "a")]
        { ((pushStatusFor sampleServer (ascii "mac")
            [sampleSession (ascii "a"), busySession (ascii "a")]).run (fun _ => .ok) {}).1 with
          clock := 5000000000 } := by
  constructor
  · rw [free_later_iff (by decide)]
    rintro ⟨-, staysKnown⟩
    have known : Known sampleServer (ascii "mac") rememberedStore.clock rememberedStore
        (sampleSession (ascii "a")) := by decide +kernel
    have later := staysKnown _ List.mem_cons_self known
    exact absurd later (by decide +kernel)
  · rw [free_later_iff (by decide)]
    rintro ⟨oneHash, -⟩
    have same := oneHash (sampleSession (ascii "a")) (by simp) (busySession (ascii "a")) (by simp)
      (by decide +kernel)
    exact absurd same (by decide +kernel)

end Drover.Slave
