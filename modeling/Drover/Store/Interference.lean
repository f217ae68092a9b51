import Drover.Store.Program

/-!
# Programs among others

What a program answers, and where it stores, when others act between its operations: each
operation meets a machine of its own, whose clock is not behind the one before.
-/

namespace Drover.Store

/-- The machines that the operations of a program meet, and what is decided about each. -/
structure Environment (δ ε η : Type) where
  machine : Nat → Machine δ ε η
  choice : Nat → Choice
  clock_le : ∀ n, (machine n).clock ≤ (machine (n + 1)).clock

variable {δ ε η ρ σ : Type}

namespace Environment

/-- What is left after so many operations. -/
def drop (env : Environment δ ε η) (k : Nat) : Environment δ ε η where
  machine n := env.machine (n + k)
  choice n := env.choice (n + k)
  clock_le n := by
    have le := env.clock_le (n + k)
    rwa [Nat.add_right_comm] at le

/-- The time before the operation `n`. -/
def clock (env : Environment δ ε η) (n : Nat) : Nat := (env.machine n).clock

/-- The document that a first read finds. -/
def readFirst (env : Environment δ ε η) (path : Path) : Snapshot δ :=
  readDocument (env.machine 0).docs (env.choice 0).read path

/-- What a first listing finds. -/
def listFirst (env : Environment δ ε η) (col : Path) : Option (List (Bytes × δ)) :=
  if (env.choice 0).read then some (listDocuments (env.machine 0).docs col) else none

theorem listFirst_eq_some {env : Environment δ ε η} {col : Path} {docs : List (Bytes × δ)}
    (listed : env.listFirst col = some docs) : docs = listDocuments (env.machine 0).docs col := by
  rw [listFirst] at listed
  split at listed
  · exact (Option.some.inj listed).symm
  · cases listed

@[simp]
theorem machine_drop (env : Environment δ ε η) (k n : Nat) :
    (env.drop k).machine n = env.machine (n + k) := rfl

@[simp]
theorem clock_drop (env : Environment δ ε η) (k n : Nat) :
    (env.drop k).clock n = env.clock (n + k) := rfl

@[simp]
theorem drop_drop (env : Environment δ ε η) (j k : Nat) :
    (env.drop j).drop k = env.drop (k + j) := by
  simp only [drop, Nat.add_assoc]

theorem clock_mono (env : Environment δ ε η) {m n : Nat} (le : m ≤ n) :
    env.clock m ≤ env.clock n := by
  induction le with
  | refl => exact Nat.le_refl _
  | step _ ih => exact Nat.le_trans ih (env.clock_le _)

theorem clock_zero_le {env : Environment δ ε η} {n e : Nat} (le : env.clock n ≤ e) :
    env.clock 0 ≤ e :=
  Nat.le_trans (env.clock_mono (Nat.zero_le n)) le

/-- The same machine at every operation. -/
def still (m : Machine δ ε η) : Environment δ ε η where
  machine _ := m
  choice _ := .ok
  clock_le _ := Nat.le_refl _

end Environment

namespace Prog

/-- What the program answers. -/
def answer : Prog δ ε η ρ → Environment δ ε η → ρ
  | .reply value, _ => value
  | .op o next, env => (next ((env.machine 0).result (env.choice 0) o)).answer (env.drop 1)

/-- How many operations the program has performed then. -/
def performs : Prog δ ε η ρ → Environment δ ε η → Nat
  | .reply _, _ => 0
  | .op o next, env => (next ((env.machine 0).result (env.choice 0) o)).performs (env.drop 1) + 1

theorem answer_get (path : Path) (f : Snapshot δ → Prog δ ε η ρ) (env : Environment δ ε η) :
    (Prog.get path >>= f).answer env = (f (env.readFirst path)).answer (env.drop 1) := rfl

theorem answer_list (col : Path) (f : Option (List (Bytes × δ)) → Prog δ ε η ρ)
    (env : Environment δ ε η) :
    (Prog.list col >>= f).answer env = (f (env.listFirst col)).answer (env.drop 1) := rfl

theorem answer_now (f : Nat → Prog δ ε η ρ) (env : Environment δ ε η) :
    (Prog.now >>= f).answer env = (f (env.clock 0)).answer (env.drop 1) := rfl

theorem answer_bind (p : Prog δ ε η ρ) (f : ρ → Prog δ ε η σ) (env : Environment δ ε η) :
    (p >>= f).answer env = (f (p.answer env)).answer (env.drop (p.performs env)) := by
  change (p.bind f).answer env = _
  induction p generalizing env with
  | reply value => rfl
  | op o next ih => exact ih _ _

end Prog

/-! ## What is stored -/

/-- The operation changes its document. -/
def Machine.takesEffect (m : Machine δ ε η) (choice : Choice) : Op δ ε η → Bool
  | .write .. => choice.write.applied
  | .transact path _ change =>
      (change (readDocument m.docs choice.read path)).isSome && choice.write.applied
  | _ => false

/-- The environments tell the same, as far as the documents of `seen` are read. -/
structure Environment.Alike (seen : Path → Prop) (env env' : Environment δ ε η) : Prop where
  choice : ∀ n, env'.choice n = env.choice n
  docs : ∀ n path, seen path → (env'.machine n).docs[path]? = (env.machine n).docs[path]?
  memory : ∀ n, (env'.machine n).memory = (env.machine n).memory
  clock : ∀ n, env'.clock n = env.clock n

theorem Op.ReadsIn.mono {seen seen' : Path → Prop} {o : Op δ ε η}
    (wider : ∀ path, seen path → seen' path) (reads : o.ReadsIn seen) : o.ReadsIn seen' := by
  cases o with
  | get path | transact path => exact wider path reads
  | list col => exact fun id => wider _ (reads id)
  | write | lookup | remember | forget | now | emit => exact trivial

theorem Op.readsIn_of_forall {seen : Path → Prop} (all : ∀ path, seen path) (o : Op δ ε η) :
    o.ReadsIn seen := by
  cases o with
  | get path | transact path => exact all path
  | list col => exact fun id => all _
  | write | lookup | remember | forget | now | emit => exact trivial

namespace Prog

/-- Where the program stores, and whether that takes effect. -/
def stores : Prog δ ε η ρ → Environment δ ε η → List (Path × Bool)
  | .reply _, _ => []
  | .op o next, env =>
      (o.target.map fun path => (path, (env.machine 0).takesEffect (env.choice 0) o)).toList ++
        (next ((env.machine 0).result (env.choice 0) o)).stores (env.drop 1)

theorem stores_bind (p : Prog δ ε η ρ) (f : ρ → Prog δ ε η σ) (env : Environment δ ε η) :
    (p >>= f).stores env =
      p.stores env ++ (f (p.answer env)).stores (env.drop (p.performs env)) := by
  change (p.bind f).stores env = _
  induction p generalizing env with
  | reply value => rfl
  | op o next ih =>
      rw [bind, stores, stores, List.append_assoc, ih]
      rfl

/-- A program that only looks stores nowhere. -/
theorem Only.stores_eq_nil {p : Prog δ ε η ρ} (looks : p.Only fun o => o.target = none)
    (env : Environment δ ε η) : p.stores env = [] := by
  induction p generalizing env with
  | reply value => rfl
  | op o next ih =>
      rw [stores, looks.1, ih _ (looks.2 _)]
      rfl

/-- After a program that only looks the rest goes on in what is left. -/
theorem Only.bind_looks {p : Prog δ ε η ρ} (looks : p.Only fun o => o.target = none)
    (f : ρ → Prog δ ε η σ) (env : Environment δ ε η) :
    ∃ k, (p >>= f).answer env = (f (p.answer env)).answer (env.drop k) ∧
      (p >>= f).stores env = (f (p.answer env)).stores (env.drop k) := by
  refine ⟨p.performs env, answer_bind p f env, ?_⟩
  rw [stores_bind, looks.stores_eq_nil, List.nil_append]

/-- A program does the same in environments that are alike for what it reads. -/
theorem Only.alike {seen : Path → Prop} {p : Prog δ ε η ρ} {env env' : Environment δ ε η}
    (reads : p.Only fun o => o.ReadsIn seen) (alike : env.Alike seen env') :
    p.answer env' = p.answer env ∧ p.stores env' = p.stores env := by
  induction p generalizing env env' with
  | reply value => exact ⟨rfl, rfl⟩
  | op o next ih =>
      have choice := alike.choice 0
      have read (path : Path) (inside : seen path) (ok : Bool) :
          readDocument (env'.machine 0).docs ok path = readDocument (env.machine 0).docs ok path :=
        readDocument_congr (alike.docs 0 path inside) ok
      have result : (env'.machine 0).result (env'.choice 0) o =
          (env.machine 0).result (env.choice 0) o := by
        rw [choice]
        cases o with
        | get path => exact read path reads.1 _
        | list col =>
            simp only [Machine.result]
            rw [listDocuments_congr fun id => alike.docs 0 _ (reads.1 id)]
        | transact path target change =>
            simp only [Machine.result]
            rw [read path reads.1]
        | lookup key => exact congrFun (alike.memory 0) key
        | now => exact alike.clock 0
        | write | remember | forget | emit => rfl
      have effect : (env'.machine 0).takesEffect (env'.choice 0) o =
          (env.machine 0).takesEffect (env.choice 0) o := by
        rw [choice]
        cases o with
        | transact path target change =>
            simp only [Machine.takesEffect]
            rw [read path reads.1]
        | get | list | write | lookup | remember | forget | now | emit => rfl
      have rest : (env.drop 1).Alike seen (env'.drop 1) :=
        ⟨fun n => alike.choice _, fun n => alike.docs _, fun n => alike.memory _,
          fun n => alike.clock _⟩
      obtain ⟨sameAnswer, sameStores⟩ := ih _ (reads.2 _) rest
      rw [answer, answer, stores, stores, result, effect]
      exact ⟨sameAnswer, congrArg _ sameStores⟩

end Prog

end Drover.Store
