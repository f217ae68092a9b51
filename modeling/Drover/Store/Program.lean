import Drover.Store.Documents
import Mathlib.Logic.Function.Basic

/-!
# Programs over a store

A handler is a program of single operations: reads and writes of documents, whole
transactions, accesses to a memory that the calls of a process share, readings of
the clock and outputs.  `Along` says that every operation a program may perform
is justified by what it has performed before, and `Only` that it is one of a kind;
both are proved by following the program.  `perform` is one operation on a
machine, and the two theorems about it are what a program can change there and
what it can depend on.
-/

namespace Drover.Store

/-- An operation: `δ` are the documents, `ε` the entries of the memory and `η` the
outputs. -/
inductive Op (δ ε η : Type) where
  | get (path : Path)
  | list (col : Path)
  | write (path : Path) (change : Option δ → Option δ)
  /-- A transaction that reads a document and then writes one or not. -/
  | transact (path target : Path) (change : Snapshot δ → Option (Option δ → Option δ))
  | lookup (key : Bytes)
  /-- Set or delete an entry of the memory. -/
  | remember (key : Bytes) (entry : Option ε)
  /-- Delete the entries with a prefix. -/
  | forget (keyPrefix : Bytes)
  | now
  | emit (output : η)

variable {δ ε η ρ σ : Type}

/-- The document that a plain write changes. -/
def Op.written : Op δ ε η → Option Path
  | .write path _ => some path
  | _ => none

/-- The document that an operation may change. -/
def Op.target : Op δ ε η → Option Path
  | .write path _ | .transact _ path _ => some path
  | _ => none

/-- What an operation brings back; a write and a transaction say whether they
succeeded. -/
@[reducible]
def Op.Result : Op δ ε η → Type
  | .get _ => Snapshot δ
  | .list _ => Option (List (Bytes × δ))
  | .write .. => Bool
  | .transact .. => Snapshot δ × Bool
  | .lookup _ => Option ε
  | .remember .. | .forget _ | .emit _ => Unit
  | .now => Nat

/-- A program that ends with a value of `ρ`. -/
inductive Prog (δ ε η ρ : Type) where
  | reply (value : ρ)
  | op (o : Op δ ε η) (next : o.Result → Prog δ ε η ρ)

namespace Prog

/-- The second program runs with the result of the first. -/
def bind : Prog δ ε η ρ → (ρ → Prog δ ε η σ) → Prog δ ε η σ
  | .reply value, f => f value
  | .op o next, f => .op o fun result => (next result).bind f

instance : Monad (Prog δ ε η) where
  pure := .reply
  bind := bind

/-- Read one document. -/
def get (path : Path) : Prog δ ε η (Snapshot δ) := .op (.get path) .reply

/-- Read a collection. -/
def list (col : Path) : Prog δ ε η (Option (List (Bytes × δ))) := .op (.list col) .reply

/-- Write one document. -/
def write (path : Path) (change : Option δ → Option δ) : Prog δ ε η Bool :=
  .op (.write path change) .reply

/-- Read one document and write one in a transaction. -/
def transact (path target : Path) (change : Snapshot δ → Option (Option δ → Option δ)) :
    Prog δ ε η (Snapshot δ × Bool) :=
  .op (.transact path target change) .reply

/-- Read an entry of the memory. -/
def lookup (key : Bytes) : Prog δ ε η (Option ε) := .op (.lookup key) .reply

/-- Set or remove an entry of the memory. -/
def remember (key : Bytes) (entry : Option ε) : Prog δ ε η Unit :=
  .op (.remember key entry) .reply

/-- Remove the entries whose keys start so. -/
def forget (keyPrefix : Bytes) : Prog δ ε η Unit := .op (.forget keyPrefix) .reply

/-- Read the clock. -/
def now : Prog δ ε η Nat := .op .now .reply

/-- Send an output. -/
def emit (output : η) : Prog δ ε η Unit := .op (.emit output) .reply

theorem bind_assoc {τ : Type} (p : Prog δ ε η ρ) (f : ρ → Prog δ ε η σ) (g : σ → Prog δ ε η τ) :
    (p >>= f) >>= g = p >>= fun value => f value >>= g := by
  change (p.bind f).bind g = p.bind fun value => (f value).bind g
  induction p with
  | reply value => rfl
  | op o next ih =>
      rw [bind, bind, bind]
      exact congrArg (Prog.op o) (funext ih)

end Prog

/-! ## What a program may do -/

/-- An operation that was performed, with its result and its time. -/
structure Event (δ ε η : Type) where
  time : Nat
  op : Op δ ε η
  result : op.Result

/-- A reading of the clock gives the time. -/
def Event.Timed : Event δ ε η → Prop
  | ⟨time, .now, reading⟩ => reading = time
  | _ => True

namespace Prog

/-- After the events `past`, latest first, every operation of the program is
justified by the events before it, and so is its value. -/
def Along (may : List (Event δ ε η) → Op δ ε η → Prop) (ends : List (Event δ ε η) → ρ → Prop) :
    List (Event δ ε η) → Prog δ ε η ρ → Prop
  | past, .reply value => ends past value
  | past, .op o next =>
      may past o ∧ ∀ time result, (⟨time, o, result⟩ : Event δ ε η).Timed →
        Along may ends (⟨time, o, result⟩ :: past) (next result)

/-- Every operation of the program is of a kind. -/
def Only (may : Op δ ε η → Prop) : Prog δ ε η ρ → Prop
  | .reply _ => True
  | .op o next => may o ∧ ∀ result, (next result).Only may

variable {may may' : Op δ ε η → Prop} {p : Prog δ ε η ρ} {f : ρ → Prog δ ε η σ}

theorem Only.bind (first : p.Only may) (rest : ∀ value, (f value).Only may) :
    (p >>= f).Only may := by
  change (p.bind f).Only may
  induction p with
  | reply value => exact rest value
  | op o next ih => exact ⟨first.1, fun result => ih result (first.2 result)⟩

theorem Only.imp (weaken : ∀ o, may o → may' o) (only : p.Only may) : p.Only may' := by
  induction p with
  | reply value => exact trivial
  | op o next ih => exact ⟨weaken o only.1, fun result => ih result (only.2 result)⟩

/-- Every program is of no special kind. -/
theorem only_true (p : Prog δ ε η ρ) : p.Only fun _ => True := by
  induction p with
  | reply value => exact trivial
  | op o next ih => exact ⟨trivial, ih⟩

theorem Only.pure (value : ρ) : (Pure.pure value : Prog δ ε η ρ).Only may := trivial

theorem Only.op {o : Op δ ε η} (allowed : may o) : (Prog.op o .reply).Only may :=
  ⟨allowed, fun _ => trivial⟩

section

variable {past : List (Event δ ε η)} {why : List (Event δ ε η) → Op δ ε η → Prop}
  {ends : List (Event δ ε η) → ρ → Prop} {ends' : List (Event δ ε η) → σ → Prop}

theorem Along.bind (first : p.Along why (fun past value => (f value).Along why ends' past) past) :
    (p >>= f).Along why ends' past := by
  change (p.bind f).Along why ends' past
  induction p generalizing past with
  | reply value => exact first
  | op o next ih => exact ⟨first.1, fun time result timed => ih result (first.2 time result timed)⟩

theorem Along.imp {why' : List (Event δ ε η) → Op δ ε η → Prop}
    {ends' : List (Event δ ε η) → ρ → Prop} (weaken : ∀ past o, why past o → why' past o)
    (better : ∀ past value, ends past value → ends' past value) (along : p.Along why ends past) :
    p.Along why' ends' past := by
  induction p generalizing past with
  | reply value => exact better past value along
  | op o next ih =>
      exact ⟨weaken past o along.1, fun time result timed => ih result (along.2 time result timed)⟩

/-- What a program has done stays in front of what it does next. -/
theorem Along.suffix {start : List (Event δ ε η)} (suffix : start <:+ past)
    (along : p.Along why ends past) :
    p.Along (fun past o => start <:+ past ∧ why past o)
      (fun past value => start <:+ past ∧ ends past value) past := by
  induction p generalizing past with
  | reply value => exact ⟨suffix, along⟩
  | op o next ih =>
      exact ⟨⟨suffix, along.1⟩, fun time result timed =>
        ih result (suffix.trans (List.suffix_cons _ past)) (along.2 time result timed)⟩

/-- A program goes on from how its first part ends. -/
theorem Along.andThen (first : p.Along why ends past)
    (rest : ∀ past value, ends past value → (f value).Along why ends' past) :
    (p >>= f).Along why ends' past :=
  .bind (first.imp (fun _ _ allowed => allowed) rest)

theorem Along.now {f : Nat → Prog δ ε η σ} (allowed : why past .now)
    (next : ∀ time, (f time).Along why ends' (⟨time, .now, time⟩ :: past)) :
    (Prog.now >>= f).Along why ends' past := by
  refine ⟨allowed, fun time reading timed => ?_⟩
  cases timed
  exact next time

theorem Along.get {path : Path} {f : Snapshot δ → Prog δ ε η σ} (allowed : why past (.get path))
    (next : ∀ time snap, (f snap).Along why ends' (⟨time, .get path, snap⟩ :: past)) :
    (Prog.get path >>= f).Along why ends' past :=
  ⟨allowed, fun time snap _ => next time snap⟩

/-- A program whose operations are all of a kind that is always justified only has
to end well, whatever it has done. -/
theorem Only.along (only : p.Only may) (weaken : ∀ past o, may o → why past o)
    (end_ : ∀ past' value, past <:+ past' → ends past' value) : p.Along why ends past := by
  induction p generalizing past with
  | reply value => exact end_ past value List.suffix_rfl
  | op o next ih =>
      refine ⟨weaken past o only.1, fun time result _ => ih result (only.2 result) ?_⟩
      intro past' value suffix
      exact end_ past' value ((List.suffix_cons _ past).trans suffix)

end

end Prog

/-! ## Performing an operation -/

/-- A store, the memory of a process, the clock, and the outputs, latest first. -/
structure Machine (δ ε η : Type) where
  docs : Documents δ := ∅
  memory : Bytes → Option ε := fun _ => none
  clock : Nat := 0
  outputs : List η := []

/-- What the environment decides about an operation: whether a read succeeds and
how a write ends. -/
structure Choice where
  read : Bool
  write : Outcome
  deriving DecidableEq

/-- All goes well. -/
def Choice.ok : Choice := ⟨true, .ok⟩

namespace Machine

/-- The change that a transaction makes. -/
def transaction (m : Machine δ ε η) (choice : Choice) (path target : Path)
    (change : Snapshot δ → Option (Option δ → Option δ)) : Documents δ :=
  match change (readDocument m.docs choice.read path) with
  | none => m.docs
  | some change => changeDocument m.docs choice.write target change

/-- The machine after the operation. -/
def after (m : Machine δ ε η) (choice : Choice) : Op δ ε η → Machine δ ε η
  | .get _ | .list _ | .lookup _ | .now => m
  | .write path change => { m with docs := changeDocument m.docs choice.write path change }
  | .transact path target change => { m with docs := m.transaction choice path target change }
  | .remember key entry => { m with memory := Function.update m.memory key entry }
  | .forget keyPrefix =>
      { m with memory := fun key => if keyPrefix.isPrefixOf key then none else m.memory key }
  | .emit output => { m with outputs := output :: m.outputs }

/-- The result of the operation. -/
def result (m : Machine δ ε η) (choice : Choice) : (o : Op δ ε η) → o.Result
  | .get path => readDocument m.docs choice.read path
  | .list col => if choice.read then some (listDocuments m.docs col) else none
  | .write .. => choice.write = .ok
  | .transact path _ _ => (readDocument m.docs choice.read path, choice.write = .ok)
  | .lookup key => m.memory key
  | .remember .. | .forget _ | .emit _ => ()
  | .now => m.clock

theorem clock_after (m : Machine δ ε η) (choice : Choice) (o : Op δ ε η) :
    (m.after choice o).clock = m.clock := by
  cases o <;> rfl

/-- The operation with its result, as an event. -/
def event (m : Machine δ ε η) (choice : Choice) (o : Op δ ε η) : Event δ ε η :=
  ⟨m.clock, o, m.result choice o⟩

end Machine

/-- A program that runs alone on a machine, and its value. -/
def Prog.run : Prog δ ε η ρ → (Nat → Choice) → Machine δ ε η → Machine δ ε η × ρ
  | .reply value, _, m => (m, value)
  | .op o next, choices, m =>
      (next (m.result (choices 0) o)).run (fun n => choices (n + 1)) (m.after (choices 0) o)

/-- A program runs after another one. -/
theorem Prog.run_bind (choice : Choice) (p : Prog δ ε η ρ) (f : ρ → Prog δ ε η σ)
    (m : Machine δ ε η) :
    (p >>= f).run (fun _ => choice) m =
      (f (p.run (fun _ => choice) m).2).run (fun _ => choice) (p.run (fun _ => choice) m).1 := by
  change (p.bind f).run _ m = _
  induction p generalizing m with
  | reply value => rfl
  | op o next ih => exact ih (m.result choice o) (m.after choice o)

/-- A program that only looks leaves the machine as it is. -/
theorem Prog.Only.run_fst {p : Prog δ ε η ρ} {choices : Nat → Choice}
    (looks : p.Only fun o => ∀ (m : Machine δ ε η) choice, m.after choice o = m)
    (m : Machine δ ε η) : (p.run choices m).1 = m := by
  induction p generalizing choices m with
  | reply value => rfl
  | op o next ih =>
      rw [Prog.run, looks.1]
      exact ih _ (looks.2 _) m

/-! ## Regions -/

/-- The operation writes only documents of `own`, and touches only entries of
`keys`. -/
def Op.WritesIn (own : Path → Prop) (keys : Bytes → Prop) : Op δ ε η → Prop
  | .get _ | .list _ | .now | .emit _ => True
  | .write path _ => own path
  | .transact _ target _ => own target
  | .lookup key | .remember key _ => keys key
  | .forget keyPrefix => ∀ key, keyPrefix.isPrefixOf key → keys key

/-- The operation reads only documents of `seen`. -/
def Op.ReadsIn (seen : Path → Prop) : Op δ ε η → Prop
  | .get path => seen path
  | .list col => ∀ id, seen (docPath col id)
  | .transact path _ _ => seen path
  | .write .. | .lookup _ | .remember .. | .forget _ | .now | .emit _ => True

/-- The operation neither reads nor writes the document. -/
def Op.Spares (path : Path) (o : Op δ ε η) : Prop :=
  o.ReadsIn (· ≠ path) ∧ o.WritesIn (· ≠ path) fun _ => True

/-- The operation does not touch the entry. -/
def Op.SparesKey (key : Bytes) (o : Op δ ε η) : Prop := o.WritesIn (fun _ => True) (· ≠ key)

/-- The documents and entries outside are the same. -/
structure Machine.SameOutside (own : Path → Prop) (keys : Bytes → Prop)
    (m m' : Machine δ ε η) : Prop where
  docs : ∀ path, ¬ own path → m'.docs[path]? = m.docs[path]?
  memory : ∀ key, ¬ keys key → m'.memory key = m.memory key

/-- The documents and entries inside are the same, and so are the clock and the
outputs. -/
structure Machine.Agree (seen : Path → Prop) (keys : Bytes → Prop) (m m' : Machine δ ε η) :
    Prop where
  docs : ∀ path, seen path → m'.docs[path]? = m.docs[path]?
  memory : ∀ key, keys key → m'.memory key = m.memory key
  clock : m'.clock = m.clock
  outputs : m'.outputs = m.outputs

section

variable {own seen : Path → Prop} {keys : Bytes → Prop} {m m' : Machine δ ε η}

theorem Machine.SameOutside.refl (own : Path → Prop) (keys : Bytes → Prop) (m : Machine δ ε η) :
    m.SameOutside own keys m := ⟨fun _ _ => rfl, fun _ _ => rfl⟩

theorem Machine.SameOutside.trans {m'' : Machine δ ε η} (first : m.SameOutside own keys m')
    (rest : m'.SameOutside own keys m'') : m.SameOutside own keys m'' where
  docs path outside := (rest.docs path outside).trans (first.docs path outside)
  memory key outside := (rest.memory key outside).trans (first.memory key outside)

theorem Op.WritesIn.mono {own' : Path → Prop} {o : Op δ ε η}
    (wider : ∀ path, own path → own' path) (writes : o.WritesIn own keys) :
    o.WritesIn own' keys := by
  cases o with
  | write | transact => exact wider _ writes
  | get | list | lookup | remember | forget | now | emit => exact writes

/-- What an operation leaves alone. -/
theorem Op.WritesIn.after {o : Op δ ε η} (writes : o.WritesIn own keys) (choice : Choice) :
    m.SameOutside own keys (m.after choice o) := by
  cases o with
  | get | list | lookup | now | emit => exact ⟨fun _ _ => rfl, fun _ _ => rfl⟩
  | write path change =>
      refine ⟨fun path' outside => changeDocument_of_ne ?_, fun _ _ => rfl⟩
      rintro rfl
      exact outside writes
  | transact path target change =>
      refine ⟨fun path' outside => ?_, fun _ _ => rfl⟩
      change (m.transaction choice path target change)[path']? = _
      rw [Machine.transaction]
      split
      · rfl
      · apply changeDocument_of_ne
        rintro rfl
        exact outside writes
  | remember key entry =>
      refine ⟨fun _ _ => rfl, fun key' outside => Function.update_of_ne ?_ ..⟩
      rintro rfl
      exact outside writes
  | forget keyPrefix =>
      refine ⟨fun _ _ => rfl, fun key' outside => if_neg fun isPrefix => ?_⟩
      exact outside (writes key' isPrefix)

/-- On machines that agree, an operation has the same result and leaves them in
agreement. -/
theorem Machine.Agree.after (agree : m.Agree seen keys m') {o : Op δ ε η} (reads : o.ReadsIn seen)
    (writes : o.WritesIn seen keys) (choice : Choice) :
    m'.result choice o = m.result choice o ∧
      (m.after choice o).Agree seen keys (m'.after choice o) := by
  have read : ∀ path, seen path →
      readDocument m'.docs choice.read path = readDocument m.docs choice.read path :=
    fun path inside => readDocument_congr (agree.docs path inside) choice.read
  have change : ∀ (path : Path) (f : Option δ → Option δ) (path' : Path), seen path' →
      (changeDocument m'.docs choice.write path f)[path']? =
        (changeDocument m.docs choice.write path f)[path']? := by
    intro path f path' inside
    by_cases same : path' = path
    · rw [same] at inside ⊢
      rw [changeDocument_same, changeDocument_same, agree.docs path inside]
    · rw [changeDocument_of_ne same, changeDocument_of_ne same, agree.docs path' inside]
  cases o with
  | get path => exact ⟨read path reads, agree⟩
  | list col =>
      refine ⟨?_, agree⟩
      have same : listDocuments m'.docs col = listDocuments m.docs col :=
        listDocuments_congr fun id => agree.docs _ (reads id)
      simp only [Machine.result, same]
  | write path f => exact ⟨rfl, { agree with docs := change path f }⟩
  | transact path target f =>
      refine ⟨by simp only [Machine.result, read path reads], { agree with docs := ?_ }⟩
      intro path' inside
      change (m'.transaction choice path target f)[path']? =
        (m.transaction choice path target f)[path']?
      rw [Machine.transaction, Machine.transaction, read path reads]
      split
      · exact agree.docs path' inside
      · exact change target _ path' inside
  | lookup key => exact ⟨agree.memory key writes, agree⟩
  | remember key entry =>
      refine ⟨rfl, { agree with memory := fun key' inside => ?_ }⟩
      change Function.update m'.memory key entry key' = Function.update m.memory key entry key'
      by_cases same : key' = key
      · rw [same, Function.update_self, Function.update_self]
      · rw [Function.update_of_ne same, Function.update_of_ne same, agree.memory key' inside]
  | forget keyPrefix =>
      refine ⟨rfl, { agree with memory := fun key' inside => ?_ }⟩
      change (if _ then _ else _) = if _ then _ else _
      rw [agree.memory key' inside]
  | now => exact ⟨agree.clock, agree⟩
  | emit output => exact ⟨rfl, { agree with outputs := congrArg (output :: ·) agree.outputs }⟩

end

end Drover.Store
