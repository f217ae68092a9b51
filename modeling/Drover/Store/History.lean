import Drover.Store.Program

/-!
# Histories of a store

A program that runs alone on a machine whose reads succeed and whose writes end in
given ways, with the documents that it finds before each of its operations.  `count`
says how often two successive ones stand in a relation.
-/

namespace Drover.Store

variable {δ ε η ρ σ : Type}

/-- The operation may change a document. -/
def Op.stores : Op δ ε η → Bool
  | .write .. | .transact .. => true
  | _ => false

/-- A machine, how the writes to come will end, and the documents before each
operation, latest first. -/
structure Stage (δ ε η : Type) where
  machine : Machine δ ε η := {}
  outcomes : Nat → Outcome := fun _ => .ok
  past : List (Documents δ) := []

namespace Stage

/-- What the environment decides on the next operation: a read succeeds. -/
def choice (s : Stage δ ε η) : Choice := ⟨true, s.outcomes 0⟩

/-- The stage after the operation. -/
def after (s : Stage δ ε η) (o : Op δ ε η) : Stage δ ε η where
  machine := s.machine.after s.choice o
  outcomes := if o.stores then fun n => s.outcomes (n + 1) else s.outcomes
  past := s.machine.docs :: s.past

end Stage

/-- How often a list of documents, latest first, changes so. -/
def countChanges (changed : Documents δ → Documents δ → Bool) : List (Documents δ) → Nat
  | new :: old :: past =>
      (if changed old new then 1 else 0) + countChanges changed (old :: past)
  | _ => 0

/-- How often the documents have changed so. -/
def Stage.count (changed : Documents δ → Documents δ → Bool) (s : Stage δ ε η) : Nat :=
  countChanges changed (s.machine.docs :: s.past)

/-- The program runs from the stage on. -/
def Prog.runOn : Prog δ ε η ρ → Stage δ ε η → Stage δ ε η × ρ
  | .reply value, s => (s, value)
  | .op o next, s => (next (s.machine.result s.choice o)).runOn (s.after o)

variable {changed : Documents δ → Documents δ → Bool} {s : Stage δ ε η}

theorem Stage.count_after (s : Stage δ ε η) (o : Op δ ε η) :
    (s.after o).count changed =
      (if changed s.machine.docs (s.after o).machine.docs then 1 else 0) + s.count changed :=
  rfl

@[simp]
theorem Stage.machine_after (s : Stage δ ε η) (o : Op δ ε η) :
    (s.after o).machine = s.machine.after s.choice o :=
  rfl

@[simp]
theorem Stage.outcomes_after (s : Stage δ ε η) (o : Op δ ε η) :
    (s.after o).outcomes = if o.stores then fun n => s.outcomes (n + 1) else s.outcomes :=
  rfl

namespace Prog

theorem runOn_bind (p : Prog δ ε η ρ) (f : ρ → Prog δ ε η σ) (s : Stage δ ε η) :
    (p >>= f).runOn s = (f (p.runOn s).2).runOn (p.runOn s).1 := by
  change (p.bind f).runOn s = _
  induction p generalizing s with
  | reply value => rfl
  | op o next ih => exact ih (s.machine.result s.choice o) (s.after o)

theorem runOn_pure (value : ρ) (s : Stage δ ε η) :
    (pure value : Prog δ ε η ρ).runOn s = (s, value) :=
  rfl

theorem runOn_get (path : Path) (s : Stage δ ε η) :
    (Prog.get path).runOn s = (s.after (.get path), readDocument s.machine.docs true path) :=
  rfl

theorem runOn_list (col : Path) (s : Stage δ ε η) :
    (Prog.list col).runOn s = (s.after (.list col), some (listDocuments s.machine.docs col)) :=
  rfl

theorem runOn_write (path : Path) (change : Option δ → Option δ) (s : Stage δ ε η) :
    (Prog.write path change).runOn s =
      (s.after (.write path change), decide (s.outcomes 0 = .ok)) :=
  rfl

theorem runOn_lookup (key : Bytes) (s : Stage δ ε η) :
    (Prog.lookup key).runOn s = (s.after (.lookup key), s.machine.memory key) :=
  rfl

theorem runOn_remember (key : Bytes) (entry : Option ε) (s : Stage δ ε η) :
    (Prog.remember key entry).runOn s = (s.after (.remember key entry), ()) :=
  rfl

theorem runOn_now (s : Stage δ ε η) : Prog.now.runOn s = (s.after .now, s.machine.clock) :=
  rfl

theorem runOn_emit (output : η) (s : Stage δ ε η) :
    (Prog.emit output).runOn s = (s.after (.emit output), ()) :=
  rfl

end Prog

end Drover.Store
