import Drover.Store.Program
import Mathlib.Data.List.Forall2

/-!
# Programs on documents of more kinds

A program that knows one kind of documents runs on a store that has others as well: it
sees every document as one of its own kind, and what it writes is made one of the store's.
What it does there is justified as it is among its own documents.
-/

namespace Drover.Store

variable {δ δ' ε η ρ : Type}

/-- How a program for the documents `δ` uses a store of the documents `δ'`. -/
structure View (δ δ' : Type) where
  view : δ' → δ
  make : δ → δ'

/-- A snapshot as the program sees it. -/
def View.snapshot (v : View δ δ') : Snapshot δ' → Snapshot δ
  | .failed => .failed
  | .absent => .absent
  | .found d => .found (v.view d)

/-- The documents of a listing as the program sees them. -/
def View.listing (v : View δ δ') (docs : List (Bytes × δ')) : List (Bytes × δ) :=
  docs.map fun p => (p.1, v.view p.2)

/-- A change that the program makes. -/
def View.change (v : View δ δ') (f : Option δ → Option δ) (old : Option δ') : Option δ' :=
  (f (old.map v.view)).map v.make

/-- The operation on the store. -/
def Op.lift (v : View δ δ') : Op δ ε η → Op δ' ε η
  | .get path => .get path
  | .list col => .list col
  | .write path f => .write path (v.change f)
  | .transact path target f => .transact path target fun snap => (f (v.snapshot snap)).map v.change
  | .lookup key => .lookup key
  | .remember key entry => .remember key entry
  | .forget keyPrefix => .forget keyPrefix
  | .now => .now
  | .emit output => .emit output

/-- What it brings back to the program. -/
def Op.seen (v : View δ δ') : (o : Op δ ε η) → (o.lift v).Result → o.Result
  | .get _, snap => v.snapshot snap
  | .list _, docs => docs.map v.listing
  | .write .., ok => ok
  | .transact .., (snap, ok) => (v.snapshot snap, ok)
  | .lookup _, entry => entry
  | .remember .., done => done
  | .forget _, done => done
  | .now, reading => reading
  | .emit _, done => done

/-- The program on the store. -/
def Prog.lift (v : View δ δ') : Prog δ ε η ρ → Prog δ' ε η ρ
  | .reply value => .reply value
  | .op o next => .op (o.lift v) fun result => (next (o.seen v result)).lift v

/-- What the program has done, on the store and as it sees it. -/
inductive Event.Seen (v : View δ δ') : Event δ ε η → Event δ' ε η → Prop
  | intro (time : Nat) (o : Op δ ε η) (result : (o.lift v).Result) :
      Seen v ⟨time, o, o.seen v result⟩ ⟨time, o.lift v, result⟩

theorem Event.Timed.seen {v : View δ δ'} {time : Nat} {o : Op δ ε η} {result : (o.lift v).Result}
    (timed : (⟨time, o.lift v, result⟩ : Event δ' ε η).Timed) :
    (⟨time, o, o.seen v result⟩ : Event δ ε η).Timed := by
  cases o with
  | now => exact timed
  | get | list | write | transact | lookup | remember | forget | emit => exact trivial

/-- On the store a program does what it is justified to do. -/
theorem Prog.Along.lift {v : View δ δ'} {p : Prog δ ε η ρ}
    {why : List (Event δ ε η) → Op δ ε η → Prop} {ends : List (Event δ ε η) → ρ → Prop}
    {past : List (Event δ ε η)} {past' : List (Event δ' ε η)} (along : p.Along why ends past)
    (same : List.Forall₂ (Event.Seen v) past past') :
    (p.lift v).Along
      (fun past' o' =>
        ∃ past o, List.Forall₂ (Event.Seen v) past past' ∧ o' = o.lift v ∧ why past o)
      (fun past' value => ∃ past, List.Forall₂ (Event.Seen v) past past' ∧ ends past value)
      past' := by
  induction p generalizing past past' with
  | reply value => exact ⟨past, same, along⟩
  | op o next ih =>
      refine ⟨⟨past, o, same, rfl, along.1⟩, fun time result timed => ?_⟩
      exact ih _ (along.2 time _ timed.seen) (.cons (.intro time o result) same)

end Drover.Store
