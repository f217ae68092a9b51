import Drover.Store.Program
import Drover.Transition.Run

/-!
# Calls of handlers

A process serves any number of calls at a time.  A call runs the program of its
handler, and the operations of the calls interleave in any order; other programs
may write to the store in between.  A call keeps what it has done, latest first.

A property of every operation of every handler becomes one of whole runs in three
ways: what no call may write stays as it is; two runs that can only see the same go
the same way; and a document that was found was written by a call that had reason
to do so.
-/

namespace Drover.Store

open Drover.Transition

variable {ι δ ε η ρ : Type}

/-- A call: what it was called with, what it has done, and what is left. -/
structure Call (ι δ ε η ρ : Type) where
  input : ι
  past : List (Event δ ε η)
  program : Prog δ ε η ρ

/-- A machine and the calls on it. -/
structure State (ι δ ε η ρ : Type) where
  machine : Machine δ ε η := {}
  calls : Nat → Option (Call ι δ ε η ρ) := fun _ => none

/-- What can happen next. -/
inductive Label (ι δ : Type) where
  /-- Time goes on. -/
  | tick (now : Nat)
  /-- Another program writes or deletes a document. -/
  | external (path : Path) (doc : Option δ)
  | begin (r : Nat) (input : ι)
  | advance (r : Nat) (choice : Choice)

namespace State

/-- The call `r` goes on as `c`. -/
def setCall (s : State ι δ ε η ρ) (r : Nat) (c : Call ι δ ε η ρ) : State ι δ ε η ρ :=
  { s with calls := Function.update s.calls r (some c) }

/-- A call performs its next operation. -/
def perform (s : State ι δ ε η ρ) (r : Nat) (c : Call ι δ ε η ρ) (choice : Choice) (o : Op δ ε η)
    (next : o.Result → Prog δ ε η ρ) : State ι δ ε η ρ :=
  { s with machine := s.machine.after choice o }.setCall r
    { c with
      past := s.machine.event choice o :: c.past
      program := next (s.machine.result choice o) }

/-- What a call has answered. -/
def answer (s : State ι δ ε η ρ) (r : Nat) : Option ρ :=
  match s.calls r with
  | some ⟨_, _, .reply value⟩ => some value
  | _ => none

end State

/-- One step, for the handler of each input. -/
def step (handler : ι → Prog δ ε η ρ) : Step (State ι δ ε η ρ) (Label ι δ)
  | s, .tick now =>
      if s.machine.clock ≤ now then some { s with machine := { s.machine with clock := now } }
      else none
  | s, .external path doc =>
      some { s with
        machine := { s.machine with docs := changeDocument s.machine.docs .ok path fun _ => doc } }
  | s, .begin r input =>
      match s.calls r with
      | none => some (s.setCall r ⟨input, [], handler input⟩)
      | some _ => none
  | s, .advance r choice =>
      match s.calls r with
      | some c =>
          match c.program with
          | .op o next => some (s.perform r c choice o next)
          | .reply _ => none
      | none => none

/-- The branches of a step. -/
inductive Stepped (handler : ι → Prog δ ε η ρ) (s : State ι δ ε η ρ) :
    Label ι δ → State ι δ ε η ρ → Prop
  | tick {now : Nat} (later : s.machine.clock ≤ now) :
      Stepped handler s (.tick now) { s with machine := { s.machine with clock := now } }
  | external (path : Path) (doc : Option δ) :
      Stepped handler s (.external path doc)
        { s with
          machine := { s.machine with
            docs := changeDocument s.machine.docs .ok path fun _ => doc } }
  | begin {r : Nat} (input : ι) (unused : s.calls r = none) :
      Stepped handler s (.begin r input) (s.setCall r ⟨input, [], handler input⟩)
  | advance {r : Nat} {c : Call ι δ ε η ρ} {o : Op δ ε η} {next : o.Result → Prog δ ε η ρ}
      (choice : Choice) (running : s.calls r = some c) (isOp : c.program = .op o next) :
      Stepped handler s (.advance r choice) (s.perform r c choice o next)

section

variable {handler : ι → Prog δ ε η ρ} {s s' : State ι δ ε η ρ} {label : Label ι δ}

theorem stepped_of_step (taken : step handler s label = some s') : Stepped handler s label s' := by
  cases label with
  | tick now =>
      simp only [step] at taken
      split at taken
      · rename_i later
        cases taken
        exact .tick later
      · cases taken
  | external path doc =>
      cases taken
      exact .external path doc
  | begin r input =>
      simp only [step] at taken
      split at taken
      · rename_i unused
        cases taken
        exact .begin input unused
      · cases taken
  | advance r choice =>
      simp only [step] at taken
      split at taken
      · rename_i c running
        split at taken
        · rename_i o next isOp
          cases taken
          exact .advance choice running isOp
        · cases taken
      · cases taken

theorem step_advance {r : Nat} {c : Call ι δ ε η ρ} {o : Op δ ε η}
    {next : o.Result → Prog δ ε η ρ} {choice : Choice} (running : s.calls r = some c)
    (isOp : c.program = .op o next) :
    step handler s (.advance r choice) = some (s.perform r c choice o next) := by
  simp only [step, running]
  split
  · rename_i o' next' isOp'
    cases isOp.symm.trans isOp'
    rfl
  · rename_i value isReply
    cases isOp.symm.trans isReply

theorem State.calls_setCall (s : State ι δ ε η ρ) (r : Nat) (c : Call ι δ ε η ρ) :
    (s.setCall r c).calls = Function.update s.calls r (some c) := rfl

theorem State.answer_eq_some_iff {r : Nat} {value : ρ} :
    s.answer r = some value ↔ ∃ c, s.calls r = some c ∧ c.program = .reply value := by
  rw [State.answer]
  constructor
  · intro answered
    split at answered
    · rename_i input past value' running
      cases answered
      exact ⟨_, running, rfl⟩
    · cases answered
  · rintro ⟨⟨input, past, program⟩, running, rfl⟩
    rw [running]

/-- A call after a step was there before, has just begun, or has gone on. -/
theorem calls_of_step {r : Nat} {c' : Call ι δ ε η ρ} (taken : step handler s label = some s')
    (found : s'.calls r = some c') :
    s.calls r = some c' ∨
      (∃ input, label = .begin r input ∧ s.calls r = none ∧ c' = ⟨input, [], handler input⟩) ∨
      ∃ c choice o next, label = .advance r choice ∧ s.calls r = some c ∧ c.program = .op o next ∧
        s' = s.perform r c choice o next ∧
        c' = ⟨c.input, s.machine.event choice o :: c.past, next (s.machine.result choice o)⟩ := by
  cases stepped_of_step taken with
  | tick later => exact .inl found
  | external path doc => exact .inl found
  | @begin r' input unused =>
      rw [State.calls_setCall] at found
      by_cases same : r = r'
      · subst same
        rw [Function.update_self] at found
        cases found
        exact .inr (.inl ⟨input, rfl, unused, rfl⟩)
      · rw [Function.update_of_ne same] at found
        exact .inl found
  | @advance r' c o next choice running isOp =>
      rw [State.perform, State.calls_setCall] at found
      by_cases same : r = r'
      · subst same
        rw [Function.update_self] at found
        cases found
        exact .inr (.inr ⟨c, choice, o, next, rfl, running, isOp, rfl, rfl⟩)
      · rw [Function.update_of_ne same] at found
        exact .inl found

/-- A call that has answered stays as it is. -/
theorem calls_of_answered {r : Nat} {input : ι} {past : List (Event δ ε η)} {value : ρ}
    (answered : s.calls r = some ⟨input, past, .reply value⟩)
    (taken : step handler s label = some s') :
    s'.calls r = some ⟨input, past, .reply value⟩ := by
  cases stepped_of_step taken with
  | tick | external => exact answered
  | @begin r' input' unused =>
      have other : r ≠ r' := fun same => by rw [same, unused] at answered; cases answered
      rw [State.calls_setCall, Function.update_of_ne other, answered]
  | @advance r' c o next choice running isOp =>
      have other : r ≠ r' := fun same => by
        rw [same, running] at answered
        cases answered
        cases isOp
      rw [State.perform, State.calls_setCall, Function.update_of_ne other, answered]

/-- A call that is never begun is never there. -/
theorem calls_eq_none_of_exec {labels : List (Label ι δ)} {r : Nat} (unused : s.calls r = none)
    (never : ∀ label ∈ labels, ∀ input, label ≠ .begin r input)
    (run : exec (step handler) s labels = some s') : s'.calls r = none := by
  induction labels generalizing s with
  | nil =>
      cases run
      exact unused
  | cons label rest ih =>
      rw [List.forall_mem_cons] at never
      obtain ⟨middle, taken, run⟩ := (exec_cons_eq_some_iff ..).mp run
      refine ih ?_ never.2 run
      by_contra used
      obtain ⟨c', found⟩ := Option.ne_none_iff_exists'.mp used
      rcases calls_of_step taken found with
        old | ⟨input, isBegin, -⟩ | ⟨c, choice, o, next, -, running, -⟩
      · cases unused.symm.trans old
      · exact never.1 input isBegin
      · cases unused.symm.trans running

end

/-! ## What the calls do -/

theorem Machine.timed_event (m : Machine δ ε η) (choice : Choice) (o : Op δ ε η) :
    (m.event choice o).Timed := by
  cases o with
  | now => exact rfl
  | get | list | write | transact | lookup | remember | forget | emit => exact trivial

section

variable {handler : ι → Prog δ ε η ρ} {s s' : State ι δ ε η ρ} {labels : List (Label ι δ)}

/-- The label begins no call but with an input of a kind, and is no external write. -/
def Label.Begins (ok : ι → Prop) : Label ι δ → Prop
  | .tick _ | .advance .. => True
  | .external .. => False
  | .begin _ input => ok input

instance (ok : ι → Prop) [DecidablePred ok] : DecidablePred (Label.Begins (δ := δ) ok)
  | .tick _ | .advance .. => isTrue trivial
  | .external .. => isFalse id
  | .begin _ input => inferInstanceAs (Decidable (ok input))

/-- Every call on the way was called with an input of a kind, and what is left of
it does only operations of a kind. -/
def State.Calls (ok : ι → Prop) (may : ι → Op δ ε η → Prop) (s : State ι δ ε η ρ) : Prop :=
  ∀ r c, s.calls r = some c → ok c.input ∧ c.program.Only (may c.input)

theorem Label.Begins.input {ok : ι → Prop} {label : Label ι δ} (begins : label.Begins ok) (r : Nat)
    (input : ι) (isBegin : label = .begin r input) : ok input := by
  cases isBegin
  exact begins

theorem State.Calls.step {ok : ι → Prop} {may : ι → Op δ ε η → Prop}
    (each : ∀ input, ok input → (handler input).Only (may input)) (calls : s.Calls ok may)
    {label : Label ι δ} (begins : ∀ r input, label = .begin r input → ok input)
    (taken : step handler s label = some s') : s'.Calls ok may := by
  intro r c found
  rcases calls_of_step taken found with
    old | ⟨input, isBegin, -, rfl⟩ | ⟨c, choice, o, next, -, running, isOp, -, rfl⟩
  · exact calls r c old
  · have isOk := begins r input isBegin
    exact ⟨isOk, each input isOk⟩
  · obtain ⟨isOk, only⟩ := calls r c running
    rw [isOp] at only
    exact ⟨isOk, only.2 _⟩

/-- What is left of every call is justified by what it has done, and so is its answer. -/
def State.Follows (why : ι → List (Event δ ε η) → Op δ ε η → Prop)
    (ends : ι → List (Event δ ε η) → ρ → Prop) (s : State ι δ ε η ρ) : Prop :=
  ∀ r c, s.calls r = some c → c.program.Along (why c.input) (ends c.input) c.past

section

variable {why : ι → List (Event δ ε η) → Op δ ε η → Prop}
  {ends : ι → List (Event δ ε η) → ρ → Prop}

theorem State.Follows.step {label : Label ι δ}
    (each : ∀ r input, label = .begin r input → (handler input).Along (why input) (ends input) [])
    (follows : s.Follows why ends) (taken : step handler s label = some s') :
    s'.Follows why ends := by
  intro r c found
  rcases calls_of_step taken found with
    old | ⟨input, isBegin, -, rfl⟩ | ⟨c, choice, o, next, -, running, isOp, -, rfl⟩
  · exact follows r c old
  · exact each r input isBegin
  · have along := follows r c running
    rw [isOp] at along
    exact along.2 _ _ (s.machine.timed_event choice o)

theorem State.Follows.answer {r : Nat} {value : ρ} (follows : s.Follows why ends)
    (answered : s.answer r = some value) :
    ∃ c, s.calls r = some c ∧ c.program = .reply value ∧ ends c.input c.past value := by
  obtain ⟨c, running, isReply⟩ := State.answer_eq_some_iff.mp answered
  have along := follows r c running
  rw [isReply] at along
  exact ⟨c, running, isReply, along⟩

end

/-- Every one of the events, latest first, was justified by those before it. -/
def Accounted (why : List (Event δ ε η) → Op δ ε η → Prop) : List (Event δ ε η) → Prop
  | [] => True
  | e :: before => why before e.op ∧ e.Timed ∧ Accounted why before

theorem Accounted.of_mem {may : Op δ ε η → Prop} {past : List (Event δ ε η)}
    (accounted : Accounted (fun _ => may) past) {e : Event δ ε η} (mem : e ∈ past) : may e.op := by
  induction past with
  | nil => cases mem
  | cons first before ih =>
      rcases List.mem_cons.mp mem with rfl | earlier
      · exact accounted.1
      · exact ih accounted.2.2 earlier

/-- What every call has done was justified, and so are what is left of it and its answer. -/
def State.Accounts (why : ι → List (Event δ ε η) → Op δ ε η → Prop)
    (ends : ι → List (Event δ ε η) → ρ → Prop) (s : State ι δ ε η ρ) : Prop :=
  ∀ r c, s.calls r = some c →
    Accounted (why c.input) c.past ∧ c.program.Along (why c.input) (ends c.input) c.past

theorem State.Accounts.step {why : ι → List (Event δ ε η) → Op δ ε η → Prop}
    {ends : ι → List (Event δ ε η) → ρ → Prop} {label : Label ι δ}
    (each : ∀ r input, label = .begin r input → (handler input).Along (why input) (ends input) [])
    (accounts : s.Accounts why ends) (taken : step handler s label = some s') :
    s'.Accounts why ends := by
  intro r c found
  rcases calls_of_step taken found with
    old | ⟨input, isBegin, -, rfl⟩ | ⟨c, choice, o, next, -, running, isOp, -, rfl⟩
  · exact accounts r c old
  · exact ⟨trivial, each r input isBegin⟩
  · obtain ⟨accounted, along⟩ := accounts r c running
    rw [isOp] at along
    have timed := s.machine.timed_event choice o
    exact ⟨⟨along.1, timed, accounted⟩, along.2 _ _ timed⟩

/-- Nothing was done later than now. -/
def State.Dated (s : State ι δ ε η ρ) : Prop :=
  ∀ r c, s.calls r = some c → ∀ e ∈ c.past, e.time ≤ s.machine.clock

theorem clock_le_of_step {label : Label ι δ} (taken : step handler s label = some s') :
    s.machine.clock ≤ s'.machine.clock := by
  cases stepped_of_step taken with
  | tick later => exact later
  | external | begin => exact Nat.le_refl _
  | @advance r c o next choice running isOp =>
      exact Nat.le_of_eq (s.machine.clock_after choice o).symm

theorem State.Dated.step {label : Label ι δ} (dated : s.Dated)
    (taken : step handler s label = some s') : s'.Dated := by
  intro r c found e mem
  have later := clock_le_of_step taken
  rcases calls_of_step taken found with
    old | ⟨input, -, -, rfl⟩ | ⟨c, choice, o, next, -, running, -, rfl, rfl⟩
  · exact Nat.le_trans (dated r c old e mem) later
  · cases mem
  · rcases List.mem_cons.mp mem with rfl | mem
    · exact Nat.le_of_eq (s.machine.clock_after choice o).symm
    · exact Nat.le_trans (dated r c running e mem) later

/-- Calls that write only inside leave what is outside alone. -/
theorem sameOutside_of_exec {ok : ι → Prop} {own : Path → Prop} {keys : Bytes → Prop}
    (each : ∀ input, ok input → (handler input).Only (Op.WritesIn own keys))
    (calls : s.Calls ok fun _ => Op.WritesIn own keys) (begins : ∀ label ∈ labels, label.Begins ok)
    (run : exec (step handler) s labels = some s') :
    s.machine.SameOutside own keys s'.machine := by
  induction labels generalizing s with
  | nil =>
      cases run
      exact .refl own keys _
  | cons label rest ih =>
      rw [List.forall_mem_cons] at begins
      obtain ⟨middle, taken, run⟩ := (exec_cons_eq_some_iff ..).mp run
      have rest := ih (calls.step each begins.1.input taken) begins.2 run
      apply Machine.SameOutside.trans _ rest
      cases stepped_of_step taken with
      | tick later => exact ⟨fun _ _ => rfl, fun _ _ => rfl⟩
      | external path doc => exact begins.1.elim
      | begin input unused => exact .refl own keys _
      | @advance r c o next choice running isOp =>
          have writes := (calls r c running).2
          rw [isOp] at writes
          exact writes.1.after choice

/-- Two runs that read and write only what is the same for both go the same way. -/
theorem exec_agree {ok : ι → Prop} {seen : Path → Prop} {keys : Bytes → Prop}
    {t : State ι δ ε η ρ}
    (each : ∀ input, ok input →
      (handler input).Only fun o => o.ReadsIn seen ∧ o.WritesIn seen keys)
    (calls : s.Calls ok fun _ o => o.ReadsIn seen ∧ o.WritesIn seen keys)
    (begins : ∀ label ∈ labels, label.Begins ok)
    (run : exec (step handler) s labels = some s') (sameCalls : t.calls = s.calls)
    (agree : s.machine.Agree seen keys t.machine) :
    ∃ t', exec (step handler) t labels = some t' ∧ t'.calls = s'.calls ∧
      s'.machine.Agree seen keys t'.machine := by
  induction labels generalizing s t with
  | nil =>
      cases run
      exact ⟨t, rfl, sameCalls, agree⟩
  | cons label rest ih =>
      rw [List.forall_mem_cons] at begins
      obtain ⟨middle, taken, run⟩ := (exec_cons_eq_some_iff ..).mp run
      suffices next : ∃ middle', step handler t label = some middle' ∧
          middle'.calls = middle.calls ∧ middle.machine.Agree seen keys middle'.machine by
        obtain ⟨middle', taken', sameCalls, agree⟩ := next
        obtain ⟨t', run', sameCalls, agree⟩ :=
          ih (calls.step each begins.1.input taken) begins.2 run sameCalls agree
        exact ⟨t', (exec_cons_eq_some_iff ..).mpr ⟨middle', taken', run'⟩, sameCalls, agree⟩
      cases stepped_of_step taken with
      | @tick now later =>
          refine ⟨{ t with machine := { t.machine with clock := now } }, ?_, sameCalls,
            { agree with clock := rfl }⟩
          rw [step, if_pos (agree.clock ▸ later)]
      | external path doc => exact begins.1.elim
      | @begin r input unused =>
          refine ⟨t.setCall r ⟨input, [], handler input⟩, ?_, ?_, agree⟩
          · simp only [step, sameCalls, unused]
          · rw [State.calls_setCall, State.calls_setCall, sameCalls]
      | @advance r c o next choice running isOp =>
          have only := (calls r c running).2
          rw [isOp] at only
          obtain ⟨⟨reads, writes⟩, -⟩ := only
          obtain ⟨sameResult, nextAgree⟩ := agree.after reads writes choice
          refine ⟨t.perform r c choice o next, step_advance (sameCalls ▸ running) isOp, ?_,
            nextAgree⟩
          rw [State.perform, State.perform, State.calls_setCall, State.calls_setCall, sameCalls,
            Machine.event, Machine.event, sameResult, agree.clock]

end

/-! ## Where documents come from -/

/-- Every document that the operation may write is justified. -/
def Op.Justified (just : Path → δ → Prop) : Op δ ε η → Prop
  | .write path change => ∀ old d, change old = some d → just path d
  | .transact _ target change =>
      ∀ snap f old d, change snap = some f → f old = some d → just target d
  | _ => True

/-- The document that a get found is justified. -/
def Event.Got (just : Path → δ → Prop) : Event δ ε η → Prop
  | ⟨_, .get path, .found d⟩ => just path d
  | _ => True

/-- The document is from outside, or a call that has done `past` by the time `time`
was justified to write it. -/
def Known (outside : Path → δ → Prop) (just : ι → List (Event δ ε η) → Path → δ → Prop)
    (calls : Nat → Option (Call ι δ ε η ρ)) (time : Nat) (path : Path) (d : δ) : Prop :=
  outside path d ∨ ∃ r c past, calls r = some c ∧ past <:+ c.past ∧
    (∀ e ∈ past, e.time ≤ time) ∧ just c.input past path d

/-- The documents, and those that were found, are known; what is left of every call
is justified, and its answer will be. -/
structure Provenance (outside : Path → δ → Prop)
    (just : ι → List (Event δ ε η) → Path → δ → Prop)
    (ends : ι → List (Event δ ε η) → ρ → Prop) (s : State ι δ ε η ρ) : Prop where
  docs : ∀ path d, s.machine.docs[path]? = some d →
    Known outside just s.calls s.machine.clock path d
  past : ∀ r c, s.calls r = some c → ∀ e ∈ c.past,
    e.time ≤ s.machine.clock ∧ e.Got (Known outside just s.calls e.time) ∧ e.Timed
  sorted : ∀ r c, s.calls r = some c → c.past.Pairwise fun e e' => e'.time ≤ e.time
  program : ∀ r c, s.calls r = some c →
    c.program.Along (fun past o => o.Justified (just c.input past)) (ends c.input) c.past

/-- An external write is from outside. -/
def Label.From (outside : Path → δ → Prop) : Label ι δ → Prop
  | .external path (some d) => outside path d
  | _ => True

section

variable {outside : Path → δ → Prop} {just : ι → List (Event δ ε η) → Path → δ → Prop}
  {ends : ι → List (Event δ ε η) → ρ → Prop} {handler : ι → Prog δ ε η ρ}
  {s s' : State ι δ ε η ρ} {m : Machine δ ε η}

theorem Op.Justified.after {good : Path → δ → Prop} {o : Op δ ε η} (justified : o.Justified good)
    {choice : Choice} {path : Path} {d : δ}
    (found : (m.after choice o).docs[path]? = some d) : m.docs[path]? = some d ∨ good path d := by
  have changed : ∀ (target : Path) (f : Option δ → Option δ),
      (∀ old d, f old = some d → good target d) →
      (changeDocument m.docs choice.write target f)[path]? = some d →
      m.docs[path]? = some d ∨ good path d := by
    intro target f justified found
    by_cases same : path = target
    · rw [same] at found ⊢
      rw [changeDocument_same] at found
      split at found
      · exact .inr (justified _ d found)
      · exact .inl found
    · rw [changeDocument_of_ne same] at found
      exact .inl found
  cases o with
  | get | list | lookup | remember | forget | now | emit => exact .inl found
  | write target f => exact changed target f justified found
  | transact source target f =>
      change (m.transaction choice source target f)[path]? = some d at found
      rw [Machine.transaction] at found
      split at found
      · exact .inl found
      · rename_i change isChange
        exact changed target change (fun old d => justified _ _ old d isChange) found

theorem Machine.got_event {good : Path → δ → Prop}
    (docs : ∀ path d, m.docs[path]? = some d → good path d) (choice : Choice) (o : Op δ ε η) :
    (m.event choice o).Got good := by
  cases o with
  | get path =>
      cases found : readDocument m.docs choice.read path with
      | failed | absent => simp [Machine.event, Machine.result, found, Event.Got]
      | found d =>
          simp only [Machine.event, Machine.result, found, Event.Got]
          exact docs path d (readDocument_eq_found_iff.mp found).2
  | list | write | transact | lookup | remember | forget | now | emit => exact trivial

/-- Every call is still there, and has gone on. -/
def Extends (calls calls' : Nat → Option (Call ι δ ε η ρ)) : Prop :=
  ∀ r c, calls r = some c → ∃ c', calls' r = some c' ∧ c'.input = c.input ∧ c.past <:+ c'.past

theorem Known.mono {calls calls' : Nat → Option (Call ι δ ε η ρ)} {time time' : Nat} {path : Path}
    {d : δ} (extends_ : Extends calls calls') (le : time ≤ time')
    (known : Known outside just calls time path d) : Known outside just calls' time' path d := by
  apply known.imp id
  rintro ⟨r, c, past, running, suffix, before, justified⟩
  obtain ⟨c', running', sameInput, longer⟩ := extends_ r c running
  refine ⟨r, c', past, running', suffix.trans longer,
    fun e mem => Nat.le_trans (before e mem) le, ?_⟩
  rw [sameInput]
  exact justified

theorem Event.Got.imp {good better : Path → δ → Prop} {e : Event δ ε η}
    (weaken : ∀ path d, good path d → better path d) (got : e.Got good) : e.Got better := by
  rcases e with ⟨time, o, result⟩
  cases o with
  | get path =>
      cases result with
      | failed | absent => exact trivial
      | found d => exact weaken path d got
  | list | write | transact | lookup | remember | forget | now | emit => exact trivial

theorem extends_setCall {r : Nat} {c : Call ι δ ε η ρ}
    (goesOn : ∀ c', s.calls r = some c' → c.input = c'.input ∧ c'.past <:+ c.past) :
    Extends s.calls (s.setCall r c).calls := by
  intro r' c' running
  rw [State.calls_setCall]
  by_cases same : r' = r
  · obtain ⟨sameInput, longer⟩ := goesOn c' (same ▸ running)
    exact ⟨c, by rw [same, Function.update_self], sameInput, longer⟩
  · exact ⟨c', by rw [Function.update_of_ne same, running], rfl, List.suffix_rfl⟩

/-- A step keeps every call and what it has done. -/
theorem extends_of_step {label : Label ι δ} (taken : step handler s label = some s') :
    Extends s.calls s'.calls := by
  have same : Extends s.calls s.calls := fun r c running => ⟨c, running, rfl, List.suffix_rfl⟩
  cases stepped_of_step taken with
  | tick | external => exact same
  | begin input unused =>
      apply extends_setCall
      intro c' running
      cases unused.symm.trans running
  | advance choice running isOp =>
      apply extends_setCall
      intro c' running'
      cases running.symm.trans running'
      exact ⟨rfl, List.suffix_cons _ _⟩

theorem Provenance.step
    (each : ∀ input, (handler input).Along (fun past o => o.Justified (just input past))
      (ends input) [])
    (provenance : Provenance outside just ends s) {label : Label ι δ} (from_ : label.From outside)
    (taken : step handler s label = some s') : Provenance outside just ends s' := by
  cases stepped_of_step taken with
  | @tick now later =>
      constructor
      case docs =>
        intro path d found
        exact (provenance.docs path d found).mono
          (fun r c running => ⟨c, running, rfl, List.suffix_rfl⟩)
          later
      case past =>
        intro r c running e mem
        obtain ⟨before, got, timed⟩ := provenance.past r c running e mem
        exact ⟨Nat.le_trans before later, got, timed⟩
      case sorted => exact provenance.sorted
      case program => exact provenance.program
  | external path doc =>
      refine { provenance with docs := fun path' d found => ?_ }
      change (changeDocument s.machine.docs .ok path fun _ => doc)[path']? = some d at found
      by_cases same : path' = path
      · rw [same, changeDocument_same] at found
        cases found
        rw [same]
        exact .inl from_
      · rw [changeDocument_of_ne same] at found
        exact provenance.docs path' d found
  | @begin r input unused =>
      have longer : Extends s.calls (s.setCall r ⟨input, [], handler input⟩).calls :=
        extends_setCall fun c' running => by rw [unused] at running; cases running
      constructor
      case docs =>
        exact fun path d found => (provenance.docs path d found).mono longer (Nat.le_refl _)
      case past =>
        intro r' c running e mem
        rw [State.calls_setCall] at running
        by_cases same : r' = r
        · rw [same, Function.update_self] at running
          cases running
          cases mem
        · rw [Function.update_of_ne same] at running
          obtain ⟨before, got, timed⟩ := provenance.past r' c running e mem
          exact ⟨before, got.imp fun path d known => known.mono longer (Nat.le_refl _), timed⟩
      case sorted =>
        intro r' c running
        rw [State.calls_setCall] at running
        by_cases same : r' = r
        · rw [same, Function.update_self] at running
          cases running
          exact .nil
        · rw [Function.update_of_ne same] at running
          exact provenance.sorted r' c running
      case program =>
        intro r' c running
        rw [State.calls_setCall] at running
        by_cases same : r' = r
        · rw [same, Function.update_self] at running
          cases running
          exact each input
        · rw [Function.update_of_ne same] at running
          exact provenance.program r' c running
  | @advance r c o next choice running isOp =>
      have program := provenance.program r c running
      rw [isOp] at program
      obtain ⟨justified, program⟩ := program
      have longer : Extends s.calls (s.perform r c choice o next).calls := by
        apply extends_setCall
        intro c' running'
        cases running.symm.trans running'
        exact ⟨rfl, List.suffix_cons _ _⟩
      have sameClock := s.machine.clock_after choice o
      have event := s.machine.got_event provenance.docs choice o
      constructor
      case docs =>
        intro path d found
        change Known outside just _ (s.machine.after choice o).clock path d
        rw [sameClock]
        rcases justified.after found with old | new
        · exact (provenance.docs path d old).mono longer (Nat.le_refl _)
        · refine .inr ⟨r, _, c.past, Function.update_self .., List.suffix_cons _ _, ?_, new⟩
          exact fun e mem => (provenance.past r c running e mem).1
      case past =>
        intro r' c' running' e mem
        change e.time ≤ (s.machine.after choice o).clock ∧ _
        rw [sameClock]
        have later : ∀ time path d, Known outside just s.calls time path d →
            Known outside just (s.perform r c choice o next).calls time path d :=
          fun time path d known => known.mono longer (Nat.le_refl _)
        have older : ∀ r' c', s.calls r' = some c' → e ∈ c'.past → e.time ≤ s.machine.clock ∧
            e.Got (Known outside just (s.perform r c choice o next).calls e.time) ∧ e.Timed := by
          intro r' c' running' mem
          obtain ⟨before, got, timed⟩ := provenance.past r' c' running' e mem
          exact ⟨before, got.imp (later e.time), timed⟩
        rw [State.perform, State.calls_setCall] at running'
        by_cases same : r' = r
        · rw [same, Function.update_self] at running'
          cases running'
          rcases List.mem_cons.mp mem with rfl | mem
          · exact ⟨Nat.le_refl _, event.imp (later s.machine.clock), s.machine.timed_event choice o⟩
          · exact older r c running mem
        · rw [Function.update_of_ne same] at running'
          exact older r' c' running' mem
      case sorted =>
        intro r' c' running'
        rw [State.perform, State.calls_setCall] at running'
        by_cases same : r' = r
        · rw [same, Function.update_self] at running'
          cases running'
          refine List.pairwise_cons.mpr ⟨fun e mem => ?_, provenance.sorted r c running⟩
          exact (provenance.past r c running e mem).1
        · rw [Function.update_of_ne same] at running'
          exact provenance.sorted r' c' running'
      case program =>
        intro r' c' running'
        rw [State.perform, State.calls_setCall] at running'
        by_cases same : r' = r
        · rw [same, Function.update_self] at running'
          cases running'
          exact program _ _ (s.machine.timed_event choice o)
        · rw [Function.update_of_ne same] at running'
          exact provenance.program r' c' running'

theorem Provenance.start : Provenance outside just ends ({} : State ι δ ε η ρ) := by
  constructor
  case docs =>
    intro path d found
    rw [Std.ExtTreeMap.getElem?_empty] at found
    cases found
  case past | sorted | program =>
    intro r c running
    cases running

end

end Drover.Store
