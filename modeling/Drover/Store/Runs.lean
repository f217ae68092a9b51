import Drover.Store.Program

/-!
# Runs of a program

A program that runs alone, whatever the environment decides, with the operations that it
performs.  `Ensures` is a postcondition of all its runs, proved by following the program;
it may speak of what failed on the way.
-/

namespace Drover.Store

/-- An operation that was performed, with what the environment decided. -/
structure Performed (δ ε η : Type) where
  op : Op δ ε η
  choice : Choice

variable {δ ε η ρ σ : Type}

/-- The operation neither reads nor changes the store. -/
def Op.quiet : Op δ ε η → Bool
  | .lookup _ | .remember .. | .forget _ | .now => true
  | .get _ | .list _ | .write .. | .transact .. | .emit _ => false

/-- An operation of the run that may change the document takes effect. -/
def TakesEffect (steps : List (Performed δ ε η)) (path : Path) : Prop :=
  ∃ step ∈ steps, step.op.target = some path ∧ step.choice.write.applied = true

instance (steps : List (Performed δ ε η)) (path : Path) : Decidable (TakesEffect steps path) :=
  inferInstanceAs (Decidable (∃ step ∈ steps, _))

/-- The operation changes the document only so that it then has the property, whatever it
was. -/
def Op.Makes (path : Path) (P : Option δ → Prop) (o : Op δ ε η) : Prop :=
  o.target = some path → ∃ change, o = .write path change ∧ ∀ old, P (change old)

theorem takesEffect_cons {o : Op δ ε η} {choice : Choice} {steps : List (Performed δ ε η)}
    {path : Path} :
    TakesEffect (⟨o, choice⟩ :: steps) path ↔
      (o.target = some path ∧ choice.write.applied = true) ∨ TakesEffect steps path := by
  rw [TakesEffect, List.exists_mem_cons_iff]
  rfl

/-- What the operation leaves alone. -/
theorem Machine.docs_after (m : Machine δ ε η) {choice : Choice} {o : Op δ ε η} {path : Path}
    (noEffect : o.target = some path → choice.write.applied = false) :
    (m.after choice o).docs[path]? = m.docs[path]? := by
  have kept : ∀ target change, (target = path → choice.write.applied = false) →
      (changeDocument m.docs choice.write target change)[path]? = m.docs[path]? := by
    intro target change noEffect
    by_cases same : target = path
    · rw [changeDocument, if_neg (by simp [noEffect same])]
    · exact changeDocument_of_ne (Ne.symm same)
  cases o with
  | get | list | lookup | remember | forget | now | emit => rfl
  | write target change => exact kept target change fun same => noEffect (congrArg some same)
  | transact source target change =>
      change (m.transaction choice source target change)[path]? = _
      rw [Machine.transaction]
      split
      · rfl
      · exact kept target _ fun same => noEffect (congrArg some same)

namespace Prog

/-- The operations of the run. -/
def performed : Prog δ ε η ρ → (Nat → Choice) → Machine δ ε η → List (Performed δ ε η)
  | .reply _, _, _ => []
  | .op o next, choices, m =>
      ⟨o, choices 0⟩ ::
        (next (m.result (choices 0) o)).performed (fun n => choices (n + 1)) (m.after (choices 0) o)

/-- Every run from the machine ends so. -/
def Ensures (p : Prog δ ε η ρ) (m : Machine δ ε η)
    (post : List (Performed δ ε η) → Machine δ ε η → ρ → Prop) : Prop :=
  ∀ choices, post (p.performed choices m) (p.run choices m).1 (p.run choices m).2

variable {p : Prog δ ε η ρ} {f : ρ → Prog δ ε η σ} {m : Machine δ ε η}
  {post post' : List (Performed δ ε η) → Machine δ ε η → ρ → Prop}

theorem Ensures.imp (ensures : p.Ensures m post)
    (weaken : ∀ steps m' value, post steps m' value → post' steps m' value) :
    p.Ensures m post' :=
  fun choices => weaken _ _ _ (ensures choices)

theorem Ensures.pure {value : ρ} (holds : post [] m value) :
    (Pure.pure value : Prog δ ε η ρ).Ensures m post :=
  fun _ => holds

theorem Ensures.op {o : Op δ ε η} {next : o.Result → Prog δ ε η ρ}
    (each : ∀ choice, (next (m.result choice o)).Ensures (m.after choice o) fun steps =>
      post (⟨o, choice⟩ :: steps)) :
    (Prog.op o next).Ensures m post :=
  fun choices => each (choices 0) fun n => choices (n + 1)

/-- A program goes on from where its first part ends. -/
theorem Ensures.bind {post : List (Performed δ ε η) → Machine δ ε η → σ → Prop}
    (first : p.Ensures m fun steps m' value =>
      (f value).Ensures m' fun steps' => post (steps ++ steps')) :
    (p >>= f).Ensures m post := by
  change (p.bind f).Ensures m post
  induction p generalizing m post with
  | reply value => exact first fun _ => .ok
  | op o next ih =>
      apply Ensures.op
      intro choice
      apply ih
      intro choices
      exact first fun n => n.casesOn choice choices

theorem Ensures.andThen {post' : List (Performed δ ε η) → Machine δ ε η → σ → Prop}
    (first : p.Ensures m post)
    (rest : ∀ steps m' value, post steps m' value →
      (f value).Ensures m' fun steps' => post' (steps ++ steps')) :
    (p >>= f).Ensures m post' :=
  .bind (first.imp rest)

/-- A document that no operation with an effect addresses is left alone. -/
theorem ensures_docs (p : Prog δ ε η ρ) (m : Machine δ ε η) (path : Path) :
    p.Ensures m fun steps m' _ => ¬TakesEffect steps path → m'.docs[path]? = m.docs[path]? := by
  induction p generalizing m with
  | reply value => exact fun _ _ => rfl
  | op o next ih =>
      apply Ensures.op
      intro choice
      refine (ih _ _).imp ?_
      intro steps m' value kept noEffect
      rw [takesEffect_cons, not_or] at noEffect
      rw [kept noEffect.2, m.docs_after]
      exact fun isTarget => Bool.eq_false_iff.mpr fun applied => noEffect.1 ⟨isTarget, applied⟩

/-- A document has the property in the end if one of the operations on it takes effect, or if
it has had the property before. -/
theorem Only.makes {path : Path} {P : Option δ → Prop} (only : p.Only (Op.Makes path P)) :
    p.Ensures m fun steps m' _ =>
      TakesEffect steps path ∨ P m.docs[path]? → P m'.docs[path]? := by
  induction p generalizing m with
  | reply value =>
      rintro _ (⟨step, mem, -⟩ | holds)
      · exact nomatch mem
      · exact holds
  | op o next ih =>
      apply Ensures.op
      intro choice
      refine (ih _ (only.2 _)).imp ?_
      intro steps m' value rest holds
      rw [takesEffect_cons, or_assoc] at holds
      by_cases here : o.target = some path ∧ choice.write.applied = true
      · obtain ⟨change, rfl, makes⟩ := only.1 here.1
        apply rest
        right
        change P (changeDocument m.docs choice.write path change)[path]?
        rw [changeDocument_same, if_pos here.2]
        exact makes _
      · apply rest
        rw [m.docs_after fun isTarget =>
          Bool.eq_false_iff.mpr fun applied => here ⟨isTarget, applied⟩]
        exact holds.resolve_left here

theorem performed_const (p : Prog δ ε η ρ) (choice : Choice) (m : Machine δ ε η) :
    ∀ step ∈ p.performed (fun _ => choice) m, step.choice = choice := by
  induction p generalizing m with
  | reply value => exact nofun
  | op o next ih => exact List.forall_mem_cons.mpr ⟨rfl, ih _ _⟩

end Prog

end Drover.Store
