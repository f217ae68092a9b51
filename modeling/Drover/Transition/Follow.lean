import Drover.Transition.Run

/-!
# Runs beside runs

A step of one system may be followed by any number of steps of another one, so that a run
of the first is followed by a run of the second.  `LeadsTo` is such a run: it ends in a
state that corresponds, and its steps satisfy a condition if the steps that they follow
satisfy theirs.
-/

namespace Drover.Transition

universe u v

variable {σ : Type u} {α : Type v}

/-- A run leads from the state to a good one, and its steps satisfy `cond` if `met`
holds. -/
def LeadsTo (step : Step σ α) (cond : σ → α → Prop) (met : Prop) (state : σ)
    (good : σ → Prop) : Prop :=
  ∃ labels target, exec step state labels = some target ∧
    (met → Along step cond state labels) ∧ good target

namespace LeadsTo

variable {step : Step σ α} {cond : σ → α → Prop} {met : Prop} {state : σ} {good : σ → Prop}

/-- No step is needed where the state corresponds as it is. -/
theorem stay (holds : good state) : LeadsTo step cond met state good :=
  ⟨[], state, rfl, fun _ => trivial, holds⟩

theorem single {label : α} {next : σ} (taken : step state label = some next)
    (satisfies : met → cond state label) (holds : good next) :
    LeadsTo step cond met state good := by
  refine ⟨[label], next, ?_, fun isMet _ _ => ⟨satisfies isMet, trivial⟩, holds⟩
  rw [exec, taken, Option.bind_some, exec_nil]

/-- The run goes on from wherever it has led to, under a premise that is met as well. -/
theorem trans {met' : Prop} {better : σ → Prop} (leads : LeadsTo step cond met state good)
    (alsoMet : met → met') (goesOn : ∀ next, good next → LeadsTo step cond met' next better) :
    LeadsTo step cond met state better := by
  obtain ⟨labels, next, run, along, holds⟩ := leads
  obtain ⟨more, target, run', along', holds'⟩ := goesOn next holds
  refine ⟨labels ++ more, target, (exec_append run more).trans run', fun isMet => ?_, holds'⟩
  refine along_append (along isMet) fun middle reached => ?_
  cases run.symm.trans reached
  exact along' (alsoMet isMet)

end LeadsTo

end Drover.Transition
