import Mathlib.Data.List.Basic

/-!
# Guarded runs of partial transition systems

A system is an option-valued step on states and labels.  A run is a list of
labels executed from a state; a label that is not enabled stops the run.  Two
predicates speak about all steps and all states of a run: `Along` asks a
condition of every step that is taken, `Always` asks a property of every state
that is reached.  A ghost is a record that is kept beside the states of a run.
-/

namespace Drover.Transition

universe u v

variable {σ : Type u} {α : Type v}

/-- A labelled, option-valued transition function. -/
abbrev Step (σ : Type u) (α : Type v) := σ → α → Option σ

/-- Execute a list of labels, failing at the first one that is not enabled. -/
def exec (step : Step σ α) : σ → List α → Option σ
  | state, [] => some state
  | state, label :: rest => (step state label).bind fun next => exec step next rest

@[simp]
theorem exec_nil (step : Step σ α) (state : σ) : exec step state [] = some state :=
  rfl

theorem exec_cons_eq_some_iff (step : Step σ α) (state target : σ) (label : α)
    (rest : List α) :
    exec step state (label :: rest) = some target ↔
      ∃ next, step state label = some next ∧ exec step next rest = some target := by
  simp only [exec]
  exact Option.bind_eq_some_iff

/-- A run goes on from where its first part ends. -/
theorem exec_append {step : Step σ α} {state next : σ} {labels : List α}
    (run : exec step state labels = some next) (rest : List α) :
    exec step state (labels ++ rest) = exec step next rest := by
  induction labels generalizing state with
  | nil =>
      cases run
      rfl
  | cons label labels ih =>
      obtain ⟨middle, taken, run⟩ := (exec_cons_eq_some_iff step state next label labels).mp run
      rw [List.cons_append, exec, taken, Option.bind_some]
      exact ih run

/-- Every step the run takes from `state` satisfies `cond`. -/
def Along (step : Step σ α) (cond : σ → α → Prop) : σ → List α → Prop
  | _, [] => True
  | state, label :: rest =>
      ∀ next, step state label = some next → cond state label ∧ Along step cond next rest

instance Along.decidable {step : Step σ α} {cond : σ → α → Prop}
    [∀ state label, Decidable (cond state label)] :
    (state : σ) → (labels : List α) → Decidable (Along step cond state labels)
  | _, [] => isTrue trivial
  | state, label :: rest =>
      match taken : step state label with
      | none => isTrue fun next enabled => by simp [taken] at enabled
      | some next =>
          have := (Along.decidable next rest : Decidable (Along step cond next rest))
          decidable_of_iff (cond state label ∧ Along step cond next rest)
            ⟨fun both next' enabled => by
              rw [taken, Option.some.injEq] at enabled
              exact enabled ▸ both, fun along => along next taken⟩

/-- A condition that the labels meet in every state. -/
theorem along_of_forall {step : Step σ α} {cond : σ → α → Prop} {labels : List α}
    (all : ∀ label ∈ labels, ∀ state, cond state label) (state : σ) :
    Along step cond state labels := by
  induction labels generalizing state with
  | nil => exact trivial
  | cons label rest ih =>
      rw [List.forall_mem_cons] at all
      exact fun next _ => ⟨all.1 state, ih all.2 next⟩

/-- A condition on the labels alone. -/
theorem along_of_forall_mem {step : Step σ α} {cond : α → Prop} {labels : List α}
    (all : ∀ label ∈ labels, cond label) (state : σ) :
    Along step (fun _ label => cond label) state labels :=
  along_of_forall (fun label mem _ => all label mem) state

theorem along_append {step : Step σ α} {cond : σ → α → Prop} {state : σ}
    {labels rest : List α} (first : Along step cond state labels)
    (second : ∀ middle, exec step state labels = some middle → Along step cond middle rest) :
    Along step cond state (labels ++ rest) := by
  induction labels generalizing state with
  | nil => exact second state rfl
  | cons label labels ih =>
      intro next taken
      obtain ⟨met, restAlong⟩ := first next taken
      refine ⟨met, ih restAlong fun middle run => second middle ?_⟩
      exact (exec_cons_eq_some_iff step state middle label labels).mpr ⟨next, taken, run⟩

/-- What is asked of every step is asked of one that comes after a part of the run. -/
theorem Along.after {step : Step σ α} {cond : σ → α → Prop} {state middle next : σ}
    {labels : List α} {label : α} (along : Along step cond state (labels ++ [label]))
    (run : exec step state labels = some middle) (taken : step middle label = some next) :
    cond middle label := by
  induction labels generalizing state with
  | nil =>
      cases run
      exact (along next taken).1
  | cons first rest ih =>
      obtain ⟨second, firstTaken, run⟩ :=
        (exec_cons_eq_some_iff step state middle first rest).mp run
      exact ih (along second firstTaken).2 run

theorem Along.imp {step : Step σ α} {cond weaker : σ → α → Prop}
    (weaken : ∀ state label, cond state label → weaker state label) {state : σ} {labels : List α}
    (along : Along step cond state labels) : Along step weaker state labels := by
  induction labels generalizing state with
  | nil => exact trivial
  | cons label rest ih =>
      intro next taken
      obtain ⟨met, restAlong⟩ := along next taken
      exact ⟨weaken state label met, ih restAlong⟩

/-- Two conditions that a run meets, it meets together. -/
theorem Along.and {step : Step σ α} {cond other : σ → α → Prop} {state : σ} {labels : List α}
    (along : Along step cond state labels) (also : Along step other state labels) :
    Along step (fun state label => cond state label ∧ other state label) state labels := by
  induction labels generalizing state with
  | nil => exact trivial
  | cons label rest ih =>
      intro next taken
      obtain ⟨met, restAlong⟩ := along next taken
      obtain ⟨alsoMet, restAlso⟩ := also next taken
      exact ⟨⟨met, alsoMet⟩, ih restAlong restAlso⟩

/-- Every state the run reaches from `state`, the first one included, satisfies
`good`. -/
def Always (step : Step σ α) (good : σ → Prop) : σ → List α → Prop
  | state, [] => good state
  | state, label :: rest =>
      good state ∧ ∀ next, step state label = some next → Always step good next rest

theorem Always.start {step : Step σ α} {good : σ → Prop} {state : σ} {labels : List α}
    (always : Always step good state labels) : good state := by
  cases labels with
  | nil => exact always
  | cons label rest => exact always.1

/-- A property preserved by every step that meets the guard holds in every
state of a run whose steps all meet the guard. -/
theorem always_of_preserved {step : Step σ α} {cond : σ → α → Prop} {good : σ → Prop}
    (preserved : ∀ state label next, good state → cond state label →
      step state label = some next → good next)
    {state : σ} {labels : List α} (start : good state)
    (along : Along step cond state labels) : Always step good state labels := by
  induction labels generalizing state with
  | nil => exact start
  | cons label rest ih =>
      refine ⟨start, fun next taken => ?_⟩
      obtain ⟨met, restAlong⟩ := along next taken
      exact ih (preserved state label next start met taken) restAlong

/-- The unguarded form: an inductive invariant holds in every state of every
run. -/
theorem always_of_inductive {step : Step σ α} {good : σ → Prop}
    (preserved : ∀ state label next, good state → step state label = some next → good next)
    {state : σ} (labels : List α) (start : good state) :
    Always step good state labels := by
  induction labels generalizing state with
  | nil => exact start
  | cons label rest ih =>
      exact ⟨start, fun next taken => ih (preserved state label next start taken)⟩

theorem Always.imp {step : Step σ α} {good better : σ → Prop}
    (weaken : ∀ state, good state → better state) {state : σ} {labels : List α}
    (always : Always step good state labels) : Always step better state labels := by
  induction labels generalizing state with
  | nil => exact weaken state always
  | cons label rest ih =>
      exact ⟨weaken state always.1, fun next taken => ih (always.2 next taken)⟩

/-- The last state of a run inherits what holds always. -/
theorem Always.last {step : Step σ α} {good : σ → Prop} {state target : σ}
    {labels : List α} (always : Always step good state labels)
    (run : exec step state labels = some target) : good target := by
  induction labels generalizing state with
  | nil =>
      cases run
      exact always
  | cons label rest ih =>
      obtain ⟨next, taken, restRun⟩ := (exec_cons_eq_some_iff step state target label rest).mp run
      exact ih (always.2 next taken) restRun

/-- When, under an invariant, one step keeps `good` exactly if it meets `cond`,
a run keeps `good` exactly if all its steps meet `cond`. -/
theorem always_iff_along {step : Step σ α} {env cond : σ → α → Prop} {inv good : σ → Prop}
    (preserved : ∀ state label next, inv state → env state label →
      step state label = some next → inv next)
    (exact_ : ∀ state label next, inv state → good state → env state label →
      step state label = some next → (good next ↔ cond state label))
    {state : σ} {labels : List α} (startInv : inv state) (start : good state)
    (environment : Along step env state labels) :
    Always step good state labels ↔ Along step cond state labels := by
  induction labels generalizing state with
  | nil => exact iff_of_true start trivial
  | cons label rest ih =>
      constructor
      · intro always next taken
        obtain ⟨met, restEnv⟩ := environment next taken
        have restAlways := always.2 next taken
        have nextGood : good next := restAlways.start
        exact ⟨(exact_ state label next startInv start met taken).mp nextGood,
          (ih (preserved state label next startInv met taken) nextGood restEnv).mp restAlways⟩
      · intro along
        refine ⟨start, fun next taken => ?_⟩
        obtain ⟨met, restEnv⟩ := environment next taken
        obtain ⟨condMet, restAlong⟩ := along next taken
        have nextGood := (exact_ state label next startInv start met taken).mpr condMet
        exact (ih (preserved state label next startInv met taken) nextGood restEnv).mpr restAlong

/-- When, under an invariant, every step meets `cond` exactly if it meets `other`, a run
meets the one exactly if it meets the other. -/
theorem along_iff_along {step : Step σ α} {env cond other : σ → α → Prop} {inv : σ → Prop}
    (preserved : ∀ state label next, inv state → env state label →
      step state label = some next → inv next)
    (exact_ : ∀ state label next, inv state → env state label →
      step state label = some next → (cond state label ↔ other state label))
    {state : σ} {labels : List α} (start : inv state) (environment : Along step env state labels) :
    Along step cond state labels ↔ Along step other state labels := by
  induction labels generalizing state with
  | nil => exact Iff.rfl
  | cons label rest ih =>
      apply forall₂_congr
      intro next taken
      obtain ⟨met, restEnv⟩ := environment next taken
      exact and_congr (exact_ state label next start met taken)
        (ih (preserved state label next start met taken) restEnv)

/-! ## Ghosts -/

variable {γ : Type v}

/-- A step with a record of the run, which decides nothing. -/
def withGhost (step : Step σ α) (record : σ → α → σ → γ → γ) : Step (σ × γ) α :=
  fun p label => (step p.1 label).map fun next => (next, record p.1 label next p.2)

theorem withGhost_eq_some_iff {step : Step σ α} {record : σ → α → σ → γ → γ} {p p' : σ × γ}
    {label : α} :
    withGhost step record p label = some p' ↔
      step p.1 label = some p'.1 ∧ p'.2 = record p.1 label p'.1 p.2 := by
  rw [withGhost, Option.map_eq_some_iff]
  constructor
  · rintro ⟨next, taken, rfl⟩
    exact ⟨taken, rfl⟩
  · rintro ⟨taken, recorded⟩
    exact ⟨p'.1, taken, Prod.ext rfl recorded.symm⟩

/-- What is asked of the states alone is asked of a run with any record. -/
theorem along_withGhost {step : Step σ α} {cond : σ → α → Prop} {record : σ → α → σ → γ → γ}
    {p : σ × γ} {labels : List α} :
    Along (withGhost step record) (fun p => cond p.1) p labels ↔ Along step cond p.1 labels := by
  induction labels generalizing p with
  | nil => exact Iff.rfl
  | cons label rest ih =>
      constructor
      · intro along next taken
        obtain ⟨met, restAlong⟩ := along (next, record p.1 label next p.2)
          (withGhost_eq_some_iff.mpr ⟨taken, rfl⟩)
        exact ⟨met, ih.mp restAlong⟩
      · intro along next taken
        obtain ⟨met, restAlong⟩ := along next.1 (withGhost_eq_some_iff.mp taken).1
        exact ⟨met, ih.mpr restAlong⟩

end Drover.Transition
