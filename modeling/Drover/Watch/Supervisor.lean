import Drover.Transition.Run
import Drover.Watch.KeepSubscribed
import Mathlib.Algebra.Ring.Nat

/-!
# The loop of `keepSubscribed`

Every call of the loop in `watch.go`, with the contexts and the clock: what
`subscribe`, `pump` and `stop` do, how long they take and when the contexts end is
up to the environment.  `keepSubscribed_supervises` says that the calls come in
rounds, one for each subscription, and how long the loop rests between them.
-/

namespace Drover.Watch

open Drover.Transition

/-- `ctx.Err()` of a context that has ended. -/
inductive ContextErr where
  | canceled
  | deadlineExceeded
  deriving DecidableEq

/-- Where the loop is.  An error of `pump` is `some`. -/
inductive LoopPhase (ε : Type) where
  | top
  /-- The context has not ended; the derived one is made next. -/
  | starting
  /-- In `subscribe`. -/
  | subscribing
  /-- In `pump`. -/
  | pumping
  /-- In `stop`, after what `pump` returned. -/
  | stopping (err : Option ε)
  /-- `stop` has returned. -/
  | unwinding (err : Option ε)
  /-- The derived context was cancelled. -/
  | checking (err : Option ε) (timedOut : Bool)
  /-- In `sleepCtx`. -/
  | sleeping (since : Nat)
  | returned (result : Option ε)

/-- What the loop does.  Subscriptions are numbered; `pump` and `stop` belong to the
one that `subscribe` has returned. -/
inductive Action (ε : Type) where
  | subscribe (i : Nat)
  | pump (i : Nat)
  /-- `pump` has returned, and `stop` is called. -/
  | stop (i : Nat) (err : Option ε)
  | stopped (i : Nat)
  | printf (err : Option ε)
  /-- `sleepCtx(ctx, bo)`. -/
  | sleep (bo : Nat)
  /-- The loop sees that its context has ended. -/
  | observe
  | return_ (result : Option ε)

/-- A call of `keepSubscribed`. -/
structure Supervisor (ε : Type) where
  phase : LoopPhase ε := .top
  bo : Nat := watchBackoffMin
  now : Nat
  /-- The error of the context, when it has ended. -/
  ctx : Option ContextErr := none
  /-- The error of the derived context. -/
  subCtx : Option ContextErr := none
  /-- When the derived context ends by itself. -/
  deadline : Option Nat := none
  /-- How many subscriptions came before this one. -/
  subs : Nat := 0
  /-- What the loop has done, and when. -/
  log : List (Nat × Action ε) := []

/-- What can happen next. -/
inductive LoopEvent (ε : Type) where
  /-- Time passes. -/
  | tick (d : Nat)
  | ctxEnds (err : ContextErr)
  /-- The lifetime of the derived context is over. -/
  | expire
  /-- The loop takes its next step. -/
  | go
  /-- `subscribe` returns. -/
  | subscribed
  /-- `pump` returns. -/
  | pumped (err : Option ε)
  /-- `stop` returns. -/
  | stopped
  /-- `sleepCtx` takes the case of the timer. -/
  | timer
  /-- `sleepCtx` takes the case of the context. -/
  | done

variable {ε : Type}

namespace Supervisor

/-- The loop does this, and goes on there. -/
def act (s : Supervisor ε) (actions : List (Action ε)) (phase : LoopPhase ε) : Supervisor ε :=
  { s with phase := phase, log := s.log ++ actions.map (s.now, ·) }

/-- `return nil`, because the context has ended. -/
def returnNil (s : Supervisor ε) : Supervisor ε :=
  s.act [.observe, .return_ none] (.returned none)

/-- `context.WithTimeout(ctx, maxLifetime)`; without a lifetime the context itself is
handed on. -/
def derive (maxLifetime : Int) (s : Supervisor ε) : Supervisor ε :=
  { s with
    subCtx := s.ctx
    deadline := if 0 < maxLifetime then some (s.now + maxLifetime.toNat) else none }

/-- `cancel`. -/
def cancel (maxLifetime : Int) (s : Supervisor ε) : Supervisor ε :=
  if 0 < maxLifetime then
    { s with
      subCtx := if s.subCtx = none then some .canceled else s.subCtx
      deadline := none }
  else s

/-- `errors.Is(subCtx.Err(), context.DeadlineExceeded)`. -/
def timedOut (s : Supervisor ε) : Bool := s.subCtx = some .deadlineExceeded

/-- The steps of the loop that do not wait. -/
def go (maxLifetime : Int) (s : Supervisor ε) : Option (Supervisor ε) :=
  match s.phase with
  | .top => some (if s.ctx ≠ none then s.returnNil else s.act [] .starting)
  | .starting => some ((s.derive maxLifetime).act [.subscribe s.subs] .subscribing)
  | .unwinding err => some ((s.cancel maxLifetime).act [] (.checking err s.timedOut))
  | .checking err timedOut =>
      some
        (if s.ctx ≠ none then s.returnNil
        else s.act ((if timedOut then [.printf err] else []) ++ [.sleep s.bo]) (.sleeping s.now))
  | _ => none

/-- `keepSubscribed`. -/
def keepSubscribed (maxLifetime : Int) : Step (Supervisor ε) (LoopEvent ε)
  | s, .tick d => some { s with now := s.now + d }
  | s, .ctxEnds err =>
      if s.ctx = none then
        some { s with
          ctx := some err
          subCtx := if s.subCtx = none then some err else s.subCtx }
      else none
  | s, .expire =>
      if s.subCtx = none ∧ ∃ t ∈ s.deadline, t ≤ s.now then
        some { s with subCtx := some .deadlineExceeded }
      else none
  | s, .go => s.go maxLifetime
  | s, .subscribed =>
      match s.phase with
      | .subscribing => some (s.act [.pump s.subs] .pumping)
      | _ => none
  | s, .pumped err =>
      match s.phase with
      | .pumping => some (s.act [.stop s.subs err] (.stopping err))
      | _ => none
  | s, .stopped =>
      match s.phase with
      | .stopping err => some (s.act [.stopped s.subs] (.unwinding err))
      | _ => none
  | s, .timer =>
      match s.phase with
      | .sleeping since =>
          if since + s.bo ≤ s.now then
            some { s with
              phase := .top
              bo := min (s.bo * 2) watchBackoffMax
              subs := s.subs + 1 }
          else none
      | _ => none
  | s, .done =>
      match s.phase with
      | .sleeping _ => if s.ctx ≠ none then some s.returnNil else none
      | _ => none

/-- What the loop has done, in order. -/
def actions (s : Supervisor ε) : List (Action ε) := s.log.map Prod.snd

end Supervisor

/-! ## Rounds -/

/-- How long the loop rests after `i` subscriptions have come before: 200 ms,
doubled each time, and at most 5 s. -/
def restAfter (i : Nat) : Nat := min (200 * millisecond * 2 ^ i) (5000 * millisecond)

/-- What became of a subscription: what its `pump` returned, and whether its lifetime
was over. -/
structure Round (ε : Type) where
  err : Option ε
  timedOut : Bool

namespace Round

/-- The subscription is made, pumped once and stopped once. -/
def calls (r : Round ε) (i : Nat) : List (Action ε) :=
  [.subscribe i, .pump i, .stop i r.err, .stopped i]

/-- The `i`-th round. -/
def actions (r : Round ε) (i : Nat) : List (Action ε) :=
  r.calls i ++ (if r.timedOut then [.printf r.err] else []) ++ [.sleep (restAfter i)]

end Round

/-- Whole rounds, one after the other. -/
def history (rounds : List (Round ε)) : List (Action ε) :=
  (rounds.mapIdx fun i r => r.actions i).flatten

/-- What can follow `i` whole rounds: a part of the next one, or the return at one of
the three places where the loop looks at its context. -/
inductive Part (i : Nat) : List (Action ε) → Prop where
  | running {r : Round ε} {part : List (Action ε)} (isPrefix : part <+: r.actions i) : Part i part
  | atTop : Part i [.observe, .return_ none]
  | afterStop (r : Round ε) : Part i (r.calls i ++ [.observe, .return_ none])
  | whileSleeping (r : Round ε) : Part i (r.actions i ++ [.observe, .return_ none])

/-- The loop is a faithful supervisor. -/
structure Supervisor.Supervises (s : Supervisor ε) : Prop where
  /-- It returns only `nil`, and only when its context has ended. -/
  returns : ∀ result, s.phase = .returned result → result = none ∧ s.ctx ≠ none
  /-- Every subscription is pumped once and stopped once before the next one. -/
  rounds : ∃ (rounds : List (Round ε)) (part : List (Action ε)),
    s.actions = history rounds ++ part ∧ Part rounds.length part
  /-- No subscription is made when the end of the context has been seen. -/
  observed : s.log.Pairwise fun a b => a.2 = .observe → ∀ i, b.2 ≠ .subscribe i
  /-- Before the next subscription the loop has rested for the time it is to rest. -/
  rested : s.log.Pairwise fun a b => ∀ d i, a.2 = .sleep d → b.2 = .subscribe i → a.1 + d ≤ b.1

/-! ## One step -/

namespace Supervisor

variable {maxLifetime : Int} {s s' : Supervisor ε} {event : LoopEvent ε}

/-- Where the loop looks at its context. -/
inductive Looks : LoopPhase ε → Prop where
  | top : Looks .top
  | checking (err : Option ε) (timedOut : Bool) : Looks (.checking err timedOut)
  | sleeping (since : Nat) : Looks (.sleeping since)

/-- The branches of a step. -/
inductive Stepped (maxLifetime : Int) (s : Supervisor ε) :
    LoopEvent ε → Supervisor ε → Prop where
  | tick (d : Nat) : Stepped maxLifetime s (.tick d) { s with now := s.now + d }
  | ctxEnds (err : ContextErr) (subCtx : Option ContextErr) :
      Stepped maxLifetime s (.ctxEnds err) { s with ctx := some err, subCtx := subCtx }
  | expire : Stepped maxLifetime s .expire { s with subCtx := some .deadlineExceeded }
  | start (isTop : s.phase = .top) (running : s.ctx = none) :
      Stepped maxLifetime s .go (s.act [] .starting)
  | subscribe (starting : s.phase = .starting) :
      Stepped maxLifetime s .go ((s.derive maxLifetime).act [.subscribe s.subs] .subscribing)
  | cancel {err : Option ε} (unwinding : s.phase = .unwinding err) :
      Stepped maxLifetime s .go ((s.cancel maxLifetime).act [] (.checking err s.timedOut))
  | sleep {err : Option ε} {timedOut : Bool} (checking : s.phase = .checking err timedOut)
      (running : s.ctx = none) :
      Stepped maxLifetime s .go
        (s.act ((if timedOut then [.printf err] else []) ++ [.sleep s.bo]) (.sleeping s.now))
  | subscribed (subscribing : s.phase = .subscribing) :
      Stepped maxLifetime s .subscribed (s.act [.pump s.subs] .pumping)
  | pumped (err : Option ε) (pumping : s.phase = .pumping) :
      Stepped maxLifetime s (.pumped err) (s.act [.stop s.subs err] (.stopping err))
  | stopped {err : Option ε} (stopping : s.phase = .stopping err) :
      Stepped maxLifetime s .stopped (s.act [.stopped s.subs] (.unwinding err))
  | timer {since : Nat} (sleeping : s.phase = .sleeping since) (elapsed : since + s.bo ≤ s.now) :
      Stepped maxLifetime s .timer
        { s with phase := .top, bo := min (s.bo * 2) watchBackoffMax, subs := s.subs + 1 }
  /-- The context has ended. -/
  | returns {event : LoopEvent ε} (looks : Looks s.phase) (ended : s.ctx ≠ none) :
      Stepped maxLifetime s event s.returnNil

theorem stepped_of_go (taken : s.go maxLifetime = some s') :
    Stepped maxLifetime s .go s' := by
  rw [go] at taken
  split at taken
  · rename_i isTop
    split at taken
    · rename_i ended
      cases taken
      exact .returns (isTop ▸ .top) ended
    · rename_i running
      cases taken
      exact .start isTop (not_not.mp running)
  · rename_i starting
    cases taken
    exact .subscribe starting
  · rename_i err unwinding
    cases taken
    exact .cancel unwinding
  · rename_i err timedOut checking
    split at taken
    · rename_i ended
      cases taken
      exact .returns (checking ▸ .checking err timedOut) ended
    · rename_i running
      cases taken
      exact .sleep checking (not_not.mp running)
  · cases taken

theorem stepped_of_step (taken : keepSubscribed maxLifetime s event = some s') :
    Stepped maxLifetime s event s' := by
  cases event with
  | tick d =>
      cases taken
      exact .tick d
  | ctxEnds err =>
      simp only [keepSubscribed] at taken
      split at taken
      · cases taken
        exact .ctxEnds err _
      · cases taken
  | expire =>
      simp only [keepSubscribed] at taken
      split at taken
      · cases taken
        exact .expire
      · cases taken
  | go => exact stepped_of_go taken
  | subscribed =>
      simp only [keepSubscribed] at taken
      split at taken
      · rename_i subscribing
        cases taken
        exact .subscribed subscribing
      · cases taken
  | pumped err =>
      simp only [keepSubscribed] at taken
      split at taken
      · rename_i pumping
        cases taken
        exact .pumped err pumping
      · cases taken
  | stopped =>
      simp only [keepSubscribed] at taken
      split at taken
      · rename_i err stopping
        cases taken
        exact .stopped stopping
      · cases taken
  | timer =>
      simp only [keepSubscribed] at taken
      split at taken
      · rename_i since sleeping
        split at taken
        · rename_i elapsed
          cases taken
          exact .timer sleeping elapsed
        · cases taken
      · cases taken
  | done =>
      simp only [keepSubscribed] at taken
      split at taken
      · rename_i since sleeping
        split at taken
        · rename_i ended
          cases taken
          exact .returns (sleeping ▸ .sleeping since) ended
        · cases taken
      · cases taken

/-! ## The rounds of a run -/

/-- What the loop has done of the `i`-th round, by where it is. -/
inductive At (i : Nat) : LoopPhase ε → List (Action ε) → Prop where
  | top : At i .top []
  | starting : At i .starting []
  | subscribing : At i .subscribing [.subscribe i]
  | pumping : At i .pumping [.subscribe i, .pump i]
  | stopping (err : Option ε) : At i (.stopping err) [.subscribe i, .pump i, .stop i err]
  | unwinding (r : Round ε) : At i (.unwinding r.err) (r.calls i)
  | checking (r : Round ε) : At i (.checking r.err r.timedOut) (r.calls i)
  | sleeping (since : Nat) (r : Round ε) : At i (.sleeping since) (r.actions i)
  | returned {part : List (Action ε)} (looked : part = [] ∨ ∃ r : Round ε, part = r.calls i ∨
      part = r.actions i) : At i (.returned none) (part ++ [.observe, .return_ none])

theorem At.part {i : Nat} {phase : LoopPhase ε} {part : List (Action ε)} (at_ : At i phase part) :
    Part i part := by
  cases at_ with
  | top | starting => exact .running (r := ⟨none, false⟩) List.nil_prefix
  | subscribing => exact .running (r := ⟨none, false⟩) ⟨_, rfl⟩
  | pumping => exact .running (r := ⟨none, false⟩) ⟨_, rfl⟩
  | stopping err => exact .running (r := ⟨err, false⟩) ⟨_, rfl⟩
  | unwinding r | checking r =>
      apply Part.running (r := r)
      rw [Round.actions, List.append_assoc]
      exact List.prefix_append _ _
  | sleeping since r => exact .running List.prefix_rfl
  | returned looked =>
      rcases looked with rfl | ⟨r, rfl | rfl⟩
      · exact .atTop
      · exact .afterStop r
      · exact .whileSleeping r

/-- A place where the loop returns. -/
theorem At.returns {i : Nat} {phase : LoopPhase ε} {part : List (Action ε)}
    (at_ : At i phase part) (looks : Looks phase) :
    At i (.returned none) (part ++ [.observe, .return_ none]) := by
  apply At.returned
  cases looks with
  | top =>
      cases at_
      exact .inl rfl
  | checking err timedOut =>
      cases at_ with
      | checking r => exact .inr ⟨r, .inl rfl⟩
  | sleeping since =>
      cases at_ with
      | sleeping since r => exact .inr ⟨r, .inr rfl⟩

theorem restAfter_zero : restAfter 0 = watchBackoffMin := rfl

theorem restAfter_succ (i : Nat) :
    restAfter (i + 1) = min (restAfter i * 2) watchBackoffMax := by
  simp only [restAfter, watchBackoffMax, Nat.pow_succ, ← Nat.mul_assoc]
  omega

theorem history_concat (rounds : List (Round ε)) (r : Round ε) :
    history (rounds ++ [r]) = history rounds ++ r.actions rounds.length := by
  simp [history, List.mapIdx_concat]

/-- The rounds that have been done, and the part of the current one. -/
structure InRounds (s : Supervisor ε) (rounds : List (Round ε)) (part : List (Action ε)) :
    Prop where
  actions : s.actions = history rounds ++ part
  at_ : At rounds.length s.phase part
  subs : s.subs = rounds.length
  bo : s.bo = restAfter rounds.length

theorem actions_act (s : Supervisor ε) (actions : List (Action ε)) (phase : LoopPhase ε) :
    (s.act actions phase).actions = s.actions ++ actions := by
  simp [Supervisor.actions, act, Function.comp_def]

/-- The loop goes on within the round. -/
theorem InRounds.act {rounds : List (Round ε)} {part actions : List (Action ε)}
    {phase : LoopPhase ε} (inRounds : s.InRounds rounds part)
    (at_ : At rounds.length phase (part ++ actions)) :
    (s.act actions phase).InRounds rounds (part ++ actions) where
  actions := by rw [actions_act, inRounds.actions, List.append_assoc]
  at_ := at_
  subs := inRounds.subs
  bo := inRounds.bo

/-- The contexts decide nothing over the rounds. -/
theorem InRounds.of_eq {rounds : List (Round ε)} {part : List (Action ε)}
    (inRounds : s.InRounds rounds part) (phase : s'.phase = s.phase) (bo : s'.bo = s.bo)
    (subs : s'.subs = s.subs) (log : s'.log = s.log) : s'.InRounds rounds part where
  actions := by rw [Supervisor.actions, log, ← inRounds.actions, Supervisor.actions]
  at_ := phase ▸ inRounds.at_
  subs := subs.trans inRounds.subs
  bo := bo.trans inRounds.bo

theorem cancel_keeps (maxLifetime : Int) (s : Supervisor ε) :
    (s.cancel maxLifetime).phase = s.phase ∧ (s.cancel maxLifetime).bo = s.bo ∧
      (s.cancel maxLifetime).subs = s.subs ∧ (s.cancel maxLifetime).log = s.log ∧
      (s.cancel maxLifetime).now = s.now ∧ (s.cancel maxLifetime).ctx = s.ctx := by
  rw [cancel]
  split <;> exact ⟨rfl, rfl, rfl, rfl, rfl, rfl⟩

/-- One step goes on within the round, or on to the next one. -/
theorem InRounds.step {rounds : List (Round ε)} {part : List (Action ε)}
    (inRounds : s.InRounds rounds part) (stepped : Stepped maxLifetime s event s') :
    ∃ rounds' part', s'.InRounds rounds' part' := by
  have at_ := inRounds.at_
  cases stepped with
  | tick d | ctxEnds err subCtx | expire =>
      exact ⟨rounds, part, inRounds.of_eq rfl rfl rfl rfl⟩
  | start isTop running =>
      rw [isTop] at at_
      cases at_
      exact ⟨rounds, _, inRounds.act .starting⟩
  | subscribe starting =>
      rw [starting] at at_
      cases at_
      have derived : (s.derive maxLifetime).InRounds rounds [] := inRounds.of_eq rfl rfl rfl rfl
      exact ⟨rounds, _, derived.act (inRounds.subs ▸ .subscribing)⟩
  | @cancel err unwinding =>
      rw [unwinding] at at_
      cases at_ with
      | unwinding r =>
          obtain ⟨phase, bo, subs, log, -, -⟩ := cancel_keeps maxLifetime s
          have cancelled := inRounds.of_eq phase bo subs log
          have at_ : At rounds.length (.checking r.err s.timedOut) (r.calls rounds.length) :=
            .checking ⟨r.err, s.timedOut⟩
          exact ⟨rounds, _, cancelled.act ((List.append_nil _).symm ▸ at_)⟩
  | @sleep err timedOut checking running =>
      rw [checking] at at_
      cases at_ with
      | checking r =>
          refine ⟨rounds, _, inRounds.act ?_⟩
          rw [inRounds.bo, ← List.append_assoc]
          exact .sleeping s.now r
  | subscribed subscribing =>
      rw [subscribing] at at_
      cases at_
      exact ⟨rounds, _, inRounds.act (inRounds.subs ▸ .pumping)⟩
  | pumped err pumping =>
      rw [pumping] at at_
      cases at_
      exact ⟨rounds, _, inRounds.act (inRounds.subs ▸ .stopping err)⟩
  | @stopped err stopping =>
      rw [stopping] at at_
      cases at_
      exact ⟨rounds, _, inRounds.act (inRounds.subs ▸ .unwinding ⟨err, false⟩)⟩
  | @timer since sleeping elapsed =>
      rw [sleeping] at at_
      cases at_ with
      | sleeping since r =>
          refine ⟨rounds ++ [r], [], ?_, ?_, ?_, ?_⟩
          · rw [history_concat, List.append_nil]
            exact inRounds.actions
          · exact .top
          · rw [List.length_append, List.length_singleton, ← inRounds.subs]
          · rw [List.length_append, List.length_singleton, restAfter_succ, ← inRounds.bo]
  | returns looks ended => exact ⟨rounds, _, inRounds.act (at_.returns looks)⟩

/-! ## The times of a run -/

/-- `b` may come after `a`. -/
structure Follows (a b : Nat × Action ε) : Prop where
  observed : a.2 = .observe → ∀ i, b.2 ≠ .subscribe i
  rested : ∀ d i, a.2 = .sleep d → b.2 = .subscribe i → a.1 + d ≤ b.1

theorem Follows.of_not_subscribe {a b : Nat × Action ε} (other : ∀ i, b.2 ≠ .subscribe i) :
    Follows a b := ⟨fun _ => other, fun _ i _ is => absurd is (other i)⟩

/-- The loop goes by its contexts and by the clock. -/
structure Timely (s : Supervisor ε) : Prop where
  follows : s.log.Pairwise Follows
  returns : ∀ result, s.phase = .returned result → result = none ∧ s.ctx ≠ none
  /-- Nothing is observed before the return. -/
  unobserved : (∀ result, s.phase ≠ .returned result) → ∀ a ∈ s.log, a.2 ≠ .observe
  /-- Every rest is over, but for the current one. -/
  slept : (∀ result, s.phase ≠ .returned result) → ∀ a ∈ s.log, ∀ d, a.2 = .sleep d →
    a.1 + d ≤ s.now ∨ s.phase = .sleeping a.1 ∧ d = s.bo

/-- What the loop does may follow, if it makes no subscription. -/
theorem follows_append {log : List (Nat × Action ε)} (follows : log.Pairwise Follows) (now : Nat)
    {actions : List (Action ε)} (others : ∀ a ∈ actions, ∀ i, a ≠ .subscribe i) :
    (log ++ actions.map (now, ·)).Pairwise Follows := by
  have all : ∀ b ∈ actions.map (now, ·), ∀ i, b.2 ≠ .subscribe i := by
    rintro b mem i
    obtain ⟨a, inActions, rfl⟩ := List.mem_map.mp mem
    exact others a inActions i
  rw [List.pairwise_append]
  refine ⟨follows, List.pairwise_of_forall_mem_list ?_, ?_⟩
  · exact fun _ _ b mem => .of_not_subscribe (all b mem)
  · exact fun _ _ b mem => .of_not_subscribe (all b mem)

/-- Neither asleep nor done. -/
def awake : LoopPhase ε → Bool
  | .sleeping _ | .returned _ => false
  | _ => true

theorem not_returned_of_awake (isAwake : awake s.phase = true) (result : Option ε) :
    s.phase ≠ .returned result := by
  intro returned
  rw [returned] at isAwake
  cases isAwake

/-- An awake loop has had all its rests. -/
theorem Timely.slept_of_awake (timely : s.Timely) (isAwake : awake s.phase = true)
    {a : Nat × Action ε} (mem : a ∈ s.log) {d : Nat} (isSleep : a.2 = .sleep d) :
    a.1 + d ≤ s.now := by
  rcases timely.slept (not_returned_of_awake isAwake) a mem d isSleep with elapsed | ⟨asleep, -⟩
  · exact elapsed
  · rw [asleep] at isAwake
    cases isAwake

/-- A call of `subscribe`, `pump` or `stop`, a return of it, or a line of the log. -/
def Plain : Action ε → Prop
  | .sleep _ | .observe => False
  | _ => True

/-- An awake loop stays timely when it does something plain. -/
theorem Timely.act_plain (timely : s.Timely) (isAwake : awake s.phase = true)
    {actions : List (Action ε)} {phase : LoopPhase ε} (still : awake phase = true)
    (plain : ∀ a ∈ actions, Plain a)
    (follows : (s.log ++ actions.map (s.now, ·)).Pairwise Follows) :
    (s.act actions phase).Timely := by
  have isPlain {a : Nat × Action ε} (mem : a ∈ actions.map (s.now, ·)) : Plain a.2 := by
    obtain ⟨action, inActions, rfl⟩ := List.mem_map.mp mem
    exact plain action inActions
  constructor
  · exact follows
  · exact fun result returned => absurd returned (not_returned_of_awake (s := s.act actions phase)
      still result)
  · intro _ a mem isObserve
    rcases List.mem_append.mp mem with before | now
    · exact timely.unobserved (not_returned_of_awake isAwake) a before isObserve
    · have impossible := isPlain now
      rw [isObserve] at impossible
      exact impossible
  · intro _ a mem d isSleep
    rcases List.mem_append.mp mem with before | now
    · exact .inl (timely.slept_of_awake isAwake before isSleep)
    · have impossible := isPlain now
      rw [isSleep] at impossible
      exact absurd impossible id

/-- It makes no subscription. -/
theorem Timely.act_other (timely : s.Timely) (isAwake : awake s.phase = true)
    {action : Action ε} {phase : LoopPhase ε} (still : awake phase = true)
    (plain : Plain action) (other : ∀ i, action ≠ .subscribe i) :
    (s.act [action] phase).Timely := by
  apply timely.act_plain isAwake still
  · simpa using plain
  · exact follows_append timely.follows _ (by simpa using other)

/-- It only goes on. -/
theorem Timely.act_nothing (timely : s.Timely) (isAwake : awake s.phase = true)
    {phase : LoopPhase ε} (still : awake phase = true) : (s.act [] phase).Timely := by
  apply timely.act_plain isAwake still (List.forall_mem_nil _)
  rw [List.map_nil, List.append_nil]
  exact timely.follows

/-- The contexts may end, and time may pass. -/
theorem Timely.of_eq (timely : s.Timely) (phase : s'.phase = s.phase) (bo : s'.bo = s.bo)
    (log : s'.log = s.log) (now : s.now ≤ s'.now) (ctx : s.ctx ≠ none → s'.ctx ≠ none) :
    s'.Timely where
  follows := log ▸ timely.follows
  returns result returned := by
    obtain ⟨isNil, ended⟩ := timely.returns result (phase ▸ returned)
    exact ⟨isNil, ctx ended⟩
  unobserved running := log ▸ timely.unobserved (phase ▸ running)
  slept running a mem d isSleep := by
    rcases timely.slept (phase ▸ running) a (log ▸ mem) d isSleep with elapsed | ⟨asleep, isBo⟩
    · exact .inl (Nat.le_trans elapsed now)
    · exact .inr ⟨phase.trans asleep, isBo.trans bo.symm⟩

/-- An awake loop goes to sleep. -/
theorem Timely.sleep (timely : s.Timely) (isAwake : awake s.phase = true) (timedOut : Bool)
    (err : Option ε) :
    (s.act ((if timedOut then [.printf err] else []) ++ [.sleep s.bo])
      (.sleeping s.now)).Timely := by
  have rests {action : Action ε}
      (mem : action ∈ (if timedOut then [.printf err] else []) ++ [.sleep s.bo]) :
      action = .printf err ∨ action = .sleep s.bo := by
    rcases List.mem_append.mp mem with isPrint | isSleep
    · split at isPrint
      · exact .inl (List.mem_singleton.mp isPrint)
      · cases isPrint
    · exact .inr (List.mem_singleton.mp isSleep)
  constructor
  · apply follows_append timely.follows
    cases timedOut <;> simp
  · intro result returned
    cases returned
  · intro _ a mem isObserve
    rcases List.mem_append.mp mem with before | now
    · exact timely.unobserved (not_returned_of_awake isAwake) a before isObserve
    · obtain ⟨action, inActions, rfl⟩ := List.mem_map.mp now
      rcases rests inActions with rfl | rfl <;> cases isObserve
  · intro _ a mem d isSleep
    rcases List.mem_append.mp mem with before | now
    · exact .inl (timely.slept_of_awake isAwake before isSleep)
    · obtain ⟨action, inActions, rfl⟩ := List.mem_map.mp now
      rcases rests inActions with rfl | rfl <;> cases isSleep
      exact .inr ⟨rfl, rfl⟩

/-- It wakes up once its rest is over. -/
theorem Timely.wake (timely : s.Timely) {since : Nat} (sleeping : s.phase = .sleeping since)
    (elapsed : since + s.bo ≤ s.now) (bo subs : Nat) :
    Timely { s with phase := .top, bo := bo, subs := subs } := by
  have running : ∀ result, s.phase ≠ .returned result := by
    rw [sleeping]
    intro result returned
    cases returned
  constructor
  · exact timely.follows
  · intro result returned
    cases returned
  · exact fun _ => timely.unobserved running
  · intro _ a mem d isSleep
    left
    rcases timely.slept running a mem d isSleep with isOver | ⟨asleep, rfl⟩
    · exact isOver
    · rw [sleeping] at asleep
      cases asleep
      exact elapsed

theorem Timely.step (timely : s.Timely) (stepped : Stepped maxLifetime s event s') :
    s'.Timely := by
  cases stepped with
  | tick d => exact timely.of_eq rfl rfl rfl (Nat.le_add_right _ _) id
  | ctxEnds err subCtx =>
      exact timely.of_eq rfl rfl rfl (Nat.le_refl _) fun _ => Option.some_ne_none err
  | expire => exact timely.of_eq rfl rfl rfl (Nat.le_refl _) id
  | start isTop running => exact timely.act_nothing (by rw [isTop]; rfl) rfl
  | subscribe starting =>
      have isAwake : awake s.phase = true := by
        rw [starting]
        rfl
      have derived : (s.derive maxLifetime).Timely :=
        timely.of_eq rfl rfl rfl (Nat.le_refl _) id
      apply derived.act_plain isAwake rfl
      · simp [Plain]
      · rw [List.map_singleton, List.pairwise_append]
        refine ⟨timely.follows, List.pairwise_singleton _ _, ?_⟩
        intro a mem b isLast
        rw [List.mem_singleton.mp isLast]
        constructor
        · intro observed
          exact absurd observed (timely.unobserved (not_returned_of_awake isAwake) a mem)
        · intro d i isSleep _
          exact timely.slept_of_awake isAwake mem isSleep
  | @cancel err unwinding =>
      obtain ⟨phase, bo, -, log, now, ctx⟩ := cancel_keeps maxLifetime s
      have cancelled : (s.cancel maxLifetime).Timely :=
        timely.of_eq phase bo log (Nat.le_of_eq now.symm) (by rw [ctx]; exact id)
      exact cancelled.act_nothing (by rw [phase, unwinding]; rfl) rfl
  | @sleep err timedOut checking running =>
      exact timely.sleep (by rw [checking]; rfl) timedOut err
  | subscribed subscribing =>
      exact timely.act_other (by rw [subscribing]; rfl) rfl trivial (by simp)
  | pumped err pumping => exact timely.act_other (by rw [pumping]; rfl) rfl trivial (by simp)
  | @stopped err stopping =>
      exact timely.act_other (by rw [stopping]; rfl) rfl trivial (by simp)
  | timer sleeping elapsed => exact timely.wake sleeping elapsed _ _
  | returns looks ended =>
      constructor
      · exact follows_append timely.follows _ (by simp)
      · intro result returned
        cases returned
        exact ⟨rfl, ended⟩
      · exact fun running => absurd rfl (running none)
      · exact fun running => absurd rfl (running none)

end Supervisor

theorem Supervisor.Timely.start (now : Nat) : ({ now := now } : Supervisor ε).Timely where
  follows := .nil
  returns _ returned := by cases returned
  unobserved _ := List.forall_mem_nil _
  slept _ := List.forall_mem_nil _

theorem Supervisor.InRounds.start (now : Nat) :
    ({ now := now } : Supervisor ε).InRounds [] [] where
  actions := rfl
  at_ := .top
  subs := rfl
  bo := restAfter_zero.symm

/-- `keepSubscribed` is a faithful supervisor, in every state of every run. -/
theorem keepSubscribed_supervises (maxLifetime : Int) (now : Nat)
    (events : List (LoopEvent ε)) :
    Always (Supervisor.keepSubscribed maxLifetime) Supervisor.Supervises { now := now } events := by
  have always : Always (Supervisor.keepSubscribed maxLifetime)
      (fun s => (∃ rounds part, s.InRounds rounds part) ∧ s.Timely) { now := now } events := by
    apply always_of_inductive
    · rintro s event s' ⟨⟨rounds, part, inRounds⟩, timely⟩ taken
      have stepped := Supervisor.stepped_of_step taken
      exact ⟨inRounds.step stepped, timely.step stepped⟩
    · exact ⟨⟨[], [], .start now⟩, .start now⟩
  apply always.imp
  rintro s ⟨⟨rounds, part, inRounds⟩, timely⟩
  constructor
  · exact timely.returns
  · exact ⟨rounds, part, inRounds.actions, inRounds.at_.part⟩
  · exact timely.follows.imp fun follows => follows.observed
  · exact timely.follows.imp fun follows => follows.rested

/-! ## The coarser loop -/

section

variable {δ β : Type} {snapshot : Option δ → Option β} {maxLifetime : Int}
  {s s' : Supervisor ε} {w : Watcher δ β} {event : LoopEvent ε}

/-- Where the loop is, as `Watcher` has it: from the look at the context on, it is in
`pump`. -/
def LoopPhase.coarse : LoopPhase ε → Phase
  | .top => .top
  | .starting | .subscribing | .pumping | .stopping _ | .unwinding _ | .checking _ _ => .pumping
  | .sleeping _ => .sleeping
  | .returned _ => .returned

/-- The watcher is where the loop is, or has still to see that its context has ended
during a rest. -/
structure Supervisor.Abstracts (s : Supervisor ε) (w : Watcher δ β) : Prop where
  cancelled : w.cancelled = s.ctx.isSome
  phase : (w.phase = s.phase.coarse ∧ (w.phase ≠ .returned → w.bo = s.bo)) ∨
    (s.phase = .top ∧ s.ctx ≠ none ∧ w.phase = .sleeping)

/-- The watcher takes a step to where the loop is. -/
theorem Supervisor.Abstracts.moves {label : Event δ} {w' : Watcher δ β}
    (taken : Watch.keepSubscribed snapshot w label = some w')
    (cancelled : w'.cancelled = s'.ctx.isSome) (phase : w'.phase = s'.phase.coarse)
    (bo : w'.phase ≠ .returned → w'.bo = s'.bo) :
    ∃ labels w', exec (Watch.keepSubscribed snapshot) w labels = some w' ∧ s'.Abstracts w' :=
  ⟨[label], w', by rw [exec, taken]; rfl, cancelled, .inl ⟨phase, bo⟩⟩

/-- A step of the loop is matched by at most one step of the watcher. -/
theorem Supervisor.Abstracts.step (abstracts : s.Abstracts w)
    (stepped : Supervisor.Stepped maxLifetime s event s') :
    ∃ labels w', exec (Watch.keepSubscribed snapshot) w labels = some w' ∧ s'.Abstracts w' := by
  obtain ⟨cancelled, place⟩ := abstracts
  have same (notTop : s.phase.coarse ≠ .top) :
      w.phase = s.phase.coarse ∧ (w.phase ≠ .returned → w.bo = s.bo) := by
    rcases place with here | ⟨isTop, -⟩
    · exact here
    · exact absurd (congrArg LoopPhase.coarse isTop) notTop
  have notCancelled (running : s.ctx = none) : w.cancelled = false := by
    rw [cancelled, running]
    rfl
  have isCancelled (ended : s.ctx ≠ none) : w.cancelled = true := by
    rw [cancelled]
    exact Option.isSome_iff_ne_none.mpr ended
  -- within a round the watcher pumps
  have pumps (isPumping : s.phase.coarse = .pumping) {t : Supervisor ε} (ctx : t.ctx = s.ctx)
      (bo : t.bo = s.bo) (phase : t.phase.coarse = .pumping) :
      ∃ labels w', exec (Watch.keepSubscribed snapshot) w labels = some w' ∧ t.Abstracts w' := by
    obtain ⟨here, isBo⟩ := same (by rw [isPumping]; decide)
    rw [isPumping] at here
    refine ⟨[], w, rfl, cancelled.trans (congrArg _ ctx.symm), .inl ⟨?_, ?_⟩⟩
    · rw [here, phase]
    · exact fun running => (isBo running).trans bo.symm
  cases stepped with
  | tick d | expire => exact ⟨[], w, rfl, cancelled, place⟩
  | ctxEnds err subCtx =>
      refine ⟨[.cancel], { w with cancelled := true }, rfl, rfl, ?_⟩
      rcases place with here | ⟨isTop, -, sleeping⟩
      · exact .inl here
      · exact .inr ⟨isTop, Option.some_ne_none err, sleeping⟩
  | start isTop running =>
      rcases place with ⟨here, isBo⟩ | ⟨-, ended, -⟩
      · rw [isTop] at here
        have taken : Watch.keepSubscribed snapshot w .subscribe =
            some { w with phase := .pumping, first := true, changed := false } := by
          simp only [Watch.keepSubscribed, here, notCancelled running]
          rfl
        refine Abstracts.moves taken cancelled rfl fun _ => isBo ?_
        simp [here, LoopPhase.coarse]
      · exact absurd running ended
  | subscribe starting =>
      exact pumps (by rw [starting]; rfl) rfl rfl rfl
  | cancel unwinding =>
      obtain ⟨-, bo, -, -, -, ctx⟩ := Supervisor.cancel_keeps maxLifetime s
      exact pumps (by rw [unwinding]; rfl) ctx bo rfl
  | sleep checking running =>
      obtain ⟨here, isBo⟩ := same (by simp [checking, LoopPhase.coarse])
      rw [checking] at here
      have taken : Watch.keepSubscribed snapshot w .terminate =
          some { w with phase := .sleeping } := by
        simp only [Watch.keepSubscribed, here, notCancelled running]
        rfl
      refine Abstracts.moves taken cancelled rfl fun _ => isBo ?_
      simp [here, LoopPhase.coarse]
  | subscribed subscribing =>
      exact pumps (by rw [subscribing]; rfl) rfl rfl rfl
  | pumped err pumping =>
      exact pumps (by rw [pumping]; rfl) rfl rfl rfl
  | stopped stopping =>
      exact pumps (by rw [stopping]; rfl) rfl rfl rfl
  | timer sleeping elapsed =>
      obtain ⟨here, isBo⟩ := same (by simp [sleeping, LoopPhase.coarse])
      rw [sleeping] at here
      by_cases running : s.ctx = none
      · have taken : Watch.keepSubscribed snapshot w .slept =
            some { w with phase := .top, bo := min (w.bo * 2) watchBackoffMax } := by
          simp only [Watch.keepSubscribed, here, notCancelled running]
          rfl
        refine Abstracts.moves taken cancelled rfl fun _ => ?_
        rw [isBo (by simp [here, LoopPhase.coarse])]
      · exact ⟨[], w, rfl, cancelled, .inr ⟨rfl, running, here⟩⟩
  | returns looks ended =>
      have returned : ∃ label : Event δ, Watch.keepSubscribed snapshot w label =
          some { w with phase := .returned } := by
        have atSlept (here : w.phase = .sleeping) : ∃ label : Event δ,
            Watch.keepSubscribed snapshot w label = some { w with phase := .returned } :=
          ⟨.slept, by simp only [Watch.keepSubscribed, here, isCancelled ended, if_true]⟩
        rcases place with ⟨here, -⟩ | ⟨-, -, sleeping⟩
        · generalize s.phase = phase at looks here
          cases looks with
          | top =>
              refine ⟨.subscribe, ?_⟩
              simp only [Watch.keepSubscribed, here, LoopPhase.coarse, isCancelled ended, if_true]
          | checking err timedOut =>
              refine ⟨.terminate, ?_⟩
              simp only [Watch.keepSubscribed, here, LoopPhase.coarse, isCancelled ended, if_true]
          | sleeping since => exact atSlept here
        · exact atSlept sleeping
      obtain ⟨label, taken⟩ := returned
      exact Abstracts.moves taken cancelled rfl fun running => absurd rfl running

/-- `Watcher` follows every run of the loop, whatever document it watches. -/
theorem Supervisor.abstracts_of_exec (doc : Option δ) (now : Nat) {events : List (LoopEvent ε)}
    (run : exec (Supervisor.keepSubscribed maxLifetime) { now := now } events = some s) :
    ∃ labels w, exec (Watch.keepSubscribed snapshot) ({ doc := doc } : Watcher δ β) labels =
      some w ∧ s.Abstracts w := by
  have always : Always (Supervisor.keepSubscribed maxLifetime)
      (fun s : Supervisor ε => ∃ labels w,
        exec (Watch.keepSubscribed snapshot) ({ doc := doc } : Watcher δ β) labels = some w ∧
          s.Abstracts w) { now := now } events := by
    apply always_of_inductive
    · rintro s event s' ⟨labels, w, before, abstracts⟩ taken
      obtain ⟨more, w', after, abstracts'⟩ :
          ∃ more w', exec (Watch.keepSubscribed snapshot) w more = some w' ∧ s'.Abstracts w' :=
        abstracts.step (Supervisor.stepped_of_step taken)
      refine ⟨labels ++ more, w', ?_, abstracts'⟩
      rw [exec_append before, after]
    · exact ⟨[], { doc := doc }, rfl, rfl, .inl ⟨rfl, fun _ => rfl⟩⟩
  exact always.last run

end

end Drover.Watch
