import Mathlib.Algebra.Order.Field.Basic
import Mathlib.Tactic.Linarith
import Mathlib.Tactic.Ring

/-!
# Token buckets

A bucket that is refilled at a rate up to a capacity and gives a token to each
call that finds one.  The readings of the clock are anything; a reading before
the last one takes tokens away.  What a bucket gives out in a run of calls that
ends with a token is bounded by its capacity and what the rate yields between
the first reading and the last.
-/

namespace Drover.Protocol

universe u

/-- The tokens that were left, and when that was. -/
structure Bucket (α : Type u) where
  tokens : α
  lastFill : α

namespace Bucket

variable {α : Type u} [Field α] [LinearOrder α]

/-- Refill at a reading of the clock. -/
def refill (cap rate now : α) (b : Bucket α) : Bucket α where
  tokens := min (b.tokens + (now - b.lastFill) * rate) cap
  lastFill := now

/-- Take a token if there is one. -/
def take (b : Bucket α) : Bool × Bucket α :=
  if b.tokens < 1 then (false, b) else (true, { b with tokens := b.tokens - 1 })

/-- A call at a reading of the clock. -/
def serve (cap rate : α) (b : Bucket α) (now : α) : Bool × Bucket α := (b.refill cap rate now).take

/-- The answers to calls. -/
def answers (cap rate : α) : Bucket α → List α → List Bool
  | _, [] => []
  | b, now :: later => (b.serve cap rate now).1 :: answers cap rate (b.serve cap rate now).2 later

/-- The bucket after calls. -/
def after (cap rate : α) (b : Bucket α) (calls : List α) : Bucket α :=
  calls.foldl (fun b now => (b.serve cap rate now).2) b

/-- What an answer takes out of the bucket. -/
def cost (answer : Bool) : α := if answer then 1 else 0

variable {cap rate : α}

@[simp]
theorem take_lastFill (b : Bucket α) : b.take.2.lastFill = b.lastFill := by
  rw [take]
  split <;> rfl

theorem take_tokens (b : Bucket α) : b.take.2.tokens + cost b.take.1 = b.tokens := by
  rw [take]
  split
  · exact add_zero b.tokens
  · exact sub_add_cancel b.tokens 1

@[simp]
theorem serve_lastFill (b : Bucket α) (now : α) : (b.serve cap rate now).2.lastFill = now :=
  take_lastFill _

@[simp]
theorem after_cons (b : Bucket α) (now : α) (later : List α) :
    b.after cap rate (now :: later) = (b.serve cap rate now).2.after cap rate later := rfl

/-- A call leaves what was there and is refilled, less what it takes. -/
theorem serve_tokens_le (b : Bucket α) (now : α) :
    (b.serve cap rate now).2.tokens + cost (b.serve cap rate now).1 ≤
      b.tokens + (now - b.lastFill) * rate := by
  rw [serve, take_tokens]
  exact min_le_left _ _

/-- A call leaves less than the capacity by what it takes. -/
theorem serve_tokens_le_cap (b : Bucket α) (now : α) :
    (b.serve cap rate now).2.tokens + cost (b.serve cap rate now).1 ≤ cap := by
  rw [serve, take_tokens]
  exact min_le_right _ _

theorem after_lastFill (b : Bucket α) {calls : List α} {last : α}
    (isLast : calls.getLast? = some last) : (b.after cap rate calls).lastFill = last := by
  obtain ⟨before, rfl⟩ := List.getLast?_eq_some_iff.mp isLast
  rw [after, List.foldl_append, List.foldl_cons, List.foldl_nil, serve_lastFill]

theorem count_answers_cons (b : Bucket α) (now : α) (later : List α) :
    ((b.answers cap rate (now :: later)).count true : α) =
      ((b.serve cap rate now).2.answers cap rate later).count true +
        cost (b.serve cap rate now).1 := by
  rw [answers, List.count_cons, cost]
  cases (b.serve cap rate now).1
  · simp
  · simp

variable [IsStrictOrderedRing α]

theorem cost_nonneg (answer : Bool) : (0 : α) ≤ cost answer := by
  cases answer
  · exact le_refl 0
  · exact zero_le_one

theorem take_nonneg {b : Bucket α} (taken : b.take.1 = true) : 0 ≤ b.take.2.tokens := by
  rw [take] at taken ⊢
  split at taken
  · cases taken
  · rename_i full
    rw [if_neg full]
    exact sub_nonneg.mpr (not_lt.mp full)

/-- The bucket never holds more than its capacity. -/
theorem tokens_le_cap (b : Bucket α) (now : α) : (b.serve cap rate now).2.tokens ≤ cap :=
  le_trans (le_add_of_nonneg_right (cost_nonneg _)) (serve_tokens_le_cap b now)

/-- What is left after a run and what was given out in it are no more than what
was there and the refill between the readings. -/
theorem after_tokens_le (b : Bucket α) (calls : List α) :
    (b.after cap rate calls).tokens + (b.answers cap rate calls).count true ≤
      b.tokens + ((b.after cap rate calls).lastFill - b.lastFill) * rate := by
  induction calls generalizing b with
  | nil =>
      rw [after, List.foldl_nil, answers, List.count_nil, Nat.cast_zero, add_zero, sub_self,
        zero_mul, add_zero]
  | cons now later ih =>
      have first : (b.serve cap rate now).2.tokens + cost (b.serve cap rate now).1 ≤
          b.tokens + (now - b.lastFill) * rate := serve_tokens_le b now
      have rest := ih (b.serve cap rate now).2
      rw [serve_lastFill] at rest
      rw [after_cons, count_answers_cons]
      linarith

/-- After a call that got a token, no tokens are missing. -/
theorem after_nonneg (b : Bucket α) {calls : List α}
    (taken : (b.answers cap rate calls).getLast? = some true) :
    0 ≤ (b.after cap rate calls).tokens := by
  induction calls generalizing b with
  | nil => cases taken
  | cons now later ih =>
      cases later with
      | nil =>
          rw [answers, answers, List.getLast?_singleton, Option.some.injEq] at taken
          exact take_nonneg taken
      | cons second later =>
          rw [answers, answers, List.getLast?_cons_cons] at taken
          exact ih _ taken

/-- A run that ends with a token gives out no more than the capacity and the
refill from its first reading to its last. -/
theorem count_answers_le (b : Bucket α) {first last : α} {later : List α}
    (isLast : (first :: later).getLast? = some last)
    (taken : (b.answers cap rate (first :: later)).getLast? = some true) :
    ((b.answers cap rate (first :: later)).count true : α) ≤ cap + (last - first) * rate := by
  have full : (b.serve cap rate first).2.tokens + cost (b.serve cap rate first).1 ≤ cap :=
    serve_tokens_le_cap b first
  have run := @after_tokens_le _ _ _ cap rate _ (b.serve cap rate first).2 later
  have left := after_nonneg b taken
  have reading : (b.after cap rate (first :: later)).lastFill = last := after_lastFill b isLast
  rw [after_cons] at left reading
  rw [reading, serve_lastFill] at run
  rw [count_answers_cons]
  linarith

end Bucket

end Drover.Protocol
