import Mathlib.Algebra.Order.Group.Nat
import Mathlib.Algebra.Order.Monoid.Canonical.Defs
import Mathlib.Data.List.Induction
import Mathlib.Tactic.Abel

/-!
# Fixed windows

A counter that admits so many calls from a call on that opens a window, and none
after that until a reading of the clock behind the end of the window, which opens
the next one.  The readings may come in any order.  A run of calls within the length
of `n` windows meets at most `n + 1` of them; and a call is refused only if its
window has admitted all that it may.
-/

namespace Drover.Protocol

universe u

/-- A count, and when it starts again. -/
structure Window (τ : Type u) where
  count : Nat
  resetAt : τ

namespace Window

variable {τ : Type u} [AddCommMonoid τ] [LinearOrder τ]

/-- The window that a call opens. -/
def opened (length now : τ) : Window τ := ⟨1, now + length⟩

/-- A call at a reading of the clock. -/
def serve (limit : Nat) (length : τ) (w : Option (Window τ)) (now : τ) : Bool × Window τ :=
  match w with
  | none => (true, opened length now)
  | some w =>
      if w.resetAt < now then (true, opened length now)
      else (w.count + 1 ≤ limit, { w with count := w.count + 1 })

/-- The answers to calls. -/
def answers (limit : Nat) (length : τ) : Option (Window τ) → List τ → List Bool
  | _, [] => []
  | w, now :: later =>
      (serve limit length w now).1 :: answers limit length (some (serve limit length w now).2) later

/-- The window after calls. -/
def after (limit : Nat) (length : τ) (w : Option (Window τ)) (calls : List τ) :
    Option (Window τ) :=
  calls.foldl (fun w now => some (serve limit length w now).2) w

variable {limit : Nat} {length : τ}

theorem answers_append (w : Option (Window τ)) (calls later : List τ) :
    answers limit length w (calls ++ later) =
      answers limit length w calls ++ answers limit length (after limit length w calls) later := by
  induction calls generalizing w with
  | nil => rfl
  | cons now calls ih =>
      rw [List.cons_append, answers, answers, ih, List.cons_append]
      rfl

theorem length_answers (w : Option (Window τ)) (calls : List τ) :
    (answers limit length w calls).length = calls.length := by
  induction calls generalizing w with
  | nil => rfl
  | cons now calls ih => rw [answers, List.length_cons, ih, List.length_cons]

theorem after_append (w : Option (Window τ)) (calls : List τ) (now : τ) :
    after limit length w (calls ++ [now]) =
      some (serve limit length (after limit length w calls) now).2 := by
  rw [after, List.foldl_append]
  rfl

theorem serve_of_late {w : Window τ} {now : τ} (late : w.resetAt < now) :
    serve limit length (some w) now = (true, opened length now) := if_pos late

/-- A call that opens a window is admitted. -/
theorem count_answers_opened {w : Option (Window τ)} {now : τ}
    (opens : serve limit length w now = (true, opened length now)) (later : List τ) :
    (answers limit length w (now :: later)).count true =
      (answers limit length (some (opened length now)) later).count true + 1 := by
  rw [answers, opens, List.count_cons_self]

theorem serve_of_early {w : Window τ} {now : τ} (early : now ≤ w.resetAt) :
    serve limit length (some w) now =
      (decide (w.count + 1 ≤ limit), { w with count := w.count + 1 }) := if_neg (not_lt.mpr early)

/-! ## No more than the limit -/

section

variable [IsOrderedCancelAddMonoid τ]

/-- A window and the `n` windows behind it admit no more than what is left of the
first and `n` times the limit. -/
theorem count_answers_some_le (positive : 0 < limit) (w : Window τ) (n : Nat) {calls : List τ}
    (within : ∀ now ∈ calls, now ≤ w.resetAt + n • length) :
    (answers limit length (some w) calls).count true ≤ (limit - w.count) + n * limit := by
  induction calls generalizing w n with
  | nil => exact Nat.zero_le _
  | cons now later ih =>
      obtain ⟨nowWithin, within⟩ := List.forall_mem_cons.mp within
      rcases lt_or_ge w.resetAt now with late | early
      · rw [count_answers_opened (serve_of_late late)]
        cases n with
        | zero =>
            rw [zero_nsmul, add_zero] at nowWithin
            exact absurd late (not_lt.mpr nowWithin)
        | succ n =>
            have rest : (answers limit length (some (opened length now)) later).count true ≤
                (limit - 1) + n * limit := ih (opened length now) n fun next mem => by
              calc next ≤ w.resetAt + (n + 1) • length := within next mem
                _ ≤ now + (n + 1) • length := add_le_add_left late.le _
                _ = now + length + n • length := by rw [succ_nsmul']; abel
            have step : (n + 1) * limit = n * limit + limit := Nat.succ_mul n limit
            omega
      · have rest := ih { w with count := w.count + 1 } n within
        rw [answers, serve_of_early early, List.count_cons]
        simp only at rest ⊢
        by_cases room : w.count + 1 ≤ limit
        · rw [decide_eq_true room, if_pos (by rfl)]
          omega
        · rw [decide_eq_false room, if_neg (by decide)]
          omega

/-- Calls within the length of `n` windows meet at most `n + 1` windows. -/
theorem count_answers_le (positive : 0 < limit) (nonneg : 0 ≤ length) (w : Option (Window τ))
    (n : Nat) {start : τ} {calls : List τ}
    (within : ∀ now ∈ calls, start ≤ now ∧ now ≤ start + n • length) :
    (answers limit length w calls).count true ≤ (n + 1) * limit := by
  have product : (n + 1) * limit = n * limit + limit := Nat.succ_mul n limit
  cases calls with
  | nil => exact Nat.zero_le _
  | cons first later =>
      obtain ⟨firstWithin, laterWithin⟩ := List.forall_mem_cons.mp within
      -- a window that the first call opens ends behind the first of the `n` windows
      have fromOpened : (answers limit length (some (opened length first)) later).count true ≤
          (limit - 1) + n * limit := by
        apply count_answers_some_le positive (opened length first) n
        intro now mem
        calc now ≤ start + n • length := (laterWithin now mem).2
          _ ≤ first + length + n • length :=
            add_le_add_left (le_trans firstWithin.1 (le_add_of_nonneg_right nonneg)) _
      cases w with
      | none =>
          rw [count_answers_opened rfl]
          omega
      | some w =>
          rcases lt_or_ge w.resetAt first with late | early
          · rw [count_answers_opened (serve_of_late late)]
            omega
          · have fromWindow := count_answers_some_le positive w n fun now mem => by
              calc now ≤ start + n • length := (within now mem).2
                _ ≤ w.resetAt + n • length :=
                  add_le_add_left (le_trans firstWithin.1 early) _
            omega

end

/-! ## No less than the limit -/

/-- The answers to the calls of one window. -/
def inWindow (limit n : Nat) : List Bool := (List.range n).map fun i => decide (i < limit)

theorem count_inWindow (limit n : Nat) : (inWindow limit n).count true = min n limit := by
  induction n with
  | zero => rfl
  | succ n ih =>
      rw [inWindow, List.range_succ, List.map_append, List.count_append, ← inWindow, ih,
        List.map_singleton, List.count_singleton]
      by_cases room : n < limit
      · rw [decide_eq_true room, if_pos (by rfl)]
        omega
      · rw [decide_eq_false room, if_neg (by decide)]
        omega

theorem inWindow_succ (limit n : Nat) :
    inWindow limit (n + 1) = inWindow limit n ++ [decide (n < limit)] := by
  rw [inWindow, List.range_succ, List.map_append]
  rfl

/-- The present window: the call that opened it, and those since. -/
theorem exists_since (positive : 0 < limit) {calls : List τ} (nonempty : calls ≠ []) :
    ∃ before first since, calls = before ++ first :: since ∧
      after limit length none calls = some ⟨since.length + 1, first + length⟩ ∧
      answers limit length (after limit length none before) (first :: since) =
        inWindow limit (since.length + 1) := by
  have alone : inWindow limit 1 = [true] := by
    rw [inWindow_succ, decide_eq_true positive]
    rfl
  induction calls using List.reverseRecOn with
  | nil => exact absurd rfl nonempty
  | append_singleton calls now ih =>
      -- a call that opens a window is alone in it
      have opens : serve limit length (after limit length none calls) now =
          (true, opened length now) → ∃ before first since,
            calls ++ [now] = before ++ first :: since ∧
            after limit length none (calls ++ [now]) = some ⟨since.length + 1, first + length⟩ ∧
            answers limit length (after limit length none before) (first :: since) =
              inWindow limit (since.length + 1) := by
        intro served
        refine ⟨calls, now, [], rfl, ?_, ?_⟩
        · rw [after_append, served]
          rfl
        · rw [answers, served, List.length_nil, alone]
          rfl
      by_cases start : calls = []
      · subst start
        exact opens rfl
      · obtain ⟨before, first, since, isCalls, isWindow, isAnswers⟩ := ih start
        rcases lt_or_ge (first + length) now with late | early
        · exact opens (by rw [isWindow, serve_of_late late])
        · have served : serve limit length (after limit length none calls) now =
              (decide (since.length + 1 < limit), ⟨since.length + 1 + 1, first + length⟩) := by
            rw [isWindow, serve_of_early early]
            rfl
          refine ⟨before, first, since ++ [now], ?_, ?_, ?_⟩
          · rw [isCalls, List.append_assoc, List.cons_append]
          · rw [after_append, served, List.length_append, List.length_singleton]
          · have state : after limit length (after limit length none before) (first :: since) =
                after limit length none calls := by
              rw [isCalls, after, after, after, List.foldl_append]
            rw [← List.cons_append, answers_append, isAnswers, state, answers, served,
              List.length_append, List.length_singleton, inWindow_succ limit (since.length + 1)]
            rfl

/-- A call is refused only if its window has admitted all that it may. -/
theorem exists_full_of_refused (positive : 0 < limit) {calls : List τ} {now : τ}
    (refused : (serve limit length (after limit length none calls) now).1 = false) :
    ∃ before first since, calls = before ++ first :: since ∧ now ≤ first + length ∧
      (answers limit length (after limit length none before) (first :: since)).count true =
        limit := by
  have nonempty : calls ≠ [] := by
    rintro rfl
    cases refused
  obtain ⟨before, first, since, isCalls, isWindow, isAnswers⟩ := @exists_since _ _ _ _ length
    positive _ nonempty
  refine ⟨before, first, since, isCalls, ?_, ?_⟩
  · by_contra late
    rw [isWindow, serve_of_late (not_le.mp late)] at refused
    cases refused
  · rcases lt_or_ge (first + length) now with late | early
    · rw [isWindow, serve_of_late late] at refused
      cases refused
    · rw [isWindow, serve_of_early early, decide_eq_false_iff_not, not_le] at refused
      rw [isAnswers, count_inWindow]
      exact min_eq_right (Nat.le_of_lt_succ refused)

end Window

end Drover.Protocol
