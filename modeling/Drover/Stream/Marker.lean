import Mathlib.Data.List.Infix

/-!
# Markers in streams

Finding a marker in a stream that arrives in pieces.  `cutAt` splits a list at
the first occurrence of the marker; `held` is the longest tail that a later
piece could still complete to an occurrence, and `released` is everything before
it.  The splitting laws say that nothing but the held tail has to be remembered
between two pieces.
-/

namespace Drover.Stream

universe u

variable {β : Type u} [DecidableEq β]

/-- Split at the first occurrence of the marker, which is dropped. -/
def cutAt (marker : List β) : List β → Option (List β × List β)
  | [] => none
  | x :: rest =>
      if marker <+: x :: rest then some ([], (x :: rest).drop marker.length)
      else (cutAt marker rest).map fun cut => (x :: cut.1, cut.2)

/-- The longest suffix that is a proper prefix of the marker. -/
def held (marker : List β) : List β → List β
  | [] => []
  | x :: rest =>
      if x :: rest <+: marker ∧ (x :: rest).length < marker.length then x :: rest
      else held marker rest

/-- Everything before the held tail. -/
def released (marker : List β) : List β → List β
  | [] => []
  | x :: rest =>
      if x :: rest <+: marker ∧ (x :: rest).length < marker.length then []
      else x :: released marker rest

variable {marker : List β}

/-! ## The held tail -/

@[simp]
theorem released_append_held (marker xs : List β) : released marker xs ++ held marker xs = xs := by
  induction xs with
  | nil => rfl
  | cons x rest ih =>
      simp only [released, held]
      split
      · rfl
      · rw [List.cons_append, ih]

theorem held_isPrefix (marker xs : List β) : held marker xs <+: marker := by
  induction xs with
  | nil => exact List.nil_prefix
  | cons x rest ih =>
      simp only [held]
      split
      · rename_i proper
        exact proper.1
      · exact ih

theorem held_length_lt (nonempty : marker ≠ []) (xs : List β) :
    (held marker xs).length < marker.length := by
  induction xs with
  | nil => exact List.length_pos_iff.mpr nonempty
  | cons x rest ih =>
      simp only [held]
      split
      · rename_i proper
        exact proper.2
      · exact ih

theorem held_isSuffix (marker xs : List β) : held marker xs <:+ xs :=
  ⟨released marker xs, released_append_held marker xs⟩

/-- No longer suffix is a proper prefix of the marker. -/
theorem length_le_held {tail xs : List β} (isSuffix : tail <:+ xs) (isPrefix : tail <+: marker)
    (proper : tail.length < marker.length) : tail.length ≤ (held marker xs).length := by
  induction xs with
  | nil =>
      rw [List.suffix_nil.mp isSuffix]
      exact Nat.le_refl _
  | cons x rest ih =>
      simp only [held]
      split
      · exact isSuffix.length_le
      · rename_i notProper
        rcases List.suffix_cons_iff.mp isSuffix with whole | inRest
        · subst whole
          exact absurd ⟨isPrefix, proper⟩ notProper
        · exact ih inRest

/-- A proper prefix of the marker is held as a whole. -/
theorem held_eq_self {xs : List β} (isPrefix : xs <+: marker) (proper : xs.length < marker.length) :
    held marker xs = xs := by
  cases xs with
  | nil => rfl
  | cons x rest => rw [held, if_pos ⟨isPrefix, proper⟩]

theorem released_eq_nil {xs : List β} (isPrefix : xs <+: marker)
    (proper : xs.length < marker.length) : released marker xs = [] := by
  cases xs with
  | nil => rfl
  | cons x rest => rw [released, if_pos ⟨isPrefix, proper⟩]

@[simp]
theorem held_held (marker xs : List β) : held marker (held marker xs) = held marker xs := by
  by_cases empty : marker = []
  · subst empty
    rw [List.prefix_nil.mp (held_isPrefix [] xs), held]
  · exact held_eq_self (held_isPrefix marker xs) (held_length_lt empty xs)

omit [DecidableEq β] in
/-- A longer list is not a proper prefix of the marker if a shorter one is
not. -/
theorem not_proper_append {xs : List β}
    (notProper : ¬ (xs <+: marker ∧ xs.length < marker.length)) (ys : List β) :
    ¬ (xs ++ ys <+: marker ∧ (xs ++ ys).length < marker.length) := by
  rintro ⟨isPrefix, proper⟩
  refine notProper ⟨(List.prefix_append xs ys).trans isPrefix, ?_⟩
  rw [List.length_append] at proper
  omega

/-- What is held of two pieces is held of the first piece's tail and the
second. -/
theorem held_append (marker xs ys : List β) :
    held marker (xs ++ ys) = held marker (held marker xs ++ ys) := by
  induction xs with
  | nil => rfl
  | cons x rest ih =>
      by_cases proper : x :: rest <+: marker ∧ (x :: rest).length < marker.length
      · rw [held_eq_self proper.1 proper.2]
      · have longer : ¬ (x :: (rest ++ ys) <+: marker ∧
            (x :: (rest ++ ys)).length < marker.length) := not_proper_append proper ys
        rw [show held marker (x :: rest) = held marker rest by rw [held, if_neg proper], ← ih,
          List.cons_append, held, if_neg longer]

/-- Nothing is held after an element that is not in the marker. -/
theorem held_concat_of_notMem {b : β} (notMem : b ∉ marker) (xs : List β) :
    held marker (xs ++ [b]) = [] := by
  obtain ⟨front, whole⟩ := held_isSuffix marker (xs ++ [b])
  rcases List.eq_nil_or_concat (held marker (xs ++ [b])) with empty | ⟨init, last, tail⟩
  · exact empty
  · rw [List.concat_eq_append] at tail
    rw [tail, ← List.append_assoc] at whole
    obtain ⟨-, same⟩ := List.append_inj' whole rfl
    have inMarker := (held_isPrefix marker (xs ++ [b])).subset (a := last) (by simp [tail])
    rw [List.singleton_inj.mp same] at inMarker
    exact absurd inMarker notMem

/-! ## The first occurrence -/

theorem cutAt_eq_append {xs before after : List β} (cut : cutAt marker xs = some (before, after)) :
    xs = before ++ marker ++ after := by
  induction xs generalizing before with
  | nil => cases cut
  | cons x rest ih =>
      simp only [cutAt] at cut
      split at cut
      · rename_i isPrefix
        cases cut
        obtain ⟨tail, same⟩ := isPrefix
        rw [← same, List.drop_left, List.nil_append]
      · obtain ⟨⟨inner, tail⟩, innerCut, same⟩ := Option.map_eq_some_iff.mp cut
        cases same
        rw [ih innerCut]
        rfl

/-- No occurrence stands before the first. -/
theorem cutAt_length_le {xs before after q s : List β}
    (cut : cutAt marker xs = some (before, after)) (occurs : xs = q ++ marker ++ s) :
    before.length ≤ q.length := by
  induction xs generalizing before q with
  | nil => cases cut
  | cons x rest ih =>
      simp only [cutAt] at cut
      split at cut
      · cases cut
        exact Nat.zero_le _
      · rename_i notPrefix
        obtain ⟨⟨inner, tail⟩, innerCut, same⟩ := Option.map_eq_some_iff.mp cut
        cases same
        cases q with
        | nil => exact absurd ⟨s, occurs.symm⟩ notPrefix
        | cons first q =>
            have restOccurs : rest = q ++ marker ++ s := List.tail_eq_of_cons_eq occurs
            exact Nat.succ_le_succ (ih innerCut restOccurs)

/-- Without an occurrence there is nothing to cut at, and conversely. -/
theorem cutAt_eq_none_iff (nonempty : marker ≠ []) {xs : List β} :
    cutAt marker xs = none ↔ ¬ marker <:+: xs := by
  induction xs with
  | nil => simp [cutAt, nonempty]
  | cons x rest ih =>
      rw [cutAt, List.infix_cons_iff]
      by_cases isPrefix : marker <+: x :: rest
      · simp [isPrefix]
      · simp [isPrefix, ih]

theorem cutAt_of_isPrefix (nonempty : marker ≠ []) (after : List β) :
    cutAt marker (marker ++ after) = some ([], after) := by
  cases marker with
  | nil => exact absurd rfl nonempty
  | cons m rest =>
      rw [List.cons_append, cutAt, if_pos (by simp), ← List.cons_append, List.drop_left]

/-- More input does not move the first occurrence. -/
theorem cutAt_append_of_some {xs before after : List β}
    (cut : cutAt marker xs = some (before, after)) (ys : List β) :
    cutAt marker (xs ++ ys) = some (before, after ++ ys) := by
  induction xs generalizing before with
  | nil => cases cut
  | cons x rest ih =>
      simp only [cutAt, List.cons_append] at cut ⊢
      split at cut
      · rename_i isPrefix
        cases cut
        have isPrefix' : marker <+: x :: (rest ++ ys) :=
          isPrefix.trans (List.prefix_append (x :: rest) ys)
        rw [if_pos isPrefix', ← List.cons_append, List.drop_append_of_le_length isPrefix.length_le]
      · rename_i notPrefix
        obtain ⟨⟨inner, tail⟩, innerCut, same⟩ := Option.map_eq_some_iff.mp cut
        cases same
        have notPrefix' : ¬ marker <+: x :: (rest ++ ys) := by
          intro isPrefix
          -- an occurrence lies inside `rest`, so the marker is no longer than `x :: rest`
          have fits : marker.length ≤ (x :: rest).length := by
            have := congrArg List.length (cutAt_eq_append innerCut)
            simp only [List.length_append] at this
            simp only [List.length_cons]
            omega
          exact notPrefix (List.prefix_of_prefix_length_le isPrefix
            (List.prefix_append (x :: rest) ys) fits)
        rw [if_neg notPrefix', ih innerCut]
        rfl

/-- Without an occurrence in the first piece, the first occurrence is found in
its held tail and the rest. -/
theorem cutAt_append_of_none {xs : List β} (none_ : cutAt marker xs = none) (ys : List β) :
    cutAt marker (xs ++ ys) =
      (cutAt marker (held marker xs ++ ys)).map fun cut =>
        (released marker xs ++ cut.1, cut.2) := by
  induction xs with
  | nil => simp [held, released]
  | cons x rest ih =>
      by_cases proper : x :: rest <+: marker ∧ (x :: rest).length < marker.length
      · rw [held_eq_self proper.1 proper.2, released_eq_nil proper.1 proper.2]
        simp
      · simp only [cutAt] at none_
        split at none_
        · cases none_
        · rename_i notPrefix
          have restNone : cutAt marker rest = none := by
            simpa using none_
          have notPrefix' : ¬ marker <+: x :: (rest ++ ys) := by
            intro isPrefix
            rcases List.prefix_or_prefix_of_prefix isPrefix
              (List.prefix_append (x :: rest) ys) with fits | sticksOut
            · exact notPrefix fits
            · by_cases shorter : (x :: rest).length < marker.length
              · exact proper ⟨sticksOut, shorter⟩
              · exact notPrefix (sticksOut.eq_of_length_le (Nat.le_of_not_lt shorter) ▸
                  List.prefix_refl _)
          rw [List.cons_append, cutAt, if_neg notPrefix', ih restNone,
            held, if_neg proper, released, if_neg proper, Option.map_map]
          rfl

/-- After text without it, a marker that does not overlap itself is found where
it stands. -/
theorem cutAt_append_marker (nonempty : marker ≠ []) (noOverlap : held marker marker = [])
    {xs : List β} (absent : ¬ marker <:+: xs) (ys : List β) :
    cutAt marker (xs ++ (marker ++ ys)) = some (xs, ys) := by
  induction xs with
  | nil => exact cutAt_of_isPrefix nonempty ys
  | cons x rest ih =>
      have notPrefix : ¬ marker <+: x :: (rest ++ (marker ++ ys)) := by
        intro isPrefix
        rcases List.prefix_or_prefix_of_prefix isPrefix
          (List.prefix_append (x :: rest) (marker ++ ys)) with fits | ⟨tail, whole⟩
        · exact absent fits.isInfix
        · -- the marker sticks out of the text by `tail`, which then overlaps the marker
          have sticksOut : x :: rest ++ tail <+: x :: rest ++ (marker ++ ys) := whole ▸ isPrefix
          rw [List.prefix_append_right_inj] at sticksOut
          have lengths := congrArg List.length whole
          simp only [List.length_append, List.length_cons] at lengths
          have isMarker : tail <+: marker :=
            List.prefix_of_prefix_length_le sticksOut (List.prefix_append _ _) (by omega)
          have none_ := length_le_held ⟨x :: rest, whole⟩ isMarker (by omega)
          rw [noOverlap, List.length_nil, Nat.le_zero, List.length_eq_zero_iff] at none_
          subst none_
          rw [List.append_nil] at whole
          exact absent (whole ▸ List.infix_refl _)
      rw [List.cons_append, cutAt, if_neg notPrefix,
        ih fun occurs => absent (occurs.trans (List.suffix_cons x rest).isInfix)]
      rfl

/-- The held tail contains no occurrence. -/
theorem cutAt_held (nonempty : marker ≠ []) (xs : List β) :
    cutAt marker (held marker xs) = none := by
  rw [cutAt_eq_none_iff nonempty]
  intro occurs
  exact Nat.lt_irrefl _ (Nat.lt_of_lt_of_le (held_length_lt nonempty xs) occurs.length_le)

/-- The part before the first occurrence contains no occurrence. -/
theorem not_infix_before (nonempty : marker ≠ []) {xs before after : List β}
    (cut : cutAt marker xs = some (before, after)) : ¬ marker <:+: before := by
  intro occurs
  obtain ⟨⟨first, tail⟩, found⟩ := Option.ne_none_iff_exists'.mp
    (mt (cutAt_eq_none_iff nonempty).mp (not_not_intro occurs))
  have longer := cutAt_append_of_some found (marker ++ after)
  rw [← List.append_assoc, ← cutAt_eq_append cut, cut, Option.some.injEq, Prod.mk.injEq] at longer
  have short := congrArg List.length (cutAt_eq_append found)
  rw [← longer.1] at short
  simp only [List.length_append] at short
  have := List.length_pos_iff.mpr nonempty
  omega

end Drover.Stream
