import Mathlib.Data.List.Basic

/-!
# Separated pairs

Two strings joined by a separator.  The join tells its parts when the separator
is not in the first one.
-/

namespace Drover

universe u

variable {α : Type u} {sep : α} {first second first' second' : List α}

/-- Two joins are the same only for the same parts, or where the other first part
goes on after a separator. -/
theorem separated_eq_iff (clean : sep ∉ first) :
    first' ++ sep :: second' = first ++ sep :: second ↔
      (first' = first ∧ second' = second) ∨
        ∃ x, first' = first ++ sep :: x ∧ second = x ++ sep :: second' := by
  rw [List.append_eq_append_iff]
  constructor
  · rintro (⟨rest, isFirst, isTail⟩ | ⟨rest, isFirst, isTail⟩)
    · cases rest with
      | nil => exact .inl ⟨by simpa using isFirst.symm, (List.cons.inj isTail).2⟩
      | cons b rest =>
          rw [← (List.cons.inj isTail).1] at isFirst
          exact absurd (isFirst ▸ List.mem_append_right _ List.mem_cons_self) clean
    · cases rest with
      | nil => exact .inl ⟨by simpa using isFirst, (List.cons.inj isTail).2.symm⟩
      | cons b rest =>
          rw [← (List.cons.inj isTail).1] at isFirst
          exact .inr ⟨rest, isFirst, (List.cons.inj isTail).2⟩
  · rintro (⟨rfl, rfl⟩ | ⟨x, rfl, rfl⟩)
    · exact .inl ⟨[], by simp, rfl⟩
    · exact .inr ⟨sep :: x, rfl, rfl⟩

theorem separated_inj (clean : sep ∉ first) (clean' : sep ∉ first') :
    first' ++ sep :: second' = first ++ sep :: second ↔ first' = first ∧ second' = second := by
  rw [separated_eq_iff clean, or_iff_left]
  rintro ⟨x, rfl, -⟩
  exact clean' (List.mem_append_right _ List.mem_cons_self)

/-- So it does when the separator is not in the second one. -/
theorem separated_inj_right (clean : sep ∉ second) (clean' : sep ∉ second') :
    first' ++ sep :: second' = first ++ sep :: second ↔ first' = first ∧ second' = second := by
  have reversed : ∀ before after : List α,
      (before ++ sep :: after).reverse = after.reverse ++ sep :: before.reverse := by
    intro before after
    rw [List.reverse_append, List.reverse_cons, List.append_assoc, List.singleton_append]
  rw [← List.reverse_inj, reversed, reversed, separated_inj (mt List.mem_reverse.mp clean)
    (mt List.mem_reverse.mp clean'), List.reverse_inj, List.reverse_inj, and_comm]

end Drover
