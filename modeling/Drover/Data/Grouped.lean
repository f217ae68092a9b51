import Mathlib.Data.List.Basic
import Mathlib.Data.List.Induction
import Mathlib.Order.Lattice

/-!
# Lists ordered by a key

A list whose keys never decrease is the concatenation of its parts of equal key,
taken in increasing order, and each of these parts is contiguous.
-/

namespace Drover.Data

universe u v

variable {α : Type u} {κ : Type v} [LinearOrder κ]

/-- The keys of a list ordered by key, each once, and the list as the
concatenation of its parts. -/
theorem exists_keys_of_pairwise (key : α → κ) {l : List α}
    (ordered : l.Pairwise fun a b => key a ≤ key b) :
    ∃ keys : List κ, keys.Pairwise (· < ·) ∧ (∀ k, k ∈ keys ↔ ∃ a ∈ l, key a = k) ∧
      l = keys.flatMap fun k => l.filter (key · = k) := by
  induction l using List.reverseRecOn with
  | nil => exact ⟨[], .nil, by simp, rfl⟩
  | append_singleton l b ih =>
      obtain ⟨front, -, last⟩ := List.pairwise_append.mp ordered
      obtain ⟨keys, increasing, occurring, parts⟩ := ih front
      have below : ∀ k ∈ keys, k ≤ key b := by
        intro k mem
        obtain ⟨a, aMem, rfl⟩ := (occurring k).mp mem
        exact last a aMem b (List.mem_singleton.mpr rfl)
      have older : ∀ ks : List κ, key b ∉ ks →
          (ks.flatMap fun k => (l ++ [b]).filter (key · = k)) =
            ks.flatMap fun k => l.filter (key · = k) := by
        intro ks absent
        apply List.flatMap_congr
        intro k mem
        have ne : key b ≠ k := fun same => absent (same ▸ mem)
        simp [ne]
      by_cases known : key b ∈ keys
      · -- the key is the greatest one, so its part is the last one
        obtain ⟨before, after, split⟩ := List.append_of_mem known
        rw [split, List.pairwise_append, List.pairwise_cons] at increasing
        obtain ⟨sorted, ⟨greater, -⟩, less⟩ := increasing
        have nothing : after = [] := by
          rw [List.eq_nil_iff_forall_not_mem]
          intro k mem
          exact absurd (below k (by simp [split, mem])) (not_le_of_gt (greater k mem))
        have absent : key b ∉ before :=
          fun mem => lt_irrefl _ (less _ mem _ (List.mem_cons_self ..))
        subst nothing
        refine ⟨keys, ?_, fun k => ?_, ?_⟩
        · rw [split, List.pairwise_append]
          exact ⟨sorted, List.pairwise_singleton .., less⟩
        · rw [occurring]
          constructor
          · rintro ⟨a, mem, same⟩
            exact ⟨a, by simp [mem], same⟩
          · rintro ⟨a, mem, rfl⟩
            rcases List.mem_append.mp mem with mem | mem
            · exact ⟨a, mem, rfl⟩
            · rw [List.mem_singleton.mp mem]
              exact (occurring _).mp known
        · rw [split, List.flatMap_append, older before absent]
          rw [split, List.flatMap_append] at parts
          conv_lhs => rw [parts]
          simp
      · refine ⟨keys ++ [key b], ?_, fun k => ?_, ?_⟩
        · rw [List.pairwise_append]
          refine ⟨increasing, List.pairwise_singleton .., fun k mem other otherMem => ?_⟩
          rw [List.mem_singleton.mp otherMem]
          exact lt_of_le_of_ne (below k mem) fun same => known (same ▸ mem)
        · simp only [List.mem_append, List.mem_singleton, occurring]
          constructor
          · rintro (⟨a, mem, same⟩ | rfl)
            · exact ⟨a, .inl mem, same⟩
            · exact ⟨b, .inr rfl, rfl⟩
          · rintro ⟨a, mem | rfl, rfl⟩
            · exact .inl ⟨a, mem, rfl⟩
            · exact .inr rfl
        · have fresh : l.filter (key · = key b) = [] := by
            rw [List.filter_eq_nil_iff]
            intro a mem same
            exact known ((occurring _).mpr ⟨a, mem, by simpa using same⟩)
          rw [List.flatMap_append, older keys known, ← parts]
          simp [fresh]

/-- The part of one key is contiguous. -/
theorem filter_infix_of_pairwise (key : α → κ) {l : List α}
    (ordered : l.Pairwise fun a b => key a ≤ key b) (k : κ) : l.filter (key · = k) <:+: l := by
  obtain ⟨keys, -, occurring, parts⟩ := exists_keys_of_pairwise key ordered
  by_cases known : k ∈ keys
  · obtain ⟨before, after, split⟩ := List.append_of_mem known
    refine ⟨before.flatMap fun k => l.filter (key · = k),
      after.flatMap fun k => l.filter (key · = k), ?_⟩
    conv_rhs => rw [parts, split]
    simp
  · have absent : l.filter (key · = k) = [] := by
      rw [List.filter_eq_nil_iff]
      intro a mem same
      exact known ((occurring k).mpr ⟨a, mem, by simpa using same⟩)
    rw [absent]
    exact List.nil_infix

end Drover.Data
