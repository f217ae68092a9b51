import Mathlib.Data.List.Chain
import Mathlib.Order.Lattice

/-!
# Versioned histories

The values that a cell has held, the oldest first, each with a version and a
content.  A reader who only looks at versions notices every change of the content
and nothing else exactly if the history goes `Forward`, which one more value keeps
or breaks by how it compares with the last one.
-/

namespace Drover.Protocol

universe u v w

variable {δ : Type u} {ν : Type v} {κ : Type w} [LinearOrder ν]

/-- The version never decreases, differs where the content differs, and stays while
the content stays. -/
structure Forward (ver : δ → ν) (content : δ → κ) (history : List δ) : Prop where
  mono : history.Pairwise fun a b => ver a ≤ ver b
  differs : history.Pairwise fun a b => content a ≠ content b → ver a ≠ ver b
  steady : history.IsChain fun a b => content a = content b → ver a = ver b

variable {ver : δ → ν} {content : δ → κ} {history : List δ}

theorem forward_nil : Forward ver content [] :=
  ⟨.nil, .nil, .nil⟩

theorem forward_singleton (a : δ) : Forward ver content [a] :=
  ⟨List.pairwise_singleton .., List.pairwise_singleton .., List.isChain_singleton ..⟩

/-- A value after `last` continues the history if it keeps content and version, or
changes the content and has a greater version. -/
theorem Forward.append_iff (forward : Forward ver content history) {last next : δ}
    (latest : history.getLast? = some last) :
    Forward ver content (history ++ [next]) ↔
      content last = content next ∧ ver last = ver next ∨
        content last ≠ content next ∧ ver last < ver next := by
  obtain ⟨before, rfl⟩ := List.getLast?_eq_some_iff.mp latest
  have older : ∀ a ∈ before ++ [last], ver a ≤ ver last := by
    intro a mem
    rw [List.mem_append, List.mem_singleton] at mem
    rcases mem with mem | rfl
    · exact (List.pairwise_append.mp forward.mono).2.2 a mem last (List.mem_singleton.mpr rfl)
    · exact le_refl _
  constructor
  · intro extended
    have le := (List.pairwise_append.mp extended.mono).2.2 last (by simp) next (by simp)
    have ne := (List.pairwise_append.mp extended.differs).2.2 last (by simp) next (by simp)
    have stays : content last = content next → ver last = ver next := by
      have chain := extended.steady
      rw [List.append_assoc, List.singleton_append, List.isChain_append] at chain
      exact List.isChain_pair.mp chain.2.1
    by_cases same : content last = content next
    · exact .inl ⟨same, stays same⟩
    · exact .inr ⟨same, lt_of_le_of_ne le (ne same)⟩
  · intro continues
    have le : ver last ≤ ver next := continues.elim (fun kept => le_of_eq kept.2) fun grown =>
      le_of_lt grown.2
    constructor
    case mono =>
      rw [List.pairwise_append]
      refine ⟨forward.mono, List.pairwise_singleton .., fun a mem b single => ?_⟩
      rw [List.mem_singleton.mp single]
      exact le_trans (older a mem) le
    case differs =>
      rw [List.pairwise_append]
      refine ⟨forward.differs, List.pairwise_singleton .., fun a mem b single other => ?_⟩
      rw [List.mem_singleton.mp single] at other ⊢
      rcases continues with ⟨sameContent, sameVersion⟩ | ⟨-, greater⟩
      · -- the content differs from that of `last` already
        rw [← sameContent] at other
        rw [← sameVersion]
        rw [List.mem_append, List.mem_singleton] at mem
        rcases mem with mem | rfl
        · exact (List.pairwise_append.mp forward.differs).2.2 a mem last (by simp) other
        · exact absurd rfl other
      · exact ne_of_lt (lt_of_le_of_lt (older a mem) greater)
    case steady =>
      rw [List.isChain_append]
      refine ⟨forward.steady, List.isChain_singleton .., fun a mem b single same => ?_⟩
      rw [latest, Option.mem_some_iff] at mem
      obtain rfl := mem
      rw [List.head?_cons, Option.mem_some_iff] at single
      obtain rfl := single
      exact continues.elim And.right fun grown => absurd same grown.1

end Drover.Protocol
