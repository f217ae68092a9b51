import Mathlib.Data.List.Sort

/-!
# Sorted slices

`sort.Slice` with a `less` function: the elements in an order that `less` allows.
Equal ones may come in any order.
-/

namespace Drover

variable {τ : Type} {less : τ → τ → Bool}

/-- A `sort.Slice`. -/
structure SliceSort (τ : Type) (less : τ → τ → Bool) where
  sort : List τ → List τ
  perm : ∀ xs, (sort xs).Perm xs
  sorted : ∀ xs, (sort xs).Pairwise fun x y => less y x = false

theorem SliceSort.mem_sort_iff (s : SliceSort τ less) {xs : List τ} {x : τ} :
    x ∈ s.sort xs ↔ x ∈ xs :=
  (s.perm xs).mem_iff

/-- The stable one, for a `less` that compares keys. -/
def SliceSort.byKey {κ : Type} [LinearOrder κ] (key : τ → κ)
    (compares : ∀ x y, less x y = decide (key x < key y)) : SliceSort τ less where
  sort := List.insertionSort fun x y => key x ≤ key y
  perm := List.perm_insertionSort _
  sorted xs := by
    have : Std.Total fun x y : τ => key x ≤ key y := ⟨fun x y => le_total (key x) (key y)⟩
    have : IsTrans τ fun x y => key x ≤ key y := ⟨fun x y z => le_trans⟩
    refine (List.pairwise_insertionSort (fun x y => key x ≤ key y) xs).imp fun {x y} le => ?_
    rw [compares, decide_eq_false_iff_not, not_lt]
    exact le

end Drover
