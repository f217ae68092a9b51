import Mathlib.Data.List.Sort

/-!
# The first elements in an order

What a limited query in an order returns: the elements that come first, in their order.
Elements that the order does not tell apart may be taken either way.  The query may miss
elements that it should see, or see some that it should not; `selects_append_iff` and
`forall_selects_iff` say when that does no harm.
-/

namespace Drover

variable {τ : Type} {le : τ → τ → Prop} {n : Nat} {xs ys : List τ}

/-- The first `n` elements of the list. -/
structure Selects (le : τ → τ → Prop) (n : Nat) (xs ys : List τ) : Prop where
  sorted : ys.Pairwise le
  length : ys.length = min n xs.length
  before : ∃ rest, xs.Perm (ys ++ rest) ∧ ∀ x ∈ ys, ∀ y ∈ rest, le x y

/-- A sorted list begins with its first elements. -/
theorem selects_take (sorted : ys.Pairwise le) (perm : ys.Perm xs) (n : Nat) :
    Selects le n xs (ys.take n) where
  sorted := sorted.sublist (List.take_sublist n ys)
  length := by rw [List.length_take, perm.length_eq]
  before := by
    refine ⟨ys.drop n, ?_, ?_⟩
    · rw [List.take_append_drop]
      exact perm.symm
    · rw [← List.take_append_drop n ys, List.pairwise_append] at sorted
      exact sorted.2.2

namespace Selects

theorem congr {xs' : List τ} (selects : Selects le n xs ys) (perm : xs.Perm xs') :
    Selects le n xs' ys where
  sorted := selects.sorted
  length := by rw [selects.length, perm.length_eq]
  before := by
    obtain ⟨rest, whole, first⟩ := selects.before
    exact ⟨rest, perm.symm.trans whole, first⟩

theorem subset (selects : Selects le n xs ys) : ys ⊆ xs := by
  obtain ⟨rest, whole, -⟩ := selects.before
  intro x mem
  exact whole.mem_iff.mpr (List.mem_append_left rest mem)

theorem length_le (selects : Selects le n xs ys) : ys.length ≤ n := by
  rw [selects.length]
  exact Nat.min_le_left _ _

/-- If there is any element, and some are asked for, one is selected. -/
theorem ne_nil (selects : Selects le n xs ys) (some_ : 0 < n) (stored : xs ≠ []) : ys ≠ [] := by
  intro none_
  have length := selects.length
  rw [none_, List.length_nil] at length
  have positive := List.length_pos_of_ne_nil stored
  omega

variable [DecidableRel le]

/-- All the elements that come strictly before a selected one are selected. -/
theorem countP_lt {e : τ} (selects : Selects le n xs ys) (mem : e ∈ ys)
    (reflexive : le e e) : xs.countP (fun x => ¬ le e x) < n := by
  obtain ⟨rest, whole, first⟩ := selects.before
  have none_ : rest.countP (fun x => ¬ le e x) = 0 := by
    rw [List.countP_eq_zero]
    intro y inRest
    simp [first e mem y inRest]
  have proper : ys.countP (fun x => ¬ le e x) < ys.length := by
    refine Nat.lt_of_le_of_ne List.countP_le_length fun all => ?_
    have strict := List.countP_eq_length.mp all e mem
    exact of_decide_eq_true strict reflexive
  calc xs.countP (fun x => ¬ le e x)
      = ys.countP (fun x => ¬ le e x) := by
        rw [whole.countP_eq, List.countP_append, none_, Nat.add_zero]
    _ < ys.length := proper
    _ ≤ n := selects.length_le

end Selects

/-! ## Orders -/

section

variable [DecidableRel le] [Std.Total le] [IsTrans τ le]

omit [DecidableRel le] [IsTrans τ le] in
theorem rel_of_not_rel {x y : τ} (not_ : ¬ le x y) : le y x :=
  (Std.Total.total x y).resolve_left not_

theorem exists_selects (le : τ → τ → Prop) [DecidableRel le] [Std.Total le] [IsTrans τ le]
    (n : Nat) (xs : List τ) : ∃ ys, Selects le n xs ys :=
  ⟨_, selects_take (List.pairwise_insertionSort le xs) (List.perm_insertionSort le xs) n⟩

/-- An element is among the first if few others come strictly before it. -/
theorem exists_selects_mem {e : τ} (mem : e ∈ xs) (few : xs.countP (fun x => ¬ le e x) < n) :
    ∃ ys, Selects le n xs ys ∧ e ∈ ys := by
  obtain ⟨s, t, rfl⟩ := List.append_of_mem mem
  let front := ((s ++ t).filter fun x => ¬ le e x).insertionSort le
  let back := ((s ++ t).filter fun x => !decide (¬ le e x)).insertionSort le
  have inFront : ∀ x ∈ front, ¬ le e x := by
    intro x inSorted
    rw [List.mem_insertionSort, List.mem_filter] at inSorted
    exact of_decide_eq_true inSorted.2
  have inBack : ∀ y ∈ back, le e y := by
    intro y inSorted
    rw [List.mem_insertionSort, List.mem_filter] at inSorted
    simpa using inSorted.2
  have sorted : (front ++ e :: back).Pairwise le := by
    rw [List.pairwise_append, List.pairwise_cons]
    refine ⟨List.pairwise_insertionSort le _, ⟨inBack, List.pairwise_insertionSort le _⟩, ?_⟩
    intro x isFront y later
    have first := rel_of_not_rel (inFront x isFront)
    rcases List.mem_cons.mp later with rfl | isBack
    · exact first
    · exact IsTrans.trans _ _ _ first (inBack y isBack)
  have perm : (front ++ e :: back).Perm (s ++ e :: t) := by
    refine List.perm_middle.trans (List.Perm.trans (List.Perm.cons e ?_) List.perm_middle.symm)
    refine List.Perm.trans ?_ (List.filter_append_perm (fun x => decide ¬ le e x) (s ++ t))
    exact (List.perm_insertionSort le _).append (List.perm_insertionSort le _)
  have length : front.length < n := by
    refine Nat.lt_of_le_of_lt ?_ few
    rw [List.length_insertionSort, ← List.countP_eq_length_filter]
    exact ((List.Sublist.refl s).append (List.sublist_cons_self e t)).countP_le
  refine ⟨_, selects_take sorted perm n, ?_⟩
  obtain ⟨k, more⟩ := Nat.exists_eq_succ_of_ne_zero (Nat.sub_ne_zero_of_lt length)
  rw [List.take_append, more, List.take_succ_cons]
  exact List.mem_append_right _ List.mem_cons_self

theorem exists_first_mem (le : τ → τ → Prop) [DecidableRel le] [Std.Total le] [IsTrans τ le]
    {e : τ} (mem : e ∈ xs) : ∃ x ∈ xs, ∀ y ∈ xs, le x y := by
  obtain ⟨ys, selects⟩ := exists_selects le xs.length xs
  have perm : ys.Perm xs := by
    obtain ⟨rest, whole, -⟩ := selects.before
    have length := whole.length_eq
    rw [List.length_append, selects.length, Nat.min_self] at length
    have none_ : rest = [] := List.eq_nil_of_length_eq_zero (by omega)
    rw [none_, List.append_nil] at whole
    exact whole.symm
  cases ys with
  | nil => exact absurd (perm.mem_iff.mpr mem) List.not_mem_nil
  | cons x ys =>
      refine ⟨x, perm.mem_iff.mp List.mem_cons_self, fun y inWhole => ?_⟩
      rcases List.mem_cons.mp (perm.mem_iff.mpr inWhole) with rfl | later
      · exact (Std.Total.total y y).elim id id
      · exact List.rel_of_pairwise_cons selects.sorted later

omit [DecidableRel le] in
/-- Every selection begins some sorted list of the elements. -/
theorem Selects.exists_take (selects : Selects le n xs ys) :
    ∃ full : List τ, full.Pairwise le ∧ full.Perm xs ∧ full.take n = ys := by
  classical
  obtain ⟨rest, whole, first⟩ := selects.before
  have sortedRest := List.perm_insertionSort le rest
  have perm : (ys ++ rest.insertionSort le).Perm xs :=
    (sortedRest.append_left ys).trans whole.symm
  refine ⟨_, ?_, perm, ?_⟩
  · rw [List.pairwise_append]
    refine ⟨selects.sorted, List.pairwise_insertionSort le rest, fun x mem y later => ?_⟩
    exact first x mem y (sortedRest.mem_iff.mp later)
  · have length := selects.length
    rcases Nat.le_total n xs.length with few | many
    · rw [Nat.min_eq_left few] at length
      rw [← length, List.take_left]
    · rw [Nat.min_eq_right many] at length
      have total := perm.length_eq
      rw [List.length_append, length] at total
      have none_ : rest.insertionSort le = [] := List.eq_nil_of_length_eq_zero (by omega)
      rw [none_, List.append_nil, List.take_of_length_le (by omega)]

/-! ## Missed and added elements -/

omit [DecidableRel le] [Std.Total le] [IsTrans τ le] in
/-- What a pass over a list keeps, and what it should keep but drops. -/
theorem filterMap_append_perm {σ : Type} {should drops : τ → Bool} {f : τ → σ}
    {keep : τ → Option σ} (keeps : ∀ x, keep x = if should x && !drops x then some (f x) else none)
    (xs : List τ) :
    (xs.filterMap keep ++ ((xs.filter should).filter drops).map f).Perm
      ((xs.filter should).map f) := by
  have kept : xs.filterMap keep = ((xs.filter should).filter fun x => !drops x).map f := by
    induction xs with
    | nil => rfl
    | cons x xs ih =>
        cases isKept : should x && !drops x with
        | true =>
            have isShould := Bool.and_elim_left isKept
            have notDropped : (!drops x) = true := Bool.and_elim_right isKept
            rw [List.filterMap_cons_some (by rw [keeps, isKept, if_pos rfl]),
              List.filter_cons_of_pos isShould,
              List.filter_cons_of_pos (p := fun x => !drops x) notDropped, ih, List.map_cons]
        | false =>
            rw [List.filterMap_cons_none (by rw [keeps, isKept, if_neg Bool.false_ne_true]), ih,
              List.filter_filter, List.filter_filter, List.filter_cons_of_neg]
            rw [Bool.and_comm, isKept]
            exact Bool.false_ne_true
  rw [kept, ← List.map_append]
  exact (List.perm_append_comm.trans (List.filter_append_perm drops _)).map f

omit [Std.Total le] in
/-- The first of those that are seen are the first of all exactly if enough come before each
missed one. -/
theorem selects_append_iff {kept lost : List τ} (selects : Selects le n kept ys) :
    Selects le n (kept ++ lost) ys ↔ ∀ y ∈ lost, n ≤ kept.countP fun x => le x y := by
  obtain ⟨rest, seen, first⟩ := selects.before
  have length := selects.length
  constructor
  · intro all y missed
    have longer : 0 < lost.length := List.length_pos_of_mem missed
    have full := all.length
    rw [List.length_append] at full
    have isFull : ys.length = n := by omega
    obtain ⟨rest', whole, first'⟩ := all.before
    have others : (rest ++ lost).Perm rest' := by
      refine (List.perm_append_left_iff ys).mp (List.Perm.trans ?_ whole)
      rw [← List.append_assoc]
      exact seen.symm.append_right lost
    have inRest : y ∈ rest' := others.mem_iff.mp (List.mem_append_right rest missed)
    calc n = ys.countP fun x => le x y := by
          rw [← isFull, eq_comm, List.countP_eq_length]
          exact fun x mem => decide_eq_true (first' x mem y inRest)
      _ ≤ kept.countP fun x => le x y := by
          rw [seen.countP_eq, List.countP_append]
          exact Nat.le_add_right _ _
  · intro enough
    refine ⟨selects.sorted, ?_, rest ++ lost, ?_, ?_⟩
    · rw [List.length_append]
      cases lost with
      | nil => exact length
      | cons y lost =>
          have le_ := Nat.le_trans (enough y List.mem_cons_self) List.countP_le_length
          omega
    · rw [← List.append_assoc]
      exact seen.append_right lost
    · intro x mem y other
      rcases List.mem_append.mp other with inRest | missed
      · exact first x mem y inRest
      · by_contra after
        have noneLater : rest.countP (fun z => le z y) = 0 := by
          rw [List.countP_eq_zero]
          intro z inRest
          simp only [decide_eq_true_eq]
          exact fun before => after (IsTrans.trans _ _ _ (first x mem z inRest) before)
        have proper : ys.countP (fun z => le z y) < ys.length := by
          refine Nat.lt_of_le_of_ne List.countP_le_length fun isAll => ?_
          exact after (of_decide_eq_true (List.countP_eq_length.mp isAll x mem))
        have count := enough y missed
        rw [seen.countP_eq, List.countP_append, noneLater, Nat.add_zero] at count
        exact absurd selects.length_le (by omega)

/-- Whatever is selected of those that are seen is selected of the whole exactly if enough come
before each missed element, and strictly before each one that does not belong. -/
theorem forall_selects_iff {common lost extra : List τ}
    (foreign : ∀ e ∈ extra, e ∉ common ++ lost) :
    (∀ ys, Selects le n (common ++ extra) ys → Selects le n (common ++ lost) ys) ↔
      (∀ e ∈ extra, n ≤ common.countP fun x => ¬ le e x) ∧
        ∀ y ∈ lost, n ≤ common.countP fun x => le x y := by
  -- without a foreign element among them they are the first of the common ones
  have belongs : (∀ e ∈ extra, n ≤ common.countP fun x => ¬ le e x) →
      ∀ ys, Selects le n (common ++ extra) ys → Selects le n common ys := by
    classical
    intro enough ys selects
    have outside : ∀ x ∈ ys, x ∉ extra := by
      intro e chosen mem
      have count := selects.countP_lt chosen ((Std.Total.total e e).elim id id)
      rw [List.countP_append] at count
      have le_ := enough e mem
      omega
    obtain ⟨rest, whole, first⟩ := selects.before
    refine ⟨selects.sorted, ?_, rest.filter (· ∉ extra), ?_, ?_⟩
    · rw [selects.length, List.length_append]
      cases extra with
      | nil => rfl
      | cons e extra =>
          have le_ := Nat.le_trans (enough e List.mem_cons_self) List.countP_le_length
          omega
    · have filtered := whole.filter (· ∉ extra)
      rw [List.filter_append, List.filter_append, List.filter_eq_self.mpr,
        List.filter_eq_nil_iff.mpr, List.append_nil, List.filter_eq_self.mpr] at filtered
      · exact filtered
      · exact fun x mem => decide_eq_true (outside x mem)
      · simp
      · exact fun x mem => decide_eq_true fun inExtra =>
          foreign x inExtra (List.mem_append_left lost mem)
    · exact fun x mem y other => first x mem y (List.mem_of_mem_filter other)
  constructor
  · intro all
    have enough : ∀ e ∈ extra, n ≤ common.countP fun x => ¬ le e x := by
      intro e mem
      obtain ⟨e₀, mem₀, isFirst⟩ := exists_first_mem le mem
      have mono : common.countP (fun x => ¬ le e₀ x) ≤ common.countP fun x => ¬ le e x := by
        apply List.countP_mono_left
        simp only [decide_eq_true_eq]
        exact fun x _ before after => before (IsTrans.trans _ _ _ (isFirst e mem) after)
      refine Nat.le_trans ?_ mono
      by_contra few
      have fewer : (common ++ extra).countP (fun x => ¬ le e₀ x) < n := by
        have none_ : extra.countP (fun x => ¬ le e₀ x) = 0 := by
          rw [List.countP_eq_zero]
          intro y inExtra
          simp [isFirst y inExtra]
        rw [List.countP_append, none_, Nat.add_zero]
        exact Nat.lt_of_not_le few
      obtain ⟨ys, selects, chosen⟩ := exists_selects_mem (List.mem_append_right _ mem₀) fewer
      exact foreign e₀ mem₀ ((all ys selects).subset chosen)
    refine ⟨enough, ?_⟩
    obtain ⟨ys, selects⟩ := exists_selects le n (common ++ extra)
    exact (selects_append_iff (belongs enough ys selects)).mp (all ys selects)
  · rintro ⟨enough, missed⟩ ys selects
    exact (selects_append_iff (belongs enough ys selects)).mpr missed

end

end Drover
