import Drover.Data.Bytes
import Drover.Stream.Marker

/-!
# Byte scanning in the terminal page

`indexOf` and `tailPrefix` as `sync.js` and `term.js` both define them, and what
they compute in terms of `cutAt` and `held`.  The loops of both files search
from a position that they only move forward, so the lists here are what is left
of `data` from that position on.
-/

namespace Drover.Term

open Drover.Stream

/-- `indexOf`: where the pattern first occurs. -/
def indexOf : Bytes → Bytes → Option Nat
  | [], pat => if pat <+: [] then some 0 else none
  | x :: rest, pat =>
      if pat <+: x :: rest then some 0 else (indexOf rest pat).map (· + 1)

/-- The loop of `tailPrefix`, from `k` down. -/
def tailPrefixFrom (data pat : Bytes) : Nat → Nat
  | 0 => 0
  | k + 1 =>
      if data.drop (data.length - (k + 1)) = pat.take (k + 1) then k + 1
      else tailPrefixFrom data pat k

/-- `tailPrefix`: the largest `k` such that the last `k` bytes of the data are a
proper prefix of the pattern. -/
def tailPrefix (data pat : Bytes) : Nat :=
  tailPrefixFrom data pat (min (pat.length - 1) data.length)

variable {data pat : Bytes}

theorem cutAt_eq_indexOf (nonempty : pat ≠ []) (data : Bytes) :
    cutAt pat data =
      (indexOf data pat).map fun i => (data.take i, data.drop (i + pat.length)) := by
  induction data with
  | nil => simp [cutAt, indexOf, nonempty]
  | cons x rest ih =>
      rw [cutAt, indexOf]
      split
      · simp
      · rw [ih, Option.map_map, Option.map_map]
        congr 1
        funext i
        simp [Nat.add_right_comm]

theorem indexOf_eq_none (nonempty : pat ≠ []) (absent : indexOf data pat = none) :
    cutAt pat data = none := by
  rw [cutAt_eq_indexOf nonempty, absent, Option.map_none]

theorem indexOf_eq_some (nonempty : pat ≠ []) {i : Nat} (found : indexOf data pat = some i) :
    cutAt pat data = some (data.take i, data.drop (i + pat.length)) := by
  rw [cutAt_eq_indexOf nonempty, found, Option.map_some]

/-- The loop finds the longest match among the lengths it goes through. -/
theorem tailPrefixFrom_spec (data pat : Bytes) (k : Nat) :
    tailPrefixFrom data pat k ≤ k ∧
      data.drop (data.length - tailPrefixFrom data pat k) =
        pat.take (tailPrefixFrom data pat k) ∧
      ∀ n ≤ k, data.drop (data.length - n) = pat.take n → n ≤ tailPrefixFrom data pat k := by
  induction k with
  | zero => simp [tailPrefixFrom]
  | succ k ih =>
      rw [tailPrefixFrom]
      split
      · rename_i matches_
        exact ⟨Nat.le_refl _, matches_, fun _ le _ => le⟩
      · rename_i differs
        refine ⟨Nat.le_succ_of_le ih.1, ih.2.1, fun n le same => ?_⟩
        rcases Nat.lt_or_eq_of_le le with lt | rfl
        · exact ih.2.2 n (Nat.le_of_lt_succ lt) same
        · exact absurd same differs

/-- `tailPrefix` is the length of the held tail. -/
theorem tailPrefix_eq (nonempty : pat ≠ []) (data : Bytes) :
    tailPrefix data pat = (held pat data).length := by
  obtain ⟨le, same, longest⟩ :=
    tailPrefixFrom_spec data pat (min (pat.length - 1) data.length)
  have positive := List.length_pos_iff.mpr nonempty
  rw [← tailPrefix] at le same longest
  refine Nat.le_antisymm ?_ ?_
  · have tail := length_le_held (List.drop_suffix _ data) (same ▸ List.take_prefix _ pat)
      (by rw [List.length_drop]; omega)
    rw [List.length_drop] at tail
    omega
  · have short := held_length_lt nonempty data
    have inData := (held_isSuffix pat data).length_le
    apply longest _ (by omega)
    rw [← List.prefix_iff_eq_take.mp (held_isPrefix pat data)]
    exact (List.suffix_iff_eq_drop.mp (held_isSuffix pat data)).symm

theorem drop_tailPrefix (nonempty : pat ≠ []) (data : Bytes) :
    data.drop (data.length - tailPrefix data pat) = held pat data := by
  rw [tailPrefix_eq nonempty]
  exact (List.suffix_iff_eq_drop.mp (held_isSuffix pat data)).symm

theorem take_tailPrefix (nonempty : pat ≠ []) (data : Bytes) :
    data.take (data.length - tailPrefix data pat) = released pat data := by
  have parts := List.take_append_drop (data.length - tailPrefix data pat) data
  rw [drop_tailPrefix nonempty] at parts
  exact List.append_cancel_right (parts.trans (released_append_held pat data).symm)

/-- Both filters append only when there is something to append. -/
theorem ite_append_take (acc data : Bytes) (cut : Nat) :
    (if 0 < cut then acc ++ data.take cut else acc) = acc ++ data.take cut := by
  cases cut <;> simp

end Drover.Term
