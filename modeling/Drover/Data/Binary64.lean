import Mathlib.Data.Int.Log
import Mathlib.Data.Rat.Floor
import Mathlib.Tactic.Linarith
import Mathlib.Tactic.NormNum
import Mathlib.Tactic.Positivity
import Mathlib.Tactic.Ring

/-!
# Double precision

The rounding of rationals to 53 binary digits, to the nearest and to even ones in
a tie, with the least exponent of the format.  It is monotone, keeps integers of
53 digits, and is off by no more than half a unit in the last place.
-/

namespace Drover.Binary64

/-! ## Integers -/

/-- The nearest integer, an even one in a tie. -/
def roundEven (x : ℚ) : ℤ :=
  if x - ⌊x⌋ < 1 / 2 then ⌊x⌋
  else if 1 / 2 < x - ⌊x⌋ then ⌊x⌋ + 1
  else if ⌊x⌋ % 2 = 0 then ⌊x⌋ else ⌊x⌋ + 1

theorem floor_le_roundEven (x : ℚ) : ⌊x⌋ ≤ roundEven x := by
  rw [roundEven]
  split_ifs <;> omega

theorem roundEven_le (x : ℚ) : roundEven x ≤ ⌊x⌋ + 1 := by
  rw [roundEven]
  split_ifs <;> omega

@[simp]
theorem roundEven_intCast (n : ℤ) : roundEven n = n := by
  rw [roundEven, Int.floor_intCast, sub_self, if_pos (by norm_num)]

theorem roundEven_mono {x y : ℚ} (le : x ≤ y) : roundEven x ≤ roundEven y := by
  rcases (Int.floor_mono le).lt_or_eq with below | same
  · calc roundEven x ≤ ⌊x⌋ + 1 := roundEven_le x
      _ ≤ ⌊y⌋ := below
      _ ≤ roundEven y := floor_le_roundEven y
  · have fractions : x - ⌊x⌋ ≤ y - ⌊y⌋ := by
      rw [same]
      linarith
    rw [roundEven, roundEven, same] at *
    split_ifs
    all_goals first | omega | linarith

/-- Rounding does not cross an integer. -/
theorem roundEven_le_of_le {x : ℚ} {m : ℤ} (le : x ≤ m) : roundEven x ≤ m := by
  have bound := roundEven_mono le
  rw [roundEven_intCast] at bound
  exact bound

theorem le_roundEven_of_le {x : ℚ} {m : ℤ} (le : m ≤ x) : m ≤ roundEven x := by
  have bound := roundEven_mono le
  rw [roundEven_intCast] at bound
  exact bound

theorem abs_roundEven_sub_le (x : ℚ) : |(roundEven x : ℚ) - x| ≤ 1 / 2 := by
  have low := Int.floor_le x
  have high := Int.lt_floor_add_one x
  rw [roundEven, abs_le]
  split_ifs <;> push_cast <;> constructor <;> linarith

/-- A number is rounded to an integer or more from half below it on; the half itself
goes to even ones. -/
theorem le_roundEven_iff {n : ℤ} {x : ℚ} :
    n ≤ roundEven x ↔ n - 1 / 2 < x ∨ n % 2 = 0 ∧ n - 1 / 2 = x := by
  have low := Int.floor_le x
  have high := Int.lt_floor_add_one x
  rcases lt_trichotomy n (⌊x⌋ + 1) with below | rfl | above
  · have cast : (n : ℚ) ≤ ⌊x⌋ := by exact_mod_cast Int.lt_add_one_iff.mp below
    constructor
    · intro _
      left
      linarith
    · intro _
      exact (Int.lt_add_one_iff.mp below).trans (floor_le_roundEven x)
  · rw [roundEven]
    push_cast
    split_ifs with short long even
    · constructor
      · omega
      · rintro (big | ⟨-, half⟩) <;> linarith
    · constructor
      · intro _
        left
        linarith
      · intro _
        rfl
    · constructor
      · omega
      · rintro (big | ⟨odd, -⟩)
        · linarith
        · omega
    · constructor
      · intro _
        right
        constructor
        · omega
        · linarith
      · intro _
        rfl
  · have cast : (⌊x⌋ : ℚ) + 1 + 1 ≤ n := by exact_mod_cast Int.add_one_le_iff.mpr above
    constructor
    · intro le
      have bound := roundEven_le x
      omega
    · rintro (big | ⟨-, half⟩) <;> linarith

/-! ## Rounding -/

theorem two_zpow_pos (k : ℤ) : (0 : ℚ) < 2 ^ k := zpow_pos two_pos k

/-- The exponent of the last place. -/
def lastPlace (q : ℚ) : ℤ := max (Int.log 2 |q| - 52) (-1074)

/-- The nearest number of the format, without a bound on its exponent. -/
def nearest (q : ℚ) : ℚ := roundEven (q / 2 ^ lastPlace q) * 2 ^ lastPlace q

@[simp]
theorem nearest_zero : nearest 0 = 0 := by
  rw [nearest, zero_div]
  exact mul_eq_zero_of_left (Int.cast_eq_zero.mpr (roundEven_intCast 0)) _

theorem nearest_nonneg {q : ℚ} (nonneg : 0 ≤ q) : 0 ≤ nearest q := by
  have place := two_zpow_pos (lastPlace q)
  have integer : 0 ≤ roundEven (q / 2 ^ lastPlace q) :=
    le_roundEven_of_le (by exact_mod_cast div_nonneg nonneg place.le)
  exact mul_nonneg (by exact_mod_cast integer) place.le

/-- Rounding does not cross a multiple of the last place. -/
theorem nearest_le {q : ℚ} {m : ℤ} (le : q ≤ m * 2 ^ lastPlace q) :
    nearest q ≤ m * 2 ^ lastPlace q := by
  have place := two_zpow_pos (lastPlace q)
  have integer := roundEven_le_of_le ((div_le_iff₀ place).mpr le)
  exact mul_le_mul_of_nonneg_right (Int.cast_le.mpr integer) place.le

theorem le_nearest {q : ℚ} {m : ℤ} (le : m * 2 ^ lastPlace q ≤ q) :
    m * 2 ^ lastPlace q ≤ nearest q := by
  have place := two_zpow_pos (lastPlace q)
  have integer := le_roundEven_of_le ((le_div_iff₀ place).mpr le)
  exact mul_le_mul_of_nonneg_right (Int.cast_le.mpr integer) place.le

/-- A number has no more than 53 digits up to its last place. -/
theorem lt_two_zpow {q : ℚ} (positive : 0 < q) : q < 2 ^ (lastPlace q + 53) := by
  have log : q < 2 ^ (Int.log 2 q + 1) := Int.lt_zpow_succ_log_self (b := 2) (by decide) q
  have place : Int.log 2 q + 1 ≤ lastPlace q + 53 := by
    rw [lastPlace, abs_of_pos positive]
    omega
  exact log.trans_le (zpow_le_zpow_right₀ (by norm_num) place)

/-- It has no fewer, unless the exponent is the least one. -/
theorem two_zpow_le {q : ℚ} (positive : 0 < q) (normal : -1074 < lastPlace q) :
    2 ^ (lastPlace q + 52) ≤ q := by
  have log : (2 : ℚ) ^ Int.log 2 q ≤ q := Int.zpow_log_le_self (b := 2) (by decide) positive
  have place : lastPlace q + 52 = Int.log 2 q := by
    rw [lastPlace, abs_of_pos positive] at normal ⊢
    omega
  rw [place]
  exact log

theorem lastPlace_le {q : ℚ} (positive : 0 < q) {k : ℤ} (small : q < 2 ^ k) (least : -1021 ≤ k) :
    lastPlace q ≤ k - 53 := by
  have log : Int.log 2 q < k := (Int.lt_zpow_iff_log_lt (b := 2) (by decide) positive).mp small
  rw [lastPlace, abs_of_pos positive]
  omega

theorem lastPlace_eq {q : ℚ} {k : ℤ} (low : 2 ^ (k + 52) ≤ q) (high : q < 2 ^ (k + 53))
    (least : -1074 ≤ k) : lastPlace q = k := by
  have positive : 0 < q := (two_zpow_pos _).trans_le low
  have below := lastPlace_le positive high (by omega)
  have above := (Int.zpow_le_iff_le_log (b := 2) (by decide) positive).mp low
  have place : Int.log 2 q - 52 ≤ lastPlace q := by
    rw [lastPlace, abs_of_pos positive]
    exact le_max_left _ _
  omega

theorem lastPlace_mono {p q : ℚ} (positive : 0 < p) (le : p ≤ q) : lastPlace p ≤ lastPlace q := by
  have log := Int.log_mono_right (b := 2) positive le
  rw [lastPlace, lastPlace, abs_of_pos positive, abs_of_pos (positive.trans_le le)]
  omega

theorem two_zpow_add (k l : ℤ) : (2 : ℚ) ^ (k + l) = 2 ^ l * 2 ^ k := by
  rw [zpow_add₀ (by norm_num), mul_comm]

theorem nearest_le_two_zpow {q : ℚ} (positive : 0 < q) : nearest q ≤ 2 ^ (lastPlace q + 53) := by
  have bound := (lt_two_zpow positive).le
  rw [two_zpow_add] at bound ⊢
  exact nearest_le (m := 2 ^ 53) (by exact_mod_cast bound)

theorem two_zpow_le_nearest {q : ℚ} (positive : 0 < q) (normal : -1074 < lastPlace q) :
    2 ^ (lastPlace q + 52) ≤ nearest q := by
  have bound := two_zpow_le positive normal
  rw [two_zpow_add] at bound ⊢
  exact le_nearest (m := 2 ^ 52) (by exact_mod_cast bound)

/-- Rounding is off by no more than half a unit in the last place. -/
theorem abs_nearest_sub_le {q : ℚ} (nonneg : 0 ≤ q) {k : ℤ} (small : q < 2 ^ k)
    (least : -1021 ≤ k) : |nearest q - q| ≤ 2 ^ (k - 54) := by
  rcases nonneg.eq_or_lt with rfl | positive
  · rw [nearest_zero, sub_zero, abs_zero]
    exact (two_zpow_pos _).le
  · have place := two_zpow_pos (lastPlace q)
    have integer := abs_roundEven_sub_le (q / 2 ^ lastPlace q)
    have scaled : nearest q - q =
        (roundEven (q / 2 ^ lastPlace q) - q / 2 ^ lastPlace q) * 2 ^ lastPlace q := by
      rw [nearest, sub_mul, div_mul_cancel₀ q place.ne']
    calc |nearest q - q|
        = |(roundEven (q / 2 ^ lastPlace q) : ℚ) - q / 2 ^ lastPlace q| * 2 ^ lastPlace q := by
          rw [scaled, abs_mul, abs_of_pos place]
      _ ≤ 1 / 2 * 2 ^ lastPlace q := mul_le_mul_of_nonneg_right integer place.le
      _ ≤ 1 / 2 * 2 ^ (k - 53) := by
          have le := zpow_le_zpow_right₀ (a := (2 : ℚ)) (by norm_num)
            (lastPlace_le positive small least)
          linarith
      _ = 2 ^ (k - 54) := by
          have split : k - 53 = k - 54 + 1 := by ring
          rw [split, zpow_add_one₀ (by norm_num)]
          ring

/-- Rounding is monotone. -/
theorem nearest_mono {p q : ℚ} (nonneg : 0 ≤ p) (le : p ≤ q) : nearest p ≤ nearest q := by
  rcases nonneg.eq_or_lt with rfl | positive
  · rw [nearest_zero]
    exact nearest_nonneg le
  · rcases (lastPlace_mono positive le).eq_or_lt with same | lower
    · have place := two_zpow_pos (lastPlace q)
      have integers := roundEven_mono (div_le_div_of_nonneg_right le place.le)
      rw [nearest, nearest, same]
      exact mul_le_mul_of_nonneg_right (Int.cast_le.mpr integers) place.le
    · -- a power of two lies between the two numbers, and rounding does not cross it
      have least : -1074 ≤ lastPlace p := le_max_right _ _
      calc nearest p ≤ 2 ^ (lastPlace p + 53) := nearest_le_two_zpow positive
        _ ≤ 2 ^ (lastPlace q + 52) := zpow_le_zpow_right₀ (by norm_num) (by omega)
        _ ≤ nearest q := two_zpow_le_nearest (positive.trans_le le) (least.trans_lt lower)

/-- What is rounded to a number of the format or more: the integer of its digits decides,
but at a power of two the one of the lower numbers. -/
theorem le_nearest_iff {q : ℚ} (nonneg : 0 ≤ q) {n k : ℤ} (low : 2 ^ 52 < n) (high : n ≤ 2 ^ 53)
    (least : -1074 ≤ k) : n * 2 ^ k ≤ nearest q ↔ n ≤ roundEven (q / 2 ^ k) := by
  have place := two_zpow_pos k
  have lowest : (2 : ℚ) ^ (52 : ℤ) < n := by exact_mod_cast low
  have highest : (n : ℚ) ≤ 2 ^ (53 : ℤ) := by exact_mod_cast high
  rcases nonneg.eq_or_lt with rfl | positive
  · have above : ¬ (n : ℚ) * 2 ^ k ≤ 0 := (mul_pos ((two_zpow_pos 52).trans lowest) place).not_ge
    rw [nearest_zero, zero_div, ← Int.cast_zero, roundEven_intCast]
    exact iff_of_false (by exact_mod_cast above) (by omega)
  · rcases lt_trichotomy (lastPlace q) k with lower | same | higher
    · have small : (2 : ℚ) ^ (lastPlace q + 53) ≤ 2 ^ (52 : ℤ) * 2 ^ k := by
        rw [← two_zpow_add]
        exact zpow_le_zpow_right₀ (by norm_num) (by omega)
      have rounded : roundEven (q / 2 ^ k) ≤ 2 ^ 52 := by
        apply roundEven_le_of_le
        exact_mod_cast (div_le_iff₀ place).mpr ((lt_two_zpow positive).le.trans small)
      have below : nearest q < n * 2 ^ k := by
        calc nearest q ≤ 2 ^ (lastPlace q + 53) := nearest_le_two_zpow positive
          _ ≤ 2 ^ (52 : ℤ) * 2 ^ k := small
          _ < n * 2 ^ k := mul_lt_mul_of_pos_right lowest place
      exact iff_of_false below.not_ge (by omega)
    · rw [nearest, same, mul_le_mul_iff_left₀ place, Int.cast_le]
    · have large : 2 ^ (53 : ℤ) * 2 ^ k ≤ (2 : ℚ) ^ (lastPlace q + 52) := by
        rw [← two_zpow_add]
        exact zpow_le_zpow_right₀ (by norm_num) (by omega)
      have normal : -1074 < lastPlace q := least.trans_lt higher
      have rounded : 2 ^ 53 ≤ roundEven (q / 2 ^ k) := by
        apply le_roundEven_of_le
        exact_mod_cast (le_div_iff₀ place).mpr (large.trans (two_zpow_le positive normal))
      have above : n * 2 ^ k ≤ nearest q := by
        calc (n : ℚ) * 2 ^ k ≤ 2 ^ (53 : ℤ) * 2 ^ k := mul_le_mul_of_nonneg_right highest place.le
          _ ≤ 2 ^ (lastPlace q + 52) := large
          _ ≤ nearest q := two_zpow_le_nearest positive normal
      exact iff_of_true above (by omega)

/-- Integers of 53 digits are kept. -/
theorem nearest_natCast {n : ℕ} (small : n < 2 ^ 53) : nearest n = n := by
  rcases Nat.eq_zero_or_pos n with rfl | positive
  · rw [Nat.cast_zero, nearest_zero]
  · have place : lastPlace n ≤ 53 - 53 :=
      lastPlace_le (by exact_mod_cast positive) (by exact_mod_cast small) (by norm_num)
    obtain ⟨k, isPlace⟩ : ∃ k : ℕ, lastPlace n = -k := ⟨(-lastPlace n).toNat, by omega⟩
    have multiple : (n : ℚ) = ((n * 2 ^ k : ℤ) : ℚ) * 2 ^ lastPlace n := by
      rw [isPlace, zpow_neg, zpow_natCast]
      push_cast
      rw [mul_assoc, mul_inv_cancel₀ (by positivity), mul_one]
    apply le_antisymm
    · exact (nearest_le multiple.le).trans multiple.ge
    · exact multiple.le.trans (le_nearest multiple.ge)

theorem two_pow_clog_lt {n : ℕ} (positive : 0 < n) : 2 ^ Nat.clog 2 n < 2 * n := by
  rcases Nat.lt_or_ge 1 n with large | one
  · have below := Nat.pow_pred_clog_lt_self (b := 2) (by decide) large
    obtain ⟨c, isSucc⟩ := Nat.exists_eq_succ_of_ne_zero (Nat.clog_pos one_lt_two large).ne'
    rw [isSucc, Nat.pred_succ] at below
    rw [isSucc, Nat.pow_succ]
    omega
  · have isOne : n = 1 := by omega
    rw [isOne]
    decide

/-- An integer of less than 53 digits has 53 with zeros behind it. -/
theorem exists_scaled {n : ℕ} (positive : 0 < n) (small : n < 2 ^ 52) :
    ∃ d, Nat.clog 2 n + (d + 1) = 53 ∧
      2 ^ 52 < n * 2 ^ (d + 1) ∧ n * 2 ^ (d + 1) ≤ 2 ^ 53 := by
  have digits : Nat.clog 2 n ≤ 52 := Nat.clog_le_of_le_pow small.le
  obtain ⟨d, isRest⟩ : ∃ d, Nat.clog 2 n + (d + 1) = 53 := ⟨52 - Nat.clog 2 n, by omega⟩
  have power : 2 ^ Nat.clog 2 n * 2 ^ (d + 1) = 2 ^ 53 := by rw [← Nat.pow_add, isRest]
  have below := Nat.mul_lt_mul_of_pos_right (two_pow_clog_lt positive) (Nat.two_pow_pos (d + 1))
  have above := Nat.mul_le_mul_right (2 ^ (d + 1)) (Nat.le_pow_clog one_lt_two n)
  rw [power] at above
  rw [power, Nat.mul_assoc] at below
  exact ⟨d, isRest, by omega, above⟩

/-- A number is rounded below an integer if it is more than half the distance from it to the
format's next lower number below it. -/
theorem natCast_le_nearest_iff {q : ℚ} (nonneg : 0 ≤ q) {n : ℕ} (small : n < 2 ^ 52) :
    n ≤ nearest q ↔ n - q ≤ 2 ^ (Nat.clog 2 n - 54 : ℤ) := by
  rcases Nat.eq_zero_or_pos n with rfl | positive
  · have half := two_zpow_pos (Nat.clog 2 0 - 54)
    rw [Nat.cast_zero]
    exact iff_of_true (nearest_nonneg nonneg) (by linarith)
  · obtain ⟨d, isRest, low, high⟩ := exists_scaled positive small
    have even : ((n * 2 ^ (d + 1) : ℕ) : ℤ) % 2 = 0 := by
      rw [Nat.pow_succ, ← Nat.mul_assoc]
      omega
    have isScaled : (n : ℚ) = ((n * 2 ^ (d + 1) : ℕ) : ℤ) * 2 ^ (-(d + 1 : ℕ) : ℤ) := by
      rw [zpow_neg, zpow_natCast]
      push_cast
      rw [mul_assoc, mul_inv_cancel₀ (by positivity), mul_one]
    have half : (2 : ℚ) ^ (Nat.clog 2 n - 54 : ℤ) = 1 / 2 * 2 ^ (-(d + 1 : ℕ) : ℤ) := by
      have place : (Nat.clog 2 n - 54 : ℤ) = -(d + 1 : ℕ) + -1 := by omega
      rw [place, zpow_add₀ (by norm_num)]
      ring
    have place := two_zpow_pos (-(d + 1 : ℕ))
    have decides : n ≤ nearest q ↔
        ((n * 2 ^ (d + 1) : ℕ) : ℤ) - 1 / 2 ≤ q / 2 ^ (-(d + 1 : ℕ) : ℤ) := by
      conv_lhs => rw [isScaled]
      rw [le_nearest_iff nonneg (by exact_mod_cast low) (by exact_mod_cast high) (by omega),
        le_roundEven_iff, le_iff_lt_or_eq, and_iff_right even]
    rw [decides, le_div_iff₀ place, sub_mul, ← isScaled, half]
    constructor <;> intro bound <;> linarith

/-! ## Values -/

/-- A double. -/
inductive Double where
  | finite (q : ℚ)
  | infinity (negative : Bool)
  | nan
  deriving DecidableEq

/-- The double nearest to a rational. -/
def ofRat (q : ℚ) : Double :=
  if 2 ^ 1024 ≤ |nearest q| then .infinity (decide (q < 0)) else .finite (nearest q)

/-- A rational is infinite as a double, or its nearest number. -/
theorem ofRat_cases (q : ℚ) :
    (∃ negative, ofRat q = .infinity negative) ∨ ofRat q = .finite (nearest q) := by
  rw [ofRat]
  split
  · exact .inl ⟨_, rfl⟩
  · exact .inr rfl

/-- A small one is its nearest number. -/
theorem ofRat_eq_finite {q : ℚ} {k : ℕ} (small : |nearest q| < 2 ^ k) (le : k ≤ 1024) :
    ofRat q = .finite (nearest q) :=
  if_neg (not_le.mpr (small.trans_le (pow_le_pow_right₀ (by norm_num) le)))

end Drover.Binary64
