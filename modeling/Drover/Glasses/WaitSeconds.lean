import Drover.Data.Binary64
import Drover.Data.JsonValue
import Drover.Glasses.Core
import Mathlib.Data.List.TakeWhile

/-!
# The wait of a pull

`parseWaitSeconds` reads the query parameter `wait`, seconds with a fraction, as
a double, scales it to nanoseconds in floating point, converts the product to an
integer and then clamps it.  The conversion is right up to the range of the
integers; what it gives beyond is up to the platform.
-/

namespace Drover.Glasses

open Binary64
open JsonText (isDigit digitsValue)

/-- What the source leaves to the library and the platform. -/
structure Floats where
  /-- `strconv.ParseFloat` of what is no plain decimal: infinities, `NaN`,
  hexadecimal numbers, digits with underscores. -/
  parseSpecial : Bytes → Option Double
  /-- The conversion to `int64` of a value that has none. -/
  outOfRange : Double → Int

/-! ## Decimals -/

/-- The sign of a number, and what is behind it. -/
def signOf : Bytes → Bool × Bytes
  | [] => (false, [])
  | b :: s => if b = 0x2d then (true, s) else if b = 0x2b then (false, s) else (false, b :: s)

/-- The digits behind a point, and what is behind them. -/
def fractionOf : Bytes → Bytes × Bytes
  | [] => ([], [])
  | b :: s => if b = 0x2e then (s.takeWhile isDigit, s.dropWhile isDigit) else ([], b :: s)

/-- The value of an exponent. -/
def exponentOf : Bytes → Option Int
  | [] => some 0
  | b :: s =>
      if b = 0x65 ∨ b = 0x45 then
        if (signOf s).2 = [] ∨ (signOf s).2.all isDigit = false then none
        else if (signOf s).1 then some (-digitsValue (signOf s).2)
        else some (digitsValue (signOf s).2)
      else none

/-- The value of a decimal. -/
def parseDecimal (v : Bytes) : Option ℚ :=
  let s := (signOf v).2
  let integer := s.takeWhile isDigit
  let fraction := fractionOf (s.dropWhile isDigit)
  if integer = [] ∧ fraction.1 = [] then none
  else
    (exponentOf fraction.2).map fun e =>
      let q : ℚ := digitsValue (integer ++ fraction.1) * 10 ^ (e - (fraction.1.length : Int))
      if (signOf v).1 then -q else q

/-! ## The wait -/

/-- `strconv.ParseFloat`: the nearest double; one that would be infinite is an
error. -/
def Floats.parseFloat (floats : Floats) (v : Bytes) : Option Double :=
  match parseDecimal v with
  | none => floats.parseSpecial v
  | some w =>
      match ofRat w with
      | .infinity _ => none
      | sec => some sec

/-- `sec < 0`. -/
def isNegative : Double → Bool
  | .finite q => q < 0
  | .infinity negative => negative
  | .nan => false

/-- `sec * float64(time.Second)`. -/
def timesSecond : Double → Double
  | .finite q => ofRat (q * second)
  | sec => sec

/-- The conversion to `int64`, which drops the fraction. -/
def Floats.toInt64 (floats : Floats) : Double → Int
  | .finite q =>
      let n := if 0 ≤ q then ⌊q⌋ else ⌈q⌉
      if -2 ^ 63 ≤ n ∧ n < 2 ^ 63 then n else floats.outOfRange (.finite q)
  | sec => floats.outOfRange sec

/-- `parseWaitSeconds`; `none` is an error. -/
def Floats.parseWaitSeconds (floats : Floats) (v : Bytes) : Option Nat :=
  if trimSpace v = [] then some 0
  else
    match floats.parseFloat v with
    | none => none
    | some sec =>
        if isNegative sec then none else some (clampWait (floats.toInt64 (timesSecond sec)))

/-! ## Decimals that are accepted -/

theorem signOf_subset (v : Bytes) : (signOf v).2 ⊆ v := by
  cases v with
  | nil => exact List.Subset.refl _
  | cons b s =>
      rw [signOf]
      split
      · exact List.subset_cons_self b s
      · split
        · exact List.subset_cons_self b s
        · exact List.Subset.refl _

theorem fractionOf_subset (s : Bytes) : (fractionOf s).1 ⊆ s := by
  cases s with
  | nil => exact List.Subset.refl _
  | cons b s =>
      rw [fractionOf]
      split
      · exact fun c mem => List.mem_cons_of_mem b ((List.takeWhile_prefix _).subset mem)
      · exact List.nil_subset _

theorem isDigit_of_mem_fractionOf {s : Bytes} {b : UInt8} (mem : b ∈ (fractionOf s).1) :
    isDigit b = true := by
  cases s with
  | nil => cases mem
  | cons c s =>
      rw [fractionOf] at mem
      split at mem
      · exact List.mem_takeWhile_imp mem
      · cases mem

theorem exists_digit_of_parseDecimal {v : Bytes} {w : ℚ} (decimal : parseDecimal v = some w) :
    ∃ b ∈ v, isDigit b = true := by
  simp only [parseDecimal] at decimal
  split at decimal
  · cases decimal
  · rename_i digits
    rw [not_and_or] at digits
    rcases digits with inInteger | inFraction
    · obtain ⟨b, mem⟩ := List.exists_mem_of_ne_nil _ inInteger
      exact ⟨b, signOf_subset v ((List.takeWhile_prefix _).subset mem), List.mem_takeWhile_imp mem⟩
    · obtain ⟨b, mem⟩ := List.exists_mem_of_ne_nil _ inFraction
      have inRest := fractionOf_subset _ mem
      exact ⟨b, signOf_subset v ((List.dropWhile_suffix _).subset inRest),
        isDigit_of_mem_fractionOf mem⟩

/-- A decimal is no white space. -/
theorem trimSpace_ne_nil_of_parseDecimal {v : Bytes} {w : ℚ} (decimal : parseDecimal v = some w) :
    trimSpace v ≠ [] := by
  obtain ⟨b, mem, digit⟩ := exists_digit_of_parseDecimal decimal
  have other : ∀ char ∈ spaces, b ∉ char := by
    intro char inSpaces inChar
    have noDigit : spaces.all (fun char => char.all fun c => !isDigit c) = true := by decide
    have isOther := List.all_eq_true.mp (List.all_eq_true.mp noDigit char inSpaces) b inChar
    rw [digit] at isOther
    cases isOther
  exact List.ne_nil_of_mem (mem_trimSpace other mem)

theorem signOf_of_isDigit {v : Bytes} (digits : ∀ b ∈ v, isDigit b = true) :
    signOf v = (false, v) := by
  cases v with
  | nil => rfl
  | cons b s =>
      have isDigit_ := digits b List.mem_cons_self
      have notMinus : b ≠ 0x2d := by
        rintro rfl
        cases isDigit_
      have notPlus : b ≠ 0x2b := by
        rintro rfl
        cases isDigit_
      rw [signOf, if_neg notMinus, if_neg notPlus]

/-- Digits are a decimal. -/
theorem parseDecimal_of_isDigit {v : Bytes} (nonempty : v ≠ [])
    (digits : ∀ b ∈ v, isDigit b = true) : parseDecimal v = some (digitsValue v : ℚ) := by
  have integer : v.takeWhile isDigit = v := List.takeWhile_eq_self_iff.mpr digits
  have rest : v.dropWhile isDigit = [] := List.dropWhile_eq_nil_iff.mpr digits
  have noFraction : fractionOf [] = ([], []) := rfl
  simp only [parseDecimal, signOf_of_isDigit digits, integer, rest, noFraction]
  rw [if_neg fun empty => nonempty empty.1, exponentOf]
  simp

/-- The product that is converted. -/
def product (w : ℚ) : ℚ := nearest (nearest w * second)

/-- The nanoseconds that a decimal is read as. -/
def Floats.waitOf (floats : Floats) (w : ℚ) : Nat :=
  clampWait (floats.toInt64 (timesSecond (.finite (nearest w))))

theorem Floats.parseWaitSeconds_of_decimal (floats : Floats) {v : Bytes} {w : ℚ}
    (decimal : parseDecimal v = some w) {d : Nat}
    (accepted : floats.parseWaitSeconds v = some d) : d = floats.waitOf w := by
  have read : floats.parseFloat v =
      match ofRat w with
      | .infinity _ => none
      | sec => some sec := by rw [parseFloat, decimal]
  rw [parseWaitSeconds, if_neg (trimSpace_ne_nil_of_parseDecimal decimal), read] at accepted
  rcases ofRat_cases w with ⟨negative, isInfinite⟩ | isFinite
  · rw [isInfinite] at accepted
    cases accepted
  · rw [isFinite] at accepted
    simp only at accepted
    split at accepted
    · cases accepted
    · cases accepted
      rfl

theorem isNegative_nearest {w : ℚ} (nonneg : 0 ≤ w) :
    isNegative (.finite (nearest w)) = false :=
  decide_eq_false (nearest_nonneg nonneg).not_gt

/-- A decimal that is no negative number and not infinite as a double is accepted. -/
theorem Floats.parseWaitSeconds_of_finite (floats : Floats) {v : Bytes} {w : ℚ}
    (decimal : parseDecimal v = some w) (nonneg : 0 ≤ w) (finite : ofRat w = .finite (nearest w)) :
    floats.parseWaitSeconds v = some (floats.waitOf w) := by
  have read : floats.parseFloat v = some (.finite (nearest w)) := by
    rw [parseFloat, decimal]
    simp only [finite]
  rw [parseWaitSeconds, if_neg (trimSpace_ne_nil_of_parseDecimal decimal), read]
  simp only [isNegative_nearest nonneg]
  rfl

theorem second_eq : (second : ℚ) = 1000000000 := by
  rw [second]
  norm_num

theorem product_nonneg {w : ℚ} (nonneg : 0 ≤ w) : 0 ≤ product w :=
  nearest_nonneg (mul_nonneg (nearest_nonneg nonneg) (Nat.cast_nonneg _))

theorem product_mono {w w' : ℚ} (nonneg : 0 ≤ w) (le : w ≤ w') : product w ≤ product w' :=
  nearest_mono (mul_nonneg (nearest_nonneg nonneg) (Nat.cast_nonneg _))
    (mul_le_mul_of_nonneg_right (nearest_mono nonneg le) (Nat.cast_nonneg _))

/-- Whole seconds are scaled exactly. -/
theorem product_natCast {n : ℕ} (small : n * second < 2 ^ 53) : product n = n * second := by
  have positive : 0 < second := by decide
  have smaller : n < 2 ^ 53 := (Nat.le_mul_of_pos_right n positive).trans_lt small
  rw [product, nearest_natCast smaller]
  exact_mod_cast nearest_natCast small

theorem timesSecond_eq (w : ℚ) :
    timesSecond (.finite (nearest w)) = ofRat (nearest w * second) := rfl

/-- The greatest decimal with a product in the range of the integers. -/
def greatestConverted : ℚ := 9671406556917033 / 2 ^ 20

theorem nearest_greatestConverted :
    nearest greatestConverted ≤ 4835703278458516 * 2 ^ (-19 : ℤ) := by
  have place : lastPlace greatestConverted = -19 := by
    apply lastPlace_eq
    · norm_num [greatestConverted]
    · norm_num [greatestConverted]
    · norm_num
  have integer : roundEven (greatestConverted / 2 ^ (-19 : ℤ)) ≤ 4835703278458516 := by
    apply Int.le_of_lt_add_one
    rw [← not_le, le_roundEven_iff]
    norm_num [greatestConverted]
  rw [nearest, place]
  exact mul_le_mul_of_nonneg_right (by exact_mod_cast integer) (two_zpow_pos _).le

/-- The products in the range of the integers. -/
theorem product_lt_iff {w : ℚ} (nonneg : 0 ≤ w) : product w < 2 ^ 63 ↔ w ≤ greatestConverted := by
  have scaledNonneg : 0 ≤ nearest w * second :=
    mul_nonneg (nearest_nonneg nonneg) (Nat.cast_nonneg _)
  have outside : 2 ^ 63 ≤ product w ↔ 2 ^ 63 - 512 ≤ nearest w * second := by
    have isPower : (2 : ℚ) ^ 63 = ((2 ^ 53 : ℤ) : ℚ) * 2 ^ (10 : ℤ) := by norm_num
    have even : (2 ^ 53 : ℤ) % 2 = 0 := by norm_num
    have isHalf : (((2 ^ 53 : ℤ) : ℚ) - 1 / 2) * 2 ^ (10 : ℤ) = 2 ^ 63 - 512 := by norm_num
    rw [product, isPower, le_nearest_iff scaledNonneg (by norm_num) le_rfl (by norm_num),
      le_roundEven_iff, and_iff_right even, ← le_iff_lt_or_eq, le_div_iff₀ (two_zpow_pos 10),
      isHalf, isPower]
  rw [← not_le, outside, not_le]
  constructor
  · intro below
    rw [← not_lt]
    intro large
    have bound : ((4835703278458517 : ℤ) : ℚ) * 2 ^ (-19 : ℤ) ≤ nearest w := by
      rw [le_nearest_iff nonneg (by norm_num) (by norm_num) (by norm_num), le_roundEven_iff]
      left
      norm_num [greatestConverted] at large ⊢
      linarith
    rw [second_eq] at below
    norm_num at bound
    linarith
  · intro small
    have bound := (nearest_mono nonneg small).trans nearest_greatestConverted
    rw [second_eq]
    norm_num at bound
    linarith

/-- In the range of the integers, the product loses its fraction. -/
theorem Floats.toInt64_of_lt (floats : Floats) {w : ℚ} (nonneg : 0 ≤ w)
    (inRange : product w < 2 ^ 63) :
    floats.toInt64 (timesSecond (.finite (nearest w))) = ⌊product w⌋ := by
  have positive := product_nonneg nonneg
  have finite : timesSecond (.finite (nearest w)) = .finite (product w) := by
    have small : |product w| < 2 ^ 63 := by rwa [abs_of_nonneg positive]
    exact ofRat_eq_finite small (by decide)
  have low : 0 ≤ ⌊product w⌋ := Int.floor_nonneg.mpr positive
  have high : ⌊product w⌋ < 2 ^ 63 := Int.floor_lt.mpr (by exact_mod_cast inRange)
  rw [finite, toInt64]
  simp only [if_pos positive]
  rw [if_pos ⟨by omega, high⟩]

/-- Beyond it, the platform decides. -/
theorem Floats.toInt64_of_le (floats : Floats) {w : ℚ} (beyond : 2 ^ 63 ≤ product w) :
    floats.toInt64 (timesSecond (.finite (nearest w))) =
      floats.outOfRange (timesSecond (.finite (nearest w))) := by
  have positive : 0 ≤ product w := le_trans (by norm_num) beyond
  rw [timesSecond_eq, ofRat]
  split
  · rfl
  · have high : ¬ ⌊product w⌋ < 2 ^ 63 := by
      rw [not_lt]
      exact Int.le_floor.mpr (by exact_mod_cast beyond)
    change floats.toInt64 (.finite (product w)) = floats.outOfRange (.finite (product w))
    rw [toInt64]
    simp only [if_pos positive]
    rw [if_neg fun inRange => high inRange.2]

theorem product_maxWait : product 25 = maxWait := by
  have exact_ := product_natCast (n := 25) (by decide)
  rw [maxWait]
  exact_mod_cast exact_

/-- A decimal of the range is off by less than the hundred thousandth of a
nanosecond before it loses its fraction. -/
theorem abs_product_sub_lt {w : ℚ} (nonneg : 0 ≤ w) (short : w ≤ 25) :
    |product w - w * second| < 1 / 100000 := by
  have first : |nearest w - w| ≤ 2 ^ (5 - 54 : ℤ) :=
    abs_nearest_sub_le nonneg (by norm_num; linarith) (by norm_num)
  have scaledNonneg : 0 ≤ nearest w * second :=
    mul_nonneg (nearest_nonneg nonneg) (Nat.cast_nonneg _)
  have bounded : nearest w ≤ 25 := by
    have kept := nearest_natCast (n := 25) (by decide)
    exact (nearest_mono nonneg short).trans kept.le
  have second_ : |product w - nearest w * second| ≤ 2 ^ (35 - 54 : ℤ) := by
    apply abs_nearest_sub_le scaledNonneg
    · rw [second_eq]
      norm_num
      linarith
    · norm_num
  rw [abs_le] at first second_
  rw [second_eq] at second_ ⊢
  norm_num at first second_
  rw [abs_lt]
  constructor <;> linarith

/-! ## What a decimal gives -/

/-- The product is in the range of the integers, or the platform makes a long
time of it. -/
def Floats.Converts (floats : Floats) (w : ℚ) : Prop :=
  w ≤ greatestConverted ∨ (maxWait : Int) ≤ floats.outOfRange (timesSecond (.finite (nearest w)))

theorem product_le_maxWait {w : ℚ} (nonneg : 0 ≤ w) (short : w ≤ 25) : product w ≤ maxWait :=
  (product_mono nonneg short).trans product_maxWait.le

/-- Up to the longest wait, the product loses its fraction. -/
theorem Floats.waitOf_of_le (floats : Floats) {w : ℚ} (nonneg : 0 ≤ w) (short : w ≤ 25) :
    floats.waitOf w = ⌊product w⌋.toNat := by
  have bounded := product_le_maxWait nonneg short
  have inRange : product w < 2 ^ 63 :=
    bounded.trans_lt (by exact_mod_cast (by decide : maxWait < 2 ^ 63))
  have floor : ⌊product w⌋ ≤ maxWait := by
    have le := Int.floor_mono bounded
    rw [Int.floor_natCast] at le
    exact le
  rw [waitOf, toInt64_of_lt floats nonneg inRange, clampWait]
  omega

/-- From there on, it is the longest wait, if the product converts. -/
theorem Floats.waitOf_eq_maxWait (floats : Floats) {w : ℚ} (long : 25 ≤ w)
    (converts : floats.Converts w) : floats.waitOf w = maxWait := by
  have nonneg : 0 ≤ w := le_trans (by norm_num) long
  have atLeast : (maxWait : Int) ≤ floats.toInt64 (timesSecond (.finite (nearest w))) := by
    by_cases inRange : product w < 2 ^ 63
    · rw [toInt64_of_lt floats nonneg inRange, Int.le_floor]
      exact_mod_cast product_maxWait.ge.trans (product_mono (by norm_num) long)
    · rw [toInt64_of_le floats (not_lt.mp inRange)]
      rw [product_lt_iff nonneg] at inRange
      exact converts.resolve_left inRange
  rw [waitOf, clampWait]
  omega

/-- A short decimal converts. -/
theorem Floats.converts_of_le (floats : Floats) {w : ℚ} (short : w ≤ 25) : floats.Converts w :=
  .inl (short.trans (by norm_num [greatestConverted]))

/-- Only a product that converts is read as a long wait. -/
theorem Floats.converts_of_waitOf (floats : Floats) {w : ℚ} (nonneg : 0 ≤ w)
    (is : floats.waitOf w = maxWait) : floats.Converts w := by
  by_cases inRange : product w < 2 ^ 63
  · exact .inl ((product_lt_iff nonneg).mp inRange)
  · rw [waitOf, toInt64_of_le floats (not_lt.mp inRange), clampWait] at is
    have positive : 0 < maxWait := by decide
    exact .inr (by omega)

/-- The decimal is some number of nanoseconds, and the double that is read for it falls short
of it by no more than half the distance to the next lower double of nanoseconds. -/
def ReadsWhole (w : ℚ) : Prop :=
  ∃ n : ℕ, w * second = n ∧ n - nearest w * second ≤ 2 ^ (Nat.clog 2 n - 54 : ℤ)

/-- Whole nanoseconds are reached by the product when the rounding is that near. -/
theorem natCast_le_product_iff {w : ℚ} (nonneg : 0 ≤ w) (short : w ≤ 25) {n : ℕ}
    (whole : w * second = n) :
    n ≤ product w ↔ n - nearest w * second ≤ 2 ^ (Nat.clog 2 n - 54 : ℤ) := by
  have scaledNonneg : 0 ≤ nearest w * second :=
    mul_nonneg (nearest_nonneg nonneg) (Nat.cast_nonneg _)
  have small : (n : ℚ) < 2 ^ 52 := by
    rw [← whole, second_eq]
    norm_num
    linarith
  exact natCast_le_nearest_iff scaledNonneg (by exact_mod_cast small)

/-- A wait within the limit is read as it is only if it is whole and its product reaches it. -/
theorem Floats.waitOf_eq_iff_of_le (floats : Floats) {w : ℚ} (nonneg : 0 ≤ w) (short : w ≤ 25) :
    (floats.waitOf w : ℚ) = w * second ↔ ReadsWhole w := by
  have floor : ((⌊product w⌋.toNat : ℕ) : ℚ) = (⌊product w⌋ : ℚ) := by
    exact_mod_cast Int.toNat_of_nonneg (Int.floor_nonneg.mpr (product_nonneg nonneg))
  rw [floats.waitOf_of_le nonneg short]
  constructor
  · intro is
    have below := floor.le.trans (Int.floor_le (product w))
    exact ⟨_, is.symm, (natCast_le_product_iff nonneg short is.symm).mp below⟩
  · rintro ⟨n, whole, within⟩
    have near := abs_lt.mp (abs_product_sub_lt nonneg short)
    rw [whole] at near
    have isFloor : ⌊product w⌋ = n := by
      rw [Int.floor_eq_iff]
      constructor
      · exact_mod_cast (natCast_le_product_iff nonneg short whole).mpr within
      · push_cast
        linarith [near.2]
    rw [floor, isFloor, whole]
    rfl

/-- A decimal is read exactly if its product converts and, below the longest
wait, it is a number of nanoseconds that its double does not fall short of. -/
theorem Floats.waitOf_eq_iff (floats : Floats) {w : ℚ} (nonneg : 0 ≤ w) :
    (floats.waitOf w : ℚ) = min w 25 * second ↔
      floats.Converts w ∧ (25 ≤ w ∨ ReadsWhole w) := by
  have longest : ((maxWait : ℕ) : ℚ) = 25 * second := by
    rw [maxWait]
    push_cast
    rfl
  by_cases long : 25 ≤ w
  · rw [min_eq_right long, ← longest, Nat.cast_inj]
    constructor
    · exact fun is => ⟨floats.converts_of_waitOf nonneg is, .inl long⟩
    · exact fun kept => floats.waitOf_eq_maxWait long kept.1
  · have short := (not_le.mp long).le
    rw [min_eq_left short, floats.waitOf_eq_iff_of_le nonneg short, or_iff_right long,
      and_iff_right (floats.converts_of_le short)]

/-- A decimal is read to the nanosecond. -/
theorem Floats.abs_waitOf_sub_lt (floats : Floats) {w : ℚ} (nonneg : 0 ≤ w)
    (converts : floats.Converts w) :
    |(floats.waitOf w : ℚ) - min w 25 * second| < 1 + 1 / 100000 := by
  rcases le_total w 25 with short | long
  · have positive := product_nonneg nonneg
    have near := abs_lt.mp (abs_product_sub_lt nonneg short)
    have below := Int.floor_le (product w)
    have above := Int.lt_floor_add_one (product w)
    have floor : ((⌊product w⌋.toNat : ℕ) : ℚ) = (⌊product w⌋ : ℚ) := by
      exact_mod_cast Int.toNat_of_nonneg (Int.floor_nonneg.mpr positive)
    rw [min_eq_left short, floats.waitOf_of_le nonneg short, floor, abs_lt]
    constructor <;> linarith [near.1, near.2]
  · have kept := (floats.waitOf_eq_iff nonneg).mpr ⟨converts, .inl long⟩
    rw [kept, sub_self, abs_zero]
    norm_num

/-- A longer decimal is no shorter wait. -/
theorem Floats.waitOf_mono (floats : Floats) {w w' : ℚ} (nonneg : 0 ≤ w) (le : w ≤ w')
    (converts : floats.Converts w') : floats.waitOf w ≤ floats.waitOf w' := by
  rcases le_total w' 25 with short | long
  · rw [floats.waitOf_of_le nonneg (le.trans short),
      floats.waitOf_of_le (nonneg.trans le) short]
    exact Int.toNat_le_toNat (Int.floor_mono (product_mono nonneg le))
  · rw [floats.waitOf_eq_maxWait long converts]
    exact min_le_right _ _

end Drover.Glasses
