import Drover.Data.Bytes
import Mathlib.Data.Nat.Log
import Mathlib.Tactic.Ring

/-!
# Times as texts

`time.Time.Format` with the layout `time.RFC3339Nano`, for a time in UTC.  A time is given in
nanoseconds since the beginning of the year 1.  The layout drops the zeros at the end of the
fraction, and the point with the last of them, so that texts are not ordered as the times are;
`rfc3339Nano_lt` and `rfc3339Nano_gt` say when they are.
-/

namespace Drover.Rfc3339

/-! ## Lexicographic order -/

theorem append_lt_append_iff {s s' t t' : Bytes} (length : s.length = t.length) :
    s ++ s' < t ++ t' ↔ s < t ∨ s = t ∧ s' < t' := by
  induction s generalizing t with
  | nil =>
      cases t with
      | nil => simp
      | cons d t => cases length
  | cons c s ih =>
      cases t with
      | nil => cases length
      | cons d t =>
          rw [List.length_cons, List.length_cons, Nat.succ.injEq] at length
          simp only [List.cons_append, List.cons_lt_cons_iff, ih length, List.cons.injEq]
          constructor
          · rintro (less | ⟨same, less | ⟨same', less⟩⟩)
            · exact .inl (.inl less)
            · exact .inl (.inr ⟨same, less⟩)
            · exact .inr ⟨⟨same, same'⟩, less⟩
          · rintro ((less | ⟨same, less⟩) | ⟨⟨same, same'⟩, less⟩)
            · exact .inl less
            · exact .inr ⟨same, .inl less⟩
            · exact .inr ⟨same, .inr ⟨same', less⟩⟩

theorem append_lt_append {s s' t t' : Bytes} (length : s.length = t.length) (less : s < t) :
    s ++ s' < t ++ t' :=
  (append_lt_append_iff length).mpr (.inl less)

/-! ## Decimal numbers -/

/-- The digit zero. -/
def zeroDigit : UInt8 := 0x30

/-- The last digit of a number. -/
def decimalDigit (n : Nat) : UInt8 := UInt8.ofNat (0x30 + n % 10)

/-- The last `w` digits of the number. -/
def padded : Nat → Nat → Bytes
  | 0, _ => []
  | w + 1, n => padded w (n / 10) ++ [decimalDigit n]

@[simp]
theorem length_padded (w n : Nat) : (padded w n).length = w := by
  induction w generalizing n with
  | zero => rfl
  | succ w ih => rw [padded, List.length_append, ih, List.length_singleton]

theorem toNat_decimalDigit (n : Nat) : (decimalDigit n).toNat = 0x30 + n % 10 := by
  have small : 0x30 + n % 10 < 2 ^ 8 := by omega
  exact UInt8.toNat_ofNat_of_lt small

theorem padded_lt_padded {w a b : Nat} (less : a < b) (small : b < 10 ^ w) :
    padded w a < padded w b := by
  induction w generalizing a b with
  | zero => omega
  | succ w ih =>
      rw [padded, padded, append_lt_append_iff (by simp)]
      rcases Nat.lt_or_ge (a / 10) (b / 10) with high | high
      · have small' : b / 10 < 10 ^ w := by
          rw [pow_succ] at small
          omega
        exact .inl (ih high small')
      · have same : a / 10 = b / 10 := by omega
        refine .inr ⟨by rw [same], ?_⟩
        rw [List.cons_lt_cons_iff, UInt8.lt_iff_toNat_lt, toNat_decimalDigit, toNat_decimalDigit]
        exact .inl (by omega)

theorem padded_add (v w n : Nat) : padded (v + w) n = padded v (n / 10 ^ w) ++ padded w n := by
  induction w generalizing n with
  | zero => simp [padded]
  | succ w ih =>
      rw [← Nat.add_assoc, padded, padded, ih, List.append_assoc, Nat.div_div_eq_div_mul,
        pow_succ']

/-! ## Fractions -/

/-- Without the zeros at the end. -/
def trimZeros : Bytes → Bytes
  | [] => []
  | c :: s => if trimZeros s = [] ∧ c = zeroDigit then [] else c :: trimZeros s

/-- The byte before a fraction. -/
def pointChar : UInt8 := 0x2e

/-- The name of the zone UTC. -/
def zoneChar : UInt8 := 0x5a

/-- The digits behind a point, if there are any. -/
def pointed (digits : Bytes) : Bytes := if digits = [] then [] else pointChar :: digits

/-- A fraction of nine digits. -/
def fraction (nanoseconds : Nat) : Bytes := pointed (trimZeros (padded 9 nanoseconds))

/-- The digits are those of the other number, cut off after some of them. -/
def CutOff (s t : Bytes) : Prop :=
  ∃ k ≤ t.length, s = t.take (t.length - k) ++ List.replicate k zeroDigit

theorem trimZeros_eq_nil_iff {s : Bytes} :
    trimZeros s = [] ↔ s = List.replicate s.length zeroDigit := by
  induction s with
  | nil => simp [trimZeros]
  | cons c s ih =>
      rw [trimZeros, List.length_cons, List.replicate_succ, List.cons.injEq, ← ih]
      split
      · rename_i zeros
        exact iff_of_true rfl zeros.symm
      · rename_i more
        exact iff_of_false (List.cons_ne_nil _ _) fun zeros => more zeros.symm

theorem cutOff_cons_iff {c d : UInt8} {s t : Bytes} (length : s.length = t.length)
    (more : trimZeros (c :: s) ≠ []) : CutOff (c :: s) (d :: t) ↔ c = d ∧ CutOff s t := by
  constructor
  · rintro ⟨k, le, cut⟩
    rw [List.length_cons] at le cut
    rcases Nat.lt_or_ge t.length k with all | some_
    · have isAll : k = t.length + 1 := by omega
      rw [isAll, Nat.sub_self, List.take_zero, List.nil_append, ← length] at cut
      exact absurd (trimZeros_eq_nil_iff.mpr cut) more
    · rw [Nat.succ_sub some_, List.take_succ_cons, List.cons_append, List.cons.injEq] at cut
      exact ⟨cut.1, k, some_, cut.2⟩
  · rintro ⟨rfl, k, le, cut⟩
    refine ⟨k, Nat.le_succ_of_le le, ?_⟩
    rw [List.length_cons, Nat.succ_sub le, List.take_succ_cons, List.cons_append, ← cut]

theorem not_lt_zeros {s : Bytes} (digits : ∀ c ∈ s, zeroDigit ≤ c) :
    ¬ s < List.replicate s.length zeroDigit := by
  induction s with
  | nil => exact List.not_lt_nil _
  | cons c s ih =>
      rw [List.length_cons, List.replicate_succ, List.cons_lt_cons_iff]
      rintro (less | ⟨-, less⟩)
      · exact UInt8.not_le.mpr less (digits c List.mem_cons_self)
      · exact ih (fun d mem => digits d (List.mem_cons_of_mem c mem)) less

/-- Digits without the zeros at their end, before a character after the digits. -/
theorem trimZeros_order {s t : Bytes} {z : UInt8} (length : s.length = t.length)
    (digits : ∀ d ∈ t, d < z) (digits' : ∀ c ∈ s, zeroDigit ≤ c) (less : s < t)
    (rest : Bytes) :
    (¬ CutOff s t → trimZeros s ++ z :: rest < trimZeros t ++ z :: rest) ∧
      (CutOff s t → trimZeros t ++ z :: rest < trimZeros s ++ z :: rest) := by
  induction s generalizing t with
  | nil =>
      cases t with
      | nil => exact absurd less (List.not_lt_nil _)
      | cons d t => cases length
  | cons c s ih =>
      cases t with
      | nil => cases length
      | cons d t =>
          rw [List.length_cons, List.length_cons, Nat.succ.injEq] at length
          have below : d < z := digits d List.mem_cons_self
          by_cases zeros : trimZeros (c :: s) = []
          · -- only zeros are cut off from anything greater
            have cut : CutOff (c :: s) (d :: t) := by
              refine ⟨(d :: t).length, Nat.le_refl _, ?_⟩
              have all := trimZeros_eq_nil_iff.mp zeros
              rwa [Nat.sub_self, List.take_zero, List.nil_append, List.length_cons, ← length]
            have more : trimZeros (d :: t) ≠ [] := by
              intro zeros'
              apply not_lt_zeros digits'
              have all := trimZeros_eq_nil_iff.mp zeros'
              rw [all, List.length_cons, ← length] at less
              exact less
            refine ⟨fun not_ => absurd cut not_, fun _ => ?_⟩
            have kept : trimZeros (d :: t) = d :: trimZeros t := by
              rw [trimZeros] at more ⊢
              exact if_neg fun drops => more (if_pos drops)
            rw [zeros, kept, List.nil_append, List.cons_append, List.cons_lt_cons_iff]
            exact .inl below
          · have kept : trimZeros (c :: s) = c :: trimZeros s := by
              rw [trimZeros] at zeros ⊢
              exact if_neg fun drops => zeros (if_pos drops)
            rcases List.cons_lt_cons_iff.mp less with lessHead | ⟨rfl, lessTail⟩
            · have kept' : trimZeros (d :: t) = d :: trimZeros t := by
                rw [trimZeros]
                refine if_neg fun drops => ?_
                have least := digits' c List.mem_cons_self
                rw [drops.2] at lessHead
                exact UInt8.not_le.mpr lessHead least
              have notCut : ¬ CutOff (c :: s) (d :: t) := by
                rw [cutOff_cons_iff length zeros]
                rintro ⟨rfl, -⟩
                exact UInt8.lt_irrefl c lessHead
              refine ⟨fun _ => ?_, fun cut => absurd cut notCut⟩
              rw [kept, kept', List.cons_append, List.cons_append, List.cons_lt_cons_iff]
              exact .inl lessHead
            · have kept' : trimZeros (c :: t) = c :: trimZeros t := by
                rw [trimZeros]
                refine if_neg fun drops => ?_
                have all := trimZeros_eq_nil_iff.mp drops.1
                rw [all, ← length] at lessTail
                exact not_lt_zeros (fun e mem => digits' e (List.mem_cons_of_mem c mem)) lessTail
              rw [kept, kept', cutOff_cons_iff length zeros, eq_self, true_and]
              simp only [List.cons_append, List.cons_lt_cons_iff, true_and, UInt8.lt_irrefl,
                false_or]
              apply ih length _ _ lessTail
              · exact fun e mem => digits e (List.mem_cons_of_mem c mem)
              · exact fun e mem => digits' e (List.mem_cons_of_mem c mem)

theorem padded_injOn {w a b : Nat} (smallA : a < 10 ^ w) (smallB : b < 10 ^ w)
    (same : padded w a = padded w b) : a = b := by
  rcases Nat.lt_trichotomy a b with less | equal | greater
  · exact absurd (padded_lt_padded less smallB) (by rw [same]; exact List.lt_irrefl _)
  · exact equal
  · exact absurd (padded_lt_padded greater smallA) (by rw [same]; exact List.lt_irrefl _)

theorem padded_mul_pow (k q : Nat) : padded k (q * 10 ^ k) = List.replicate k zeroDigit := by
  induction k generalizing q with
  | zero => rfl
  | succ k ih =>
      have tenfold : q * 10 ^ (k + 1) = q * 10 ^ k * 10 := by ring
      rw [padded, List.replicate_succ', tenfold, Nat.mul_div_cancel _ (by decide), ih,
        decimalDigit, Nat.mul_mod_left]
      rfl

theorem cutOff_padded_iff {w a b : Nat} (smallA : a < 10 ^ w) (smallB : b < 10 ^ w) :
    CutOff (padded w a) (padded w b) ↔ ∃ k ≤ w, a = b / 10 ^ k * 10 ^ k := by
  rw [CutOff, length_padded]
  refine exists_congr fun k => and_congr_right fun le => ?_
  have split (n : Nat) : padded w n = padded (w - k) (n / 10 ^ k) ++ padded k n := by
    rw [← padded_add, Nat.sub_add_cancel le]
  have cut : (padded w b).take (w - k) ++ List.replicate k zeroDigit =
      padded w (b / 10 ^ k * 10 ^ k) := by
    rw [split b, split (b / 10 ^ k * 10 ^ k), padded_mul_pow,
      Nat.mul_div_cancel _ (Nat.pow_pos (by decide)), List.take_left' (length_padded _ _)]
  rw [cut]
  constructor
  · refine padded_injOn smallA (Nat.lt_of_le_of_lt ?_ smallB)
    exact Nat.div_mul_le_self b (10 ^ k)
  · exact congrArg (padded w)

theorem mem_padded {w n : Nat} {d : UInt8} (mem : d ∈ padded w n) : zeroDigit ≤ d ∧ d < 0x3a := by
  induction w generalizing n with
  | zero => cases mem
  | succ w ih =>
      rw [padded, List.mem_append, List.mem_singleton] at mem
      rcases mem with mem | rfl
      · exact ih mem
      · rw [UInt8.le_iff_toNat_le, UInt8.lt_iff_toNat_lt, toNat_decimalDigit]
        exact ⟨Nat.le_add_right _ _, Nat.add_lt_add_left (Nat.mod_lt n (by decide)) _⟩

theorem trimZeros_subset (s : Bytes) : trimZeros s ⊆ s := by
  induction s with
  | nil => exact List.Subset.refl _
  | cons c s ih =>
      rw [trimZeros]
      split
      · exact List.nil_subset _
      · exact List.cons_subset_cons c ih

theorem pointed_lt {s t rest : Bytes} (digits : ∀ d ∈ t, d < zoneChar)
    (less : s ++ zoneChar :: rest < t ++ zoneChar :: rest) :
    pointed s ++ zoneChar :: rest < pointed t ++ zoneChar :: rest := by
  cases s with
  | nil =>
      cases t with
      | nil => exact less
      | cons d t =>
          rcases List.cons_lt_cons_iff.mp less with lessHead | ⟨same, -⟩
          · exact absurd lessHead (UInt8.lt_asymm (digits d List.mem_cons_self))
          · have below := digits d List.mem_cons_self
            rw [same] at below
            exact absurd below (UInt8.lt_irrefl d)
  | cons c s =>
      cases t with
      | nil => exact List.cons_lt_cons_iff.mpr (.inl (by decide))
      | cons d t => exact List.cons_lt_cons_iff.mpr (.inr ⟨rfl, less⟩)

/-- The fraction of a smaller number comes first, if it is not that of the greater one cut off. -/
theorem fraction_order {a b : Nat} (less : a < b) (small : b < 10 ^ 9) (rest : Bytes) :
    ((¬ ∃ k ≤ 9, a = b / 10 ^ k * 10 ^ k) →
        fraction a ++ zoneChar :: rest < fraction b ++ zoneChar :: rest) ∧
      ((∃ k ≤ 9, a = b / 10 ^ k * 10 ^ k) →
        fraction b ++ zoneChar :: rest < fraction a ++ zoneChar :: rest) := by
  have digits : ∀ n, ∀ d ∈ padded 9 n, d < zoneChar := fun n d mem =>
    UInt8.lt_trans (mem_padded mem).2 (by decide)
  have digits' : ∀ n, ∀ d ∈ trimZeros (padded 9 n), d < zoneChar := fun n d mem =>
    digits n d (trimZeros_subset _ mem)
  have order := trimZeros_order (by rw [length_padded, length_padded]) (digits b)
    (fun c mem => (mem_padded mem).1) (padded_lt_padded less small) rest
  rw [cutOff_padded_iff (Nat.lt_trans less small) small] at order
  constructor
  · exact fun notCut => pointed_lt (digits' b) (order.1 notCut)
  · exact fun cut => pointed_lt (digits' a) (order.2 cut)

/-! ## Dates -/

/-- The days of a cycle of the calendar. -/
def daysPer400Years : Nat := 365 * 400 + 97

/-- The days of a century that ends in a common year. -/
def daysPer100Years : Nat := 365 * 100 + 24

/-- The days of four years with a leap year. -/
def daysPer4Years : Nat := 365 * 4 + 1

/-- The year of a day, counted from the beginning of the year 1. -/
def yearOf (day : Nat) : Nat :=
  let n400 := day / daysPer400Years
  let day := day % daysPer400Years
  let n100 := min 3 (day / daysPer100Years)
  let day := day - daysPer100Years * n100
  let n4 := day / daysPer4Years
  let day := day % daysPer4Years
  let n := min 3 (day / 365)
  400 * n400 + 100 * n100 + 4 * n4 + n + 1

/-- The days before a year. -/
def daysBefore (year : Nat) : Nat :=
  let years := year - 1
  365 * years + years / 4 - years / 100 + years / 400

/-- The leap years. -/
def isLeap (year : Nat) : Bool := year % 4 == 0 && (year % 100 != 0 || year % 400 == 0)

/-- The days of the twelve months. -/
def monthLengths (leap : Bool) : List Nat :=
  [31, if leap then 29 else 28, 31, 30, 31, 30, 31, 31, 30, 31, 30, 31]

/-- The month and the day of the month, for a day counted from a month on. -/
def monthDay : Nat → List Nat → Nat → Nat × Nat
  | month, [], day => (month, day + 1)
  | month, length :: lengths, day =>
      if day < length then (month, day + 1) else monthDay (month + 1) lengths (day - length)

theorem daysBefore_parts (a : Nat) {b c n : Nat} (centuries : b ≤ 3) (leaps : c ≤ 24)
    (years : n ≤ 3) :
    daysBefore (400 * a + 100 * b + 4 * c + n + 1) =
      daysPer400Years * a + daysPer100Years * b + daysPer4Years * c + 365 * n := by
  have quarter : (400 * a + 100 * b + 4 * c + n) / 4 = 100 * a + 25 * b + c := by omega
  have century : (400 * a + 100 * b + 4 * c + n) / 100 = 4 * a + b := by omega
  have cycle : (400 * a + 100 * b + 4 * c + n) / 400 = a := by omega
  simp only [daysBefore, Nat.add_sub_cancel, quarter, century, cycle, daysPer400Years,
    daysPer100Years, daysPer4Years]
  omega

theorem year_spec (day : Nat) :
    daysBefore (yearOf day) ≤ day ∧ day < daysBefore (yearOf day + 1) := by
  have whole := Nat.div_add_mod day daysPer400Years
  have bound : day % daysPer400Years < daysPer400Years := Nat.mod_lt day (by decide)
  simp only [yearOf]
  generalize day / daysPer400Years = a at whole ⊢
  generalize day % daysPer400Years = r₁ at whole bound ⊢
  generalize isB : min 3 (r₁ / daysPer100Years) = b
  generalize isR₂ : r₁ - daysPer100Years * b = r₂
  generalize isC : r₂ / daysPer4Years = c
  generalize isR₃ : r₂ % daysPer4Years = r₃
  generalize isN : min 3 (r₃ / 365) = n
  simp only [daysPer400Years, daysPer100Years, daysPer4Years] at *
  have centuries : b ≤ 3 := by omega
  have leaps : c ≤ 24 := by omega
  have years : n ≤ 3 := by omega
  constructor
  · rw [daysBefore_parts a centuries leaps years]
    simp only [daysPer400Years, daysPer100Years, daysPer4Years]
    omega
  · -- the next year has the next part that is not the last
    rcases Nat.lt_or_ge n 3 with inside | last
    · have next := daysBefore_parts a centuries leaps (Nat.succ_le_of_lt inside)
      have same : 400 * a + 100 * b + 4 * c + n + 1 + 1 =
          400 * a + 100 * b + 4 * c + n.succ + 1 := by omega
      rw [same, next]
      simp only [daysPer400Years, daysPer100Years, daysPer4Years]
      omega
    · rcases Nat.lt_or_ge c 24 with inside | lastLeap
      · have next := daysBefore_parts a centuries (Nat.succ_le_of_lt inside) (Nat.zero_le 3)
        have same : 400 * a + 100 * b + 4 * c + n + 1 + 1 =
            400 * a + 100 * b + 4 * c.succ + 0 + 1 := by omega
        rw [same, next]
        simp only [daysPer400Years, daysPer100Years, daysPer4Years]
        omega
      · rcases Nat.lt_or_ge b 3 with inside | lastCentury
        · have next := daysBefore_parts a (Nat.succ_le_of_lt inside) (Nat.zero_le 24)
            (Nat.zero_le 3)
          have same : 400 * a + 100 * b + 4 * c + n + 1 + 1 =
              400 * a + 100 * b.succ + 4 * 0 + 0 + 1 := by omega
          rw [same, next]
          simp only [daysPer400Years, daysPer100Years, daysPer4Years]
          omega
        · have next := daysBefore_parts (a + 1) (Nat.zero_le 3) (Nat.zero_le 24) (Nat.zero_le 3)
          have same : 400 * a + 100 * b + 4 * c + n + 1 + 1 =
              400 * (a + 1) + 100 * 0 + 4 * 0 + 0 + 1 := by omega
          rw [same, next]
          simp only [daysPer400Years, daysPer100Years, daysPer4Years]
          omega

theorem daysBefore_mono : Monotone daysBefore := by
  apply monotone_nat_of_le_succ
  intro year
  simp only [daysBefore]
  omega

theorem yearOf_mono {d d' : Nat} (le : d ≤ d') : yearOf d ≤ yearOf d' := by
  by_contra later
  have before := daysBefore_mono (Nat.succ_le_of_lt (Nat.lt_of_not_le later))
  have lower := (year_spec d).1
  have upper := (year_spec d').2
  rw [Nat.succ_eq_add_one] at before
  omega

theorem le_monthDay_fst (month : Nat) (lengths : List Nat) (day : Nat) :
    month ≤ (monthDay month lengths day).1 := by
  induction lengths generalizing month day with
  | nil => exact Nat.le_refl month
  | cons length lengths ih =>
      rw [monthDay]
      split
      · exact Nat.le_refl month
      · exact Nat.le_trans (Nat.le_succ month) (ih (month + 1) (day - length))

/-- A later day is in a later month, or on a later day of the same one. -/
theorem monthDay_lt {day day' : Nat} (less : day < day') (month : Nat) (lengths : List Nat) :
    (monthDay month lengths day).1 < (monthDay month lengths day').1 ∨
      (monthDay month lengths day).1 = (monthDay month lengths day').1 ∧
        (monthDay month lengths day).2 < (monthDay month lengths day').2 := by
  induction lengths generalizing month day day' with
  | nil => exact .inr ⟨rfl, Nat.succ_lt_succ less⟩
  | cons length lengths ih =>
      rw [monthDay, monthDay]
      by_cases inside : day < length
      · rw [if_pos inside]
        by_cases inside' : day' < length
        · rw [if_pos inside']
          exact .inr ⟨rfl, Nat.succ_lt_succ less⟩
        · rw [if_neg inside']
          exact .inl (le_monthDay_fst (month + 1) lengths (day' - length))
      · rw [if_neg inside, if_neg (by omega)]
        exact ih (by omega) (month + 1)

theorem monthDay_bounds {day b : Nat} (month : Nat) {lengths : List Nat}
    (inside : day < lengths.sum) (bounded : ∀ length ∈ lengths, length ≤ b) :
    (monthDay month lengths day).1 < month + lengths.length ∧
      (monthDay month lengths day).2 ≤ b := by
  induction lengths generalizing month day with
  | nil => exact absurd inside (Nat.not_lt_zero _)
  | cons length lengths ih =>
      rw [List.sum_cons] at inside
      rw [monthDay, List.length_cons]
      split
      · rename_i here
        have le := bounded length List.mem_cons_self
        constructor
        · simp only
          omega
        · exact Nat.le_trans (Nat.succ_le_of_lt here) le
      · have later := ih (month + 1) (Nat.sub_lt_left_of_lt_add (Nat.le_of_not_lt ‹_›) inside)
          fun other mem => bounded other (List.mem_cons_of_mem length mem)
        exact ⟨by omega, later.2⟩

theorem sum_monthLengths (leap : Bool) : (monthLengths leap).sum = 365 + leap.toNat := by
  cases leap <;> rfl

theorem daysBefore_succ (years : Nat) :
    daysBefore (years + 1 + 1) = daysBefore (years + 1) +
      (monthLengths (isLeap (years + 1))).sum := by
  have century : 100 ∣ years + 1 → 4 ∣ years + 1 := Nat.dvd_trans (by decide)
  have cycle : 400 ∣ years + 1 → 100 ∣ years + 1 := Nat.dvd_trans (by decide)
  have leap : isLeap (years + 1) =
      decide (4 ∣ years + 1 ∧ (¬ 100 ∣ years + 1 ∨ 400 ∣ years + 1)) := by
    simp [isLeap, Nat.dvd_iff_mod_eq_zero, bne, Bool.beq_eq_decide_eq]
  rw [sum_monthLengths, leap]
  simp only [daysBefore, Nat.add_sub_cancel, Nat.succ_div]
  by_cases four : 4 ∣ years + 1
  · by_cases hundred : 100 ∣ years + 1
    · by_cases fourHundred : 400 ∣ years + 1
      · simp only [four, hundred, fourHundred, if_true, not_true, or_true, and_self, decide_true,
          Bool.toNat_true]
        omega
      · simp only [four, hundred, fourHundred, if_true, if_false, not_true, or_false, and_false,
          decide_false, Bool.toNat_false]
        omega
    · have fourHundred : ¬ 400 ∣ years + 1 := mt cycle hundred
      simp only [four, hundred, fourHundred, if_true, if_false, not_false_iff, true_or, and_self,
        decide_true, Bool.toNat_true]
      omega
  · have hundred : ¬ 100 ∣ years + 1 := mt century four
    have fourHundred : ¬ 400 ∣ years + 1 := mt cycle hundred
    simp only [four, hundred, fourHundred, if_false, false_and, decide_false, Bool.toNat_false]
    omega

/-! ## Texts -/

/-- The byte between the parts of a date. -/
def dash : UInt8 := 0x2d

/-- The digits of a year, four at least. -/
def yearDigits (year : Nat) : Nat := if year < 10000 then 4 else Nat.log 10 year + 1

/-- The seconds of a day. -/
def secondsPerDay : Nat := 24 * 60 * 60

/-- The month and the day of the month. -/
def dateOf (day : Nat) : Nat × Nat :=
  monthDay 1 (monthLengths (isLeap (yearOf day))) (day - daysBefore (yearOf day))

/-- What follows the year, up to the seconds. -/
def monthToSecond (seconds : Nat) : Bytes :=
  let date := dateOf (seconds / secondsPerDay)
  let seconds := seconds % secondsPerDay
  dash :: (padded 2 date.1 ++ dash :: (padded 2 date.2 ++
    0x54 :: (padded 2 (seconds / 3600) ++ 0x3a :: (padded 2 (seconds / 60 % 60) ++
      0x3a :: padded 2 (seconds % 60)))))

/-- The date and the time of a second, counted from the beginning of the year 1. -/
def dateTime (seconds : Nat) : Bytes :=
  let year := yearOf (seconds / secondsPerDay)
  padded (yearDigits year) year ++ monthToSecond seconds

/-- The nanoseconds of a second. -/
def nanosecondsPerSecond : Nat := 1000000000

/-- `Format(time.RFC3339Nano)`. -/
def rfc3339Nano (time : Nat) : Bytes :=
  dateTime (time / nanosecondsPerSecond) ++
    (fraction (time % nanosecondsPerSecond) ++ [zoneChar])

-- the 29th of February 2024
example : rfc3339Nano 63844765323450000000 = ascii "2024-02-29T01:02:03.45Z" := by decide

/-! ## The order of the texts -/

/-- The texts of the two times, of which the first is earlier, are in the same order. -/
def InTextOrder (t t' : Nat) : Prop :=
  let year := yearOf (t / nanosecondsPerSecond / secondsPerDay)
  let year' := yearOf (t' / nanosecondsPerSecond / secondsPerDay)
  year ≤ year' / 10 ^ (yearDigits year' - yearDigits year) ∧
    ¬ (t / nanosecondsPerSecond = t' / nanosecondsPerSecond ∧ ∃ k ≤ 9,
      t % nanosecondsPerSecond = t' % nanosecondsPerSecond / 10 ^ k * 10 ^ k)

instance (t t' : Nat) : Decidable (InTextOrder t t') :=
  inferInstanceAs (Decidable (_ ∧ ¬ (_ ∧ _)))

theorem padded_append_lt {w a b : Nat} {s t : Bytes} (small : b < 10 ^ w)
    (less : a < b ∨ a = b ∧ s < t) : padded w a ++ s < padded w b ++ t := by
  rw [append_lt_append_iff (by rw [length_padded, length_padded])]
  rcases less with less | ⟨same, less⟩
  · exact .inl (padded_lt_padded less small)
  · exact .inr ⟨congrArg (padded w) same, less⟩

@[simp]
theorem length_monthToSecond (seconds : Nat) : (monthToSecond seconds).length = 15 := by
  simp [monthToSecond]

theorem dateOf_bounds (day : Nat) : (dateOf day).1 < 10 ^ 2 ∧ (dateOf day).2 < 10 ^ 2 := by
  obtain ⟨lower, upper⟩ := year_spec day
  obtain ⟨years, isYear⟩ : ∃ years, yearOf day = years + 1 := ⟨_, rfl⟩
  rw [isYear, daysBefore_succ] at upper
  rw [dateOf, isYear]
  rw [isYear] at lower
  have inside : day - daysBefore (years + 1) < (monthLengths (isLeap (years + 1))).sum := by
    omega
  have bounded : ∀ length ∈ monthLengths (isLeap (years + 1)), length ≤ 31 := by
    cases isLeap (years + 1) <;> decide
  obtain ⟨month, dayOfMonth⟩ := monthDay_bounds 1 inside bounded
  constructor
  · have twelve : (monthLengths (isLeap (years + 1))).length = 12 := rfl
    omega
  · exact Nat.lt_of_le_of_lt dayOfMonth (by decide)

theorem dateOf_lt {d d' : Nat} (less : d < d') (sameYear : yearOf d = yearOf d') :
    (dateOf d).1 < (dateOf d').1 ∨
      (dateOf d).1 = (dateOf d').1 ∧ (dateOf d).2 < (dateOf d').2 := by
  have lower := (year_spec d).1
  rw [dateOf, dateOf, ← sameYear]
  exact monthDay_lt (by omega) 1 _

theorem monthToSecond_lt {a b : Nat} (less : a < b)
    (sameYear : yearOf (a / secondsPerDay) = yearOf (b / secondsPerDay)) :
    monthToSecond a < monthToSecond b := by
  have bounds := dateOf_bounds (b / secondsPerDay)
  have inDay : b % secondsPerDay < secondsPerDay := Nat.mod_lt b (by decide)
  simp only [monthToSecond, List.cons_lt_cons_iff, UInt8.lt_irrefl, false_or, true_and]
  rcases Nat.lt_or_eq_of_le (Nat.div_le_div_right (c := secondsPerDay) (Nat.le_of_lt less)) with
    lessDay | sameDay
  · apply padded_append_lt bounds.1
    rcases dateOf_lt lessDay sameYear with lessMonth | ⟨sameMonth, lessDayOfMonth⟩
    · exact .inl lessMonth
    · refine .inr ⟨sameMonth, List.cons_lt_cons_iff.mpr (.inr ⟨rfl, ?_⟩)⟩
      exact padded_append_lt bounds.2 (.inl lessDayOfMonth)
  · have lessInDay : a % secondsPerDay < b % secondsPerDay := by
      have wholeA := Nat.div_add_mod a secondsPerDay
      have wholeB := Nat.div_add_mod b secondsPerDay
      rw [sameDay] at wholeA
      omega
    rw [sameDay]
    refine padded_append_lt bounds.1 (.inr ⟨rfl, List.cons_lt_cons_iff.mpr (.inr ⟨rfl, ?_⟩)⟩)
    refine padded_append_lt bounds.2 (.inr ⟨rfl, List.cons_lt_cons_iff.mpr (.inr ⟨rfl, ?_⟩)⟩)
    generalize a % secondsPerDay = x at lessInDay
    generalize b % secondsPerDay = y at lessInDay inDay
    rw [secondsPerDay] at inDay
    apply padded_append_lt (by omega)
    rcases Nat.lt_or_eq_of_le (Nat.div_le_div_right (c := 3600) (Nat.le_of_lt lessInDay)) with
      lessHour | sameHour
    · exact .inl lessHour
    · refine .inr ⟨sameHour, List.cons_lt_cons_iff.mpr (.inr ⟨rfl, ?_⟩)⟩
      apply padded_append_lt (by omega)
      rcases Nat.lt_or_ge (x / 60 % 60) (y / 60 % 60) with lessMinute | notLess
      · exact .inl lessMinute
      · refine .inr ⟨by omega, List.cons_lt_cons_iff.mpr (.inr ⟨rfl, ?_⟩)⟩
        exact padded_lt_padded (by omega) (by omega)

theorem year_lt (year : Nat) : year < 10 ^ yearDigits year := by
  rw [yearDigits]
  split
  · assumption
  · exact Nat.lt_pow_succ_log_self (by decide) year

theorem yearDigits_mono {y y' : Nat} (le : y ≤ y') : yearDigits y ≤ yearDigits y' := by
  rw [yearDigits, yearDigits]
  split
  · split
    · exact Nat.le_refl 4
    · rename_i long
      have log : 4 ≤ Nat.log 10 y' := Nat.le_log_of_pow_le (by decide) (Nat.le_of_not_lt long)
      omega
  · rw [if_neg (by omega)]
    exact Nat.succ_le_succ (Nat.log_mono_right le)

/-- The text of a year, before the next character. -/
theorem year_order {y y' : Nat} (less : y < y') (s t : Bytes) :
    (y ≤ y' / 10 ^ (yearDigits y' - yearDigits y) →
        padded (yearDigits y) y ++ dash :: s < padded (yearDigits y') y' ++ dash :: t) ∧
      (¬ y ≤ y' / 10 ^ (yearDigits y' - yearDigits y) →
        padded (yearDigits y') y' ++ dash :: t < padded (yearDigits y) y ++ dash :: s) := by
  obtain ⟨k, more⟩ := Nat.exists_eq_add_of_le (yearDigits_mono (Nat.le_of_lt less))
  have isMore : yearDigits y' - yearDigits y = k := by omega
  have small := year_lt y'
  rw [more, pow_add] at small
  rw [isMore, more, padded_add, List.append_assoc]
  have lead : y' / 10 ^ k < 10 ^ yearDigits y :=
    Nat.div_lt_of_lt_mul (by rwa [Nat.mul_comm])
  constructor
  · intro le
    apply padded_append_lt lead
    rcases Nat.lt_or_eq_of_le le with less' | same
    · exact .inl less'
    · refine .inr ⟨same, ?_⟩
      cases digits : padded k y' with
      | nil =>
          have none_ := congrArg List.length digits
          rw [length_padded, List.length_nil] at none_
          rw [none_, Nat.pow_zero, Nat.div_one] at same
          exact absurd same (Nat.ne_of_lt less)
      | cons c rest =>
          have isDigit := (mem_padded (digits ▸ List.mem_cons_self)).1
          rw [List.cons_append, List.cons_lt_cons_iff]
          exact .inl (UInt8.lt_of_lt_of_le (by decide) isDigit)
  · intro greater
    exact padded_append_lt (year_lt y) (.inl (Nat.lt_of_not_le greater))

theorem rfc3339Nano_ne_nil (time : Nat) : rfc3339Nano time ≠ [] := by
  rw [rfc3339Nano, ← List.append_assoc]
  exact List.append_ne_nil_of_right_ne_nil _ (List.cons_ne_nil _ _)

theorem dateTime_eq (seconds : Nat) :
    dateTime seconds =
      padded (yearDigits (yearOf (seconds / secondsPerDay))) (yearOf (seconds / secondsPerDay)) ++
        dash :: (monthToSecond seconds).tail := rfl

/-- A later time has the greater text if `InTextOrder` holds, and the smaller one if not. -/
theorem rfc3339Nano_order {t t' : Nat} (less : t < t') :
    (InTextOrder t t' → rfc3339Nano t < rfc3339Nano t') ∧
      (¬ InTextOrder t t' → rfc3339Nano t' < rfc3339Nano t) := by
  simp only [rfc3339Nano, InTextOrder]
  have seconds := Nat.div_le_div_right (c := nanosecondsPerSecond) (Nat.le_of_lt less)
  have wholeT := Nat.div_add_mod t nanosecondsPerSecond
  have wholeT' := Nat.div_add_mod t' nanosecondsPerSecond
  have inSecond : t' % nanosecondsPerSecond < 10 ^ 9 := Nat.mod_lt t' (by decide)
  generalize t / nanosecondsPerSecond = a at seconds wholeT
  generalize t' / nanosecondsPerSecond = b at seconds wholeT'
  generalize t % nanosecondsPerSecond = x at wholeT
  generalize t' % nanosecondsPerSecond = y at wholeT' inSecond
  rcases Nat.lt_or_eq_of_le seconds with lessSecond | rfl
  · have notSame : ¬ (a = b ∧ ∃ k ≤ 9, x = y / 10 ^ k * 10 ^ k) := fun same =>
      Nat.ne_of_lt lessSecond same.1
    have years := yearOf_mono (Nat.div_le_div_right (c := secondsPerDay) seconds)
    rcases Nat.lt_or_eq_of_le years with lessYear | sameYear
    · rw [and_iff_left notSame, dateTime_eq, dateTime_eq, List.append_assoc, List.append_assoc]
      exact year_order lessYear _ _
    · rw [dateTime, dateTime, sameYear, Nat.sub_self, Nat.pow_zero, Nat.div_one,
        and_iff_right (Nat.le_refl _), List.append_assoc, List.append_assoc]
      have less : monthToSecond a ++ (fraction x ++ [zoneChar]) <
          monthToSecond b ++ (fraction y ++ [zoneChar]) :=
        append_lt_append (by simp) (monthToSecond_lt lessSecond sameYear)
      exact ⟨fun _ => List.append_left_lt less, fun not_ => absurd notSame not_⟩
  · have lessFraction : x < y := by omega
    have order := fraction_order lessFraction inSecond []
    rw [Nat.sub_self, Nat.pow_zero, Nat.div_one, and_iff_right (Nat.le_refl _), eq_self, true_and,
      not_not]
    exact ⟨fun notCut => List.append_left_lt (order.1 notCut),
      fun cut => List.append_left_lt (order.2 cut)⟩

/-- Equal texts belong to equal times. -/
theorem rfc3339Nano_injective : Function.Injective rfc3339Nano := by
  intro t t' same
  have apart : ∀ {a b : Nat}, a < b → rfc3339Nano a ≠ rfc3339Nano b := by
    intro a b less
    obtain ⟨inOrder, reversed⟩ := rfc3339Nano_order less
    intro equal
    rw [equal] at inOrder reversed
    by_cases order : InTextOrder a b
    · exact List.lt_irrefl _ (inOrder order)
    · exact List.lt_irrefl _ (reversed order)
  rcases Nat.lt_trichotomy t t' with less | equal | greater
  · exact absurd same (apart less)
  · exact equal
  · exact absurd same.symm (apart greater)

end Drover.Rfc3339
