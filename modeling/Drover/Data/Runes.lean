import Drover.Data.Strings
import Mathlib.Data.List.Basic

/-!
# Runes

A byte string as the sequence of what `utf8.DecodeRune` takes off it, one rune
after the other.  A rune of several bytes is recognised whatever follows it; an
ill-formed byte is a rune of its own.
-/

namespace Drover

/-- The number of bytes that the first one announces. -/
def runeSize (b : UInt8) : Nat :=
  if isBetween 0xc2 0xdf b then 2 else if isBetween 0xe0 0xef b then 3
  else if isBetween 0xf0 0xf4 b then 4 else 1

/-- The bytes that go on with the first one. -/
def Continues (b : UInt8) (tail : Bytes) : Prop :=
  tail.length = runeSize b - 1 ∧
    (tail.take 1).all (isBetween
      (if b = 0xe0 then 0xa0 else if b = 0xf0 then 0x90 else 0x80)
      (if b = 0xed then 0x9f else if b = 0xf4 then 0x8f else 0xbf)) ∧
    (tail.drop 1).all isContinuation

instance (b : UInt8) (tail : Bytes) : Decidable (Continues b tail) :=
  inferInstanceAs (Decidable (_ ∧ _ ∧ _))

theorem runeLength_cons (b : UInt8) (s : Bytes) :
    runeLength (b :: s) = if Continues b (s.take (runeSize b - 1)) then runeSize b else 1 := rfl

theorem runeSize_pos (b : UInt8) : 0 < runeSize b := by
  rw [runeSize]
  split
  · decide
  · split
    · decide
    · split <;> decide

theorem runeLength_pos (b : UInt8) (s : Bytes) : 0 < runeLength (b :: s) := by
  rw [runeLength_cons]
  split
  · exact runeSize_pos b
  · decide

theorem runeSize_ascii {b : UInt8} (isASCII : b < 0x80) : runeSize b = 1 := by
  have outside : ∀ lo hi : UInt8, 0x80 ≤ lo → isBetween lo hi b = false := by
    intro lo hi high
    rw [isBetween, Bool.and_eq_false_iff, decide_eq_false_iff_not, UInt8.not_le]
    exact .inl (UInt8.lt_of_lt_of_le isASCII high)
  rw [runeSize, outside _ _ (by decide), outside _ _ (by decide), outside _ _ (by decide)]
  rfl

/-- An ASCII byte is a rune. -/
theorem runeLength_ascii {b : UInt8} (isASCII : b < 0x80) (s : Bytes) :
    runeLength (b :: s) = 1 := by
  rw [runeLength_cons, runeSize_ascii isASCII, ite_self]

/-- Nothing goes on with an ASCII byte. -/
theorem Continues.not_ascii {b : UInt8} {tail : Bytes} (continues : Continues b tail)
    (nonempty : tail ≠ []) : ¬ b < 0x80 := by
  intro isASCII
  have length := continues.1
  rw [runeSize_ascii isASCII] at length
  exact nonempty (List.length_eq_zero_iff.mp length)

/-- The first rune of a string. -/
def firstRune (s : Bytes) : Bytes := s.take (runeLength s)

/-- What is behind it. -/
def afterRune (s : Bytes) : Bytes := s.drop (runeLength s)

theorem firstRune_append_afterRune (s : Bytes) : firstRune s ++ afterRune s = s :=
  List.take_append_drop _ _

theorem length_afterRune (b : UInt8) (s : Bytes) : (afterRune (b :: s)).length ≤ s.length := by
  have positive := runeLength_pos b s
  rw [afterRune, List.length_drop, List.length_cons]
  omega

/-- The first `fuel` runes. -/
def runesFrom : Nat → Bytes → List Bytes
  | 0, _ => []
  | _ + 1, [] => []
  | fuel + 1, b :: s => firstRune (b :: s) :: runesFrom fuel (afterRune (b :: s))

/-- The runes of a string. -/
def runes (s : Bytes) : List Bytes := runesFrom s.length s

theorem runesFrom_eq {m n : Nat} {s : Bytes} (enough : s.length ≤ m) (enough' : s.length ≤ n) :
    runesFrom m s = runesFrom n s := by
  induction m generalizing n s with
  | zero =>
      rw [List.length_eq_zero_iff.mp (Nat.le_zero.mp enough)]
      cases n <;> rfl
  | succ m ih =>
      cases s with
      | nil => cases n <;> rfl
      | cons b s =>
          have short := length_afterRune b s
          rw [List.length_cons] at enough enough'
          cases n with
          | zero => omega
          | succ n => rw [runesFrom, runesFrom, ih (n := n) (by omega) (by omega)]

theorem runes_cons (b : UInt8) (s : Bytes) :
    runes (b :: s) = firstRune (b :: s) :: runes (afterRune (b :: s)) := by
  have short := length_afterRune b s
  rw [runes, List.length_cons, runesFrom, runesFrom_eq short (Nat.le_refl _), runes]

/-- Induction on the runes of a string. -/
@[elab_as_elim]
theorem runes_induction {motive : Bytes → Prop} (nil : motive [])
    (cons : ∀ b s, motive (afterRune (b :: s)) → motive (b :: s)) (s : Bytes) : motive s := by
  induction length : s.length using Nat.strongRecOn generalizing s with
  | ind n ih =>
      cases s with
      | nil => exact nil
      | cons b s =>
          have short := length_afterRune b s
          rw [List.length_cons] at length
          exact cons b s (ih _ (by omega) _ rfl)

/-- The runes of a string are the string. -/
theorem flatten_runes (s : Bytes) : (runes s).flatten = s := by
  induction s using runes_induction with
  | nil => rfl
  | cons b s ih => rw [runes_cons, List.flatten_cons, ih, firstRune_append_afterRune]

/-- `utf8.ValidString`: no rune is an ill-formed byte. -/
def ValidString (s : Bytes) : Prop := ∀ b, [b] ∈ runes s → b < 0x80

theorem validString_of_ascii {s : Bytes} (plain : s.all (· < 0x80) = true) : ValidString s := by
  intro b mem
  have inString : b ∈ (runes s).flatten := List.mem_flatten_of_mem mem List.mem_cons_self
  rw [flatten_runes] at inString
  exact of_decide_eq_true (List.all_eq_true.mp plain b inString)

/-- A well-formed rune. -/
inductive WellFormed : Bytes → Prop
  | ascii {b : UInt8} (isASCII : b < 0x80) : WellFormed [b]
  | long {b : UInt8} {tail : Bytes} (nonempty : tail ≠ []) (continues : Continues b tail) :
      WellFormed (b :: tail)

/-- A well-formed rune is recognised whatever follows. -/
theorem WellFormed.runeLength_append {r : Bytes} (wellFormed : WellFormed r) (s : Bytes) :
    runeLength (r ++ s) = r.length := by
  cases wellFormed with
  | ascii isASCII => exact runeLength_ascii isASCII s
  | long nonempty continues =>
      rename_i b tail
      have size : runeSize b - 1 = tail.length := continues.1.symm
      have positive := runeSize_pos b
      rw [List.cons_append, runeLength_cons, size, List.take_left, if_pos continues,
        List.length_cons]
      omega

/-- The first rune is well formed, or it is a byte. -/
theorem firstRune_cases (b : UInt8) (s : Bytes) :
    WellFormed (firstRune (b :: s)) ∨ firstRune (b :: s) = [b] := by
  rw [firstRune, runeLength_cons]
  split
  · rename_i continues
    have whole : (b :: s).take (runeSize b) = b :: s.take (runeSize b - 1) := by
      obtain ⟨size, isSize⟩ := Nat.exists_eq_add_of_lt (runeSize_pos b)
      rw [isSize, Nat.zero_add, List.take_succ_cons, Nat.add_sub_cancel]
    rw [whole]
    by_cases single : s.take (runeSize b - 1) = []
    · rw [single]
      exact .inr rfl
    · exact .inl (.long single continues)
  · exact .inr rfl

/-- The runes of a valid string are well formed. -/
theorem wellFormed_of_validString {s : Bytes} (valid : ValidString s) :
    ∀ r ∈ runes s, WellFormed r := by
  induction s using runes_induction with
  | nil => exact fun r mem => by cases mem
  | cons b s ih =>
      rw [ValidString, runes_cons] at valid
      rw [runes_cons]
      intro r mem
      rcases List.mem_cons.mp mem with rfl | later
      · rcases firstRune_cases b s with wellFormed | isByte
        · exact wellFormed
        · rw [isByte]
          exact .ascii (valid b (isByte ▸ List.mem_cons_self))
      · exact ih (fun c mem => valid c (List.mem_cons_of_mem _ mem)) r later

end Drover
