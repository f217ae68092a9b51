import Drover.Data.JsonString
import Mathlib.Data.Nat.Digits.Lemmas

/-!
# Values of JSON texts

The grammar that the scanner of `encoding/json` accepts, with its limit on
nesting.  A reader takes something off the front of a text and leaves the rest;
all readers leave less than they were given, so that the length of the text is
fuel enough for every loop.
-/

namespace Drover.JsonText

/-- The sign of a number. -/
def minus : UInt8 := 0x2d

/-- The byte between items. -/
def comma : UInt8 := 0x2c

/-- The byte between a key and its value. -/
def colon : UInt8 := 0x3a

/-- The byte that opens an array. -/
def openBracket : UInt8 := 0x5b

/-- The byte that closes an array. -/
def closeBracket : UInt8 := 0x5d

/-- The byte that opens an object. -/
def openBrace : UInt8 := 0x7b

/-- The byte that closes an object. -/
def closeBrace : UInt8 := 0x7d

/-- A reader. -/
abbrev Reader (α : Type) : Type := Bytes → Option (α × Bytes)

/-- The reader leaves less than it was given. -/
def Reader.Progress {α : Type} (read : Reader α) : Prop :=
  ∀ s p, read s = some p → p.2.length < s.length

/-! ## Numbers -/

/-- The decimal digits. -/
def isDigit (b : UInt8) : Bool := 0x30 ≤ b && b ≤ 0x39

/-- A number: its sign, the digits of the integer, and the text of the fraction
and the exponent. -/
structure Number where
  negative : Bool
  digits : Bytes
  rest : Bytes

/-- Read one digit or more. -/
def readDigits : Reader Bytes := fun s =>
  if s.takeWhile isDigit = [] then none else some (s.takeWhile isDigit, s.dropWhile isDigit)

/-- An integer has no leading zero. -/
def readInteger : Reader Bytes
  | [] => none
  | b :: s => if b = 0x30 then some ([b], s) else readDigits (b :: s)

/-- Read the part behind the point, if there is one. -/
def readFraction : Reader Bytes
  | [] => some ([], [])
  | b :: s =>
      if b = 0x2e then (readDigits s).map fun p => (b :: p.1, p.2) else some ([], b :: s)

/-- The sign of an exponent, and what follows it. -/
def readSign : Bytes → Bytes × Bytes
  | [] => ([], [])
  | b :: s => if b = 0x2b ∨ b = minus then ([b], s) else ([], b :: s)

/-- Read the exponent, if there is one. -/
def readExponent : Reader Bytes
  | [] => some ([], [])
  | b :: s =>
      if b = 0x65 ∨ b = 0x45 then
        (readDigits (readSign s).2).map fun p => (b :: (readSign s).1 ++ p.1, p.2)
      else some ([], b :: s)

/-- A number without its sign. -/
def readUnsigned (negative : Bool) : Reader Number := fun s => do
  let integer ← readInteger s
  let fraction ← readFraction integer.2
  let exponent ← readExponent fraction.2
  some (⟨negative, integer.1, fraction.1 ++ exponent.1⟩, exponent.2)

/-- Read a number. -/
def readNumber : Reader Number
  | [] => none
  | b :: s => if b = minus then readUnsigned true s else readUnsigned false (b :: s)

/-- What the digits are the decimal text of. -/
def digitsValue (digits : Bytes) : Nat := digits.foldl (fun n b => n * 10 + (b.toNat - 0x30)) 0

/-- `strconv.ParseInt` into 64 bits; a fraction or an exponent is an error. -/
def Number.parseInt (n : Number) : Option Int :=
  if n.rest ≠ [] then none
  else
    let value : Int := if n.negative then -digitsValue n.digits else digitsValue n.digits
    if -9223372036854775808 ≤ value ∧ value ≤ 9223372036854775807 then some value else none

/-! ## Values -/

/-- A JSON value; an object keeps its members in order, with repeated keys. -/
inductive Value where
  | null
  | bool (b : Bool)
  | number (n : Number)
  | string (s : Bytes)
  | array (vs : List Value)
  | object (ms : List (Bytes × Value))

/-- The bytes that may stand between tokens. -/
def isSpace (b : UInt8) : Bool := b = 0x20 || b = 0x09 || b = 0x0d || b = 0x0a

/-- Drop the space in front. -/
def skipSpace (s : Bytes) : Bytes := s.dropWhile isSpace

/-- A character behind white space. -/
def expect (c : UInt8) (s : Bytes) : Option Bytes :=
  match skipSpace s with
  | [] => none
  | b :: s => if b = c then some s else none

/-- The literals and their values. -/
def literals : List (Bytes × Value) :=
  [(ascii "null", .null), (ascii "true", .bool true), (ascii "false", .bool false)]

/-- Read a literal. -/
def readLiteral : Reader Value := fun s =>
  (literals.find? fun p => p.1.isPrefixOf s).map fun p => (p.2, s.drop p.1.length)

/-- Read a value that is neither an array nor an object. -/
def readScalar : Reader Value
  | [] => none
  | b :: s =>
      if b = quote then (readString s).map fun p => (.string p.1, p.2)
      else if b = minus ∨ isDigit b then (readNumber (b :: s)).map fun p => (.number p.1, p.2)
      else readLiteral (b :: s)

/-- Items up to the closing character, with commas in between. -/
def readItems {α : Type} (item : Reader α) (close : UInt8) : Nat → Reader (List α)
  | 0, _ => none
  | fuel + 1, s =>
      (item s).bind fun p =>
        match skipSpace p.2 with
        | [] => none
        | b :: s =>
            if b = comma then
              (readItems item close fuel s).map fun q => (p.1 :: q.1, q.2)
            else if b = close then some ([p.1], s)
            else none

/-- The items of an array or an object, behind the opening character. -/
def readContainer {α : Type} (item : Reader α) (close : UInt8) : Reader (List α) := fun s =>
  match skipSpace s with
  | [] => none
  | b :: rest => if b = close then some ([], rest) else readItems item close s.length s

/-- Read a key with its value. -/
def readMember (value : Reader Value) : Reader (Bytes × Value) := fun s =>
  (expect quote s).bind fun s =>
    (readString s).bind fun key =>
      (expect colon key.2).bind fun s =>
        (value s).map fun p => ((key.1, p.1), p.2)

/-- A value that is nested no deeper than `depth`. -/
def readValue : Nat → Reader Value
  | 0, s => readScalar (skipSpace s)
  | depth + 1, s =>
      match skipSpace s with
      | [] => none
      | b :: s =>
          if b = openBrace then
            (readContainer (readMember (readValue depth)) closeBrace s).map fun p =>
              (.object p.1, p.2)
          else if b = openBracket then
            (readContainer (readValue depth) closeBracket s).map fun p => (.array p.1, p.2)
          else readScalar (b :: s)

/-- `maxNestingDepth`. -/
def maxNestingDepth : Nat := 10000

/-- The value of a whole text. -/
def parse (s : Bytes) : Option Value :=
  (readValue maxNestingDepth s).bind fun p => if skipSpace p.2 = [] then some p.1 else none

/-! ## Progress -/

theorem length_skipSpace (s : Bytes) : (skipSpace s).length ≤ s.length :=
  (List.dropWhile_suffix isSpace).length_le

theorem length_of_expect {c : UInt8} {s rest : Bytes} (found : expect c s = some rest) :
    rest.length < s.length := by
  rw [expect] at found
  have short := length_skipSpace s
  split at found
  · cases found
  · rename_i b t skipped
    rw [skipped, List.length_cons] at short
    split at found
    · cases found
      exact short
    · cases found

theorem progress_readDigits : Reader.Progress readDigits := by
  intro s p read
  rw [readDigits] at read
  split at read
  · cases read
  · rename_i some_
    cases read
    have whole := congrArg List.length (List.takeWhile_append_dropWhile (p := isDigit) (l := s))
    have positive := List.length_pos_iff.mpr some_
    rw [List.length_append] at whole
    simp only
    omega

theorem progress_readInteger : Reader.Progress readInteger := by
  intro s p read
  cases s with
  | nil => cases read
  | cons b s =>
      rw [readInteger] at read
      split at read
      · cases read
        exact Nat.lt_succ_self _
      · exact progress_readDigits _ p read

theorem length_of_readFraction {s : Bytes} {p : Bytes × Bytes} (read : readFraction s = some p) :
    p.2.length ≤ s.length := by
  cases s with
  | nil =>
      cases read
      exact Nat.le_refl _
  | cons b s =>
      rw [readFraction] at read
      split at read
      · obtain ⟨q, digits, rfl⟩ := Option.map_eq_some_iff.mp read
        exact Nat.le_succ_of_le (Nat.le_of_lt (progress_readDigits _ q digits))
      · cases read
        exact Nat.le_refl _

theorem length_readSign (s : Bytes) : (readSign s).2.length ≤ s.length := by
  cases s with
  | nil => exact Nat.le_refl _
  | cons b s =>
      rw [readSign]
      split
      · exact Nat.le_succ _
      · exact Nat.le_refl _

theorem length_of_readExponent {s : Bytes} {p : Bytes × Bytes} (read : readExponent s = some p) :
    p.2.length ≤ s.length := by
  cases s with
  | nil =>
      cases read
      exact Nat.le_refl _
  | cons b s =>
      rw [readExponent] at read
      split at read
      · obtain ⟨q, digits, rfl⟩ := Option.map_eq_some_iff.mp read
        have short := progress_readDigits _ q digits
        have sign := length_readSign s
        rw [List.length_cons]
        simp only
        omega
      · cases read
        exact Nat.le_refl _

theorem progress_readUnsigned (negative : Bool) : (readUnsigned negative).Progress := by
  intro s p read
  simp only [readUnsigned, Option.bind_eq_bind, Option.bind_eq_some_iff, Option.some.injEq] at read
  obtain ⟨integer, isInteger, fraction, isFraction, exponent, isExponent, rfl⟩ := read
  have first := progress_readInteger _ _ isInteger
  have second := length_of_readFraction isFraction
  have third := length_of_readExponent isExponent
  simp only
  omega

theorem progress_readNumber : Reader.Progress readNumber := by
  intro s p read
  cases s with
  | nil => cases read
  | cons b s =>
      rw [readNumber] at read
      split at read
      · exact Nat.lt_succ_of_lt (progress_readUnsigned true _ p read)
      · exact progress_readUnsigned false _ p read

theorem progress_readLiteral : Reader.Progress readLiteral := by
  intro s p read
  obtain ⟨literal, found, rfl⟩ := Option.map_eq_some_iff.mp read
  have isPrefix : literal.1 <+: s := List.isPrefixOf_iff_prefix.mp (List.find?_some found :)
  have positive : 0 < literal.1.length := by
    have mem := List.mem_of_find?_eq_some found
    simp only [literals, List.mem_cons, List.not_mem_nil, or_false] at mem
    rcases mem with rfl | rfl | rfl <;> decide
  have long := isPrefix.length_le
  simp only [List.length_drop]
  omega

theorem progress_readScalar : Reader.Progress readScalar := by
  intro s p read
  cases s with
  | nil => cases read
  | cons b s =>
      rw [readScalar] at read
      split at read
      · obtain ⟨q, string, rfl⟩ := Option.map_eq_some_iff.mp read
        exact Nat.lt_succ_of_lt (length_of_readString string)
      · split at read
        · obtain ⟨q, number, rfl⟩ := Option.map_eq_some_iff.mp read
          exact progress_readNumber _ q number
        · exact progress_readLiteral _ p read

section Items

variable {α : Type} {item : Reader α} (progress : item.Progress) {close : UInt8}

include progress

theorem progress_readItems (fuel : Nat) : (readItems item close fuel).Progress := by
  induction fuel with
  | zero => exact fun s p read => by cases read
  | succ fuel ih =>
      intro s p read
      rw [readItems] at read
      obtain ⟨q, first, more⟩ := Option.bind_eq_some_iff.mp read
      have shortItem := progress s q first
      have shortSpace := length_skipSpace q.2
      split at more
      · cases more
      · rename_i b rest skipped
        rw [skipped, List.length_cons] at shortSpace
        split at more
        · obtain ⟨q', later, rfl⟩ := Option.map_eq_some_iff.mp more
          have shortLater := ih _ q' later
          simp only
          omega
        · split at more
          · cases more
            simp only
            omega
          · cases more

/-- The text's length is fuel enough. -/
theorem readItems_eq {m n : Nat} {s : Bytes} (enough : s.length ≤ m) (enough' : s.length ≤ n) :
    readItems item close m s = readItems item close n s := by
  have noItem : item [] = none := by
    rw [Option.eq_none_iff_forall_ne_some]
    exact fun p read => Nat.not_lt_zero _ (progress [] p read)
  have noFuel : ∀ k, readItems item close k [] = none := by
    intro k
    cases k with
    | zero => rfl
    | succ k => rw [readItems, noItem, Option.bind_none]
  induction m generalizing n s with
  | zero => rw [List.length_eq_zero_iff.mp (Nat.le_zero.mp enough), noFuel, noFuel]
  | succ m ih =>
      cases n with
      | zero => rw [List.length_eq_zero_iff.mp (Nat.le_zero.mp enough'), noFuel, noFuel]
      | succ n =>
          rw [readItems, readItems]
          cases first : item s with
          | none => rfl
          | some p =>
              have shortItem := progress s p first
              have shortSpace := length_skipSpace p.2
              rw [Option.bind_some, Option.bind_some]
              cases skipped : skipSpace p.2 with
              | nil => rfl
              | cons b rest =>
                  rw [skipped, List.length_cons] at shortSpace
                  simp only [ih (s := rest) (n := n) (by omega) (by omega)]

theorem progress_readContainer : (readContainer item close).Progress := by
  intro s p read
  rw [readContainer] at read
  have shortSpace := length_skipSpace s
  split at read
  · cases read
  · rename_i b rest skipped
    rw [skipped, List.length_cons] at shortSpace
    split at read
    · cases read
      exact shortSpace
    · exact progress_readItems progress _ s p read

end Items

theorem progress_readMember {value : Reader Value} (progress : value.Progress) :
    (readMember value).Progress := by
  intro s p read
  obtain ⟨s', opened, more⟩ := Option.bind_eq_some_iff.mp read
  obtain ⟨key, isKey, more⟩ := Option.bind_eq_some_iff.mp more
  obtain ⟨s'', separated, more⟩ := Option.bind_eq_some_iff.mp more
  obtain ⟨q, isValue, rfl⟩ := Option.map_eq_some_iff.mp more
  have first := length_of_expect opened
  have second := length_of_readString isKey
  have third := length_of_expect separated
  have fourth := progress _ q isValue
  simp only
  omega

theorem progress_readValue (depth : Nat) : (readValue depth).Progress := by
  induction depth with
  | zero =>
      intro s p read
      exact Nat.lt_of_lt_of_le (progress_readScalar _ p read) (length_skipSpace s)
  | succ depth ih =>
      intro s p read
      rw [readValue] at read
      have shortSpace := length_skipSpace s
      split at read
      · cases read
      · rename_i b rest skipped
        rw [skipped, List.length_cons] at shortSpace
        split at read
        · obtain ⟨q, members, rfl⟩ := Option.map_eq_some_iff.mp read
          have short := progress_readContainer (progress_readMember ih) _ q members
          simp only
          omega
        · split at read
          · obtain ⟨q, elements, rfl⟩ := Option.map_eq_some_iff.mp read
            have short := progress_readContainer ih _ q elements
            simp only
            omega
          · have short := progress_readScalar _ p read
            rw [List.length_cons] at short
            omega

/-! ## What is written is read -/

/-- `strconv.FormatInt` of a natural number. -/
def decimalNat (n : Nat) : Bytes :=
  if n = 0 then [0x30] else (Nat.digits 10 n).reverse.map fun d => UInt8.ofNat (0x30 + d)

/-- `strconv.FormatInt`. -/
def decimal (n : Int) : Bytes :=
  if n < 0 then minus :: decimalNat n.natAbs else decimalNat n.natAbs

theorem isDigit_ofNat {d : Nat} (small : d < 10) : isDigit (UInt8.ofNat (0x30 + d)) = true := by
  have digits : ∀ d < 10, isDigit (UInt8.ofNat (0x30 + d)) = true := by decide
  exact digits d small

theorem isDigit_of_mem_decimalNat {n : Nat} {b : UInt8} (mem : b ∈ decimalNat n) :
    isDigit b = true := by
  rw [decimalNat] at mem
  split at mem
  · rw [List.mem_singleton.mp mem]
    rfl
  · obtain ⟨d, isDigit, rfl⟩ := List.mem_map.mp mem
    exact isDigit_ofNat (Nat.digits_lt_base (by decide) (List.mem_reverse.mp isDigit))

theorem digitsValue_decimalNat (n : Nat) : digitsValue (decimalNat n) = n := by
  rw [decimalNat]
  split
  · rename_i isZero
    rw [isZero]
    rfl
  · have step : ∀ d ∈ Nat.digits 10 n, (UInt8.ofNat (0x30 + d)).toNat - 0x30 = d := by
      intro d mem
      have small := Nat.digits_lt_base (b := 10) (by decide) mem
      rw [UInt8.toNat_ofNat']
      omega
    have value : ∀ ds : List Nat, (∀ d ∈ ds, (UInt8.ofNat (0x30 + d)).toNat - 0x30 = d) →
        digitsValue (ds.reverse.map fun d => UInt8.ofNat (0x30 + d)) = Nat.ofDigits 10 ds := by
      intro ds digits
      rw [digitsValue, List.foldl_map, List.foldl_reverse]
      induction ds with
      | nil => rfl
      | cons d ds ih =>
          rw [List.foldr_cons, ih fun d mem => digits d (List.mem_cons_of_mem _ mem),
            digits d List.mem_cons_self, Nat.ofDigits_cons]
          omega
    rw [value _ step, Nat.ofDigits_digits]

/-- The number does not go on in what follows. -/
def Delimited (s : Bytes) : Prop := ∀ b ∈ s.head?, isDigit b = false ∧ b ∉ ascii ".eE"

theorem readDigits_append {digits s : Bytes} (nonempty : digits ≠ [])
    (areDigits : ∀ b ∈ digits, isDigit b = true) (delimited : Delimited s) :
    readDigits (digits ++ s) = some (digits, s) := by
  have noMore : s.takeWhile isDigit = [] ∧ s.dropWhile isDigit = s := by
    cases s with
    | nil => exact ⟨rfl, rfl⟩
    | cons b s =>
        have stop := (delimited b rfl).1
        rw [List.takeWhile_cons, List.dropWhile_cons, stop]
        exact ⟨rfl, rfl⟩
  rw [readDigits, List.takeWhile_append_of_pos areDigits, List.dropWhile_append_of_pos areDigits,
    noMore.1, noMore.2, List.append_nil, if_neg nonempty]

/-- A number other than 0 does not begin with the digit 0. -/
theorem decimalNat_eq_cons {n : Nat} (positive : n ≠ 0) :
    ∃ b tail, decimalNat n = b :: tail ∧ b ≠ 0x30 := by
  rcases List.eq_nil_or_concat' (Nat.digits 10 n) with empty | ⟨init, last, whole⟩
  · exact absurd (Nat.digits_eq_nil_iff_eq_zero.mp empty) positive
  · have nonzero : last ≠ 0 := by
      have leading := Nat.getLast_digit_ne_zero 10 positive
      simpa only [whole, List.getLast_append_singleton] using leading
    have small : last < 10 :=
      Nat.digits_lt_base (b := 10) (m := n) (by decide) (by rw [whole]; simp)
    have text : decimalNat n = UInt8.ofNat (0x30 + last) ::
        init.reverse.map fun d => UInt8.ofNat (0x30 + d) := by
      rw [decimalNat, if_neg positive, whole, List.reverse_append, List.reverse_singleton,
        List.singleton_append, List.map_cons]
    have other : ∀ d < 10, d ≠ 0 → UInt8.ofNat (0x30 + d) ≠ 0x30 := by decide
    exact ⟨_, _, text, other last small nonzero⟩

theorem decimalNat_ne_nil (n : Nat) : decimalNat n ≠ [] := by
  by_cases isZero : n = 0
  · rw [isZero]
    exact List.cons_ne_nil _ _
  · obtain ⟨b, tail, text, -⟩ := decimalNat_eq_cons isZero
    rw [text]
    exact List.cons_ne_nil _ _

theorem readInteger_decimalNat (n : Nat) {s : Bytes} (delimited : Delimited s) :
    readInteger (decimalNat n ++ s) = some (decimalNat n, s) := by
  by_cases isZero : n = 0
  · rw [isZero]
    rfl
  · have digits := readDigits_append (decimalNat_ne_nil n)
      (fun b mem => isDigit_of_mem_decimalNat mem) delimited
    obtain ⟨b, tail, text, leading⟩ := decimalNat_eq_cons isZero
    rw [text, List.cons_append] at digits ⊢
    rw [readInteger, if_neg leading, digits]

theorem readUnsigned_decimalNat (negative : Bool) (n : Nat) {s : Bytes} (delimited : Delimited s) :
    readUnsigned negative (decimalNat n ++ s) = some (⟨negative, decimalNat n, []⟩, s) := by
  have noFraction : readFraction s = some ([], s) := by
    cases s with
    | nil => rfl
    | cons b s =>
        have other := (delimited b rfl).2
        have noPoint : b ≠ 0x2e := fun isPoint => other (isPoint ▸ by decide)
        exact if_neg noPoint
  have noExponent : readExponent s = some ([], s) := by
    cases s with
    | nil => rfl
    | cons b s =>
        have other := (delimited b rfl).2
        have noSmall : b ≠ 0x65 := fun isSmall => other (isSmall ▸ by decide)
        have noCapital : b ≠ 0x45 := fun isCapital => other (isCapital ▸ by decide)
        exact if_neg (not_or.mpr ⟨noSmall, noCapital⟩)
  simp only [readUnsigned, readInteger_decimalNat n delimited, noFraction, noExponent,
    Option.bind_eq_bind, Option.bind_some, List.append_nil]

/-- The number that the decimal text of an integer is read as. -/
def intNumber (n : Int) : Number := ⟨decide (n < 0), decimalNat n.natAbs, []⟩

theorem ne_of_isDigit {b c : UInt8} (digit : isDigit b = true) (other : isDigit c = false) :
    b ≠ c := by
  rintro rfl
  rw [digit] at other
  cases other

/-- The decimal text of an integer is read as a number. -/
theorem readScalar_decimal (n : Int) {s : Bytes} (delimited : Delimited s) :
    readScalar (decimal n ++ s) = some (.number (intNumber n), s) := by
  rw [decimal, intNumber]
  split
  · rename_i negative
    rw [List.cons_append, readScalar, if_neg (by decide), if_pos (.inl rfl), readNumber, if_pos rfl,
      readUnsigned_decimalNat true _ delimited, decide_eq_true negative]
    rfl
  · rename_i notNegative
    have read := readUnsigned_decimalNat false n.natAbs delimited
    have areDigits := fun b => isDigit_of_mem_decimalNat (n := n.natAbs) (b := b)
    rw [decide_eq_false notNegative]
    cases text : decimalNat n.natAbs with
    | nil => exact absurd text (decimalNat_ne_nil _)
    | cons b tail =>
        rw [text] at read areDigits
        have digit := areDigits b List.mem_cons_self
        rw [List.cons_append] at read ⊢
        rw [readScalar, if_neg (ne_of_isDigit digit (by decide)), if_pos (.inr digit), readNumber,
          if_neg (ne_of_isDigit digit (by decide)), read]
        rfl

theorem decimal_eq_cons (n : Int) :
    ∃ b tail, decimal n = b :: tail ∧ (b = minus ∨ isDigit b = true) := by
  rw [decimal]
  split
  · exact ⟨minus, _, rfl, .inl rfl⟩
  · cases text : decimalNat n.natAbs with
    | nil => exact absurd text (decimalNat_ne_nil _)
    | cons b tail =>
        have digit := isDigit_of_mem_decimalNat (n := n.natAbs) (b := b) (text ▸ List.mem_cons_self)
        exact ⟨b, tail, rfl, .inr digit⟩

theorem parseInt_intNumber {n : Int} (low : -9223372036854775808 ≤ n)
    (high : n ≤ 9223372036854775807) : (intNumber n).parseInt = some n := by
  have value : (if decide (n < 0) = true then -(digitsValue (decimalNat n.natAbs) : Int)
      else digitsValue (decimalNat n.natAbs)) = n := by
    rw [digitsValue_decimalNat]
    split
    · rename_i negative
      have := of_decide_eq_true negative
      omega
    · rename_i notNegative
      have := of_decide_eq_false (Bool.eq_false_iff.mpr notNegative)
      omega
  rw [Number.parseInt, intNumber, if_neg (by simp)]
  simp only [value]
  rw [if_pos ⟨low, high⟩]

/-! ### Containers -/

theorem skipSpace_cons {b : UInt8} (noSpace : isSpace b = false) (s : Bytes) :
    skipSpace (b :: s) = b :: s := by
  rw [skipSpace, List.dropWhile_cons, noSpace, if_neg Bool.false_ne_true]

theorem expect_cons {c : UInt8} (noSpace : isSpace c = false) (s : Bytes) :
    expect c (c :: s) = some s := by
  rw [expect, skipSpace_cons noSpace]
  exact if_pos rfl

section Items

variable {α : Type} {item : Reader α} {close : UInt8}

theorem readItems_more {v : α} {s rest : Bytes} (first : item s = some (v, comma :: rest))
    (fuel : Nat) : readItems item close (fuel + 1) s =
      (readItems item close fuel rest).map fun q => (v :: q.1, q.2) := by
  rw [readItems, first, Option.bind_some, skipSpace_cons (by decide)]
  exact if_pos rfl

theorem readItems_last {v : α} {s rest : Bytes} (last : item s = some (v, close :: rest))
    (noSpace : isSpace close = false) (notComma : close ≠ comma) (fuel : Nat) :
    readItems item close (fuel + 1) s = some ([v], rest) := by
  rw [readItems, last, Option.bind_some, skipSpace_cons noSpace]
  simp only [if_neg notComma, if_true]

end Items

/-- A member that is written without white space. -/
theorem readMember_appendString {value : Reader Value} {key : Bytes} (valid : ValidString key)
    {s rest : Bytes} {v : Value} (read : value s = some (v, rest)) :
    readMember value (appendString key ++ colon :: s) = some ((key, v), rest) := by
  have text : appendString key ++ colon :: s =
      quote :: ((runes key).flatMap escapeRune ++ quote :: (colon :: s)) := by
    rw [appendString, List.cons_append, List.append_assoc, List.singleton_append]
  rw [readMember, text, expect_cons (by decide), Option.bind_some, readString_appendString valid,
    Option.bind_some, expect_cons (by decide), Option.bind_some, read, Option.map_some]

theorem readScalar_appendString {s : Bytes} (valid : ValidString s) (rest : Bytes) :
    readScalar (appendString s ++ rest) = some (.string s, rest) := by
  have text : appendString s ++ rest =
      quote :: ((runes s).flatMap escapeRune ++ quote :: rest) := by
    rw [appendString, List.cons_append, List.append_assoc, List.singleton_append]
  rw [text, readScalar, if_pos rfl, readString_appendString valid, Option.map_some]

/-- A scalar is read at every depth. -/
theorem readValue_of_readScalar {b : UInt8} {s : Bytes} {p : Value × Bytes}
    (read : readScalar (b :: s) = some p) (noSpace : isSpace b = false) (noBrace : b ≠ openBrace)
    (noBracket : b ≠ openBracket) (depth : Nat) : readValue depth (b :: s) = some p := by
  cases depth with
  | zero => rw [readValue, skipSpace_cons noSpace, read]
  | succ depth =>
      rw [readValue, skipSpace_cons noSpace]
      simp only [if_neg noBrace, if_neg noBracket, read]

/-- A string is read as a value at every depth. -/
theorem readValue_appendString {s : Bytes} (valid : ValidString s) (depth : Nat) (rest : Bytes) :
    readValue depth (appendString s ++ rest) = some (.string s, rest) :=
  readValue_of_readScalar (readScalar_appendString valid rest) (by decide) (by decide) (by decide)
    depth

/-- So is an integer. -/
theorem readValue_decimal (n : Int) (depth : Nat) {rest : Bytes} (delimited : Delimited rest) :
    readValue depth (decimal n ++ rest) = some (.number (intNumber n), rest) := by
  have read := readScalar_decimal n delimited
  obtain ⟨b, tail, text, start⟩ := decimal_eq_cons n
  rw [text, List.cons_append] at read ⊢
  have other : ∀ c, c ≠ minus → isDigit c = false → b ≠ c := by
    rintro c notMinus noDigit rfl
    rcases start with isMinus | digit
    · exact notMinus isMinus
    · exact ne_of_isDigit digit noDigit rfl
  have noSpace : isSpace b = false := by
    simp [isSpace, other 0x20 (by decide) (by decide), other 0x09 (by decide) (by decide),
      other 0x0d (by decide) (by decide), other 0x0a (by decide) (by decide)]
  exact readValue_of_readScalar read noSpace (other _ (by decide) (by decide))
    (other _ (by decide) (by decide)) depth

end Drover.JsonText
