import Drover.Data.Bytes

/-!
# Strings

`strings.TrimSpace`, `strings.Fields`, `utf8.RuneCountInString` and
`hex.EncodeToString`.  The bytes of a space character are found in a string exactly
where Go decodes one, since its first byte is no continuation byte.
-/

namespace Drover

/-- The UTF-8 bytes of the characters with `unicode.IsSpace`. -/
def spaces : List Bytes :=
  [[0x09], [0x0a], [0x0b], [0x0c], [0x0d], [0x20], [0xc2, 0x85], [0xc2, 0xa0], [0xe1, 0x9a, 0x80],
    [0xe2, 0x80, 0x80], [0xe2, 0x80, 0x81], [0xe2, 0x80, 0x82], [0xe2, 0x80, 0x83],
    [0xe2, 0x80, 0x84], [0xe2, 0x80, 0x85], [0xe2, 0x80, 0x86], [0xe2, 0x80, 0x87],
    [0xe2, 0x80, 0x88], [0xe2, 0x80, 0x89], [0xe2, 0x80, 0x8a], [0xe2, 0x80, 0xa8],
    [0xe2, 0x80, 0xa9], [0xe2, 0x80, 0xaf], [0xe2, 0x81, 0x9f], [0xe3, 0x80, 0x80]]

/-- Drop the characters of the table from the front; `skip` bytes belong to one
that was recognised already. -/
def trimFront (table : List Bytes) : Nat → Bytes → Bytes
  | _, [] => []
  | skip + 1, _ :: s => trimFront table skip s
  | 0, b :: s =>
      match table.find? (·.isPrefixOf (b :: s)) with
      | some char => trimFront table (char.length - 1) s
      | none => b :: s

/-- `strings.TrimSpace`. -/
def trimSpace (s : Bytes) : Bytes :=
  (trimFront (spaces.map List.reverse) 0 (trimFront spaces 0 s).reverse).reverse

theorem mem_trimFront {table : List Bytes} {c : UInt8} (other : ∀ char ∈ table, c ∉ char)
    (nonempty : [] ∉ table) {skip : Nat} {s : Bytes} (mem : c ∈ s.drop skip) :
    c ∈ trimFront table skip s := by
  induction s generalizing skip with
  | nil =>
      rw [List.drop_nil] at mem
      cases mem
  | cons b s ih =>
      cases skip with
      | succ skip => exact ih mem
      | zero =>
          rw [trimFront]
          split
          · rename_i char found
            have inTable := List.mem_of_find?_eq_some found
            obtain ⟨rest, whole⟩ := List.isPrefixOf_iff_prefix.mp (List.find?_some found :)
            cases char with
            | nil => exact absurd inTable nonempty
            | cons first char =>
                rw [List.drop_zero, ← whole, List.mem_append] at mem
                have inRest := mem.resolve_left (other _ inTable)
                have dropped : s.drop char.length = rest := by
                  rw [← (List.cons.inj whole).2]
                  exact List.drop_left
                exact ih (dropped ▸ inRest)
          · exact mem

/-- What belongs to no space character stays. -/
theorem mem_trimSpace {c : UInt8} (other : ∀ char ∈ spaces, c ∉ char) {s : Bytes} (mem : c ∈ s) :
    c ∈ trimSpace s := by
  have front : c ∈ trimFront spaces 0 s := mem_trimFront other (by decide) mem
  have reversed : ∀ char ∈ spaces.map List.reverse, c ∉ char := by
    intro char inTable
    obtain ⟨original, inSpaces, rfl⟩ := List.mem_map.mp inTable
    exact mt List.mem_reverse.mp (other original inSpaces)
  rw [trimSpace, List.mem_reverse]
  exact mem_trimFront reversed (by decide) (List.mem_reverse.mpr front)

theorem trimFront_suffix (table : List Bytes) (skip : Nat) (s : Bytes) :
    trimFront table skip s <:+ s := by
  induction s generalizing skip with
  | nil =>
      have whole : trimFront table skip [] = [] := by rw [trimFront]
      exact whole.symm ▸ List.suffix_rfl
  | cons b s ih =>
      cases skip with
      | succ skip => exact (ih skip).trans (List.suffix_cons b s)
      | zero =>
          rw [trimFront]
          split
          · exact (ih _).trans (List.suffix_cons b s)
          · exact List.suffix_rfl

/-- What is left does not begin with a character of the table. -/
theorem not_prefix_trimFront {table : List Bytes} (nonempty : [] ∉ table) {char : Bytes}
    (inTable : char ∈ table) (skip : Nat) (s : Bytes) : ¬ char <+: trimFront table skip s := by
  have notEmpty : ¬ char <+: [] := by
    rw [List.prefix_nil]
    rintro rfl
    exact nonempty inTable
  induction s generalizing skip with
  | nil =>
      rw [trimFront]
      exact notEmpty
  | cons b s ih =>
      cases skip with
      | succ skip => exact ih skip
      | zero =>
          rw [trimFront]
          split
          · exact ih _
          · rename_i none_
            have notPrefix := List.find?_eq_none.mp none_ char inTable
            rw [List.isPrefixOf_iff_prefix] at notPrefix
            exact notPrefix

theorem trimFront_eq_self {table : List Bytes} {s : Bytes}
    (noPrefix : ∀ char ∈ table, ¬ char <+: s) : trimFront table 0 s = s := by
  cases s with
  | nil => rfl
  | cons b s =>
      have none_ : table.find? (·.isPrefixOf (b :: s)) = none := by
        rw [List.find?_eq_none]
        intro char inTable
        rw [List.isPrefixOf_iff_prefix]
        exact noPrefix char inTable
      rw [trimFront, none_]

/-- The string neither begins nor ends with a space character. -/
def Trimmed (s : Bytes) : Prop := ∀ char ∈ spaces, ¬ char <+: s ∧ ¬ char <:+ s

theorem trimmed_trimSpace (s : Bytes) : Trimmed (trimSpace s) := by
  intro char inSpaces
  rw [trimSpace]
  constructor
  · intro isPrefix
    have whole := List.reverse_prefix.mpr
      (trimFront_suffix (spaces.map List.reverse) 0 (trimFront spaces 0 s).reverse)
    rw [List.reverse_reverse] at whole
    exact not_prefix_trimFront (by decide) inSpaces 0 s (isPrefix.trans whole)
  · rw [← List.reverse_prefix, List.reverse_reverse]
    exact not_prefix_trimFront (by decide) (List.mem_map_of_mem inSpaces) 0 _

theorem trimSpace_of_trimmed {s : Bytes} (trimmed : Trimmed s) : trimSpace s = s := by
  have back : ∀ char ∈ spaces.map List.reverse, ¬ char <+: s.reverse := by
    intro char inTable
    obtain ⟨original, inSpaces, rfl⟩ := List.mem_map.mp inTable
    rw [List.reverse_prefix]
    exact (trimmed original inSpaces).2
  rw [trimSpace, trimFront_eq_self fun char inSpaces => (trimmed char inSpaces).1,
    trimFront_eq_self back, List.reverse_reverse]

/-- Trimming leaves a string as it is exactly if it has no space at its ends. -/
theorem trimSpace_eq_self_iff {s : Bytes} : trimSpace s = s ↔ Trimmed s := by
  constructor
  · intro same
    rw [← same]
    exact trimmed_trimSpace s
  · exact trimSpace_of_trimmed

/-- A trimmed string behind a text that begins with no space. -/
theorem Trimmed.append {pre s : Bytes} (trimmed : Trimmed s) (long : 3 ≤ s.length)
    (front : ∀ char ∈ spaces, ¬ char <+: pre ++ s) : Trimmed (pre ++ s) := by
  intro char inSpaces
  constructor
  · exact front char inSpaces
  · intro isSuffix
    have short : ∀ char ∈ spaces, char.length ≤ 3 := by decide
    have inTail := List.suffix_of_suffix_length_le isSuffix (List.suffix_append pre s)
      (Nat.le_trans (short char inSpaces) long)
    exact (trimmed char inSpaces).2 inTail

/-- The fields of the rest of a string; `word` are the bytes read of the current
one, in reverse. -/
def fieldsFrom (word : Bytes) : Nat → Bytes → List Bytes
  | _, [] => if word = [] then [] else [word.reverse]
  | skip + 1, _ :: s => fieldsFrom word skip s
  | 0, b :: s =>
      match spaces.find? (·.isPrefixOf (b :: s)) with
      | some char =>
          (if word = [] then [] else [word.reverse]) ++ fieldsFrom [] (char.length - 1) s
      | none => fieldsFrom (b :: word) 0 s

/-- `strings.Fields`. -/
def fields (s : Bytes) : List Bytes := fieldsFrom [] 0 s

example : fields (ascii " drover.read  drover.admin") =
    [ascii "drover.read", ascii "drover.admin"] := by decide

/-! ## Runes -/

/-- The byte is from `lo` to `hi`. -/
def isBetween (lo hi b : UInt8) : Bool := lo ≤ b && b ≤ hi

/-- A byte inside an encoded rune. -/
def isContinuation : UInt8 → Bool := isBetween 0x80 0xbf

/-- The number of bytes of the first rune; an ill-formed one has a single byte. -/
def runeLength : Bytes → Nat
  | [] => 0
  | b :: s =>
      let lo := if b = 0xe0 then 0xa0 else if b = 0xf0 then 0x90 else 0x80
      let hi := if b = 0xed then 0x9f else if b = 0xf4 then 0x8f else 0xbf
      let size := if isBetween 0xc2 0xdf b then 2 else if isBetween 0xe0 0xef b then 3
        else if isBetween 0xf0 0xf4 b then 4 else 1
      let tail := s.take (size - 1)
      if tail.length = size - 1 ∧ (tail.take 1).all (isBetween lo hi) ∧
          (tail.drop 1).all isContinuation then size
      else 1

/-- The runes of the rest of a string; `skip` bytes belong to one that was counted. -/
def countRunes : Nat → Bytes → Nat
  | _, [] => 0
  | skip + 1, _ :: s => countRunes skip s
  | 0, b :: s => 1 + countRunes (runeLength (b :: s) - 1) s

/-- `utf8.RuneCountInString`. -/
def runeCountInString (s : Bytes) : Nat := countRunes 0 s

example : runeCountInString [0x61, 0xe3, 0x81, 0x82, 0xed, 0xa0] = 4 := by decide

/-! ## Hexadecimal -/

/-- A hexadecimal digit. -/
def lowerHexDigit (n : Nat) : UInt8 := UInt8.ofNat (if n < 10 then 0x30 + n else 0x61 + (n - 10))

/-- `hex.EncodeToString`. -/
def encodeHex (s : Bytes) : Bytes :=
  s.flatMap fun b => [lowerHexDigit (b.toNat / 16), lowerHexDigit (b.toNat % 16)]

theorem lowerHexDigit_inj {m n : Nat} (mLt : m < 16) (nLt : n < 16)
    (same : lowerHexDigit m = lowerHexDigit n) : m = n := by
  have digits : ∀ m < 16, ∀ n < 16, lowerHexDigit m = lowerHexDigit n → m = n := by decide
  exact digits m mLt n nLt same

theorem encodeHex_injective : Function.Injective encodeHex := by
  intro s t same
  induction s generalizing t with
  | nil =>
      cases t with
      | nil => rfl
      | cons b t => cases same
  | cons a s ih =>
      cases t with
      | nil => cases same
      | cons b t =>
          simp only [encodeHex, List.flatMap_cons, List.cons_append, List.nil_append,
            List.cons.injEq] at same
          obtain ⟨high, low, rest⟩ := same
          have aLt := a.toNat_lt
          have bLt := b.toNat_lt
          have highEq := lowerHexDigit_inj (by omega) (by omega) high
          have lowEq := lowerHexDigit_inj (by omega) (by omega) low
          have byteEq : a = b := UInt8.toNat_inj.mp (by omega)
          rw [byteEq, ih rest]

end Drover
