import Drover.Data.Runes

/-!
# Strings of JSON texts

The strings that `encoding/json` writes and reads, byte by byte: `appendString`
with its escapes for HTML, and the reading of a string up to its closing quote
as the scanner and `unquoteBytes` do it together.  A valid string is read as it
was written; ill-formed bytes become the replacement character.
-/

namespace Drover.JsonText

/-- The byte around a string. -/
def quote : UInt8 := 0x22

/-- The byte that begins an escape. -/
def backslash : UInt8 := 0x5c

/-- U+FFFD. -/
def replacement : Bytes := [0xef, 0xbf, 0xbd]

/-! ## Writing -/

/-- `htmlSafeSet`. -/
def htmlSafe (b : UInt8) : Bool := 0x20 ≤ b && b ∉ [quote, backslash, 0x3c, 0x3e, 0x26]

/-- The characters that are escaped by another one, with it. -/
def shortEscapes : List (UInt8 × UInt8) :=
  [(quote, quote), (backslash, backslash), (0x08, 0x62), (0x0c, 0x66), (0x0a, 0x6e), (0x0d, 0x72),
    (0x09, 0x74)]

/-- One ASCII byte, escaped. -/
def escapeASCII (b : UInt8) : Bytes :=
  if htmlSafe b then [b]
  else
    match shortEscapes.lookup b with
    | some e => [backslash, e]
    | none => ascii "\\u00" ++ [lowerHexDigit (b.toNat / 16), lowerHexDigit (b.toNat % 16)]

/-- One round of the loop of `appendString`. -/
def escapeRune : Bytes → Bytes
  | [b] => if b < 0x80 then escapeASCII b else ascii "\\ufffd"
  | r =>
      if r = [0xe2, 0x80, 0xa8] then ascii "\\u2028"
      else if r = [0xe2, 0x80, 0xa9] then ascii "\\u2029"
      else r

/-- `appendString`, with `escapeHTML`. -/
def appendString (s : Bytes) : Bytes := quote :: ((runes s).flatMap escapeRune ++ [quote])

/-! ## Reading -/

/-- A hexadecimal digit of either case. -/
def hexValue (b : UInt8) : Option Nat :=
  if 0x30 ≤ b ∧ b ≤ 0x39 then some (b.toNat - 0x30)
  else if 0x61 ≤ b ∧ b ≤ 0x66 then some (b.toNat - 0x61 + 10)
  else if 0x41 ≤ b ∧ b ≤ 0x46 then some (b.toNat - 0x41 + 10)
  else none

/-- `getu4`, behind the `\u`; with the number comes the rest. -/
def getu4 : Bytes → Option (Nat × Bytes)
  | a :: b :: c :: d :: s => do
      let a ← hexValue a
      let b ← hexValue b
      let c ← hexValue c
      let d ← hexValue d
      some (((a * 16 + b) * 16 + c) * 16 + d, s)
  | _ => none

/-- `utf8.EncodeRune`. -/
def encodeRune (n : Nat) : Bytes :=
  if n < 0x80 then [UInt8.ofNat n]
  else if n < 0x800 then [UInt8.ofNat (0xc0 + n / 64), UInt8.ofNat (0x80 + n % 64)]
  else if n < 0x10000 then
    [UInt8.ofNat (0xe0 + n / 4096), UInt8.ofNat (0x80 + n / 64 % 64), UInt8.ofNat (0x80 + n % 64)]
  else
    [UInt8.ofNat (0xf0 + n / 262144), UInt8.ofNat (0x80 + n / 4096 % 64),
      UInt8.ofNat (0x80 + n / 64 % 64), UInt8.ofNat (0x80 + n % 64)]

/-- The second half of a surrogate pair. -/
def lowSurrogate : Bytes → Option (Nat × Bytes)
  | a :: b :: s =>
      if a = backslash ∧ b = 0x75 then
        (getu4 s).filter fun p => 0xdc00 ≤ p.1 ∧ p.1 ≤ 0xdfff
      else none
  | _ => none

/-- A `\u` escape; half a surrogate pair is the replacement character. -/
def readUnicode (s : Bytes) : Option (Bytes × Bytes) :=
  (getu4 s).map fun p =>
    if p.1 < 0xd800 ∨ 0xdfff < p.1 then (encodeRune p.1, p.2)
    else
      match lowSurrogate p.2 with
      | some (low, rest) =>
          if p.1 < 0xdc00 then
            (encodeRune (0x10000 + (p.1 - 0xd800) * 1024 + (low - 0xdc00)), rest)
          else (replacement, p.2)
      | none => (replacement, p.2)

/-- What each letter behind a backslash stands for. -/
def simpleEscapes : List (UInt8 × UInt8) := (0x2f, 0x2f) :: shortEscapes.map Prod.swap

/-- An escape, behind the backslash. -/
def readEscape : Bytes → Option (Bytes × Bytes)
  | [] => none
  | e :: s =>
      if e = 0x75 then readUnicode s else (simpleEscapes.lookup e).map fun b => ([b], s)

/-- A rune that stands for itself, unless it is ill-formed. -/
def coerceRune : Bytes → Bytes
  | [b] => if b < 0x80 then [b] else replacement
  | r => r

/-- The string up to its closing quote, and what is behind it. -/
def readChars : Nat → Bytes → Option (Bytes × Bytes)
  | 0, _ => none
  | _ + 1, [] => none
  | fuel + 1, b :: s =>
      if b = quote then some ([], s)
      else if b = backslash then
        (readEscape s).bind fun p =>
          (readChars fuel p.2).map fun q => (p.1 ++ q.1, q.2)
      else if b < 0x20 then none
      else
        (readChars fuel (afterRune (b :: s))).map fun q =>
          (coerceRune (firstRune (b :: s)) ++ q.1, q.2)

/-- A string, behind its opening quote. -/
def readString (s : Bytes) : Option (Bytes × Bytes) := readChars s.length s

/-! ## Progress -/

theorem length_of_getu4 {s : Bytes} {p : Nat × Bytes} (read : getu4 s = some p) :
    p.2.length < s.length := by
  unfold getu4 at read
  split at read
  · simp only [Option.bind_eq_bind, Option.bind_eq_some_iff] at read
    obtain ⟨_, -, _, -, _, -, _, -, same⟩ := read
    cases same
    simp only [List.length_cons]
    omega
  · cases read

theorem length_of_lowSurrogate {s : Bytes} {p : Nat × Bytes} (read : lowSurrogate s = some p) :
    p.2.length < s.length := by
  unfold lowSurrogate at read
  split at read
  · split at read
    · have short := length_of_getu4 (Option.filter_eq_some_iff.mp read).1
      simp only [List.length_cons]
      omega
    · cases read
  · cases read

theorem length_of_readUnicode {s : Bytes} {p : Bytes × Bytes} (read : readUnicode s = some p) :
    p.2.length < s.length := by
  obtain ⟨q, number, rfl⟩ := Option.map_eq_some_iff.mp read
  have short := length_of_getu4 number
  split
  · exact short
  · split
    · rename_i low rest pair
      split
      · exact Nat.lt_trans (length_of_lowSurrogate pair) short
      · exact short
    · exact short

theorem length_of_readEscape {s : Bytes} {p : Bytes × Bytes} (read : readEscape s = some p) :
    p.2.length < s.length := by
  cases s with
  | nil => cases read
  | cons e s =>
      rw [readEscape] at read
      split at read
      · exact Nat.lt_succ_of_lt (length_of_readUnicode read)
      · obtain ⟨b, -, rfl⟩ := Option.map_eq_some_iff.mp read
        exact Nat.lt_succ_self _

/-- The text's length is fuel enough. -/
theorem readChars_eq {m n : Nat} {s : Bytes} (enough : s.length ≤ m) (enough' : s.length ≤ n) :
    readChars m s = readChars n s := by
  induction m generalizing n s with
  | zero =>
      rw [List.length_eq_zero_iff.mp (Nat.le_zero.mp enough)]
      cases n <;> rfl
  | succ m ih =>
      cases s with
      | nil => cases n <;> rfl
      | cons b s =>
          rw [List.length_cons] at enough enough'
          cases n with
          | zero => omega
          | succ n =>
              have short := length_afterRune b s
              have later : readChars m (afterRune (b :: s)) = readChars n (afterRune (b :: s)) :=
                ih (by omega) (by omega)
              have escape : ∀ p, readEscape s = some p → readChars m p.2 = readChars n p.2 := by
                intro p read
                have short := length_of_readEscape read
                exact ih (by omega) (by omega)
              rw [readChars, readChars, later]
              congr 2
              cases read : readEscape s with
              | none => rfl
              | some p => rw [Option.bind_some, Option.bind_some, escape p read]

theorem length_of_readChars {fuel : Nat} {s : Bytes} {p : Bytes × Bytes}
    (read : readChars fuel s = some p) : p.2.length < s.length := by
  induction fuel generalizing s p with
  | zero => cases read
  | succ fuel ih =>
      cases s with
      | nil => cases read
      | cons b s =>
          rw [List.length_cons]
          rw [readChars] at read
          split at read
          · cases read
            exact Nat.lt_succ_self _
          · split at read
            · obtain ⟨q, escape, more⟩ := Option.bind_eq_some_iff.mp read
              obtain ⟨q', rest, rfl⟩ := Option.map_eq_some_iff.mp more
              have first := length_of_readEscape escape
              have second := ih rest
              simp only
              omega
            · split at read
              · cases read
              · obtain ⟨q, rest, rfl⟩ := Option.map_eq_some_iff.mp read
                have first := length_afterRune b s
                have second := ih rest
                simp only
                omega

theorem length_of_readString {s : Bytes} {p : Bytes × Bytes} (read : readString s = some p) :
    p.2.length < s.length := length_of_readChars read

/-! ## What is written is read -/

theorem readChars_escape {e : UInt8} {r s rest : Bytes}
    (escape : readEscape (e :: s) = some (r, rest)) (fuel : Nat) :
    readChars (fuel + 1) (backslash :: e :: s) =
      (readChars fuel rest).map fun q => (r ++ q.1, q.2) := by
  rw [readChars, if_neg (by decide), if_pos rfl, escape]
  rfl

/-- A rune that is written as it is. -/
theorem readChars_literal {b : UInt8} {tail : Bytes} (wellFormed : WellFormed (b :: tail))
    (noQuote : b ≠ quote) (noBackslash : b ≠ backslash) (noControl : ¬ b < 0x20) (fuel : Nat)
    (s : Bytes) : readChars (fuel + 1) (b :: tail ++ s) =
      (readChars fuel s).map fun q => (b :: tail ++ q.1, q.2) := by
  have length := wellFormed.runeLength_append s
  have first : firstRune (b :: tail ++ s) = b :: tail := by
    rw [firstRune, length, List.take_left]
  have after : afterRune (b :: tail ++ s) = s := by rw [afterRune, length, List.drop_left]
  have kept : coerceRune (b :: tail) = b :: tail := by
    cases wellFormed with
    | ascii isASCII => exact if_pos isASCII
    | long nonempty =>
        cases tail with
        | nil => exact absurd rfl nonempty
        | cons => rfl
  rw [List.cons_append] at first after ⊢
  rw [readChars, if_neg noQuote, if_neg noBackslash, if_neg noControl, first, after, kept]

theorem hexValue_lowerHexDigit : ∀ n < 16, hexValue (lowerHexDigit n) = some n := by decide

/-- An ASCII byte by its number. -/
theorem readEscape_hex {b : UInt8} (isASCII : b < 0x80) (s : Bytes) :
    readEscape (ascii "u00" ++ [lowerHexDigit (b.toNat / 16), lowerHexDigit (b.toNat % 16)] ++ s) =
      some ([b], s) := by
  have small : b.toNat < 128 := UInt8.lt_iff_toNat_lt.mp isASCII
  have number : getu4 (ascii "00" ++ [lowerHexDigit (b.toNat / 16), lowerHexDigit (b.toNat % 16)]
      ++ s) = some (b.toNat, s) := by
    have zero : hexValue 0x30 = some 0 := by decide
    have whole : ((0 * 16 + 0) * 16 + b.toNat / 16) * 16 + b.toNat % 16 = b.toNat := by omega
    have text : ascii "00" = [0x30, 0x30] := by decide
    rw [text]
    simp only [List.cons_append, List.nil_append, getu4, zero,
      hexValue_lowerHexDigit (b.toNat / 16) (by omega),
      hexValue_lowerHexDigit (b.toNat % 16) (by omega), Option.bind_eq_bind, Option.bind_some,
      whole]
  have text : ascii "u00" = 0x75 :: ascii "00" := by decide
  rw [text, List.cons_append, List.cons_append, readEscape, if_pos rfl, readUnicode, number,
    Option.map_some, if_pos (.inl (by simp only; omega)), encodeRune, if_pos small,
    UInt8.ofNat_toNat]

theorem readEscape_short {p : UInt8 × UInt8} (mem : p ∈ shortEscapes) (s : Bytes) :
    readEscape (p.2 :: s) = some ([p.1], s) := by
  simp only [shortEscapes, List.mem_cons, List.not_mem_nil, or_false] at mem
  rcases mem with rfl | rfl | rfl | rfl | rfl | rfl | rfl <;> rfl

/-- A line or paragraph separator. -/
theorem readEscape_separator {d : UInt8} {n : Nat} (digit : hexValue d = some n) (small : n < 16)
    (s : Bytes) :
    readEscape (ascii "u202" ++ d :: s) = some ([0xe2, 0x80, UInt8.ofNat (0xa0 + n)], s) := by
  have number : getu4 (ascii "202" ++ d :: s) = some (0x2020 + n, s) := by
    have two : hexValue 0x32 = some 2 := by decide
    have zero : hexValue 0x30 = some 0 := by decide
    have text : ascii "202" = [0x32, 0x30, 0x32] := by decide
    rw [text]
    simp only [List.cons_append, List.nil_append, getu4, two, zero, digit, Option.bind_eq_bind,
      Option.bind_some]
  have bytes : encodeRune (0x2020 + n) = [0xe2, 0x80, UInt8.ofNat (0xa0 + n)] := by
    have first : 0xe0 + (0x2020 + n) / 4096 = 0xe2 := by omega
    have second : 0x80 + (0x2020 + n) / 64 % 64 = 0x80 := by omega
    have third : 0x80 + (0x2020 + n) % 64 = 0xa0 + n := by omega
    rw [encodeRune, if_neg (by omega), if_neg (by omega), if_pos (by omega), first, second, third]
    rfl
  have text : ascii "u202" = 0x75 :: ascii "202" := by decide
  rw [text, List.cons_append, readEscape, if_pos rfl, readUnicode, number, Option.map_some,
    if_pos (.inl (by simp only; omega)), bytes]

theorem readChars_escapeASCII {b : UInt8} (isASCII : b < 0x80) (fuel : Nat) (s : Bytes) :
    readChars (fuel + 1) (escapeASCII b ++ s) =
      (readChars fuel s).map fun q => ([b] ++ q.1, q.2) := by
  rw [escapeASCII]
  split
  · rename_i safe
    rw [htmlSafe, Bool.and_eq_true, decide_eq_true_eq, decide_eq_true_eq] at safe
    have other : ∀ c ∈ [quote, backslash, 0x3c, 0x3e, 0x26], b ≠ c := fun c mem isC =>
      safe.2 (isC ▸ mem)
    exact readChars_literal (.ascii isASCII) (other _ (by decide)) (other _ (by decide))
      (UInt8.not_lt.mpr safe.1) fuel s
  · split
    · rename_i e found
      obtain ⟨before, after, whole, -⟩ := List.lookup_eq_some_iff.mp found
      have mem : (b, e) ∈ shortEscapes := whole ▸ List.mem_append_right _ List.mem_cons_self
      exact readChars_escape (readEscape_short mem s) fuel
    · have text : ascii "\\u00" = backslash :: ascii "u00" := by decide
      have escape := readEscape_hex isASCII s
      rw [text]
      exact readChars_escape escape fuel

/-- A rune is read as it was written. -/
theorem readChars_escapeRune {r : Bytes} (wellFormed : WellFormed r) (fuel : Nat) (s : Bytes) :
    readChars (fuel + 1) (escapeRune r ++ s) =
      (readChars fuel s).map fun q => (r ++ q.1, q.2) := by
  cases wellFormed with
  | ascii isASCII =>
      rw [escapeRune, if_pos isASCII]
      exact readChars_escapeASCII isASCII fuel s
  | long nonempty continues =>
      rename_i b tail
      have notASCII := continues.not_ascii nonempty
      have other : ∀ c, c < 0x80 → b ≠ c := fun c small isC => notASCII (isC ▸ small)
      have control : ¬ b < 0x20 := fun small => notASCII (UInt8.lt_trans small (by decide))
      have escaped : escapeRune (b :: tail) =
          if b :: tail = [0xe2, 0x80, 0xa8] then ascii "\\u2028"
          else if b :: tail = [0xe2, 0x80, 0xa9] then ascii "\\u2029" else b :: tail := by
        cases tail with
        | nil => exact absurd rfl nonempty
        | cons c tail => rfl
      rw [escaped]
      split
      · rename_i line
        have text : ascii "\\u2028" ++ s = backslash :: (ascii "u202" ++ 0x38 :: s) := by
          have text : ascii "\\u2028" = backslash :: (ascii "u202" ++ [0x38]) := by decide
          rw [text, List.cons_append, List.append_assoc, List.singleton_append]
        rw [text, line]
        exact readChars_escape (readEscape_separator (n := 8) rfl (by decide) s) fuel
      · split
        · rename_i paragraph
          have text : ascii "\\u2029" ++ s = backslash :: (ascii "u202" ++ 0x39 :: s) := by
            have text : ascii "\\u2029" = backslash :: (ascii "u202" ++ [0x39]) := by decide
            rw [text, List.cons_append, List.append_assoc, List.singleton_append]
          rw [text, paragraph]
          exact readChars_escape (readEscape_separator (n := 9) rfl (by decide) s) fuel
        · exact readChars_literal (.long nonempty continues) (other _ (by decide))
            (other _ (by decide)) control fuel s

theorem readChars_runes {rs : List Bytes} (wellFormed : ∀ r ∈ rs, WellFormed r) {fuel : Nat}
    (enough : rs.length < fuel) (s : Bytes) :
    readChars fuel (rs.flatMap escapeRune ++ quote :: s) = some (rs.flatten, s) := by
  induction rs generalizing fuel with
  | nil =>
      obtain ⟨fuel, rfl⟩ := Nat.exists_eq_add_of_lt enough
      rw [List.flatMap_nil, List.nil_append, readChars, if_pos rfl, List.flatten_nil]
  | cons r rs ih =>
      cases fuel with
      | zero => cases enough
      | succ fuel =>
          rw [List.flatMap_cons, List.append_assoc, readChars_escapeRune
            (wellFormed r List.mem_cons_self), ih (fun r mem => wellFormed r
              (List.mem_cons_of_mem _ mem)) (Nat.lt_of_succ_lt_succ enough)]
          rfl

/-- A valid string is read as it was written. -/
theorem readString_appendString {s : Bytes} (valid : ValidString s) (rest : Bytes) :
    readString ((runes s).flatMap escapeRune ++ quote :: rest) = some (s, rest) := by
  have read : ∀ fuel, (runes s).length < fuel →
      readChars fuel ((runes s).flatMap escapeRune ++ quote :: rest) = some (s, rest) := by
    intro fuel enough
    have whole := readChars_runes (wellFormed_of_validString valid) enough rest
    rwa [flatten_runes] at whole
  rw [readString, readChars_eq (Nat.le_refl _) (Nat.le_max_left _ ((runes s).length + 1))]
  exact read _ (Nat.lt_of_succ_le (Nat.le_max_right _ _))

end Drover.JsonText
