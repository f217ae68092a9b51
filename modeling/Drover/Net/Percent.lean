import Drover.Data.Runes
import Drover.Net.Values

/-!
# Percent encodings

The encodings of URL components differ in the bytes that they keep as they are
and in how they write a space.  One that keeps neither `%` nor `+` is undone by
`QueryUnescape`, and by the decoding of a browser.  The encoding of JavaScript's
`encodeURIComponent` and that of a submitted form are such encodings, and what a
browser escapes of a query when it parses a URL changes nothing of what is read.
-/

namespace Drover.Net

/-- One byte of a percent encoding that keeps some bytes as they are. -/
def percentByte (plain : UInt8 → Bool) (b : UInt8) : Bytes :=
  if plain b then [b] else [percent, hexDigit (b.toNat / 16), hexDigit (b.toNat % 16)]

/-- The text with all bytes but the plain ones in percent escapes. -/
def percentEncode (plain : UInt8 → Bool) (s : Bytes) : Bytes := s.flatMap (percentByte plain)

section

variable {plain : UInt8 → Bool}

theorem queryUnescape_percentByte (keepsPercent : plain percent = false)
    (keepsPlus : plain plus = false) (b : UInt8) (rest : Bytes) :
    queryUnescape (percentByte plain b ++ rest) = (queryUnescape rest).map (b :: ·) := by
  rw [percentByte]
  split
  · rename_i isPlain
    have notPercent : b ≠ percent := by
      rintro rfl
      rw [keepsPercent] at isPlain
      cases isPlain
    have notPlus : b ≠ plus := by
      rintro rfl
      rw [keepsPlus] at isPlain
      cases isPlain
    rw [List.singleton_append, queryUnescape_cons notPercent, if_neg notPlus]
  · have size : b.toNat < 256 := UInt8.toNat_lt_size b
    have high := unhex_hexDigit (b.toNat / 16) (by omega)
    have low := unhex_hexDigit (b.toNat % 16) (by omega)
    have whole : UInt8.ofNat (16 * (b.toNat / 16) + b.toNat % 16) = b := by
      rw [Nat.div_add_mod, UInt8.ofNat_toNat]
    simp only [List.cons_append, List.nil_append, queryUnescape, if_pos, high, low, whole]

/-- An encoding that keeps neither `%` nor `+` is undone. -/
theorem queryUnescape_percentEncode (keepsPercent : plain percent = false)
    (keepsPlus : plain plus = false) (s : Bytes) :
    queryUnescape (percentEncode plain s) = some s := by
  induction s with
  | nil => rw [percentEncode, List.flatMap_nil, queryUnescape]
  | cons b s ih =>
      rw [percentEncode, List.flatMap_cons, queryUnescape_percentByte keepsPercent keepsPlus]
      exact congrArg (Option.map (b :: ·)) ih

/-- What an encoding does not keep stands nowhere in an encoded component. -/
theorem notMem_percentEncode {c : UInt8} (special : plain c = false)
    (reserved : isUnreserved c = false) (notPercent : c ≠ percent) (s : Bytes) :
    c ∉ percentEncode plain s := by
  rw [percentEncode, List.mem_flatMap]
  rintro ⟨b, -, mem⟩
  have size : b.toNat < 256 := UInt8.toNat_lt_size b
  rw [percentByte] at mem
  split at mem
  · rename_i isPlain
    rw [← List.mem_singleton.mp mem, special] at isPlain
    cases isPlain
  · simp only [List.mem_cons, List.not_mem_nil, or_false] at mem
    rcases mem with isPercent | isHigh | isLow
    · exact notPercent isPercent
    · exact ne_of_isUnreserved (isUnreserved_hexDigit _ (by omega)) reserved isHigh.symm
    · exact ne_of_isUnreserved (isUnreserved_hexDigit _ (by omega)) reserved isLow.symm

end

/-! ## A pair of a query, however it is encoded -/

/-- A text that is read as this component: it is undone, and no delimiter of a
query or a URL stands in it. -/
structure Encodes (text component : Bytes) : Prop where
  unescape : queryUnescape text = some component
  ampersand_notMem : ampersand ∉ text
  semicolon_notMem : semicolon ∉ text
  equals_notMem : equals ∉ text
  hash_notMem : hash ∉ text

theorem encodes_queryEscape (s : Bytes) : Encodes (queryEscape s) s where
  unescape := queryUnescape_queryEscape s
  ampersand_notMem := notMem_queryEscape (by decide) (by decide) (by decide) s
  semicolon_notMem := notMem_queryEscape (by decide) (by decide) (by decide) s
  equals_notMem := notMem_queryEscape (by decide) (by decide) (by decide) s
  hash_notMem := notMem_queryEscape (by decide) (by decide) (by decide) s

/-- The bytes that mean something in a query or end it. -/
def delimiters : Bytes := [percent, plus, ampersand, semicolon, equals, hash]

theorem encodes_percentEncode {plain : UInt8 → Bool} (special : delimiters.any plain = false)
    (s : Bytes) : Encodes (percentEncode plain s) s := by
  have notPlain : ∀ c ∈ delimiters, plain c = false := fun c mem =>
    Bool.eq_false_iff.mpr (List.any_eq_false.mp special c mem)
  exact {
    unescape := queryUnescape_percentEncode (notPlain _ (by decide)) (notPlain _ (by decide)) s
    ampersand_notMem := notMem_percentEncode (notPlain _ (by decide)) (by decide) (by decide) s
    semicolon_notMem := notMem_percentEncode (notPlain _ (by decide)) (by decide) (by decide) s
    equals_notMem := notMem_percentEncode (notPlain _ (by decide)) (by decide) (by decide) s
    hash_notMem := notMem_percentEncode (notPlain _ (by decide)) (by decide) (by decide) s }

/-- The text of a pair of encoded components. -/
def pairText (key value : Bytes) : Bytes := key ++ equals :: value

theorem parsePair_pairText {key value k v : Bytes} (keyText : Encodes key k)
    (valueText : Encodes value v) : parsePair (pairText key value) = some (k, v) := by
  have clean : semicolon ∉ pairText key value := by
    rw [pairText, List.mem_append, List.mem_cons]
    rintro (inKey | isEquals | inValue)
    · exact keyText.semicolon_notMem inKey
    · exact absurd isEquals (by decide)
    · exact valueText.semicolon_notMem inValue
  rw [parsePair, if_neg clean, if_neg (by simp [pairText]), pairText,
    cut_append keyText.equals_notMem, keyText.unescape, valueText.unescape]

theorem ampersand_notMem_pairText {key value k v : Bytes} (keyText : Encodes key k)
    (valueText : Encodes value v) : ampersand ∉ pairText key value := by
  rw [pairText, List.mem_append, List.mem_cons]
  rintro (inKey | isEquals | inValue)
  · exact keyText.ampersand_notMem inKey
  · exact absurd isEquals (by decide)
  · exact valueText.ampersand_notMem inValue

theorem hash_notMem_pairText {key value k v : Bytes} (keyText : Encodes key k)
    (valueText : Encodes value v) : hash ∉ pairText key value := by
  rw [pairText, List.mem_append, List.mem_cons]
  rintro (inKey | isEquals | inValue)
  · exact keyText.hash_notMem inKey
  · exact absurd isEquals (by decide)
  · exact valueText.hash_notMem inValue

/-- A query of encoded pairs. -/
def joinPairs (texts : Values) : Bytes :=
  [ampersand].intercalate (texts.map fun p => pairText p.1 p.2)

/-- The pairs that a query of encoded pairs stands for. -/
def PairsEncode (texts values : Values) : Prop :=
  List.Forall₂ (fun text value => Encodes text.1 value.1 ∧ Encodes text.2 value.2) texts values

theorem joinPairs_cons_cons (first second : Bytes × Bytes) (more : Values) :
    joinPairs (first :: second :: more) =
      pairText first.1 first.2 ++ ampersand :: joinPairs (second :: more) := by
  rw [joinPairs, List.map_cons, List.map_cons, List.intercalate_cons_cons, joinPairs,
    List.map_cons, List.append_assoc, List.singleton_append]

theorem PairsEncode.append {texts texts' values values' : Values}
    (first : PairsEncode texts values) (second : PairsEncode texts' values') :
    PairsEncode (texts ++ texts') (values ++ values') := by
  induction first with
  | nil => exact second
  | cons head _ ih => exact .cons head ih

/-- Encoded pairs survive the query, whichever encoding each component has. -/
theorem parseQuery_joinPairs {texts values : Values} (encodes : PairsEncode texts values) :
    parseQuery (joinPairs texts) = values := by
  induction encodes with
  | nil => decide
  | @cons text value texts values pairText_encodes rest ih =>
      have first := parsePair_pairText pairText_encodes.1 pairText_encodes.2
      have clean := ampersand_notMem_pairText pairText_encodes.1 pairText_encodes.2
      cases rest with
      | nil =>
          rw [joinPairs, List.map_singleton, List.intercalate_singleton,
            parseQuery_of_notMem clean, first]
          rfl
      | @cons second _ more _ _ _ =>
          rw [joinPairs_cons_cons, parseQuery_append_ampersand, ih, parseQuery_of_notMem clean,
            first]
          rfl

/-- `url.ParseQuery` finds no error. -/
def queryParses (query : Bytes) : Bool :=
  (query.splitOn ampersand).all fun segment => segment = [] || (parsePair segment).isSome

theorem queryParses_append_ampersand (before after : Bytes) :
    queryParses (before ++ ampersand :: after) = (queryParses before && queryParses after) := by
  rw [queryParses, List.splitOn_append_cons_self, List.all_append]
  rfl

theorem queryParses_joinPairs {texts values : Values} (encodes : PairsEncode texts values) :
    queryParses (joinPairs texts) = true := by
  induction encodes with
  | nil => decide
  | @cons text value texts values pairText_encodes rest ih =>
      have first := parsePair_pairText pairText_encodes.1 pairText_encodes.2
      have clean := ampersand_notMem_pairText pairText_encodes.1 pairText_encodes.2
      have firstParses : queryParses (pairText text.1 text.2) = true := by
        simp [queryParses, List.splitOn_eq_singleton clean, first]
      cases rest with
      | nil => rwa [joinPairs, List.map_singleton, List.intercalate_singleton]
      | @cons second _ more _ _ _ =>
          rw [joinPairs_cons_cons, queryParses_append_ampersand, firstParses, ih]
          rfl

theorem hash_notMem_joinPairs {texts values : Values} (encodes : PairsEncode texts values) :
    hash ∉ joinPairs texts := by
  induction encodes with
  | nil => exact List.not_mem_nil
  | @cons text value texts values pairText_encodes rest ih =>
      have clean := hash_notMem_pairText pairText_encodes.1 pairText_encodes.2
      cases rest with
      | nil => rwa [joinPairs, List.map_singleton, List.intercalate_singleton]
      | @cons second _ more _ _ _ =>
          rw [joinPairs_cons_cons, List.mem_append, List.mem_cons]
          rintro (inPair | isSeparator | later)
          · exact clean inPair
          · exact absurd isSeparator (by decide)
          · exact ih later

/-! ## What a browser writes -/

/-- The bytes that `encodeURIComponent` keeps: letters, digits and `-_.!~*'()`. -/
def isURIMark (b : UInt8) : Bool :=
  isUnreserved b || b ∈ ascii "!*'()"

/-- `encodeURIComponent`, of the UTF-8 text of a string. -/
def encodeURIComponent (s : Bytes) : Bytes := percentEncode isURIMark s

theorem encodes_encodeURIComponent (s : Bytes) : Encodes (encodeURIComponent s) s :=
  encodes_percentEncode (by decide) s

/-- The bytes that a submitted form and `URLSearchParams` keep: letters, digits
and `*-._`, and the sign for a space. -/
def isFormPlain (b : UInt8) : Bool := (isUnreserved b && b != 0x7e) || b == 0x2a

/-- A component of `application/x-www-form-urlencoded`, as a browser writes it. -/
def formEncode (s : Bytes) : Bytes :=
  s.flatMap fun b => if b = space then [plus] else percentByte isFormPlain b

theorem queryUnescape_formEncode (s : Bytes) : queryUnescape (formEncode s) = some s := by
  induction s with
  | nil => rw [formEncode, List.flatMap_nil, queryUnescape]
  | cons b s ih =>
      rw [formEncode, List.flatMap_cons]
      split
      · rename_i isSpace
        rw [isSpace, List.singleton_append, queryUnescape_cons (by decide), if_pos rfl]
        exact congrArg (Option.map (space :: ·)) ih
      · rw [queryUnescape_percentByte (by decide) (by decide)]
        exact congrArg (Option.map (b :: ·)) ih

theorem notMem_formEncode {c : UInt8} (special : isFormPlain c = false)
    (reserved : isUnreserved c = false) (notPercent : c ≠ percent) (notPlus : c ≠ plus)
    (s : Bytes) : c ∉ formEncode s := by
  rw [formEncode, List.mem_flatMap]
  rintro ⟨b, -, mem⟩
  split at mem
  · exact notPlus (List.mem_singleton.mp mem)
  · refine notMem_percentEncode special reserved notPercent [b] ?_
    rwa [percentEncode, List.flatMap_singleton]

theorem encodes_formEncode (s : Bytes) : Encodes (formEncode s) s where
  unescape := queryUnescape_formEncode s
  ampersand_notMem := notMem_formEncode (by decide) (by decide) (by decide) (by decide) s
  semicolon_notMem := notMem_formEncode (by decide) (by decide) (by decide) (by decide) s
  equals_notMem := notMem_formEncode (by decide) (by decide) (by decide) (by decide) s
  hash_notMem := notMem_formEncode (by decide) (by decide) (by decide) (by decide) s

/-- The body of a submitted form. -/
def formBody (entries : Values) : Bytes :=
  joinPairs (entries.map fun p => (formEncode p.1, formEncode p.2))

theorem pairsEncode_formBody (entries : Values) :
    PairsEncode (entries.map fun p => (formEncode p.1, formEncode p.2)) entries := by
  induction entries with
  | nil => exact .nil
  | cons p entries ih => exact .cons ⟨encodes_formEncode p.1, encodes_formEncode p.2⟩ ih

/-- The entries of a submitted form come back. -/
@[simp]
theorem parseQuery_formBody (entries : Values) : parseQuery (formBody entries) = entries :=
  parseQuery_joinPairs (pairsEncode_formBody entries)

theorem queryParses_formBody (entries : Values) : queryParses (formBody entries) = true :=
  queryParses_joinPairs (pairsEncode_formBody entries)

theorem joinPairs_append {texts : Values} (nonempty : texts ≠ []) (more : Values) :
    joinPairs (texts ++ more) =
      joinPairs texts ++ more.flatMap fun p => ampersand :: pairText p.1 p.2 := by
  induction texts with
  | nil => exact absurd rfl nonempty
  | cons first texts ih =>
      cases texts with
      | nil =>
          cases more with
          | nil => rw [List.append_nil, List.flatMap_nil, List.append_nil]
          | cons second more =>
              rw [List.singleton_append]
              have single : joinPairs [first] = pairText first.1 first.2 := by
                rw [joinPairs, List.map_singleton, List.intercalate_singleton]
              rw [single]
              clear ih nonempty single
              induction more generalizing first second with
              | nil =>
                  rw [joinPairs_cons_cons, joinPairs, List.map_singleton,
                    List.intercalate_singleton, List.flatMap_singleton]
              | cons third more ih =>
                  rw [joinPairs_cons_cons, ih, List.flatMap_cons]
                  rfl
      | cons second texts =>
          rw [List.cons_append, List.cons_append, joinPairs_cons_cons, ← List.cons_append,
            ih (List.cons_ne_nil _ _), joinPairs_cons_cons, List.append_assoc, List.cons_append]

/-! ## What a browser reads -/

/-- How a browser decodes UTF-8. -/
structure Browser where
  decode : Bytes → Bytes
  decode_valid : ∀ {s : Bytes}, ValidString s → decode s = s

/-- The byte of two hexadecimal digits in front. -/
def escapedByte : Bytes → Option UInt8
  | high :: low :: _ =>
      match unhex high, unhex low with
      | some high, some low => some (UInt8.ofNat (16 * high + low))
      | _, _ => none
  | _ => none

/-- The decoding of a component by `URLSearchParams`: what is no escape stays.
`skip` bytes in front belong to the escape before. -/
def percentDecodeFrom : Nat → Bytes → Bytes
  | _, [] => []
  | skip + 1, _ :: rest => percentDecodeFrom skip rest
  | 0, b :: rest =>
      if b = percent then
        match escapedByte rest with
        | some c => c :: percentDecodeFrom 2 rest
        | none => b :: percentDecodeFrom 0 rest
      else (if b = plus then space else b) :: percentDecodeFrom 0 rest

/-- What the text stands for; a bad escape stands for itself. -/
def percentDecode (s : Bytes) : Bytes := percentDecodeFrom 0 s

theorem percentDecode_of_queryUnescape {s t : Bytes} (undone : queryUnescape s = some t) :
    percentDecode s = t := by
  rw [percentDecode]
  fun_induction queryUnescape s generalizing t with
  | case1 =>
      cases undone
      rw [percentDecodeFrom]
  | case2 high low rest first last readsFirst readsLast ih =>
      obtain ⟨tail, undoneTail, rfl⟩ := Option.map_eq_some_iff.mp undone
      simp only [percentDecodeFrom, if_true, escapedByte, readsFirst, readsLast, ih undoneTail]
  | case3 => cases undone
  | case4 => cases undone
  | case5 b rest plain ih =>
      obtain ⟨tail, undoneTail, rfl⟩ := Option.map_eq_some_iff.mp undone
      rw [percentDecodeFrom, if_neg plain, ih undoneTail]

/-- `new URLSearchParams`, of a query. -/
def Browser.searchParams (browser : Browser) (query : Bytes) : Values :=
  (query.splitOn ampersand).filterMap fun segment =>
    if segment = [] then none
    else some (browser.decode (percentDecode (cut equals segment).1),
      browser.decode (percentDecode (cut equals segment).2))

theorem Browser.searchParams_append_ampersand (browser : Browser) (before after : Bytes) :
    browser.searchParams (before ++ ampersand :: after) =
      browser.searchParams before ++ browser.searchParams after := by
  rw [searchParams, List.splitOn_append_cons_self, List.filterMap_append]
  rfl

theorem Browser.searchParams_pairText (browser : Browser) {key value k v : Bytes}
    (keyText : Encodes key k) (valueText : Encodes value v) (keyValid : ValidString k)
    (valueValid : ValidString v) : browser.searchParams (pairText key value) = [(k, v)] := by
  have clean := ampersand_notMem_pairText keyText valueText
  have nonempty : pairText key value ≠ [] := by simp [pairText]
  have split : cut equals (pairText key value) = (key, value) :=
    cut_append keyText.equals_notMem value
  simp [searchParams, List.splitOn_eq_singleton clean, nonempty, split,
    percentDecode_of_queryUnescape keyText.unescape,
    percentDecode_of_queryUnescape valueText.unescape, browser.decode_valid keyValid,
    browser.decode_valid valueValid]

/-- A browser reads encoded pairs as they were. -/
theorem Browser.searchParams_joinPairs (browser : Browser) {texts values : Values}
    (encodes : PairsEncode texts values)
    (valid : ∀ p ∈ values, ValidString p.1 ∧ ValidString p.2) :
    browser.searchParams (joinPairs texts) = values := by
  induction encodes with
  | nil => exact rfl
  | @cons text value texts values pairText_encodes rest ih =>
      have firstValid := valid value List.mem_cons_self
      have first := browser.searchParams_pairText pairText_encodes.1 pairText_encodes.2
        firstValid.1 firstValid.2
      have later := ih fun p mem => valid p (List.mem_cons_of_mem value mem)
      cases rest with
      | nil =>
          rw [joinPairs, List.map_singleton, List.intercalate_singleton, first]
      | @cons second _ more _ _ _ =>
          rw [joinPairs_cons_cons, browser.searchParams_append_ampersand, first, later]
          rfl

/-! ### The query of a parsed URL -/

/-- The bytes of a query that a browser keeps when it parses a URL: all but
controls, spaces, `"`, `#`, `'`, `<`, `>` and what is no ASCII. -/
def isQueryPlain (b : UInt8) : Bool :=
  0x20 < b && b < 0x7f && b ∉ [0x22, hash, 0x27, 0x3c, 0x3e]

/-- The query of a parsed URL. -/
def urlQuery (query : Bytes) : Bytes := percentEncode isQueryPlain query

theorem isQueryPlain_of_unhex {b : UInt8} {n : Nat} (read : unhex b = some n) :
    isQueryPlain b = true := by
  have range : (0x30 ≤ b ∧ b ≤ 0x39) ∨ (0x61 ≤ b ∧ b ≤ 0x66) ∨ (0x41 ≤ b ∧ b ≤ 0x46) := by
    by_contra other
    rw [not_or, not_or] at other
    rw [unhex, if_neg other.1, if_neg other.2.1, if_neg other.2.2] at read
    cases read
  simp only [isQueryPlain, hash, Bool.and_eq_true, decide_eq_true_eq, List.mem_cons,
    List.not_mem_nil, or_false, not_or]
  grind

theorem urlQuery_cons (b : UInt8) (s : Bytes) :
    urlQuery (b :: s) = percentByte isQueryPlain b ++ urlQuery s := rfl

theorem percentByte_plain {b : UInt8} (plain : isQueryPlain b = true) :
    percentByte isQueryPlain b = [b] := by
  rw [percentByte, if_pos plain]

theorem queryUnescape_urlQuery {s t : Bytes} (undone : queryUnescape s = some t) :
    queryUnescape (urlQuery s) = some t := by
  fun_induction queryUnescape s generalizing t with
  | case1 => exact undone
  | case2 high low rest first last readsFirst readsLast ih =>
      obtain ⟨tail, undoneTail, rfl⟩ := Option.map_eq_some_iff.mp undone
      have highPlain := percentByte_plain (isQueryPlain_of_unhex readsFirst)
      have lowPlain := percentByte_plain (isQueryPlain_of_unhex readsLast)
      have percentPlain := percentByte_plain (b := percent) (by decide)
      rw [urlQuery_cons, urlQuery_cons, urlQuery_cons, highPlain, lowPlain, percentPlain]
      simp only [List.singleton_append, queryUnescape, if_true, readsFirst, readsLast,
        ih undoneTail, Option.map_some]
  | case3 => cases undone
  | case4 => cases undone
  | case5 b rest notPercent ih =>
      obtain ⟨tail, undoneTail, rfl⟩ := Option.map_eq_some_iff.mp undone
      rw [urlQuery_cons]
      by_cases plain : isQueryPlain b = true
      · rw [percentByte_plain plain, List.singleton_append, queryUnescape_cons notPercent,
          ih undoneTail]
        rfl
      · have notPlus : b ≠ plus := by
          rintro rfl
          exact plain (by decide)
        have size : b.toNat < 256 := UInt8.toNat_lt_size b
        have high := unhex_hexDigit (b.toNat / 16) (by omega)
        have low := unhex_hexDigit (b.toNat % 16) (by omega)
        have whole : UInt8.ofNat (16 * (b.toNat / 16) + b.toNat % 16) = b := by
          rw [Nat.div_add_mod, UInt8.ofNat_toNat]
        rw [percentByte, if_neg plain, if_neg notPlus]
        simp only [List.cons_append, List.nil_append, queryUnescape, if_true, high, low, whole,
          ih undoneTail, Option.map_some]

theorem mem_urlQuery {c : UInt8} {s : Bytes} (mem : c ∈ urlQuery s) :
    c ∈ s ∨ c = percent ∨ isUnreserved c = true := by
  rw [urlQuery, percentEncode, List.mem_flatMap] at mem
  obtain ⟨b, inText, mem⟩ := mem
  have size : b.toNat < 256 := UInt8.toNat_lt_size b
  rw [percentByte] at mem
  split at mem
  · exact .inl (List.mem_singleton.mp mem ▸ inText)
  · simp only [List.mem_cons, List.not_mem_nil, or_false] at mem
    rcases mem with isPercent | rfl | rfl
    · exact .inr (.inl isPercent)
    · exact .inr (.inr (isUnreserved_hexDigit _ (by omega)))
    · exact .inr (.inr (isUnreserved_hexDigit _ (by omega)))

theorem notMem_urlQuery {c : UInt8} {s : Bytes} (absent : c ∉ s) (notPercent : c ≠ percent)
    (special : isUnreserved c = false) : c ∉ urlQuery s := by
  intro mem
  rcases mem_urlQuery mem with inText | isPercent | plain
  · exact absent inText
  · exact notPercent isPercent
  · exact absurd plain (Bool.eq_false_iff.mp special)

/-- The parsing of a URL changes nothing of a component. -/
theorem Encodes.urlQuery {text component : Bytes} (encodes : Encodes text component) :
    Encodes (urlQuery text) component where
  unescape := queryUnescape_urlQuery encodes.unescape
  ampersand_notMem := notMem_urlQuery encodes.ampersand_notMem (by decide) (by decide)
  semicolon_notMem := notMem_urlQuery encodes.semicolon_notMem (by decide) (by decide)
  equals_notMem := notMem_urlQuery encodes.equals_notMem (by decide) (by decide)
  hash_notMem := notMem_urlQuery encodes.hash_notMem (by decide) (by decide)

theorem urlQuery_append (s t : Bytes) : urlQuery (s ++ t) = urlQuery s ++ urlQuery t :=
  List.flatMap_append

theorem urlQuery_pairText (key value : Bytes) :
    urlQuery (pairText key value) = pairText (urlQuery key) (urlQuery value) := by
  have equalsPlain := percentByte_plain (b := equals) (by decide)
  rw [pairText, urlQuery_append, urlQuery_cons, equalsPlain]
  rfl

theorem urlQuery_joinPairs (texts : Values) :
    urlQuery (joinPairs texts) =
      joinPairs (texts.map fun p => (urlQuery p.1, urlQuery p.2)) := by
  have ampersandPlain := percentByte_plain (b := ampersand) (by decide)
  induction texts with
  | nil => rfl
  | cons first texts ih =>
      cases texts with
      | nil =>
          rw [joinPairs, List.map_singleton, List.intercalate_singleton, urlQuery_pairText,
            joinPairs, List.map_singleton, List.map_singleton, List.intercalate_singleton]
      | cons second more =>
          rw [joinPairs_cons_cons, urlQuery_append, urlQuery_cons, ih, urlQuery_pairText,
            ampersandPlain]
          simp only [List.map_cons, joinPairs_cons_cons, List.singleton_append]

theorem PairsEncode.urlQuery {texts values : Values} (encodes : PairsEncode texts values) :
    PairsEncode (texts.map fun p => (urlQuery p.1, urlQuery p.2)) values := by
  induction encodes with
  | nil => exact .nil
  | cons first _ ih => exact .cons ⟨first.1.urlQuery, first.2.urlQuery⟩ ih

end Drover.Net
