import Drover.Data.Bytes
import Mathlib.Data.List.TakeWhile

/-!
# URL queries

The part of `net/url` that carries strings through a URL: the escaping of a
query component, the query of a URL, and the parsing of a query into its
key-value pairs.  A component of any bytes comes back unchanged, and pairs that
are escaped and joined come back as they were.
-/

namespace Drover.Net

/-- The byte that a plus stands for. -/
def space : UInt8 := 0x20

/-- The byte before a fragment. -/
def hash : UInt8 := 0x23

/-- The byte that begins an escape. -/
def percent : UInt8 := 0x25

/-- The byte between pairs. -/
def ampersand : UInt8 := 0x26

/-- The byte that stands for a space. -/
def plus : UInt8 := 0x2b

/-- The byte that spoils a pair. -/
def semicolon : UInt8 := 0x3b

/-- The byte between a key and its value. -/
def equals : UInt8 := 0x3d

/-- The byte before a query. -/
def question : UInt8 := 0x3f

/-- `strings.Cut` at a one-byte separator. -/
def cut (sep : UInt8) (s : Bytes) : Bytes × Bytes :=
  (s.takeWhile (· != sep), (s.dropWhile (· != sep)).drop 1)

theorem cut_append_left {sep : UInt8} {before : Bytes} (clean : sep ∉ before) (after : Bytes) :
    cut sep (before ++ after) = (before ++ (cut sep after).1, (cut sep after).2) := by
  have keep : ∀ b ∈ before, (b != sep) = true := fun b mem => by
    rw [bne_iff_ne]
    rintro rfl
    exact clean mem
  rw [cut, List.takeWhile_append_of_pos keep, List.dropWhile_append_of_pos keep, cut]

theorem cut_append {sep : UInt8} {before : Bytes} (clean : sep ∉ before) (after : Bytes) :
    cut sep (before ++ sep :: after) = (before, after) := by
  rw [cut_append_left clean]
  simp [cut]

theorem cut_of_notMem {sep : UInt8} {s : Bytes} (clean : sep ∉ s) : cut sep s = (s, []) := by
  have keep : ∀ b ∈ s, (b != sep) = true := fun b mem => by
    rw [bne_iff_ne]
    rintro rfl
    exact clean mem
  rw [cut, List.takeWhile_eq_self_iff.mpr keep, List.dropWhile_eq_nil_iff.mpr keep, List.drop_nil]

/-- What stands behind a separator is short of the separator and what stands
before it. -/
theorem length_cut {sep : UInt8} {s : Bytes} (nonempty : (cut sep s).2 ≠ []) :
    (cut sep s).1.length + 1 + (cut sep s).2.length = s.length := by
  have whole := congrArg List.length (List.takeWhile_append_dropWhile (p := (· != sep)) (l := s))
  have long : 1 < (s.dropWhile (· != sep)).length := by
    rw [cut, ne_eq, List.drop_eq_nil_iff, not_le] at nonempty
    exact nonempty
  simp only [cut, List.length_drop, List.length_append] at whole ⊢
  omega

/-! ## Components -/

/-- The bytes a query component keeps as they are: letters, digits and `-_.~`. -/
def isUnreserved (b : UInt8) : Bool :=
  (0x41 ≤ b && b ≤ 0x5a) || (0x61 ≤ b && b ≤ 0x7a) || (0x30 ≤ b && b ≤ 0x39) ||
    b == 0x2d || b == 0x5f || b == 0x2e || b == 0x7e

/-- `upperhex`. -/
def hexDigit (n : Nat) : UInt8 := UInt8.ofNat (if n < 10 then 0x30 + n else 0x41 + (n - 10))

/-- `ishex` and `unhex`. -/
def unhex (b : UInt8) : Option Nat :=
  if 0x30 ≤ b ∧ b ≤ 0x39 then some (b.toNat - 0x30)
  else if 0x61 ≤ b ∧ b ≤ 0x66 then some (b.toNat - 0x61 + 10)
  else if 0x41 ≤ b ∧ b ≤ 0x46 then some (b.toNat - 0x41 + 10)
  else none

/-- One byte of `QueryEscape`. -/
def escapeByte (b : UInt8) : Bytes :=
  if b = space then [plus]
  else if isUnreserved b then [b]
  else [percent, hexDigit (b.toNat / 16), hexDigit (b.toNat % 16)]

/-- `QueryEscape`. -/
def queryEscape (s : Bytes) : Bytes := s.flatMap escapeByte

/-- `QueryUnescape`; a `%` without two hexadecimal digits is an error. -/
def queryUnescape : Bytes → Option Bytes
  | [] => some []
  | b :: rest =>
      if b = percent then
        match rest with
        | high :: low :: rest =>
            match unhex high, unhex low with
            | some high, some low =>
                (queryUnescape rest).map (UInt8.ofNat (16 * high + low) :: ·)
            | _, _ => none
        | _ => none
      else (queryUnescape rest).map ((if b = plus then space else b) :: ·)

theorem unhex_hexDigit : ∀ n < 16, unhex (hexDigit n) = some n := by decide

theorem isUnreserved_hexDigit : ∀ n < 16, isUnreserved (hexDigit n) = true := by decide

theorem ne_of_isUnreserved {b c : UInt8} (plain : isUnreserved b = true)
    (special : isUnreserved c = false) : b ≠ c := by
  rintro rfl
  rw [plain] at special
  cases special

theorem queryUnescape_cons {b : UInt8} (plain : b ≠ percent) (rest : Bytes) :
    queryUnescape (b :: rest) =
      (queryUnescape rest).map ((if b = plus then space else b) :: ·) := by
  rw [queryUnescape.eq_def]
  exact if_neg plain

theorem queryUnescape_escapeByte (b : UInt8) (rest : Bytes) :
    queryUnescape (escapeByte b ++ rest) = (queryUnescape rest).map (b :: ·) := by
  rw [escapeByte]
  split
  · rename_i isSpace
    rw [isSpace, List.singleton_append, queryUnescape_cons (by decide), if_pos rfl]
  · split
    · rename_i plain
      rw [List.singleton_append, queryUnescape_cons (ne_of_isUnreserved plain (by decide)),
        if_neg (ne_of_isUnreserved plain (by decide))]
    · have size : b.toNat < 256 := UInt8.toNat_lt_size b
      have high := unhex_hexDigit (b.toNat / 16) (by omega)
      have low := unhex_hexDigit (b.toNat % 16) (by omega)
      have whole : UInt8.ofNat (16 * (b.toNat / 16) + b.toNat % 16) = b := by
        rw [Nat.div_add_mod, UInt8.ofNat_toNat]
      simp only [List.cons_append, List.nil_append, queryUnescape, if_pos, high, low, whole]

/-- A component of any bytes survives the escaping. -/
@[simp]
theorem queryUnescape_queryEscape (s : Bytes) : queryUnescape (queryEscape s) = some s := by
  induction s with
  | nil => rw [queryEscape, List.flatMap_nil, queryUnescape]
  | cons b s ih =>
      rw [queryEscape, List.flatMap_cons, queryUnescape_escapeByte]
      exact congrArg (Option.map (b :: ·)) ih

theorem length_of_queryUnescape {s t : Bytes} (decoded : queryUnescape s = some t) :
    t.length ≤ s.length := by
  fun_induction queryUnescape s generalizing t with
  | case1 =>
      cases decoded
      exact le_rfl
  | case2 high low rest first last readsFirst readsLast ih =>
      obtain ⟨tail, decodedTail, rfl⟩ := Option.map_eq_some_iff.mp decoded
      have short := ih decodedTail
      simp only [List.length_cons]
      omega
  | case3 => cases decoded
  | case4 => cases decoded
  | case5 b rest plain ih =>
      obtain ⟨tail, decodedTail, rfl⟩ := Option.map_eq_some_iff.mp decoded
      exact Nat.succ_le_succ (ih decodedTail)

theorem length_of_queryUnescape_percent {rest t : Bytes}
    (decoded : queryUnescape (percent :: rest) = some t) : t.length < rest.length := by
  rw [queryUnescape.eq_def] at decoded
  simp only [if_true] at decoded
  split at decoded
  · rename_i high low rest
    split at decoded
    · obtain ⟨tail, decodedTail, rfl⟩ := Option.map_eq_some_iff.mp decoded
      have short := length_of_queryUnescape decodedTail
      simp only [List.length_cons]
      omega
    · cases decoded
  · cases decoded

/-- A component is its own escaping exactly if it holds neither `%` nor `+`. -/
theorem queryUnescape_eq_self_iff {s : Bytes} :
    queryUnescape s = some s ↔ percent ∉ s ∧ plus ∉ s := by
  induction s with
  | nil => simp [queryUnescape]
  | cons b s ih =>
      by_cases isPercent : b = percent
      · constructor
        · rintro decoded
          rw [isPercent] at decoded
          have short := length_of_queryUnescape_percent decoded
          simp only [List.length_cons] at short
          omega
        · rintro ⟨clean, -⟩
          exact absurd (isPercent ▸ List.mem_cons_self) clean
      · rw [queryUnescape_cons isPercent, Option.map_eq_some_iff]
        constructor
        · rintro ⟨tail, decodedTail, same⟩
          obtain ⟨first, rfl⟩ := List.cons.inj same
          have notPlus : b ≠ plus := by
            rintro rfl
            cases first
          rw [List.mem_cons, List.mem_cons, not_or, not_or]
          obtain ⟨noPercent, noPlus⟩ := ih.mp decodedTail
          exact ⟨⟨Ne.symm isPercent, noPercent⟩, Ne.symm notPlus, noPlus⟩
        · rintro ⟨noPercent, noPlus⟩
          rw [List.mem_cons, not_or] at noPercent noPlus
          exact ⟨s, ih.mpr ⟨noPercent.2, noPlus.2⟩, by rw [if_neg (Ne.symm noPlus.1)]⟩

theorem queryEscape_of_isUnreserved {s : Bytes} (plain : s.all isUnreserved = true) :
    queryEscape s = s := by
  induction s with
  | nil => rfl
  | cons b s ih =>
      rw [List.all_cons, Bool.and_eq_true] at plain
      have one : escapeByte b = [b] := by
        rw [escapeByte, if_neg (ne_of_isUnreserved plain.1 (by decide)), if_pos plain.1]
      rw [queryEscape, List.flatMap_cons, one, List.singleton_append]
      exact congrArg (b :: ·) (ih plain.2)

/-- An escaped component holds no delimiter. -/
theorem notMem_queryEscape {c : UInt8} (special : isUnreserved c = false) (notPercent : c ≠ percent)
    (notPlus : c ≠ plus) (s : Bytes) : c ∉ queryEscape s := by
  rw [queryEscape, List.mem_flatMap]
  rintro ⟨b, -, mem⟩
  have size : b.toNat < 256 := UInt8.toNat_lt_size b
  rw [escapeByte] at mem
  split at mem
  · exact notPlus (List.mem_singleton.mp mem)
  · split at mem
    · rename_i plain
      exact ne_of_isUnreserved plain special (List.mem_singleton.mp mem).symm
    · simp only [List.mem_cons, List.not_mem_nil, or_false] at mem
      rcases mem with isPercent | isHigh | isLow
      · exact notPercent isPercent
      · exact ne_of_isUnreserved (isUnreserved_hexDigit _ (by omega)) special isHigh.symm
      · exact ne_of_isUnreserved (isUnreserved_hexDigit _ (by omega)) special isLow.symm

/-! ## Queries -/

/-- The key-value pairs of a query, in order. -/
abbrev Values := List (Bytes × Bytes)

/-- One round of the loop of `parseQuery`; a pair that is in error is skipped. -/
def parsePair (segment : Bytes) : Option (Bytes × Bytes) :=
  if semicolon ∈ segment then none
  else if segment = [] then none
  else
    match queryUnescape (cut equals segment).1, queryUnescape (cut equals segment).2 with
    | some key, some value => some (key, value)
    | _, _ => none

/-- `URL.Query`. -/
def parseQuery (query : Bytes) : Values := (query.splitOn ampersand).filterMap parsePair

theorem length_le_intercalate (sep : UInt8) {segments : List Bytes} {segment : Bytes}
    (mem : segment ∈ segments) : segment.length ≤ ([sep].intercalate segments).length := by
  induction segments with
  | nil => cases mem
  | cons first rest ih =>
      cases rest with
      | nil =>
          rw [List.mem_singleton.mp mem, List.intercalate_singleton]
      | cons second rest =>
          rw [List.intercalate_cons_cons, List.length_append, List.length_append]
          rcases List.mem_cons.mp mem with rfl | later
          · omega
          · have short := ih later
            omega

theorem length_of_mem_splitOn {sep : UInt8} {s segment : Bytes} (mem : segment ∈ s.splitOn sep) :
    segment.length ≤ s.length := by
  have joined : [sep].intercalate (s.splitOn sep) = s := List.intercalate_splitOn sep
  have short := length_le_intercalate sep mem
  rwa [joined] at short

/-- A segment that is no shorter than what was split is all of it. -/
theorem eq_of_mem_splitOn {sep : UInt8} {s segment : Bytes} (mem : segment ∈ s.splitOn sep)
    (long : s.length ≤ segment.length) : segment = s ∧ sep ∉ s := by
  by_cases found : sep ∈ s
  · obtain ⟨before, after, rfl⟩ := List.append_of_mem found
    rw [List.splitOn_append_cons_self, List.mem_append] at mem
    rw [List.length_append, List.length_cons] at long
    rcases mem with inBefore | inAfter
    · have short := length_of_mem_splitOn inBefore
      omega
    · have short := length_of_mem_splitOn inAfter
      omega
  · rw [List.splitOn_eq_singleton found, List.mem_singleton] at mem
    exact ⟨mem, found⟩

theorem parsePair_eq_some {segment : Bytes} {p : Bytes × Bytes}
    (parsed : parsePair segment = some p) :
    semicolon ∉ segment ∧ queryUnescape (cut equals segment).1 = some p.1 ∧
      queryUnescape (cut equals segment).2 = some p.2 := by
  rw [parsePair] at parsed
  split at parsed
  · cases parsed
  · split at parsed
    · cases parsed
    · split at parsed
      · rename_i noSemicolon _ _ _ key value keyRead valueRead
        cases parsed
        exact ⟨noSemicolon, keyRead, valueRead⟩
      · cases parsed

/-- A segment is no shorter than the pair that is read from it. -/
theorem length_of_parsePair {segment : Bytes} {p : Bytes × Bytes}
    (parsed : parsePair segment = some p) (nonempty : p.2 ≠ []) :
    p.1.length + 1 + p.2.length ≤ segment.length := by
  obtain ⟨-, keyRead, valueRead⟩ := parsePair_eq_some parsed
  have hasValue : (cut equals segment).2 ≠ [] := by
    intro empty
    rw [empty, queryUnescape, Option.some.injEq] at valueRead
    exact nonempty valueRead.symm
  have keyShort := length_of_queryUnescape keyRead
  have valueShort := length_of_queryUnescape valueRead
  have whole := length_cut hasValue
  omega

theorem parsePair_append_equals {key value : Bytes} (plain : key.all isUnreserved = true)
    (noSemicolon : semicolon ∉ value) (noPercent : percent ∉ value) (noPlus : plus ∉ value) :
    parsePair (key ++ equals :: value) = some (key, value) := by
  have absent : ∀ {c}, isUnreserved c = false → c ∉ key := fun special mem =>
    ne_of_isUnreserved (List.all_eq_true.mp plain _ mem) special rfl
  have clean : semicolon ∉ key ++ equals :: value := by
    rw [List.mem_append, List.mem_cons]
    rintro (inKey | isEquals | inValue)
    · exact absent (by decide) inKey
    · exact absurd isEquals (by decide)
    · exact noSemicolon inValue
  rw [parsePair, if_neg clean, if_neg (by simp), cut_append (absent (by decide)),
    queryUnescape_eq_self_iff.mpr ⟨absent (by decide), absent (by decide)⟩,
    queryUnescape_eq_self_iff.mpr ⟨noPercent, noPlus⟩]

theorem parseQuery_of_notMem {segment : Bytes} (clean : ampersand ∉ segment) :
    parseQuery segment = (parsePair segment).toList := by
  rw [parseQuery, List.splitOn_eq_singleton clean]
  cases parsed : parsePair segment <;> simp [parsed]

theorem parseQuery_append_ampersand (before after : Bytes) :
    parseQuery (before ++ ampersand :: after) = parseQuery before ++ parseQuery after := by
  rw [parseQuery, List.splitOn_append_cons_self, List.filterMap_append]
  rfl

/-- `Values.Get`: the first value of the key, or the empty string. -/
def Values.get (values : Values) (key : Bytes) : Bytes :=
  ((values.find? fun p => p.1 = key).map Prod.snd).getD []

@[simp]
theorem Values.get_cons_same (values : Values) (key value : Bytes) :
    Values.get ((key, value) :: values) key = value := by
  simp [Values.get]

theorem Values.get_cons_of_ne {first key : Bytes} (other : first ≠ key) (values : Values)
    (value : Bytes) : Values.get ((first, value) :: values) key = values.get key := by
  simp [Values.get, other]

theorem Values.mem_of_get {values : Values} {key value : Bytes} (got : values.get key = value)
    (nonempty : value ≠ []) : (key, value) ∈ values := by
  rw [Values.get] at got
  cases found : values.find? fun p => p.1 = key with
  | none =>
      rw [found] at got
      exact absurd got.symm nonempty
  | some p =>
      rw [found] at got
      have sameKey : p.1 = key := by simpa using List.find?_some found
      have whole : p = (key, value) := Prod.ext sameKey got
      rw [← whole]
      exact List.mem_of_find?_eq_some found

/-- A pair, escaped. -/
def escapePair (p : Bytes × Bytes) : Bytes := queryEscape p.1 ++ equals :: queryEscape p.2

/-- Escaped pairs, joined. -/
def encodeQuery (values : Values) : Bytes := [ampersand].intercalate (values.map escapePair)

theorem notMem_escapePair {c : UInt8} (special : isUnreserved c = false) (notPercent : c ≠ percent)
    (notPlus : c ≠ plus) (notEquals : c ≠ equals) (p : Bytes × Bytes) : c ∉ escapePair p := by
  rw [escapePair, List.mem_append, List.mem_cons]
  rintro (inKey | isEquals | inValue)
  · exact notMem_queryEscape special notPercent notPlus _ inKey
  · exact notEquals isEquals
  · exact notMem_queryEscape special notPercent notPlus _ inValue

theorem parsePair_escapePair (p : Bytes × Bytes) : parsePair (escapePair p) = some p := by
  have split : cut equals (escapePair p) = (queryEscape p.1, queryEscape p.2) :=
    cut_append (notMem_queryEscape (by decide) (by decide) (by decide) _) _
  rw [parsePair, if_neg (notMem_escapePair (by decide) (by decide) (by decide) (by decide) p),
    if_neg (by simp [escapePair]), split]
  simp

/-- Pairs of any bytes survive the query. -/
@[simp]
theorem parseQuery_encodeQuery (values : Values) : parseQuery (encodeQuery values) = values := by
  by_cases empty : values = []
  · subst empty
    decide
  · have pieces : (encodeQuery values).splitOn ampersand = values.map escapePair := by
      refine List.splitOn_intercalate ampersand (fun segment mem => ?_) (by simpa using empty)
      obtain ⟨p, -, rfl⟩ := List.mem_map.mp mem
      exact notMem_escapePair (by decide) (by decide) (by decide) (by decide) p
    rw [parseQuery, pieces, List.filterMap_map,
      funext parsePair_escapePair (f := parsePair ∘ escapePair)]
    exact List.filterMap_some

theorem notMem_encodeQuery {c : UInt8} (special : isUnreserved c = false)
    (notPercent : c ≠ percent) (notPlus : c ≠ plus) (notEquals : c ≠ equals)
    (notAmpersand : c ≠ ampersand) (values : Values) : c ∉ encodeQuery values := by
  have clean : ∀ p, c ∉ escapePair p := notMem_escapePair special notPercent notPlus notEquals
  induction values with
  | nil => exact List.not_mem_nil
  | cons p values ih =>
      cases values with
      | nil => simpa [encodeQuery] using clean p
      | cons q values =>
          rw [encodeQuery, List.map_cons, List.map_cons, List.intercalate_cons_cons,
            List.mem_append, List.mem_append]
          rintro ((inPair | inSeparator) | later)
          · exact clean p inPair
          · exact notAmpersand (List.mem_singleton.mp inSeparator)
          · exact ih later

theorem hash_notMem_encodeQuery (values : Values) : hash ∉ encodeQuery values :=
  notMem_encodeQuery (by decide) (by decide) (by decide) (by decide) (by decide) values

/-! ## URLs -/

/-- The `RawQuery` that `url.Parse` finds: between the first `?` and the
fragment. -/
def rawQuery (url : Bytes) : Bytes := (cut question (cut hash url).1).2

/-- The text of a URL without a query and a fragment. -/
structure Base where
  text : Bytes
  question_notMem : question ∉ text
  hash_notMem : hash ∉ text

theorem rawQuery_append_fragment {text : Bytes} (noQuestion : question ∉ text)
    (noHash : hash ∉ text) (rest : Bytes) :
    rawQuery (text ++ question :: rest) = (cut hash rest).1 := by
  have noFragment : hash ∉ text ++ [question] := by
    rw [List.mem_append, List.mem_singleton]
    rintro (inText | isQuestion)
    · exact noHash inText
    · exact absurd isQuestion (by decide)
  rw [rawQuery, List.append_cons, cut_append_left noFragment, ← List.append_cons,
    cut_append noQuestion]

theorem rawQuery_append {text query : Bytes} (noQuestion : question ∉ text) (noHash : hash ∉ text)
    (clean : hash ∉ query) : rawQuery (text ++ question :: query) = query := by
  rw [rawQuery_append_fragment noQuestion noHash, cut_of_notMem clean]

end Drover.Net
