import Drover.Data.Bytes
import Mathlib.Data.List.Basic

/-!
# Base64

`RawURLEncoding` of `encoding/base64`: groups of six bits in the URL alphabet,
without padding.  Decoding skips line ends, and the bits that are left over of
the last group may be anything.
-/

namespace Drover.Base64

/-- The character of a group. -/
def digit (n : Nat) : UInt8 :=
  UInt8.ofNat <|
    if n < 26 then 0x41 + n
    else if n < 52 then 0x61 + (n - 26)
    else if n < 62 then 0x30 + (n - 52)
    else if n = 62 then 0x2d
    else 0x5f

/-- The group of a character. -/
def digitValue (b : UInt8) : Option Nat :=
  if 0x41 ≤ b ∧ b ≤ 0x5a then some (b.toNat - 0x41)
  else if 0x61 ≤ b ∧ b ≤ 0x7a then some (b.toNat - 0x61 + 26)
  else if 0x30 ≤ b ∧ b ≤ 0x39 then some (b.toNat - 0x30 + 52)
  else if b = 0x2d then some 62
  else if b = 0x5f then some 63
  else none

/-- The groups of six bits; those of a last byte or two are filled up with
zeros. -/
def groups : Bytes → List Nat
  | [] => []
  | [a] => [a.toNat / 4, a.toNat % 4 * 16]
  | [a, b] => [a.toNat / 4, a.toNat % 4 * 16 + b.toNat / 16, b.toNat % 16 * 4]
  | a :: b :: c :: rest =>
      a.toNat / 4 :: (a.toNat % 4 * 16 + b.toNat / 16) :: (b.toNat % 16 * 4 + c.toNat / 64) ::
        c.toNat % 64 :: groups rest

/-- The bytes of groups of six bits; a single group is too little for a byte. -/
def ungroup : List Nat → Option Bytes
  | [] => some []
  | [_] => none
  | [p, q] => some [UInt8.ofNat (p * 4 + q / 16)]
  | [p, q, r] => some [UInt8.ofNat (p * 4 + q / 16), UInt8.ofNat (q % 16 * 16 + r / 4)]
  | p :: q :: r :: s :: rest =>
      (ungroup rest).map fun bytes =>
        UInt8.ofNat (p * 4 + q / 16) :: UInt8.ofNat (q % 16 * 16 + r / 4) ::
          UInt8.ofNat (r % 4 * 64 + s) :: bytes

/-- The bytes that `DecodeString` skips. -/
def isLineEnd (b : UInt8) : Bool := b = 0x0d || b = 0x0a

/-- `EncodeToString`. -/
def encodeToString (s : Bytes) : Bytes := (groups s).map digit

/-- `DecodeString`. -/
def decodeString (s : Bytes) : Option Bytes :=
  ((s.filter fun b => !isLineEnd b).mapM digitValue).bind ungroup

theorem digitValue_digit : ∀ n < 64, digitValue (digit n) = some n := by decide

theorem isLineEnd_digit : ∀ n < 64, isLineEnd (digit n) = false := by decide

theorem groups_lt {s : Bytes} {n : Nat} (mem : n ∈ groups s) : n < 64 := by
  fun_induction groups s with
  | case1 => cases mem
  | case2 a =>
      have := a.toNat_lt
      simp only [List.mem_cons, List.not_mem_nil, or_false] at mem
      omega
  | case3 a b =>
      have := a.toNat_lt
      have := b.toNat_lt
      simp only [List.mem_cons, List.not_mem_nil, or_false] at mem
      omega
  | case4 a b c rest ih =>
      have := a.toNat_lt
      have := b.toNat_lt
      have := c.toNat_lt
      simp only [List.mem_cons] at mem
      rcases mem with first | second | third | fourth | later
      · omega
      · omega
      · omega
      · omega
      · exact ih later

theorem ofNat_toNat_eq {n : Nat} {b : UInt8} (same : n = b.toNat) : UInt8.ofNat n = b := by
  rw [same, UInt8.ofNat_toNat]

theorem ungroup_groups (s : Bytes) : ungroup (groups s) = some s := by
  fun_induction groups s with
  | case1 => rfl
  | case2 a =>
      have first : UInt8.ofNat (a.toNat / 4 * 4 + a.toNat % 4 * 16 / 16) = a :=
        ofNat_toNat_eq (by omega)
      rw [ungroup, first]
  | case3 a b =>
      have bLt := b.toNat_lt
      have first : UInt8.ofNat (a.toNat / 4 * 4 + (a.toNat % 4 * 16 + b.toNat / 16) / 16) = a :=
        ofNat_toNat_eq (by omega)
      have second : UInt8.ofNat ((a.toNat % 4 * 16 + b.toNat / 16) % 16 * 16 +
          b.toNat % 16 * 4 / 4) = b := ofNat_toNat_eq (by omega)
      rw [ungroup, first, second]
  | case4 a b c rest ih =>
      have bLt := b.toNat_lt
      have cLt := c.toNat_lt
      have first : UInt8.ofNat (a.toNat / 4 * 4 + (a.toNat % 4 * 16 + b.toNat / 16) / 16) = a :=
        ofNat_toNat_eq (by omega)
      have second : UInt8.ofNat ((a.toNat % 4 * 16 + b.toNat / 16) % 16 * 16 +
          (b.toNat % 16 * 4 + c.toNat / 64) / 4) = b := ofNat_toNat_eq (by omega)
      have third : UInt8.ofNat ((b.toNat % 16 * 4 + c.toNat / 64) % 4 * 64 + c.toNat % 64) = c :=
        ofNat_toNat_eq (by omega)
      rw [ungroup, ih, Option.map_some, first, second, third]

theorem mapM_digitValue {ns : List Nat} (small : ∀ n ∈ ns, n < 64) :
    (ns.map digit).mapM digitValue = some ns := by
  induction ns with
  | nil => rfl
  | cons n ns ih =>
      rw [List.map_cons, List.mapM_cons, digitValue_digit n (small n List.mem_cons_self),
        ih fun m mem => small m (List.mem_cons_of_mem n mem)]
      rfl

/-- Nothing but the alphabet and line ends is decoded. -/
theorem digitValue_of_decodeString {s t : Bytes} (decoded : decodeString s = some t) {b : UInt8}
    (mem : b ∈ s) : isLineEnd b = true ∨ (digitValue b).isSome := by
  rw [or_iff_not_imp_left, Bool.not_eq_true]
  intro noEnd
  obtain ⟨ns, read, -⟩ := Option.bind_eq_some_iff.mp decoded
  have kept : b ∈ s.filter fun b => !isLineEnd b := List.mem_filter.mpr ⟨mem, by rw [noEnd]; rfl⟩
  revert read kept
  generalize (s.filter fun b => !isLineEnd b) = text
  intro read kept
  induction text generalizing ns with
  | nil => cases kept
  | cons c text ih =>
      rw [List.mapM_cons] at read
      obtain ⟨n, isDigit, rest⟩ := Option.bind_eq_some_iff.mp read
      obtain ⟨ns', readRest, -⟩ := Option.bind_eq_some_iff.mp rest
      rcases List.mem_cons.mp kept with rfl | later
      · rw [isDigit]
        rfl
      · exact ih ns' readRest later

/-- What was encoded is decoded. -/
@[simp]
theorem decodeString_encodeToString (s : Bytes) : decodeString (encodeToString s) = some s := by
  have whole : (encodeToString s).filter (fun b => !isLineEnd b) = encodeToString s := by
    rw [List.filter_eq_self]
    intro b mem
    obtain ⟨n, inGroups, rfl⟩ := List.mem_map.mp mem
    rw [isLineEnd_digit n (groups_lt inGroups)]
    rfl
  rw [decodeString, whole, encodeToString, mapM_digitValue fun n => groups_lt, Option.bind_some,
    ungroup_groups]

/-- The alphabet has no dot. -/
theorem dot_notMem_encodeToString (s : Bytes) : (0x2e : UInt8) ∉ encodeToString s := by
  intro mem
  obtain ⟨n, inGroups, isDot⟩ := List.mem_map.mp mem
  have noDot : ∀ n < 64, digit n ≠ 0x2e := by decide
  exact noDot n (groups_lt inGroups) isDot

@[simp]
theorem encodeToString_eq_nil_iff {s : Bytes} : encodeToString s = [] ↔ s = [] := by
  rw [encodeToString, List.map_eq_nil_iff]
  constructor
  · intro empty
    fun_cases groups s with
    | case1 => rfl
    | case2 => cases empty
    | case3 => cases empty
    | case4 => cases empty
  · rintro rfl
    rfl

end Drover.Base64
