import Drover.Net.Query
import Mathlib.Data.List.Sort

/-!
# Values and their text

The `url.Values` of a request that is made: values are set by key, and the text
of all of them has the keys in order.  Whoever parses the text gets for each key
what was set.
-/

namespace Drover.Net

/-- `Values.Set`. -/
def Values.set (values : Values) (key value : Bytes) : Values :=
  values.filter (fun p => p.1 ≠ key) ++ [(key, value)]

/-- The order of the keys in `Values.Encode`. -/
abbrev keyLe (p q : Bytes × Bytes) : Prop := p.1 ≤ q.1

/-- `Values.Encode`. -/
def Values.encode (values : Values) : Bytes := encodeQuery (values.insertionSort keyLe)

/-- The pairs of one key. -/
def Values.only (values : Values) (key : Bytes) : Values := values.filter fun p => p.1 = key

theorem Values.get_eq_head_only (values : Values) (key : Bytes) :
    values.get key = (((values.only key).head?).map Prod.snd).getD [] := by
  rw [Values.get, Values.only, List.head?_filter]

@[simp]
theorem Values.only_set_same (values : Values) (key value : Bytes) :
    (values.set key value).only key = [(key, value)] := by
  have others : (values.filter fun p => p.1 ≠ key).filter (fun p => p.1 = key) = [] := by
    rw [List.filter_filter, List.filter_eq_nil_iff]
    intro p _
    simp
  rw [Values.only, Values.set, List.filter_append, others]
  simp

theorem Values.only_set_of_ne {key other : Bytes} (ne : key ≠ other) (values : Values)
    (value : Bytes) : (values.set key value).only other = values.only other := by
  have kept : (values.filter fun p => p.1 ≠ key).filter (fun p => p.1 = other) =
      values.filter fun p => p.1 = other := by
    rw [List.filter_filter]
    refine List.filter_congr fun p _ => ?_
    by_cases same : p.1 = other
    · simp [same, Ne.symm ne]
    · simp [same]
  rw [Values.only, Values.set, List.filter_append, kept]
  simp [ne, Values.only]

@[simp]
theorem Values.get_set_same (values : Values) (key value : Bytes) :
    (values.set key value).get key = value := by
  rw [Values.get_eq_head_only, Values.only_set_same]
  rfl

theorem Values.get_set_of_ne {key other : Bytes} (ne : key ≠ other) (values : Values)
    (value : Bytes) : (values.set key value).get other = values.get other := by
  rw [Values.get_eq_head_only, Values.only_set_of_ne ne, ← Values.get_eq_head_only]

theorem Values.only_orderedInsert (p : Bytes × Bytes) (values : Values) (key : Bytes) :
    Values.only (values.orderedInsert keyLe p) key = Values.only (p :: values) key := by
  induction values with
  | nil => rfl
  | cons q values ih =>
      rw [List.orderedInsert]
      split
      · rfl
      · rename_i behind
        have distinct : p.1 ≠ q.1 := by
          intro same
          rw [keyLe, same] at behind
          exact behind (List.le_refl q.1)
        simp only [Values.only] at ih ⊢
        rw [List.filter_cons, ih]
        by_cases first : p.1 = key
        · have second : q.1 ≠ key := fun same => distinct (first.trans same.symm)
          simp [first, second]
        · simp [List.filter_cons, first]

/-- The order of the keys leaves the values of a key as they are. -/
theorem Values.only_insertionSort (values : Values) (key : Bytes) :
    Values.only (values.insertionSort keyLe) key = values.only key := by
  induction values with
  | nil => rfl
  | cons p values ih =>
      rw [List.insertionSort_cons, Values.only_orderedInsert]
      simp only [Values.only] at ih ⊢
      rw [List.filter_cons, ih, List.filter_cons]

/-- The values of each key survive the text. -/
@[simp]
theorem Values.only_parseQuery_encode (values : Values) (key : Bytes) :
    (parseQuery values.encode).only key = values.only key := by
  rw [Values.encode, parseQuery_encodeQuery, Values.only_insertionSort]

@[simp]
theorem Values.get_parseQuery_encode (values : Values) (key : Bytes) :
    (parseQuery values.encode).get key = values.get key := by
  rw [Values.get_eq_head_only, Values.only_parseQuery_encode, ← Values.get_eq_head_only]

theorem Values.notMem_encode {c : UInt8} (special : isUnreserved c = false)
    (notPercent : c ≠ percent) (notPlus : c ≠ plus) (notEquals : c ≠ equals)
    (notAmpersand : c ≠ ampersand) (values : Values) : c ∉ values.encode :=
  notMem_encodeQuery special notPercent notPlus notEquals notAmpersand _

/-- The bytes of such a text. -/
def isEncoded (b : UInt8) : Bool := isUnreserved b || b ∈ [percent, plus, equals, ampersand]

theorem Values.isEncoded_of_mem_encode {values : Values} {b : UInt8} (mem : b ∈ values.encode) :
    isEncoded b = true := by
  by_contra other
  simp only [isEncoded, Bool.or_eq_true, decide_eq_true_eq, List.mem_cons, List.not_mem_nil,
    or_false, not_or, Bool.not_eq_true] at other
  exact Values.notMem_encode other.1 other.2.1 other.2.2.1 other.2.2.2.1 other.2.2.2.2 values mem

theorem lt_of_isEncoded {b : UInt8} (encoded : isEncoded b = true) : b < 0x80 := by
  rw [isEncoded, Bool.or_eq_true] at encoded
  rcases encoded with plain | delimiter
  · simp only [isUnreserved, Bool.or_eq_true, Bool.and_eq_true, decide_eq_true_eq,
      beq_iff_eq] at plain
    grind
  · simp only [percent, plus, equals, ampersand, List.mem_cons, List.not_mem_nil, or_false,
      decide_eq_true_eq] at delimiter
    grind

end Drover.Net
