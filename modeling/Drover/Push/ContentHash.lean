import Drover.Data.Json
import Drover.Slave.Operations
import Mathlib.Data.List.Nodup
import Mathlib.Data.List.Sort
import Mathlib.Data.String.Basic

/-!
# Content hashes

`contentHash` hashes the JSON text of the pairs of a session, in the order of their keys.
The text tells apart what JSON does; an integer and a float may be written alike, and
what cannot be written is hashed as the empty text, since the error is ignored.
`contentHash_detects_iff` says which changes are seen.
-/

namespace Drover.Push.Content

/-! ## Values -/

/-- A value that Firestore can store; `F` are the floats.  The entries of a map come in the
order of an iteration. -/
inductive Datum (F : Type) where
  | null
  | bool (b : Bool)
  | int (n : Int64)
  | float (x : F)
  | string (s : String)
  | list (vs : List (Datum F))
  | map (es : List (String × Datum F))

/-- `strconv.AppendFloat`, as `encoding/json` calls it for a finite float. -/
structure Floats (F : Type) where
  finite : F → Bool
  text : F → NumberText

/-- The entries in the order of their keys. -/
def sortKeys {β : Type} (es : List (String × β)) : List (String × β) :=
  es.insertionSort fun e e' => e.1 ≤ e'.1

namespace Datum

variable {F : Type}

mutual

/-- The value with its maps in the order of their keys. -/
def norm : Datum F → Datum F
  | .list vs => .list (normList vs)
  | .map es => .map (sortKeys (normMap es))
  | .null => .null
  | .bool b => .bool b
  | .int n => .int n
  | .float x => .float x
  | .string s => .string s

/-- Every item in its normal form. -/
def normList : List (Datum F) → List (Datum F)
  | [] => []
  | v :: vs => norm v :: normList vs

/-- Every entry in its normal form. -/
def normMap : List (String × Datum F) → List (String × Datum F)
  | [] => []
  | (k, v) :: es => (k, norm v) :: normMap es

end

mutual

/-- No float of the value is infinite or not a number. -/
def finite (floats : Floats F) : Datum F → Bool
  | .float x => floats.finite x
  | .list vs => finiteList floats vs
  | .map es => finiteMap floats es
  | .null | .bool _ | .int _ | .string _ => true

/-- Every item is finite. -/
def finiteList (floats : Floats F) : List (Datum F) → Bool
  | [] => true
  | v :: vs => finite floats v && finiteList floats vs

/-- Every entry is finite. -/
def finiteMap (floats : Floats F) : List (String × Datum F) → Bool
  | [] => true
  | (_, v) :: es => finite floats v && finiteMap floats es

end

mutual

/-- The values are the same, but for how a number is stored that is written alike. -/
def Alike (floats : Floats F) : Datum F → Datum F → Prop
  | .int n, .float x | .float x, .int n => floats.text x = .ofInt n.toInt
  | .float x, .float y => floats.text x = floats.text y
  | .list vs, .list ws => AlikeList floats vs ws
  | .map es, .map fs => AlikeMap floats es fs
  | .null, .null => True
  | .bool b, .bool b' => b = b'
  | .int n, .int n' => n = n'
  | .string s, .string s' => s = s'
  | _, _ => False

/-- The items are alike, one by one. -/
def AlikeList (floats : Floats F) : List (Datum F) → List (Datum F) → Prop
  | [], [] => True
  | v :: vs, w :: ws => Alike floats v w ∧ AlikeList floats vs ws
  | _, _ => False

/-- The entries are alike, one by one, under the same keys. -/
def AlikeMap (floats : Floats F) : List (String × Datum F) → List (String × Datum F) → Prop
  | [], [] => True
  | (k, v) :: es, (l, w) :: fs => k = l ∧ Alike floats v w ∧ AlikeMap floats es fs
  | _, _ => False

end

mutual

/-- The document that is written for the value. -/
def json (floats : Floats F) : Datum F → Json
  | .null => .null
  | .bool b => .bool b
  | .int n => .number (.ofInt n.toInt)
  | .float x => .number (floats.text x)
  | .string s => .string s
  | .list vs => .list (jsonList floats vs)
  | .map es => .map (jsonMap floats es)

/-- The items as JSON. -/
def jsonList (floats : Floats F) : List (Datum F) → List Json
  | [] => []
  | v :: vs => json floats v :: jsonList floats vs

/-- The entries as JSON. -/
def jsonMap (floats : Floats F) : List (String × Datum F) → List (String × Json)
  | [] => []
  | (k, v) :: es => (k, json floats v) :: jsonMap floats es

end

/-- `json.Marshal`; an infinite float is an error. -/
def marshal (floats : Floats F) (v : Datum F) : Option (List Char) :=
  if v.norm.finite floats then some (v.norm.json floats).render else none

end Datum

/-! ## The hash -/

/-- A `map[string]any`, in the order of an iteration. -/
structure GoMap (F : Type) where
  entries : List (String × Datum F)
  nodup : (entries.map Prod.fst).Nodup

/-- The keys that are not hashed. -/
def unhashed : List String := ["version", "updated_at", "content_hash"]

/-- What `contentHash` calls. -/
structure Hashing (F : Type) where
  floats : Floats F
  sha256 : Bytes → Bytes

variable {F : Type}

/-- `m[k]`. -/
def GoMap.get (m : GoMap F) (k : String) : Option (Datum F) := m.entries.lookup k

/-- The keys that are hashed, sorted. -/
def GoMap.keys (m : GoMap F) : List String :=
  ((m.entries.map Prod.fst).filter (· ∉ unhashed)).insertionSort (· ≤ ·)

/-- The slice that is marshalled. -/
def GoMap.ord (m : GoMap F) : Datum F :=
  .list (m.keys.map fun k => .list [.string k, (m.get k).getD .null])

/-- The bytes of a text. -/
def textBytes (text : List Char) : Bytes := (String.ofList text).toByteArray.data.toList

/-- `contentHash`. -/
def contentHash (hashing : Hashing F) (m : GoMap F) : Bytes :=
  let b := ((m.ord.marshal hashing.floats).map textBytes).getD []
  encodeHex (hashing.sha256 b)

/-! ## What is seen -/

/-- The maps agree on every key that is hashed. -/
def Agree (m m' : GoMap F) : Prop :=
  ∀ k ∉ unhashed, (m.get k).map Datum.norm = (m'.get k).map Datum.norm

/-- No float in a value that is hashed is infinite or not a number. -/
def Writable (floats : Floats F) (m : GoMap F) : Prop :=
  ∀ k ∉ unhashed, ∀ v ∈ m.get k, v.norm.finite floats = true

/-- The maps agree, but for how a number is stored that is written alike. -/
def Alike (floats : Floats F) (m m' : GoMap F) : Prop :=
  ∀ k ∉ unhashed, Option.Rel (Datum.Alike floats) ((m.get k).map Datum.norm)
    ((m'.get k).map Datum.norm)

/-- Unless the maps agree, one of them can be written, and if both can, they differ in more
than how a number is stored. -/
structure Told (floats : Floats F) (m m' : GoMap F) : Prop where
  written : ¬Writable floats m → ¬Writable floats m' → Agree m m'
  numbers : Writable floats m → Writable floats m' → Alike floats m m' → Agree m m'

/-! ### Bytes -/

theorem textBytes_inj {t u : List Char} (same : textBytes t = textBytes u) : t = u := by
  have arrays := ByteArray.ext (Array.toList_inj.mp same)
  exact String.ofList_injective (String.toByteArray_inj.mp arrays)

theorem textBytes_ne_nil {t : List Char} (nonempty : t ≠ []) : textBytes t ≠ [] :=
  fun empty => nonempty (textBytes_inj (u := []) empty)

/-! ### Lists -/

namespace Datum

variable {floats : Floats F}

theorem normList_eq (vs : List (Datum F)) : normList vs = vs.map norm := by
  induction vs with
  | nil => rfl
  | cons v vs ih => rw [normList, List.map_cons, ih]

theorem finiteList_eq (vs : List (Datum F)) : finiteList floats vs = vs.all (finite floats) := by
  induction vs with
  | nil => rfl
  | cons v vs ih => rw [finiteList, List.all_cons, ih]

theorem jsonList_eq (vs : List (Datum F)) : jsonList floats vs = vs.map (json floats) := by
  induction vs with
  | nil => rfl
  | cons v vs ih => rw [jsonList, List.map_cons, ih]

end Datum

/-! ### Numbers -/

namespace Datum

variable {floats : Floats F}

mutual

/-- Only numbers can be confused. -/
theorem json_eq_iff (v w : Datum F) : v.json floats = w.json floats ↔ v.Alike floats w := by
  cases v with
  | int n =>
      cases w with
      | int n' =>
          simp only [json, Alike, Json.number.injEq]
          constructor
          · exact fun same => Int64.toInt_inj.mp (NumberText.ofInt_inj same)
          · exact fun same => by rw [same]
      | float y => simp only [json, Alike, Json.number.injEq, eq_comm]
      | _ => simp [json, Alike]
  | list vs =>
      cases w with
      | list ws => simp only [json, Alike, Json.list.injEq, jsonList_eq_iff vs ws]
      | _ => simp [json, Alike]
  | map es =>
      cases w with
      | map fs => simp only [json, Alike, Json.map.injEq, jsonMap_eq_iff es fs]
      | _ => simp [json, Alike]
  | null | bool | float | string => cases w <;> simp [json, Alike]

theorem jsonList_eq_iff (vs ws : List (Datum F)) :
    jsonList floats vs = jsonList floats ws ↔ AlikeList floats vs ws := by
  cases vs with
  | nil => cases ws <;> simp [jsonList, AlikeList]
  | cons v vs =>
      cases ws with
      | nil => simp [jsonList, AlikeList]
      | cons w ws =>
          rw [jsonList, jsonList, List.cons.injEq, json_eq_iff v w, jsonList_eq_iff vs ws,
            AlikeList]

theorem jsonMap_eq_iff (es fs : List (String × Datum F)) :
    jsonMap floats es = jsonMap floats fs ↔ AlikeMap floats es fs := by
  cases es with
  | nil => cases fs <;> simp [jsonMap, AlikeMap]
  | cons e es =>
      cases fs with
      | nil => simp [jsonMap, AlikeMap]
      | cons f fs =>
          rw [jsonMap, jsonMap, List.cons.injEq, Prod.mk.injEq, json_eq_iff e.2 f.2,
            jsonMap_eq_iff es fs, AlikeMap, and_assoc]

end

end Datum

/-! ### Keys -/

section

variable {m m' : GoMap F} {k : String} {floats : Floats F}

theorem GoMap.get_isSome_iff : (m.get k).isSome = true ↔ k ∈ m.entries.map Prod.fst := by
  rw [get, List.lookup_isSome_iff, List.mem_map]
  apply exists_congr
  intro p
  rw [beq_iff_eq, eq_comm (a := k)]

theorem GoMap.mem_keys : k ∈ m.keys ↔ k ∉ unhashed ∧ (m.get k).isSome = true := by
  rw [keys, List.mem_insertionSort, List.mem_filter, decide_eq_true_iff, m.get_isSome_iff,
    and_comm]

/-- The order of the iteration does not matter. -/
theorem GoMap.keys_congr
    (same : ∀ k ∉ unhashed, (m.get k).isSome = (m'.get k).isSome) : m.keys = m'.keys := by
  have sorted : ∀ m : GoMap F, m.keys.Pairwise (· ≤ ·) := fun m => List.pairwise_insertionSort _ _
  have nodup : ∀ m : GoMap F, m.keys.Nodup := fun m =>
    (List.perm_insertionSort _ _).nodup_iff.mpr (m.nodup.filter _)
  have perm : m.keys.Perm m'.keys := by
    rw [List.perm_ext_iff_of_nodup (nodup m) (nodup m')]
    intro k
    rw [m.mem_keys, m'.mem_keys, and_congr_right_iff]
    exact fun hashed => by rw [same k hashed]
  exact perm.eq_of_pairwise (fun a b _ _ => le_antisymm) (sorted m) (sorted m')

theorem GoMap.getD_of_mem_keys (mem : k ∈ m.keys) : m.get k = some ((m.get k).getD .null) := by
  obtain ⟨v, found⟩ := Option.isSome_iff_exists.mp (m.mem_keys.mp mem).2
  rw [found, Option.getD_some]

/-- The document that is hashed. -/
def GoMap.document (floats : Floats F) (m : GoMap F) : Json :=
  .list (m.keys.map fun k => .list [.string k, ((m.get k).getD .null).norm.json floats])

theorem norm_ord :
    m.ord.norm = .list (m.keys.map fun k => .list [.string k, ((m.get k).getD .null).norm]) := by
  rw [GoMap.ord, Datum.norm, Datum.normList_eq, List.map_map]
  rfl

theorem finite_ord_iff : m.ord.norm.finite floats = true ↔ Writable floats m := by
  rw [norm_ord, Datum.finite, Datum.finiteList_eq, List.all_map, List.all_eq_true]
  constructor
  · intro all k hashed v found
    have mem : k ∈ m.keys := m.mem_keys.mpr ⟨hashed, Option.isSome_of_mem found⟩
    have here := all k mem
    rw [Function.comp_apply, Option.mem_def.mp found] at here
    simpa [Datum.finite, Datum.finiteList] using here
  · intro writable k mem
    have here := writable k (m.mem_keys.mp mem).1 _ (m.getD_of_mem_keys mem)
    simpa [Datum.finite, Datum.finiteList] using here

theorem json_ord : m.ord.norm.json floats = m.document floats := by
  rw [norm_ord, Datum.json, Datum.jsonList_eq, List.map_map]
  rfl

theorem marshal_ord_of_writable (writable : Writable floats m) :
    m.ord.marshal floats = some (m.document floats).render := by
  rw [Datum.marshal, if_pos (finite_ord_iff.mpr writable), json_ord]

theorem marshal_ord_of_not (unwritable : ¬Writable floats m) : m.ord.marshal floats = none := by
  rw [Datum.marshal, if_neg fun finite => unwritable (finite_ord_iff.mp finite)]

theorem alike_iff_json : Alike floats m m' ↔ ∀ k ∉ unhashed,
    (m.get k).map (fun v => v.norm.json floats) = (m'.get k).map fun v => v.norm.json floats := by
  apply forall₂_congr
  intro k _
  cases m.get k <;> cases m'.get k <;> simp [Datum.json_eq_iff]

/-- The key of a pair of the document. -/
def pairKey : Json → String
  | .list (.string k :: _) => k
  | _ => ""

theorem document_eq_iff : m.document floats = m'.document floats ↔ Alike floats m m' := by
  rw [alike_iff_json]
  constructor
  · intro same
    have pairs := Json.list.inj same
    have keys : m.keys = m'.keys := by
      have firsts := congrArg (List.map pairKey) pairs
      simpa [List.map_map, Function.comp_def, pairKey] using firsts
    rw [← keys, List.map_inj_left] at pairs
    intro k hashed
    by_cases mem : k ∈ m.keys
    · have values := pairs k mem
      simp only [Json.list.injEq, List.cons.injEq, true_and, and_true] at values
      rw [m.getD_of_mem_keys mem, m'.getD_of_mem_keys (keys ▸ mem), Option.map_some,
        Option.map_some]
      exact congrArg some values
    · have absent : ∀ m : GoMap F, k ∉ m.keys → m.get k = none := by
        intro m notMem
        rw [← Option.not_isSome_iff_eq_none]
        exact fun isSome => notMem (m.mem_keys.mpr ⟨hashed, isSome⟩)
      rw [absent m mem, absent m' (keys ▸ mem)]
  · intro same
    have keys : m.keys = m'.keys := by
      apply GoMap.keys_congr
      intro k hashed
      rw [← Option.isSome_map, same k hashed, Option.isSome_map]
    rw [GoMap.document, GoMap.document, keys]
    congr 1
    apply List.map_congr_left
    intro k mem
    have here := same k (m'.mem_keys.mp mem).1
    rw [m.getD_of_mem_keys (keys ▸ mem), m'.getD_of_mem_keys mem, Option.map_some,
      Option.map_some, Option.some.injEq] at here
    rw [here]

/-- Two hashes are the same if both texts cannot be written, or both are the same. -/
theorem contentHash_eq_iff {hashing : Hashing F} (noCollision : Function.Injective hashing.sha256) :
    contentHash hashing m = contentHash hashing m' ↔
      (¬Writable hashing.floats m ∧ ¬Writable hashing.floats m') ∨
        (Writable hashing.floats m ∧ Writable hashing.floats m' ∧
          Alike hashing.floats m m') := by
  have hashes : contentHash hashing m = contentHash hashing m' ↔
      ((m.ord.marshal hashing.floats).map textBytes).getD [] =
        ((m'.ord.marshal hashing.floats).map textBytes).getD [] :=
    (encodeHex_injective.comp noCollision).eq_iff
  have someBytes : ∀ m : GoMap F, textBytes (m.document hashing.floats).render ≠ [] := by
    intro m
    obtain ⟨c, rest, isHead, -⟩ := (m.document hashing.floats).render_head
    exact textBytes_ne_nil (isHead ▸ List.cons_ne_nil c rest)
  rw [hashes]
  by_cases writable : Writable hashing.floats m
  · by_cases writable' : Writable hashing.floats m'
    · rw [marshal_ord_of_writable writable, marshal_ord_of_writable writable', Option.map_some,
        Option.map_some, Option.getD_some, Option.getD_some]
      simp only [writable, writable', not_true_eq_false, false_and, false_or, true_and]
      rw [← document_eq_iff]
      constructor
      · exact fun same => Json.render_injective (textBytes_inj same)
      · exact fun same => by rw [same]
    · rw [marshal_ord_of_writable writable, marshal_ord_of_not writable']
      simp [writable, writable', someBytes]
  · by_cases writable' : Writable hashing.floats m'
    · rw [marshal_ord_of_not writable, marshal_ord_of_writable writable']
      simp [writable, writable', Ne.symm (someBytes m')]
    · rw [marshal_ord_of_not writable, marshal_ord_of_not writable']
      simp [writable, writable']

theorem Agree.alike (agree : Agree m m') : Alike floats m m' := by
  rw [alike_iff_json]
  intro k hashed
  have here := congrArg (Option.map (Datum.json floats)) (agree k hashed)
  rwa [Option.map_map, Option.map_map] at here

theorem Agree.writable_iff (agree : Agree m m') : Writable floats m ↔ Writable floats m' := by
  apply forall₂_congr
  intro k hashed
  have here := agree k hashed
  cases found : m.get k with
  | none =>
      rw [found, Option.map_none, eq_comm, Option.map_eq_none_iff] at here
      rw [here]
  | some v =>
      rw [found, Option.map_some, eq_comm, Option.map_eq_some_iff] at here
      obtain ⟨v', found', same⟩ := here
      rw [found']
      simp [same]

/-- The hash sees exactly the changes if the two maps are told apart. -/
theorem contentHash_iff_agree {hashing : Hashing F}
    (noCollision : Function.Injective hashing.sha256) :
    (contentHash hashing m = contentHash hashing m' ↔ Agree m m') ↔
      Told hashing.floats m m' := by
  rw [contentHash_eq_iff noCollision]
  constructor
  · intro detects
    exact ⟨fun first second => detects.mp (.inl ⟨first, second⟩),
      fun first second same => detects.mp (.inr ⟨first, second, same⟩)⟩
  · intro told
    constructor
    · rintro (⟨first, second⟩ | ⟨first, second, same⟩)
      · exact told.written first second
      · exact told.numbers first second same
    · intro agree
      by_cases writable : Writable hashing.floats m
      · exact .inr ⟨writable, agree.writable_iff.mp writable, agree.alike⟩
      · exact .inl ⟨writable, fun second => writable (agree.writable_iff.mpr second)⟩

end

/-! ### Values as maps -/

namespace Datum

theorem normMap_eq (es : List (String × Datum F)) :
    normMap es = es.map fun e => (e.1, norm e.2) := by
  induction es with
  | nil => rfl
  | cons e es ih => rw [normMap, List.map_cons, ih]

end Datum

section

variable {β : Type} {es fs : List (String × β)}

theorem mem_iff_lookup (nodup : (es.map Prod.fst).Nodup) {k : String} {b : β} :
    (k, b) ∈ es ↔ es.lookup k = some b := by
  induction es with
  | nil => simp
  | cons e es ih =>
      rw [List.map_cons, List.nodup_cons] at nodup
      rw [List.mem_cons, List.lookup_cons]
      by_cases isKey : k = e.1
      · subst isKey
        have later : (e.1, b) ∉ es := fun mem => nodup.1 (List.mem_map.mpr ⟨_, mem, rfl⟩)
        simp [later, Prod.ext_iff, eq_comm]
      · rw [beq_eq_false_iff_ne.mpr isKey, ih nodup.2]
        simp [Prod.ext_iff, isKey]

theorem sortKeys_pairwise (nodup : (es.map Prod.fst).Nodup) :
    (sortKeys es).Pairwise fun e e' => e.1 < e'.1 := by
  have total : ∀ e e' : String × β, e.1 ≤ e'.1 ∨ e'.1 ≤ e.1 := fun e e' => le_total _ _
  have sorted : (sortKeys es).Pairwise fun e e' => e.1 ≤ e'.1 := by
    have : Std.Total fun e e' : String × β => e.1 ≤ e'.1 := ⟨total⟩
    have : IsTrans (String × β) fun e e' => e.1 ≤ e'.1 := ⟨fun _ _ _ => le_trans⟩
    exact List.pairwise_insertionSort _ _
  have distinct : (sortKeys es).Pairwise fun e e' => e.1 ≠ e'.1 :=
    List.pairwise_map.mp (((List.perm_insertionSort _ es).map Prod.fst).nodup_iff.mpr nodup)
  exact (sorted.and distinct).imp fun both => lt_of_le_of_ne both.1 both.2

/-- Lists of entries with distinct keys have one order. -/
theorem sortKeys_eq_iff (nodup : (es.map Prod.fst).Nodup) (nodup' : (fs.map Prod.fst).Nodup) :
    sortKeys es = sortKeys fs ↔ ∀ k, es.lookup k = fs.lookup k := by
  have perm : sortKeys es = sortKeys fs ↔ es.Perm fs := by
    have sorts : ∀ entries : List (String × β), (sortKeys entries).Perm entries :=
      fun entries => List.perm_insertionSort _ entries
    constructor
    · intro same
      exact (sorts es).symm.trans (same ▸ sorts fs)
    · intro perm
      exact List.Perm.eq_of_pairwise (fun e e' _ _ first second => absurd first (lt_asymm second))
        (sortKeys_pairwise nodup) (sortKeys_pairwise nodup')
        ((sorts es).trans (perm.trans (sorts fs).symm))
  rw [perm, List.perm_ext_iff_of_nodup nodup.of_map nodup'.of_map]
  constructor
  · intro same k
    apply Option.ext
    intro b
    rw [← mem_iff_lookup nodup, ← mem_iff_lookup nodup', same]
  · rintro same ⟨k, b⟩
    rw [mem_iff_lookup nodup, mem_iff_lookup nodup', same]

end

/-- Two maps with distinct keys are the same value exactly if they hold the same values, in
whatever order. -/
theorem norm_map_eq_iff {es fs : List (String × Datum F)} (nodup : (es.map Prod.fst).Nodup)
    (nodup' : (fs.map Prod.fst).Nodup) :
    (Datum.map es).norm = (Datum.map fs).norm ↔
      ∀ k, (es.lookup k).map Datum.norm = (fs.lookup k).map Datum.norm := by
  have keys : ∀ es : List (String × Datum F),
      (Datum.normMap es).map Prod.fst = es.map Prod.fst := by
    intro es
    rw [Datum.normMap_eq, List.map_map]
    rfl
  have lookups : ∀ (es : List (String × Datum F)) (k : String),
      (Datum.normMap es).lookup k = (es.lookup k).map Datum.norm := by
    intro es k
    induction es with
    | nil => rfl
    | cons e es ih =>
        rw [Datum.normMap, List.lookup_cons, List.lookup_cons, ih]
        cases k == e.1 <;> rfl
  rw [Datum.norm, Datum.norm, Datum.map.injEq,
    sortKeys_eq_iff ((keys es).symm ▸ nodup) ((keys fs).symm ▸ nodup')]
  simp only [lookups]

/-! ## What is written -/

/-- The bytes of a key or of a string. -/
def stringBytes (s : String) : Bytes := textBytes s.toList

/-- The value of a field. -/
def Datum.value : Datum F → Value (Datum F)
  | .string s => .string (stringBytes s)
  | .int n => .int64 n
  | v => .other v

/-- The map as the fields of a document. -/
def GoMap.fields (m : GoMap F) : Fields (Datum F) :=
  fun k => (m.entries.find? fun e => stringBytes e.1 = k).map fun e => e.2.value

/-- The digest of the server is that of `contentHash`. -/
def Digests (hashing : Hashing F) (digest : Fields (Datum F) → Bytes) : Prop :=
  ∀ m : GoMap F, Push.contentHash digest m.fields = contentHash hashing m

/-- A session document is written with the hash of the document. -/
def WritesHashed (hashing : Hashing F) (digest : Fields (Datum F) → Bytes) (pc : Bytes)
    (o : Store.Op (Slave.Doc (Datum F)) PushEntry Slave.Delivery) : Prop :=
  ∀ id change old doc, o = .write (Slave.sessionPath pc id) change → change old = some doc →
    stringField doc.data contentHashKey = Push.contentHash digest doc.data ∧
      ∀ m : GoMap F, doc.data = m.fields →
        stringField m.fields contentHashKey = contentHash hashing m

section

variable {m m' : GoMap F} {hashing : Hashing F} {digest : Fields (Datum F) → Bytes}

theorem stringBytes_inj {s t : String} (same : stringBytes s = stringBytes t) : s = t :=
  String.toList_inj.mp (textBytes_inj same)

theorem Datum.value_inj {v w : Datum F} (same : v.value = w.value) : v = w := by
  cases v <;> cases w <;> simp_all [Datum.value]
  exact stringBytes_inj same

theorem GoMap.fields_stringBytes (k : String) :
    m.fields (stringBytes k) = (m.get k).map Datum.value := by
  rw [fields, get]
  induction m.entries with
  | nil => rfl
  | cons e es ih =>
      rw [List.find?_cons, List.lookup_cons]
      by_cases isKey : k = e.1
      · simp [isKey]
      · have otherBytes : ¬stringBytes e.1 = stringBytes k :=
          fun same => isKey (stringBytes_inj same).symm
        rw [beq_eq_false_iff_ne.mpr isKey, decide_eq_false otherBytes]
        exact ih

theorem ascii_unhashed : ascii "version" = stringBytes "version" ∧
    ascii "updated_at" = stringBytes "updated_at" ∧
      ascii "content_hash" = stringBytes "content_hash" := by
  decide

theorem contentHash_congr (same : ∀ k ∉ unhashed, m.get k = m'.get k) :
    contentHash hashing m = contentHash hashing m' := by
  have keys : m.keys = m'.keys := GoMap.keys_congr fun k hashed => by rw [same k hashed]
  have ord : m.ord = m'.ord := by
    rw [GoMap.ord, GoMap.ord, keys]
    congr 1
    apply List.map_congr_left
    intro k mem
    rw [same k (m'.mem_keys.mp mem).1]
  rw [contentHash, contentHash, ord]

/-- The fields that are hashed. -/
def hashedFields (f : Fields (Datum F)) : Fields (Datum F) :=
  fun k => if k = version ∨ k = updatedAt ∨ k = contentHashKey then none else f k

theorem factorsThrough_hashedFields :
    (contentHash hashing).FactorsThrough fun m : GoMap F => hashedFields m.fields := by
  intro m m' same
  apply contentHash_congr
  intro k hashed
  have other : ¬(stringBytes k = version ∨ stringBytes k = updatedAt ∨
      stringBytes k = contentHashKey) := by
    rw [version, updatedAt, contentHashKey, ascii_unhashed.1, ascii_unhashed.2.1,
      ascii_unhashed.2.2]
    rintro (isKey | isKey | isKey)
    all_goals
      rw [stringBytes_inj isKey] at hashed
      exact hashed (by decide)
  have here : m.fields (stringBytes k) = m'.fields (stringBytes k) := by
    simpa only [hashedFields, if_neg other] using congrFun same (stringBytes k)
  rw [GoMap.fields_stringBytes, GoMap.fields_stringBytes] at here
  exact Option.map_injective (fun _ _ => Datum.value_inj) here

/-- There is such a digest. -/
theorem exists_digests (hashing : Hashing F) : ∃ digest, Digests hashing digest :=
  ⟨Function.extend (fun m : GoMap F => hashedFields m.fields) (contentHash hashing) fun _ => [],
    factorsThrough_hashedFields.extend_apply _⟩

theorem contentHash_document (session : Fields (Datum F)) (ver : Int64) (hash stamp : Bytes) :
    Push.contentHash digest (Push.document session ver hash stamp) =
      Push.contentHash digest session := by
  rw [Push.contentHash, Push.contentHash]
  congr 1
  funext k
  split
  · rfl
  · rename_i hashed
    simp only [not_or] at hashed
    rw [Push.document, Function.update_of_ne hashed.2.1, Function.update_of_ne hashed.2.2,
      Function.update_of_ne hashed.1]

/-- Every session document is written with its own hash. -/
theorem pushStatusFor_writesHashed (server : Slave.Server (Datum F))
    (digests : Digests hashing server.digest) (pc : Bytes) (sessions : List (Fields (Datum F))) :
    (Slave.pushStatusFor server pc sessions).Only (WritesHashed hashing server.digest pc) := by
  apply (Slave.pushStatusFor_only server pc sessions).imp
  intro o does id change old doc isWrite writes
  subst isWrite
  generalize isPath : Slave.sessionPath pc id = path at does
  cases does with
  | setSession session ver stamp =>
      cases writes
      have hashed : stringField (Push.document session ver
          (Push.contentHash server.digest session) stamp) contentHashKey =
            Push.contentHash server.digest (Push.document session ver
              (Push.contentHash server.digest session) stamp) := by
        rw [Push.stringField_document, contentHash_document]
      constructor
      · exact hashed
      · intro m same
        rw [← digests m, ← same]
        exact hashed
  | parent stamp => exact absurd isPath (Slave.sessionPath_ne_own_pcPath pc id)

end

/-- A push writes each document with its hash, and the hash sees exactly the changes if one
of the two maps can be written, and they differ in more than how a number is stored. -/
theorem contentHash_detects_iff (hashing : Hashing F)
    (noCollision : Function.Injective hashing.sha256) (server : Slave.Server (Datum F))
    (digests : Digests hashing server.digest) (m m' : GoMap F) :
    ((contentHash hashing m = contentHash hashing m' ↔ Agree m m') ∧
        ∀ pc sessions,
          (Slave.pushStatusFor server pc sessions).Only (WritesHashed hashing server.digest pc)) ↔
      Told hashing.floats m m' := by
  rw [contentHash_iff_agree noCollision]
  exact and_iff_left fun pc sessions => pushStatusFor_writesHashed server digests pc sessions

/-! ### Sample maps -/

/-- The floats by their bits. -/
def sampleFloats : Floats UInt64 where
  finite x := x &&& 0x7ff0000000000000 ≠ 0x7ff0000000000000
  text x :=
    if x = 0x3ff8000000000000 then ⟨['1', '.', '5'], by decide, by simp [isNumberChar]⟩
    else ⟨['1'], by decide, by simp [isNumberChar]⟩

/-- Some values of SHA-256. -/
def sampleDigests : List (Bytes × Bytes) :=
  [(ascii "[[\"load\",1.5],[\"status\",\"idle\"]]",
      [0xc4, 0x14, 0xa4, 0xe2, 0x04, 0x5a, 0xc4, 0xcb, 0xa4, 0xf4, 0x40, 0xa1, 0x72, 0xfb, 0xc9,
       0xb8, 0xc9, 0xba, 0x86, 0x87, 0x37, 0xd3, 0xc8, 0x76, 0xb4, 0xed, 0xcd, 0xeb, 0xe4, 0x64,
       0x96, 0xd9]),
    (ascii "[[\"load\",1.5],[\"status\",\"busy\"]]",
      [0x6b, 0xd8, 0xd1, 0x0e, 0xc5, 0x32, 0xf6, 0x13, 0xd4, 0xd8, 0xf4, 0xb4, 0xcf, 0x03, 0xaf,
       0xe6, 0x24, 0xed, 0x2e, 0x70, 0x45, 0xd3, 0x72, 0x9b, 0xd3, 0x81, 0xc3, 0xcf, 0x31, 0x0d,
       0x10, 0x14])]

/-- A permutation of the strings that has these values. -/
def sampleSha256 : Equiv.Perm Bytes :=
  sampleDigests.foldr (fun digest rest => (Equiv.swap digest.1 digest.2).trans rest) (Equiv.refl _)

/-- The sample floats and the sample digest. -/
def sampleHashing : Hashing UInt64 := ⟨sampleFloats, sampleSha256⟩

/-- The document of a session with a load and a status. -/
def sampleMap (load : UInt64) (status : String) : GoMap UInt64 where
  entries := [("load", .float load), ("status", .string status)]
  nodup := by simp

theorem sampleMap_status (load : UInt64) (status : String) :
    ((sampleMap load status).get "status").map Datum.norm = some (.string status) := rfl

theorem sampleMap_not_agree (load : UInt64) :
    ¬Agree (sampleMap load "idle") (sampleMap load "busy") := by
  intro agree
  have status := agree "status" (by decide)
  rw [sampleMap_status, sampleMap_status] at status
  exact absurd (Datum.string.inj (Option.some.inj status)) (by decide)

theorem sampleMap_detected :
    contentHash sampleHashing (sampleMap 0x3ff8000000000000 "idle") ≠
      contentHash sampleHashing (sampleMap 0x3ff8000000000000 "busy") := by
  obtain ⟨digest, digests⟩ := exists_digests sampleHashing
  let server : Slave.Server (Datum UInt64) :=
    { enrollSA := [], verifies := none, sign := none, header := [], marshal := fun _ _ => [],
      unmarshal := fun _ => none, encode := id, decode := some, sha256 := fun _ => .replicate 32 0,
      normalizeCode := id, rfc3339 := fun _ => [], rfc3339Nano := fun _ => [],
      parseTime := fun _ => none, digest, verifyEvery := 0, relayUpstreamURL := [] }
  have told : Told sampleHashing.floats (sampleMap 0x3ff8000000000000 "idle")
      (sampleMap 0x3ff8000000000000 "busy") := by
    constructor
    · intro unwritable
      exact absurd (finite_ord_iff.mp (by decide +kernel)) unwritable
    · intro _ _ alike
      have status := alike "status" (by decide)
      rw [sampleMap_status, sampleMap_status, Option.rel_some_some, Datum.Alike] at status
      exact absurd status (by decide)
  have detects := (contentHash_detects_iff sampleHashing sampleSha256.injective server digests
    (sampleMap 0x3ff8000000000000 "idle") (sampleMap 0x3ff8000000000000 "busy")).mpr told
  exact fun same => sampleMap_not_agree _ (detects.1.mp same)

/-- Two documents with a float that is not a number. -/
theorem nan_collides :
    ¬(contentHash sampleHashing (sampleMap 0x7ff8000000000001 "idle") =
        contentHash sampleHashing (sampleMap 0x7ff8000000000001 "busy") ↔
      Agree (sampleMap 0x7ff8000000000001 "idle") (sampleMap 0x7ff8000000000001 "busy")) := by
  intro detects
  have unwritable : ∀ status, ¬Writable sampleFloats (sampleMap 0x7ff8000000000001 status) := by
    intro status writable
    exact absurd (writable "load" (by decide) (.float 0x7ff8000000000001) rfl) (by decide)
  have same : contentHash sampleHashing (sampleMap 0x7ff8000000000001 "idle") =
      contentHash sampleHashing (sampleMap 0x7ff8000000000001 "busy") :=
    (contentHash_eq_iff sampleSha256.injective).mpr (.inl ⟨unwritable "idle", unwritable "busy"⟩)
  exact sampleMap_not_agree _ (detects.mp same)

end Drover.Push.Content
