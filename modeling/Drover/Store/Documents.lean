import Drover.Data.Bytes
import Drover.Data.Separator
import Std.Data.ExtTreeMap

/-!
# Documents

A store of documents by their path.  The path of a document is that of its
collection, a slash and its id; `Collection(c).Doc(id)` addresses the path `c/id`
whatever the id is, and a listing of a collection returns the documents whose id
has no slash.
-/

namespace Drover.Store

universe u

variable {δ : Type u}

/-- The path of a document or of a collection. -/
abbrev Path := Bytes

/-- The byte between the parts of a path. -/
def slash : UInt8 := 0x2f

/-- The path of a document of a collection. -/
def docPath (col : Path) (id : Bytes) : Path := col ++ slash :: id

/-- A store. -/
abbrev Documents (δ : Type u) := Std.ExtTreeMap Path δ

/-- The id of a document directly in the collection. -/
def childID (col path : Path) : Option Bytes :=
  if (col ++ [slash]).isPrefixOf path then
    let id := path.drop (col ++ [slash]).length
    if id = [] ∨ slash ∈ id then none else some id
  else none

/-- `Collection(col).Documents().GetAll()`. -/
def listDocuments (docs : Documents δ) (col : Path) : List (Bytes × δ) :=
  docs.toList.filterMap fun p => (childID col p.1).map fun id => (id, p.2)

theorem docPath_eq (col : Path) (id : Bytes) : docPath col id = (col ++ [slash]) ++ id := by
  rw [docPath, List.append_assoc, List.singleton_append]

theorem docPath_inj {col : Path} {id id' : Bytes} :
    docPath col id = docPath col id' ↔ id = id' := by
  rw [docPath_eq, docPath_eq, List.append_cancel_left_eq]

/-- Paths tell their collections apart, if these are at the top. -/
theorem docPath_eq_iff {col col' : Path} {id id' : Bytes} (top : slash ∉ col)
    (top' : slash ∉ col') :
    docPath col id = docPath col' id' ↔ col = col' ∧ id = id' :=
  separated_inj top' top

theorem docPath_ne {col col' : Path} {id id' : Bytes} (top : slash ∉ col) (top' : slash ∉ col')
    (other : col ≠ col') : docPath col id ≠ docPath col' id' :=
  fun same => other ((docPath_eq_iff top top').mp same).1

theorem childID_eq_some_iff {col path : Path} {id : Bytes} :
    childID col path = some id ↔ path = docPath col id ∧ id ≠ [] ∧ slash ∉ id := by
  rw [childID, docPath_eq]
  constructor
  · intro isChild
    split at isChild
    · rename_i isPrefix
      obtain ⟨rest, rfl⟩ := List.isPrefixOf_iff_prefix.mp isPrefix
      rw [List.drop_left] at isChild
      simp only at isChild
      split at isChild
      · cases isChild
      · rename_i proper
        rw [not_or] at proper
        cases isChild
        exact ⟨rfl, proper⟩
    · cases isChild
  · rintro ⟨rfl, notEmpty, notNested⟩
    have isPrefix : (col ++ [slash]).isPrefixOf ((col ++ [slash]) ++ id) = true :=
      List.isPrefixOf_iff_prefix.mpr (List.prefix_append _ _)
    rw [if_pos isPrefix, List.drop_left]
    simp [notEmpty, notNested]

theorem mem_listDocuments {docs : Documents δ} {col : Path} {id : Bytes} {d : δ} :
    (id, d) ∈ listDocuments docs col ↔ docs[docPath col id]? = some d ∧ id ≠ [] ∧ slash ∉ id := by
  simp only [listDocuments, List.mem_filterMap, Option.map_eq_some_iff, Prod.mk.injEq]
  constructor
  · rintro ⟨⟨path, d⟩, mem, id, isChild, rfl, rfl⟩
    obtain ⟨rfl, proper⟩ := childID_eq_some_iff.mp isChild
    exact ⟨Std.ExtTreeMap.mem_toList_iff_getElem?_eq_some.mp mem, proper⟩
  · rintro ⟨found, proper⟩
    exact ⟨(docPath col id, d), Std.ExtTreeMap.mem_toList_iff_getElem?_eq_some.mpr found, id,
      childID_eq_some_iff.mpr ⟨rfl, proper⟩, rfl, rfl⟩

/-- The documents of a listing have different ids. -/
theorem pairwise_listDocuments (docs : Documents δ) (col : Path) :
    (listDocuments docs col).Pairwise fun p q => p.1 ≠ q.1 := by
  rw [listDocuments, List.pairwise_filterMap]
  refine Std.ExtTreeMap.distinct_keys_toList.imp fun {p q} distinct p' isP q' isQ same => ?_
  obtain ⟨id, isID, rfl⟩ := Option.map_eq_some_iff.mp isP
  obtain ⟨id', isID', rfl⟩ := Option.map_eq_some_iff.mp isQ
  cases same
  rw [Std.compare_eq_iff_eq, (childID_eq_some_iff.mp isID).1,
    (childID_eq_some_iff.mp isID').1] at distinct
  exact distinct rfl

/-- A listing depends on the documents of its collection only. -/
theorem listDocuments_congr {docs docs' : Documents δ} {col : Path}
    (agree : ∀ id, docs[docPath col id]? = docs'[docPath col id]?) :
    listDocuments docs col = listDocuments docs' col := by
  have parts : docs.filter (fun path _ => (childID col path).isSome) =
      docs'.filter fun path _ => (childID col path).isSome := by
    apply Std.ExtTreeMap.ext_getElem?
    intro path
    rw [Std.ExtTreeMap.getElem?_filter', Std.ExtTreeMap.getElem?_filter']
    cases isChild : childID col path with
    | none => cases docs[path]? <;> cases docs'[path]? <;> simp [Option.filter]
    | some id => rw [(childID_eq_some_iff.mp isChild).1, agree]
  have list : ∀ docs : Documents δ, listDocuments docs col =
      listDocuments (docs.filter fun path _ => (childID col path).isSome) col := by
    intro docs
    rw [listDocuments, listDocuments, Std.ExtTreeMap.toList_filter, List.filterMap_filter]
    apply List.filterMap_congr
    intro p _
    cases childID col p.1 <;> rfl
  rw [list docs, list docs', parts]

/-! ## Reads and writes -/

/-- What the read of a document brings back. -/
inductive Snapshot (δ : Type u) where
  | failed
  | absent
  | found (doc : δ)

/-- How a write ended; a failed one may have taken effect. -/
inductive Outcome where
  | ok
  | failed (applied : Bool)
  deriving DecidableEq

/-- The write has taken effect. -/
def Outcome.applied : Outcome → Bool
  | .ok => true
  | .failed applied => applied

/-- A read, which may fail. -/
def readDocument (docs : Documents δ) (ok : Bool) (path : Path) : Snapshot δ :=
  if ok then
    match docs[path]? with
    | some d => .found d
    | none => .absent
  else .failed

/-- A write that may take effect. -/
def changeDocument (docs : Documents δ) (outcome : Outcome) (path : Path)
    (change : Option δ → Option δ) : Documents δ :=
  if outcome.applied then docs.alter path change else docs

theorem readDocument_congr {docs docs' : Documents δ} {path : Path}
    (same : docs'[path]? = docs[path]?) (ok : Bool) :
    readDocument docs' ok path = readDocument docs ok path := by
  rw [readDocument, readDocument, same]

theorem readDocument_eq_found_iff {docs : Documents δ} {ok : Bool} {path : Path} {d : δ} :
    readDocument docs ok path = .found d ↔ ok = true ∧ docs[path]? = some d := by
  rw [readDocument]
  split
  · rename_i isOk
    split
    · rename_i found
      simp [isOk, found]
    · rename_i missing
      simp [missing]
  · rename_i isOk
    simp [isOk]

theorem changeDocument_of_ne {docs : Documents δ} {outcome : Outcome} {path path' : Path}
    {change : Option δ → Option δ} (other : path' ≠ path) :
    (changeDocument docs outcome path change)[path']? = docs[path']? := by
  rw [changeDocument]
  split
  · rw [Std.ExtTreeMap.getElem?_alter, if_neg]
    rw [Std.compare_eq_iff_eq]
    exact other.symm
  · rfl

theorem changeDocument_same {docs : Documents δ} {outcome : Outcome} {path : Path}
    {change : Option δ → Option δ} :
    (changeDocument docs outcome path change)[path]? =
      if outcome.applied then change docs[path]? else docs[path]? := by
  rw [changeDocument]
  split
  · rw [Std.ExtTreeMap.getElem?_alter, if_pos Std.compare_self]
  · rfl

end Drover.Store
