import Drover.Data.JsonValue

/-!
# Objects of strings and integers

The JSON text of an object whose members are strings and integers, written
without white space, and its reading.
-/

namespace Drover.JsonText

/-- A member's value. -/
inductive Scalar where
  | string (s : Bytes)
  | int (n : Int)
  deriving DecidableEq

namespace Scalar

/-- The text of a scalar. -/
def render : Scalar → Bytes
  | string s => appendString s
  | int n => decimal n

/-- The value that a scalar is read as. -/
def toValue : Scalar → Value
  | string s => .string s
  | int n => .number (intNumber n)

/-- Its strings are valid UTF-8. -/
def Valid : Scalar → Prop
  | string s => ValidString s
  | int _ => True

end Scalar

/-- The members of an object, in order. -/
abbrev Members := List (Bytes × Scalar)

/-- The text of the members, with commas between them. -/
def renderMembers : Members → Bytes
  | [] => []
  | [m] => appendString m.1 ++ colon :: m.2.render
  | m :: n :: ms => appendString m.1 ++ colon :: (m.2.render ++ comma :: renderMembers (n :: ms))

/-- The text of an object. -/
def renderObject (ms : Members) : Bytes := openBrace :: (renderMembers ms ++ [closeBrace])

/-- The object that is read. -/
def objectOf (ms : Members) : List (Bytes × Value) := ms.map fun m => (m.1, m.2.toValue)

/-- What is written of valid UTF-8 alone. -/
def ValidMembers (ms : Members) : Prop := ∀ m ∈ ms, ValidString m.1 ∧ m.2.Valid

theorem readValue_render {v : Scalar} (valid : v.Valid) (depth : Nat) {rest : Bytes}
    (delimited : Delimited rest) :
    readValue depth (v.render ++ rest) = some (v.toValue, rest) := by
  cases v with
  | string s => exact readValue_appendString valid depth rest
  | int n => exact readValue_decimal n depth delimited

theorem readItems_renderMembers {m : Bytes × Scalar} {ms : Members}
    (valid : ValidMembers (m :: ms)) (depth more : Nat) (rest : Bytes) :
    readItems (readMember (readValue depth)) closeBrace (more + ms.length + 1)
      (renderMembers (m :: ms) ++ closeBrace :: rest) = some (objectOf (m :: ms), rest) := by
  have delimitedClose : Delimited (closeBrace :: rest) := by
    intro b isHead
    cases isHead
    decide
  induction ms generalizing m with
  | nil =>
      have first := valid m List.mem_cons_self
      have member := readMember_appendString first.1
        (readValue_render first.2 depth delimitedClose)
      rw [renderMembers, List.append_assoc, List.cons_append,
        readItems_last member (by decide) (by decide)]
      rfl
  | cons n ms ih =>
      have first := valid m List.mem_cons_self
      have later := ih fun k mem => valid k (List.mem_cons_of_mem m mem)
      have delimitedComma :
          Delimited (comma :: (renderMembers (n :: ms) ++ closeBrace :: rest)) := by
        intro b isHead
        cases isHead
        decide
      have member := readMember_appendString first.1
        (readValue_render first.2 depth delimitedComma)
      rw [renderMembers, List.append_assoc, List.cons_append, List.append_assoc, List.cons_append,
        readItems_more member, List.length_cons, ← Nat.add_assoc, later]
      rfl

/-- An object of strings and integers is read from its text. -/
theorem parse_renderObject {ms : Members} (valid : ValidMembers ms) :
    parse (renderObject ms) = some (.object (objectOf ms)) := by
  have deep : maxNestingDepth = 9999 + 1 := rfl
  have container : readContainer (readMember (readValue 9999)) closeBrace
      (renderMembers ms ++ [closeBrace]) = some (objectOf ms, []) := by
    cases ms with
    | nil =>
        rw [renderMembers, List.nil_append, readContainer, skipSpace_cons (by decide)]
        exact if_pos rfl
    | cons m ms =>
        have start : ∃ rest, renderMembers (m :: ms) ++ [closeBrace] = quote :: rest := by
          cases ms with
          | nil => exact ⟨_, rfl⟩
          | cons n ms => exact ⟨_, rfl⟩
        obtain ⟨rest, text⟩ := start
        have items := readItems_renderMembers valid 9999 (quote :: rest).length []
        have progress := progress_readMember (progress_readValue 9999)
        have read : readItems (readMember (readValue 9999)) closeBrace
            (quote :: rest).length (quote :: rest) = some (objectOf (m :: ms), []) := by
          rw [text] at items
          rwa [readItems_eq progress (Nat.le_refl _)
            (Nat.le_succ_of_le (Nat.le_add_right _ ms.length))]
        rw [text, readContainer, skipSpace_cons (by decide)]
        simp only [read]
        exact if_neg (by decide)
  rw [parse, deep, readValue, renderObject, skipSpace_cons (by decide)]
  simp only [if_true, container]
  rfl

end Drover.JsonText
