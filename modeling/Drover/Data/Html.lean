import Drover.Data.Bytes
import Mathlib.Data.List.TakeWhile

/-!
# Texts in HTML

`html.EscapeString`, and what a browser reads of a page whose attribute values
stand in double quotes: its tags and its text.  An escaped text opens no tag and
closes no quotes, so it changes neither the tags around it nor their
attributes, and it is read as it was.
-/

namespace Drover.Html

/-- The byte that opens a tag. -/
def lessThan : UInt8 := 0x3c

/-- The byte that closes a tag. -/
def greaterThan : UInt8 := 0x3e

/-- The byte around the value of an attribute. -/
def doubleQuote : UInt8 := 0x22

/-- The byte that begins a reference. -/
def ampersand : UInt8 := 0x26

/-! ## Escaping -/

/-- The replacements of `htmlEscaper`. -/
def escapes : List (UInt8 × Bytes) :=
  [(ampersand, ascii "&amp;"), (0x27, ascii "&#39;"), (lessThan, ascii "&lt;"),
    (greaterThan, ascii "&gt;"), (doubleQuote, ascii "&#34;")]

/-- One byte, escaped. -/
def escapeByte (b : UInt8) : Bytes := (escapes.lookup b).getD [b]

/-- `EscapeString`. -/
def escapeString (s : Bytes) : Bytes := s.flatMap escapeByte

/-- A character reference that `EscapeString` writes, at the front of a text. -/
def readReference (s : Bytes) : Option (UInt8 × Nat) :=
  (escapes.find? fun e => e.2.isPrefixOf s).map fun e => (e.1, e.2.length)

/-- The text that a browser reads of these references; `skip` bytes in front
belong to the one before. -/
def unescapeFrom : Nat → Bytes → Bytes
  | _, [] => []
  | skip + 1, _ :: s => unescapeFrom skip s
  | 0, b :: s =>
      match readReference (b :: s) with
      | some (c, length) => c :: unescapeFrom (length - 1) s
      | none => b :: unescapeFrom 0 s

/-- A text with its references resolved. -/
def unescapeString (s : Bytes) : Bytes := unescapeFrom 0 s

theorem escapeByte_cases (b : UInt8) :
    (∃ e ∈ escapes, e.1 = b ∧ escapeByte b = e.2) ∨
      ((∀ e ∈ escapes, e.1 ≠ b) ∧ escapeByte b = [b]) := by
  cases found : escapes.lookup b with
  | none =>
      refine .inr ⟨fun e mem same => ?_, by rw [escapeByte, found, Option.getD_none]⟩
      exact bne_iff_ne.mp (List.lookup_eq_none_iff.mp found e mem) same.symm
  | some reference =>
      obtain ⟨before, after, whole, -⟩ := List.lookup_eq_some_iff.mp found
      refine .inl ⟨(b, reference), ?_, rfl, by rw [escapeByte, found, Option.getD_some]⟩
      rw [whole]
      exact List.mem_append_right _ List.mem_cons_self

/-- The bytes that an escaped text does not hold. -/
theorem notMem_escapeString {c : UInt8} (special : c ∈ [lessThan, greaterThan, doubleQuote, 0x27])
    (s : Bytes) : c ∉ escapeString s := by
  have clean : (escapes.all fun e =>
      [lessThan, greaterThan, doubleQuote, 0x27].all fun c => c ∉ e.2) = true := by decide
  have isEscaped : c ∈ escapes.map Prod.fst := by
    simp only [List.mem_cons, List.not_mem_nil, or_false] at special
    rcases special with rfl | rfl | rfl | rfl <;> decide
  rw [escapeString, List.mem_flatMap]
  rintro ⟨b, -, mem⟩
  rcases escapeByte_cases b with ⟨e, inTable, -, written⟩ | ⟨plain, written⟩
  · rw [written] at mem
    have absent := List.all_eq_true.mp (List.all_eq_true.mp clean e inTable) c special
    exact of_decide_eq_true absent mem
  · rw [written, List.mem_singleton] at mem
    obtain ⟨e, inTable, isC⟩ := List.mem_map.mp isEscaped
    exact plain e inTable (isC.trans mem)

theorem unescapeFrom_append (before rest : Bytes) :
    unescapeFrom before.length (before ++ rest) = unescapeFrom 0 rest := by
  induction before with
  | nil => rfl
  | cons b before ih => exact ih

theorem readReference_escape {e : UInt8 × Bytes} (inTable : e ∈ escapes) (rest : Bytes) :
    readReference (e.2 ++ rest) = some (e.1, e.2.length) := by
  simp only [escapes, List.mem_cons, List.not_mem_nil, or_false] at inTable
  rcases inTable with rfl | rfl | rfl | rfl | rfl <;> rfl

theorem readReference_of_ne {b : UInt8} (notAmpersand : b ≠ ampersand) (rest : Bytes) :
    readReference (b :: rest) = none := by
  have other : (0x26 == b) = false := by
    rw [beq_eq_false_iff_ne]
    exact Ne.symm notAmpersand
  simp [readReference, escapes, ascii, List.isPrefixOf, other]

theorem unescapeFrom_escapeByte (b : UInt8) (rest : Bytes) :
    unescapeFrom 0 (escapeByte b ++ rest) = b :: unescapeFrom 0 rest := by
  rcases escapeByte_cases b with ⟨e, inTable, rfl, written⟩ | ⟨plain, written⟩
  · have read := readReference_escape inTable rest
    rw [written]
    cases text : e.2 with
    | nil =>
        have nonempty : (escapes.all fun e => !e.2.isEmpty) = true := by decide
        have := List.all_eq_true.mp nonempty e inTable
        rw [text] at this
        cases this
    | cons c tail =>
        rw [text, List.cons_append] at read
        rw [List.cons_append, unescapeFrom, read]
        exact congrArg (e.1 :: ·) (unescapeFrom_append tail rest)
  · have notAmpersand : b ≠ ampersand := Ne.symm (plain _ List.mem_cons_self)
    rw [written, List.singleton_append, unescapeFrom, readReference_of_ne notAmpersand]

/-- An escaped text is read as it was. -/
@[simp]
theorem unescapeString_escapeString (s : Bytes) : unescapeString (escapeString s) = s := by
  rw [unescapeString]
  induction s with
  | nil => rfl
  | cons b s ih =>
      rw [escapeString, List.flatMap_cons, unescapeFrom_escapeByte]
      exact congrArg (b :: ·) ih

/-! ## Pages -/

/-- Where in a page a byte stands. -/
inductive Mode where
  | data
  | tag
  | quoted
  deriving DecidableEq

/-- The mode behind a byte. -/
def Mode.next : Mode → UInt8 → Mode
  | .data, b => if b = lessThan then .tag else .data
  | .tag, b => if b = greaterThan then .data else if b = doubleQuote then .quoted else .tag
  | .quoted, b => if b = doubleQuote then .tag else .quoted

/-- The mode after a text. -/
def Mode.after (m : Mode) (s : Bytes) : Mode := s.foldl Mode.next m

@[simp]
theorem Mode.after_append (m : Mode) (s t : Bytes) : m.after (s ++ t) = (m.after s).after t :=
  List.foldl_append

/-- The insides of the tags; `open_` is what has been read of the one that is
open. -/
def tagsFrom : Mode → Bytes → Bytes → List Bytes
  | _, _, [] => []
  | .data, open_, b :: s => tagsFrom (Mode.next .data b) open_ s
  | .tag, open_, b :: s =>
      if b = greaterThan then open_ :: tagsFrom .data [] s
      else tagsFrom (Mode.next .tag b) (open_ ++ [b]) s
  | .quoted, open_, b :: s => tagsFrom (Mode.next .quoted b) (open_ ++ [b]) s

/-- The insides of the tags of a page. -/
def tags (page : Bytes) : List Bytes := tagsFrom .data [] page

/-- The bytes outside the tags. -/
def textFrom : Mode → Bytes → Bytes
  | _, [] => []
  | .data, b :: s => if b = lessThan then textFrom .tag s else b :: textFrom .data s
  | .tag, b :: s => textFrom (Mode.next .tag b) s
  | .quoted, b :: s => textFrom (Mode.next .quoted b) s

/-- What the page shows. -/
def text (page : Bytes) : Bytes := unescapeString (textFrom .data page)

/-- What has been read of the tag that is open behind a text. -/
def openAfter : Mode → Bytes → Bytes → Bytes
  | _, open_, [] => open_
  | .data, open_, b :: s => openAfter (Mode.next .data b) open_ s
  | .tag, open_, b :: s =>
      if b = greaterThan then openAfter .data [] s
      else openAfter (Mode.next .tag b) (open_ ++ [b]) s
  | .quoted, open_, b :: s => openAfter (Mode.next .quoted b) (open_ ++ [b]) s

theorem tagsFrom_append (m : Mode) (open_ s t : Bytes) :
    tagsFrom m open_ (s ++ t) =
      tagsFrom m open_ s ++ tagsFrom (m.after s) (openAfter m open_ s) t := by
  induction s generalizing m open_ with
  | nil => cases m <;> rfl
  | cons b s ih =>
      cases m with
      | data => exact ih _ _
      | quoted => exact ih _ _
      | tag =>
          simp only [List.cons_append, tagsFrom, openAfter, Mode.after, List.foldl_cons, Mode.next]
          split
          · exact congrArg (open_ :: ·) (ih _ _)
          · exact ih _ _

theorem textFrom_append (m : Mode) (s t : Bytes) :
    textFrom m (s ++ t) = textFrom m s ++ textFrom (m.after s) t := by
  induction s generalizing m with
  | nil => cases m <;> rfl
  | cons b s ih =>
      cases m with
      | data =>
          simp only [List.cons_append, textFrom, Mode.after, List.foldl_cons, Mode.next]
          split
          · exact ih _
          · exact congrArg (b :: ·) (ih _)
      | quoted => exact ih _
      | tag => exact ih _

theorem openAfter_eq_nil {m : Mode} {open_ s : Bytes} (start : m = .data → open_ = [])
    (ends : m.after s = .data) : openAfter m open_ s = [] := by
  induction s generalizing m open_ with
  | nil =>
      subst ends
      exact start rfl
  | cons b s ih =>
      cases m with
      | data => exact ih (fun _ => start rfl) ends
      | quoted =>
          refine ih (fun isData => ?_) ends
          rw [Mode.next] at isData
          split at isData <;> cases isData
      | tag =>
          simp only [Mode.after, List.foldl_cons, Mode.next] at ends
          rw [openAfter]
          split
          · rename_i closes
            rw [if_pos closes] at ends
            exact ih (fun _ => rfl) ends
          · rename_i stays
            rw [if_neg stays] at ends
            refine ih (fun isData => ?_) (by rwa [Mode.next, if_neg stays])
            rw [Mode.next, if_neg stays] at isData
            split at isData <;> cases isData

/-- A part of a page that closes what it opens. -/
def Closed (part : Bytes) : Prop := Mode.after .data part = .data

instance (part : Bytes) : Decidable (Closed part) :=
  inferInstanceAs (Decidable (Mode.after .data part = .data))

theorem Closed.append {s t : Bytes} (first : Closed s) (second : Closed t) : Closed (s ++ t) := by
  rw [Closed, Mode.after_append, first]
  exact second

/-- Behind a closed part the page is read anew. -/
theorem Closed.tags_append {s : Bytes} (closed : Closed s) (t : Bytes) :
    tags (s ++ t) = tags s ++ tags t := by
  rw [tags, tagsFrom_append, closed, openAfter_eq_nil (fun _ => rfl) closed, tags, tags]

theorem Closed.textFrom_append {s : Bytes} (closed : Closed s) (t : Bytes) :
    textFrom .data (s ++ t) = textFrom .data s ++ textFrom .data t := by
  rw [Html.textFrom_append, closed]

/-! ### Texts without tags -/

theorem after_data {s : Bytes} (plain : lessThan ∉ s) : Mode.after .data s = .data := by
  induction s with
  | nil => rfl
  | cons b s ih =>
      rw [List.mem_cons, not_or] at plain
      rw [Mode.after, List.foldl_cons, Mode.next, if_neg (Ne.symm plain.1)]
      exact ih plain.2

theorem tags_of_notMem {s : Bytes} (plain : lessThan ∉ s) : tags s = [] := by
  rw [tags]
  induction s with
  | nil => rfl
  | cons b s ih =>
      rw [List.mem_cons, not_or] at plain
      rw [tagsFrom, Mode.next, if_neg (Ne.symm plain.1)]
      exact ih plain.2

theorem textFrom_of_notMem {s : Bytes} (plain : lessThan ∉ s) : textFrom .data s = s := by
  induction s with
  | nil => rfl
  | cons b s ih =>
      rw [List.mem_cons, not_or] at plain
      rw [textFrom, if_neg (Ne.symm plain.1), ih plain.2]

/-- An escaped text is no tag and opens none. -/
theorem closed_escapeString (s : Bytes) : Closed (escapeString s) :=
  after_data (notMem_escapeString (by decide) s)

@[simp]
theorem tags_escapeString (s : Bytes) : tags (escapeString s) = [] :=
  tags_of_notMem (notMem_escapeString (by decide) s)

@[simp]
theorem textFrom_escapeString (s : Bytes) : textFrom .data (escapeString s) = escapeString s :=
  textFrom_of_notMem (notMem_escapeString (by decide) s)

/-! ### Tags -/

/-- The mode behind a part of the inside of a tag; `none` if the part closes the
tag. -/
def Mode.inside : Mode → Bytes → Option Mode
  | m, [] => some m
  | .data, _ :: _ => none
  | .tag, b :: s => if b = greaterThan then none else (Mode.next .tag b).inside s
  | .quoted, b :: s => (Mode.next .quoted b).inside s

theorem Mode.inside_append {m n : Mode} {s : Bytes} (first : m.inside s = some n) (t : Bytes) :
    m.inside (s ++ t) = n.inside t := by
  induction s generalizing m with
  | nil =>
      cases m <;> cases first <;> rfl
  | cons b s ih =>
      cases m with
      | data => cases first
      | quoted => exact ih first
      | tag =>
          simp only [Mode.inside, List.cons_append] at first ⊢
          split
          · rename_i closes
            rw [if_pos closes] at first
            cases first
          · rename_i stays
            rw [if_neg stays] at first
            exact ih first

theorem Mode.inside_quoted {s : Bytes} (plain : doubleQuote ∉ s) :
    Mode.quoted.inside s = some .quoted := by
  induction s with
  | nil => rfl
  | cons b s ih =>
      rw [List.mem_cons, not_or] at plain
      rw [Mode.inside, Mode.next, if_neg (Ne.symm plain.1)]
      exact ih plain.2

theorem Mode.after_of_inside {m n : Mode} {s : Bytes} (inside : m.inside s = some n) :
    m.after s = n := by
  induction s generalizing m with
  | nil =>
      cases m <;> cases inside <;> rfl
  | cons b s ih =>
      cases m with
      | data => cases inside
      | quoted => exact ih inside
      | tag =>
          rw [Mode.inside] at inside
          split at inside
          · cases inside
          · exact ih inside

theorem tagsFrom_inside {m n : Mode} {s : Bytes} (inside : m.inside s = some n)
    (open_ t : Bytes) : tagsFrom m open_ (s ++ t) = tagsFrom n (open_ ++ s) t := by
  induction s generalizing m open_ with
  | nil =>
      rw [List.append_nil]
      cases m <;> cases inside <;> rfl
  | cons b s ih =>
      cases m with
      | data => cases inside
      | quoted =>
          rw [List.cons_append, tagsFrom, ih inside, List.append_assoc, List.singleton_append]
      | tag =>
          rw [Mode.inside] at inside
          split at inside
          · cases inside
          · rename_i stays
            rw [List.cons_append, tagsFrom, if_neg stays, ih inside, List.append_assoc,
              List.singleton_append]

theorem textFrom_inside {m n : Mode} {s : Bytes} (inside : m.inside s = some n) (t : Bytes) :
    textFrom m (s ++ t) = textFrom n t := by
  induction s generalizing m with
  | nil =>
      cases m <;> cases inside <;> rfl
  | cons b s ih =>
      cases m with
      | data => cases inside
      | quoted => exact ih inside
      | tag =>
          rw [Mode.inside] at inside
          split at inside
          · cases inside
          · exact ih inside

/-- A tag with this inside. -/
def tag (inside : Bytes) : Bytes := lessThan :: (inside ++ [greaterThan])

section

variable {inside : Bytes} (whole : Mode.tag.inside inside = some .tag)

include whole

theorem closed_tag : Closed (tag inside) := by
  have behind : Mode.after .data (tag inside) = (Mode.tag.after inside).after [greaterThan] :=
    Mode.after_append .tag inside [greaterThan]
  rw [Closed, behind, Mode.after_of_inside whole]
  rfl

theorem tags_tag : tags (tag inside) = [inside] := by
  have opened : tags (tag inside) = tagsFrom .tag [] (inside ++ [greaterThan]) := rfl
  rw [opened, tagsFrom_inside whole, List.nil_append]
  rfl

theorem textFrom_tag : textFrom .data (tag inside) = [] := by
  have opened : textFrom .data (tag inside) = textFrom .tag (inside ++ [greaterThan]) := rfl
  rw [opened, textFrom_inside whole]
  rfl

end

/-! ### Attributes -/

/-- The name in front of the `=` of an attribute. -/
def attributeName (before : Bytes) : Bytes :=
  ((before.splitOn 0x20).getLast?.getD []).takeWhile (· != 0x3d)

/-- The attributes in a tag that has been cut at its quotes. -/
def pairAttributes : List Bytes → List (Bytes × Bytes)
  | before :: value :: rest => (attributeName before, unescapeString value) :: pairAttributes rest
  | _ => []

/-- The attributes of a tag and their values. -/
def attributes (inside : Bytes) : List (Bytes × Bytes) :=
  pairAttributes (inside.splitOn doubleQuote)

/-- The name and the value of a tag of this element: its entry in a submitted
form. -/
def entryOf (element inside : Bytes) : Option (Bytes × Bytes) :=
  if (element ++ [0x20]).isPrefixOf inside then
    match (attributes inside).lookup (ascii "name"), (attributes inside).lookup (ascii "value") with
    | some name, some value => some (name, value)
    | _, _ => none
  else none

/-- The entries of the tags of this element, in order. -/
def entries (element page : Bytes) : List (Bytes × Bytes) := (tags page).filterMap (entryOf element)

theorem attributes_cons {before value : Bytes} (noQuote : doubleQuote ∉ before)
    (noQuoteValue : doubleQuote ∉ value) (rest : Bytes) :
    attributes (before ++ doubleQuote :: (value ++ doubleQuote :: rest)) =
      (attributeName before, unescapeString value) :: attributes rest := by
  rw [attributes, List.splitOn_append_cons_self, List.splitOn_append_cons_self,
    List.splitOn_eq_singleton noQuote, List.splitOn_eq_singleton noQuoteValue]
  rfl

/-! ### What is shown -/

theorem unescapeString_escapeString_append (s t : Bytes) :
    unescapeString (escapeString s ++ t) = s ++ unescapeString t := by
  rw [unescapeString]
  induction s with
  | nil => rfl
  | cons b s ih =>
      rw [escapeString, List.flatMap_cons, List.append_assoc, unescapeFrom_escapeByte]
      exact congrArg (b :: ·) ih

theorem unescapeString_append {s : Bytes} (plain : ampersand ∉ s) (t : Bytes) :
    unescapeString (s ++ t) = s ++ unescapeString t := by
  rw [unescapeString]
  induction s with
  | nil => rfl
  | cons b s ih =>
      rw [List.mem_cons, not_or] at plain
      rw [List.cons_append, unescapeFrom, readReference_of_ne (Ne.symm plain.1)]
      exact congrArg (b :: ·) (ih plain.2)

/-! ### Forms -/

/-- The value that a browser submits: with its line breaks as CR LF, and without
NUL, for which it has read U+FFFD. -/
def submitFrom (afterReturn : Bool) : Bytes → Bytes
  | [] => []
  | b :: s =>
      if b = 0x0d then 0x0d :: 0x0a :: submitFrom true s
      else if b = 0x0a then
        if afterReturn then submitFrom false s else 0x0d :: 0x0a :: submitFrom false s
      else if b = 0x00 then 0xef :: 0xbf :: 0xbd :: submitFrom false s
      else b :: submitFrom false s

/-- The text that a form sends of a value. -/
def submitText (s : Bytes) : Bytes := submitFrom false s

/-- A text of one line without NUL. -/
def OneLine (s : Bytes) : Prop := 0x00 ∉ s ∧ 0x0a ∉ s ∧ 0x0d ∉ s

theorem submitText_of_oneLine {s : Bytes} (oneLine : OneLine s) : submitText s = s := by
  rw [submitText]
  induction s with
  | nil => rfl
  | cons b s ih =>
      simp only [OneLine, List.mem_cons, not_or] at oneLine
      obtain ⟨noNUL, noFeed, noReturn⟩ := oneLine
      rw [submitFrom, if_neg (Ne.symm noReturn.1), if_neg (Ne.symm noFeed.1),
        if_neg (Ne.symm noNUL.1), ih ⟨noNUL.2, noFeed.2, noReturn.2⟩]

end Drover.Html
