import Std.Data.String.ToInt

/-!
# JSON texts

JSON documents and the text that `encoding/json` writes for them.  A number is given by
its text, so that integers and floats are told apart by what is written only.
`render_injective` says that a text belongs to one document.
-/

namespace Drover

/-- The characters of numbers. -/
def isNumberChar (c : Char) : Bool := c.isDigit || c = '-' || c = '+' || c = '.' || c = 'e'

/-- The text of a number. -/
structure NumberText where
  text : List Char
  nonempty : text ≠ []
  isNumber : ∀ c ∈ text, isNumberChar c = true

theorem NumberText.ext_text {t t' : NumberText} (same : t.text = t'.text) : t = t' := by
  cases t
  cases t'
  congr

theorem isNumberChar_of_mem_repr {n : Nat} {c : Char} (mem : c ∈ n.repr.toList) :
    isNumberChar c = true := by
  rw [Nat.repr, String.toList_ofList] at mem
  have isDigit := Nat.isDigit_of_mem_toDigits (by decide) (by decide) mem
  simp [isNumberChar, isDigit]

/-- The decimal text of an integer. -/
def NumberText.ofInt (n : Int) : NumberText where
  text := n.repr.toList
  nonempty := by
    rw [Int.repr_eq_if]
    split
    · rw [Nat.repr, String.toList_ofList]
      exact Nat.toDigits_ne_nil
    · rw [String.toList_append]
      exact List.append_ne_nil_of_left_ne_nil (by decide) _
  isNumber c mem := by
    rw [Int.repr_eq_if] at mem
    split at mem
    · exact isNumberChar_of_mem_repr mem
    · rw [String.toList_append, List.mem_append] at mem
      rcases mem with sign | digit
      · rw [List.mem_singleton.mp sign]
        rfl
      · exact isNumberChar_of_mem_repr digit

theorem NumberText.ofInt_inj {m n : Int} (same : ofInt m = ofInt n) : m = n :=
  Int.repr_injective (String.toList_inj.mp (congrArg NumberText.text same))

/-- A JSON value. -/
inductive Json where
  | null
  | bool (b : Bool)
  | number (t : NumberText)
  | string (s : String)
  | list (vs : List Json)
  | map (es : List (String × Json))

namespace Json

/-! ## Rendering -/

/-- The characters that are escaped by another one. -/
def shortEscapes : List (Char × Char) :=
  [('"', '"'), ('\\', '\\'), ('\x08', 'b'), ('\x0c', 'f'), ('\n', 'n'), ('\r', 'r'), ('\t', 't')]

/-- The character behind the backslash, for those that have a short escape. -/
def shortEscape (c : Char) : Option Char := (shortEscapes.find? fun p => p.1 = c).map Prod.snd

/-- The characters that are escaped by their number. -/
def hexEscaped (c : Char) : Bool :=
  c.toNat < 0x20 || c = '<' || c = '>' || c = '&' || c.toNat = 0x2028 || c.toNat = 0x2029

/-- Four hexadecimal digits. -/
def hex4 (n : Nat) : List Char :=
  [Nat.digitChar (n / 4096 % 16), Nat.digitChar (n / 256 % 16), Nat.digitChar (n / 16 % 16),
    Nat.digitChar (n % 16)]

/-- A character in a string, with `escapeHTML`. -/
def escapeChar (c : Char) : List Char :=
  match shortEscape c with
  | some e => ['\\', e]
  | none => if hexEscaped c then '\\' :: 'u' :: hex4 c.toNat else [c]

/-- A string between its quotes. -/
def quote (s : String) : List Char := '"' :: (s.toList.flatMap escapeChar ++ ['"'])

mutual

/-- The text of a value. -/
def render : Json → List Char
  | .null => ['n', 'u', 'l', 'l']
  | .bool true => ['t', 'r', 'u', 'e']
  | .bool false => ['f', 'a', 'l', 's', 'e']
  | .number t => t.text
  | .string s => quote s
  | .list [] => ['[', ']']
  | .list (v :: vs) => '[' :: (render v ++ renderList vs)
  | .map [] => ['\x7b', '\x7d']
  | .map ((k, v) :: es) => '\x7b' :: (quote k ++ ':' :: (render v ++ renderMap es))

/-- The rest of a list. -/
def renderList : List Json → List Char
  | [] => [']']
  | v :: vs => ',' :: (render v ++ renderList vs)

/-- The rest of a map. -/
def renderMap : List (String × Json) → List Char
  | [] => ['\x7d']
  | (k, v) :: es => ',' :: (quote k ++ ':' :: (render v ++ renderMap es))

end

/-! ## Strings -/

theorem digitChar_inj : ∀ m < 16, ∀ n < 16, Nat.digitChar m = Nat.digitChar n → m = n := by decide

theorem hex4_inj {m n : Nat} (mLt : m < 65536) (nLt : n < 65536) (same : hex4 m = hex4 n) :
    m = n := by
  have digit : ∀ {a b : Nat}, Nat.digitChar (a % 16) = Nat.digitChar (b % 16) → a % 16 = b % 16 :=
    digitChar_inj _ (Nat.mod_lt _ (by decide)) _ (Nat.mod_lt _ (by decide))
  simp only [hex4, List.cons.injEq, and_true] at same
  have first := digit same.1
  have second := digit same.2.1
  have third := digit same.2.2.1
  have fourth := digit same.2.2.2
  omega

theorem mem_shortEscapes {c e : Char} (escaped : shortEscape c = some e) :
    (c, e) ∈ shortEscapes := by
  obtain ⟨p, found, rfl⟩ := Option.map_eq_some_iff.mp escaped
  have same : p.1 = c := of_decide_eq_true (List.find?_some found :)
  exact same ▸ List.mem_of_find?_eq_some found

theorem shortEscape_inj {c d e : Char} (escaped : shortEscape c = some e)
    (also : shortEscape d = some e) : c = d := by
  have table : ∀ p ∈ shortEscapes, ∀ q ∈ shortEscapes, p.2 = q.2 → p.1 = q.1 := by decide
  exact table _ (mem_shortEscapes escaped) _ (mem_shortEscapes also) rfl

theorem shortEscape_ne_u {c e : Char} (escaped : shortEscape c = some e) : e ≠ 'u' := by
  have table : ∀ p ∈ shortEscapes, p.2 ≠ 'u' := by decide
  exact table _ (mem_shortEscapes escaped)

theorem lt_of_hexEscaped {c : Char} (escaped : hexEscaped c = true) : c.toNat < 65536 := by
  simp only [hexEscaped, Bool.or_eq_true, decide_eq_true_eq] at escaped
  rcases escaped with ((((control | rfl) | rfl) | rfl) | line) | paragraph
  · omega
  all_goals first | decide | omega

/-- What a character in a string is written as. -/
inductive Escaped (c : Char) : List Char → Prop
  | short {e : Char} (escaped : shortEscape c = some e) : Escaped c ['\\', e]
  | hex (escaped : hexEscaped c = true) : Escaped c ('\\' :: 'u' :: hex4 c.toNat)
  | plain (noShort : shortEscape c = none) : Escaped c [c]

theorem escaped_escapeChar (c : Char) : Escaped c (escapeChar c) := by
  rw [escapeChar]
  split
  · rename_i escaped
    exact .short escaped
  · rename_i noShort
    split
    · rename_i escaped
      exact .hex escaped
    · exact .plain noShort

theorem ne_of_shortEscape_none {c : Char} (noShort : shortEscape c = none) :
    c ≠ '\\' ∧ c ≠ '"' := by
  constructor
  all_goals
    rintro rfl
    exact absurd noShort (by decide)

/-- Escaped characters are told apart by what they begin with. -/
theorem Escaped.inj {c d : Char} {t u r r' : List Char} (first : Escaped c t) (second : Escaped d u)
    (same : t ++ r = u ++ r') : c = d ∧ r = r' := by
  cases first with
  | short escaped =>
      cases second with
      | short escaped' =>
          simp only [List.cons_append, List.nil_append, List.cons.injEq, true_and] at same
          exact ⟨shortEscape_inj escaped (same.1 ▸ escaped'), same.2⟩
      | hex _ =>
          simp only [List.cons_append, List.cons.injEq, true_and] at same
          exact absurd same.1 (shortEscape_ne_u escaped)
      | plain noShort =>
          simp only [List.cons_append, List.cons.injEq] at same
          exact absurd same.1.symm (ne_of_shortEscape_none noShort).1
  | hex escaped =>
      cases second with
      | short escaped' =>
          simp only [List.cons_append, List.cons.injEq, true_and] at same
          exact absurd same.1.symm (shortEscape_ne_u escaped')
      | hex escaped' =>
          simp only [List.cons_append, List.cons.injEq, true_and] at same
          obtain ⟨digits, rest⟩ := List.append_inj same rfl
          have sameNat := hex4_inj (lt_of_hexEscaped escaped) (lt_of_hexEscaped escaped') digits
          exact ⟨Char.toNat_inj.mp sameNat, rest⟩
      | plain noShort =>
          simp only [List.cons_append, List.cons.injEq] at same
          exact absurd same.1.symm (ne_of_shortEscape_none noShort).1
  | plain noShort =>
      cases second with
      | short | hex =>
          simp only [List.cons_append, List.cons.injEq] at same
          exact absurd same.1 (ne_of_shortEscape_none noShort).1
      | plain noShort' =>
          simp only [List.cons_append, List.nil_append, List.cons.injEq] at same
          exact same

theorem Escaped.ne_quote {c : Char} {t r r' : List Char} (escaped : Escaped c t) :
    t ++ r ≠ '"' :: r' := by
  intro same
  cases escaped with
  | short | hex =>
      simp only [List.cons_append, List.cons.injEq] at same
      exact absurd same.1 (by decide)
  | plain noShort =>
      simp only [List.cons_append, List.cons.injEq] at same
      exact (ne_of_shortEscape_none noShort).2 same.1

theorem escape_inj {cs ds r r' : List Char}
    (same : cs.flatMap escapeChar ++ '"' :: r = ds.flatMap escapeChar ++ '"' :: r') :
    cs = ds ∧ r = r' := by
  induction cs generalizing ds with
  | nil =>
      cases ds with
      | nil => exact ⟨rfl, (List.cons.inj same).2⟩
      | cons d ds =>
          rw [List.flatMap_cons, List.append_assoc] at same
          exact absurd same.symm (escaped_escapeChar d).ne_quote
  | cons c cs ih =>
      rw [List.flatMap_cons, List.append_assoc] at same
      cases ds with
      | nil => exact absurd same (escaped_escapeChar c).ne_quote
      | cons d ds =>
          rw [List.flatMap_cons, List.append_assoc] at same
          obtain ⟨rfl, rest⟩ := (escaped_escapeChar c).inj (escaped_escapeChar d) same
          obtain ⟨rfl, rfl⟩ := ih rest
          exact ⟨rfl, rfl⟩

theorem quote_inj {s t : String} {r r' : List Char} (same : quote s ++ r = quote t ++ r') :
    s = t ∧ r = r' := by
  simp only [quote, List.cons_append, List.append_assoc, List.nil_append, List.cons.injEq,
    true_and] at same
  obtain ⟨chars, rest⟩ := escape_inj same
  exact ⟨String.toList_inj.mp chars, rest⟩

/-! ## Numbers -/

/-- What follows does not go on with a number. -/
def Delimited (r : List Char) : Prop := ∀ c ∈ r.head?, isNumberChar c = false

theorem takeWhile_number (t : NumberText) {r : List Char} (delimited : Delimited r) :
    (t.text ++ r).takeWhile isNumberChar = t.text := by
  rw [List.takeWhile_append_of_pos t.isNumber]
  have noMore : r.takeWhile isNumberChar = [] := by
    cases r with
    | nil => rfl
    | cons c r => rw [List.takeWhile_cons, delimited c rfl, if_neg Bool.false_ne_true]
  rw [noMore, List.append_nil]

theorem number_inj {t t' : NumberText} {r r' : List Char} (delimited : Delimited r)
    (delimited' : Delimited r') (same : t.text ++ r = t'.text ++ r') : t = t' ∧ r = r' := by
  have texts : t.text = t'.text := by
    rw [← takeWhile_number t delimited, same, takeWhile_number t' delimited']
  exact ⟨NumberText.ext_text texts, List.append_cancel_left (texts ▸ same)⟩

/-! ## Documents -/

/-- What a document is, by its first character. -/
def kindOf (c : Char) : Nat :=
  if c = 'n' then 0 else if c = 't' then 1 else if c = 'f' then 2 else if c = '"' then 3
  else if c = '[' then 4 else if c = '\x7b' then 5 else if c = ']' then 6
  else if c = '\x7d' then 7 else 8

/-- What a value is, as its first character tells. -/
def kind : Json → Nat
  | .null => 0
  | .bool true => 1
  | .bool false => 2
  | .string _ => 3
  | .list _ => 4
  | .map _ => 5
  | .number _ => 8

theorem kindOf_number {c : Char} (isNumber : isNumberChar c = true) : kindOf c = 8 := by
  have other {d : Char} (noNumber : isNumberChar d = false) : c ≠ d := by
    rintro rfl
    rw [isNumber] at noNumber
    cases noNumber
  rw [kindOf, if_neg (other rfl), if_neg (other rfl), if_neg (other rfl), if_neg (other rfl),
    if_neg (other rfl), if_neg (other rfl), if_neg (other rfl), if_neg (other rfl)]

theorem kind_ne (v : Json) : v.kind ≠ 6 ∧ v.kind ≠ 7 := by
  cases v with
  | bool b => cases b <;> simp [kind]
  | _ => simp [kind]

theorem render_head (v : Json) : ∃ c rest, v.render = c :: rest ∧ kindOf c = v.kind := by
  cases v with
  | null => exact ⟨_, _, rfl, rfl⟩
  | bool b => cases b <;> exact ⟨_, _, rfl, rfl⟩
  | number t =>
      cases text : t.text with
      | nil => exact absurd text t.nonempty
      | cons c rest =>
          exact ⟨c, rest, text, kindOf_number (t.isNumber c (text ▸ List.mem_cons_self))⟩
  | string s => exact ⟨_, _, rfl, rfl⟩
  | list vs => cases vs <;> exact ⟨_, _, rfl, rfl⟩
  | map es => cases es <;> exact ⟨_, _, rfl, rfl⟩

theorem kind_eq_of_render {v w : Json} {r r' : List Char}
    (same : v.render ++ r = w.render ++ r') : v.kind = w.kind := by
  obtain ⟨c, rest, isHead, isKind⟩ := v.render_head
  obtain ⟨c', rest', isHead', isKind'⟩ := w.render_head
  rw [isHead, isHead', List.cons_append, List.cons_append, List.cons.injEq] at same
  rw [← isKind, ← isKind', same.1]

/-- No document begins as the rest of a list or of a map does. -/
theorem render_ne {v : Json} {c : Char} {r r' : List Char} (other : kindOf c = 6 ∨ kindOf c = 7) :
    v.render ++ r ≠ c :: r' := by
  intro same
  obtain ⟨c', rest, isHead, isKind⟩ := v.render_head
  rw [isHead, List.cons_append, List.cons.injEq] at same
  rw [← same.1, isKind] at other
  exact other.elim v.kind_ne.1 v.kind_ne.2

theorem delimited_renderList (vs : List Json) (r : List Char) : Delimited (renderList vs ++ r) := by
  cases vs <;> exact fun c isHead => Option.some.inj isHead ▸ rfl

theorem delimited_renderMap (es : List (String × Json)) (r : List Char) :
    Delimited (renderMap es ++ r) := by
  cases es <;> exact fun c isHead => Option.some.inj isHead ▸ rfl

mutual

/-- A document ends where its text does. -/
theorem render_inj (v w : Json) {r r' : List Char} (delimited : Delimited r)
    (delimited' : Delimited r') (same : v.render ++ r = w.render ++ r') : v = w ∧ r = r' := by
  have kinds := kind_eq_of_render same
  cases v with
  | null =>
      cases w with
      | null => exact ⟨rfl, List.append_cancel_left same⟩
      | bool b => cases b <;> cases kinds
      | _ => cases kinds
  | bool b =>
      cases w with
      | bool b' =>
          cases b <;> cases b'
          case false.false | true.true => exact ⟨rfl, List.append_cancel_left same⟩
          case false.true | true.false => cases kinds
      | _ => cases b <;> cases kinds
  | number t =>
      cases w with
      | number t' =>
          obtain ⟨rfl, rest⟩ := number_inj delimited delimited' same
          exact ⟨rfl, rest⟩
      | bool b => cases b <;> cases kinds
      | _ => cases kinds
  | string s =>
      cases w with
      | string t =>
          obtain ⟨rfl, rest⟩ := quote_inj same
          exact ⟨rfl, rest⟩
      | bool b => cases b <;> cases kinds
      | _ => cases kinds
  | list vs =>
      cases w with
      | list ws =>
          cases vs with
          | nil =>
              cases ws with
              | nil => exact ⟨rfl, List.append_cancel_left same⟩
              | cons w ws =>
                  simp only [render, List.cons_append, List.nil_append, List.append_assoc,
                    List.cons.injEq, true_and] at same
                  exact absurd same.symm (render_ne (.inl rfl))
          | cons v vs =>
              cases ws with
              | nil =>
                  simp only [render, List.cons_append, List.nil_append, List.append_assoc,
                    List.cons.injEq, true_and] at same
                  exact absurd same (render_ne (.inl rfl))
              | cons w ws =>
                  simp only [render, List.cons_append, List.append_assoc, List.cons.injEq,
                    true_and] at same
                  obtain ⟨rfl, rest⟩ := render_inj v w (delimited_renderList vs r)
                    (delimited_renderList ws r') same
                  obtain ⟨rfl, end_⟩ := renderList_inj vs ws rest
                  exact ⟨rfl, end_⟩
      | bool b => cases b <;> cases kinds
      | _ => cases kinds
  | map es =>
      cases w with
      | map fs =>
          cases es with
          | nil =>
              cases fs with
              | nil => exact ⟨rfl, List.append_cancel_left same⟩
              | cons f fs => exact absurd (List.cons.inj (List.cons.inj same).2).1 (by decide)
          | cons e es =>
              obtain ⟨k, v⟩ := e
              cases fs with
              | nil => exact absurd (List.cons.inj (List.cons.inj same).2).1 (by decide)
              | cons f fs =>
                  obtain ⟨k', w⟩ := f
                  simp only [render, List.cons_append, List.append_assoc, List.cons.injEq,
                    true_and] at same
                  obtain ⟨rfl, value⟩ := quote_inj same
                  obtain ⟨rfl, rest⟩ := render_inj v w (delimited_renderMap es r)
                    (delimited_renderMap fs r') (List.cons.inj value).2
                  obtain ⟨rfl, end_⟩ := renderMap_inj es fs rest
                  exact ⟨rfl, end_⟩
      | bool b => cases b <;> cases kinds
      | _ => cases kinds

theorem renderList_inj (vs ws : List Json) {r r' : List Char}
    (same : renderList vs ++ r = renderList ws ++ r') : vs = ws ∧ r = r' := by
  cases vs with
  | nil =>
      cases ws with
      | nil => exact ⟨rfl, List.append_cancel_left same⟩
      | cons w ws => exact absurd (List.cons.inj same).1 (by decide)
  | cons v vs =>
      cases ws with
      | nil => exact absurd (List.cons.inj same).1 (by decide)
      | cons w ws =>
          simp only [renderList, List.cons_append, List.append_assoc, List.cons.injEq,
            true_and] at same
          obtain ⟨rfl, rest⟩ := render_inj v w (delimited_renderList vs r)
            (delimited_renderList ws r') same
          obtain ⟨rfl, end_⟩ := renderList_inj vs ws rest
          exact ⟨rfl, end_⟩

theorem renderMap_inj (es fs : List (String × Json)) {r r' : List Char}
    (same : renderMap es ++ r = renderMap fs ++ r') : es = fs ∧ r = r' := by
  cases es with
  | nil =>
      cases fs with
      | nil => exact ⟨rfl, List.append_cancel_left same⟩
      | cons f fs => exact absurd (List.cons.inj same).1 (by decide)
  | cons e es =>
      obtain ⟨k, v⟩ := e
      cases fs with
      | nil => exact absurd (List.cons.inj same).1 (by decide)
      | cons f fs =>
          obtain ⟨k', w⟩ := f
          simp only [renderMap, List.cons_append, List.append_assoc, List.cons.injEq,
            true_and] at same
          obtain ⟨rfl, value⟩ := quote_inj same
          obtain ⟨rfl, rest⟩ := render_inj v w (delimited_renderMap es r)
            (delimited_renderMap fs r') (List.cons.inj value).2
          obtain ⟨rfl, end_⟩ := renderMap_inj es fs rest
          exact ⟨rfl, end_⟩

end

/-- A text belongs to one document. -/
theorem render_injective {v w : Json} (same : v.render = w.render) : v = w :=
  (@render_inj v w [] [] nofun nofun (congrArg (· ++ []) same)).1

end Json

end Drover
