import Drover.Stream.Marker

/-!
# Bracketed units in streams

A stream of plain text with units between an opening and a closing marker.
`parse` reads it as a whole.  `parse_append` says what a reader that sees the
stream in pieces has to remember: the pending tail of the parse, nothing else.
-/

namespace Drover.Stream

universe u

/-- An opening and a closing marker. -/
structure Brackets (β : Type u) where
  opening : List β
  closing : List β
  opening_ne : opening ≠ []
  closing_ne : closing ≠ []

/-- The parse of a stream. -/
inductive Parsed (β : Type u) where
  /-- No further unit begins; `tail` could still be the start of one. -/
  | plain (text tail : List β)
  /-- A unit begins and does not end. -/
  | unfinished (text payload : List β)
  /-- A finished unit. -/
  | unit (text payload : List β) (rest : Parsed β)
  deriving DecidableEq

/-- One element of plain text, or one finished unit. -/
inductive Item (β : Type u) where
  | plain (b : β)
  | unit (payload : List β)
  deriving DecidableEq

variable {β : Type u}

namespace Parsed

/-- What a reader has to keep: bytes not yet known to be plain text. -/
def pending (m : Brackets β) : Parsed β → List β
  | plain _ tail => tail
  | unfinished _ payload => m.opening ++ payload
  | unit _ _ rest => rest.pending m

/-- The settled items, in order. -/
def items : Parsed β → List (Item β)
  | plain text _ => text.map Item.plain
  | unfinished text _ => text.map Item.plain
  | unit text payload rest => text.map Item.plain ++ Item.unit payload :: rest.items

/-- The payloads of the finished units. -/
def payloads : Parsed β → List (List β)
  | plain _ _ => []
  | unfinished _ _ => []
  | unit _ payload rest => payload :: rest.payloads

/-- The settled pieces of plain text. -/
def texts : Parsed β → List (List β)
  | plain text _ => [text]
  | unfinished text _ => [text]
  | unit text _ rest => text :: rest.texts

/-- Does the stream end inside a unit? -/
def inside : Parsed β → Bool
  | plain _ _ => false
  | unfinished _ _ => true
  | unit _ _ rest => rest.inside

/-- More plain text in front. -/
def prepend (front : List β) : Parsed β → Parsed β
  | plain text tail => plain (front ++ text) tail
  | unfinished text payload => unfinished (front ++ text) payload
  | unit text payload rest => unit (front ++ text) payload rest

/-- Replace the pending tail by what became of it. -/
def continued : Parsed β → Parsed β → Parsed β
  | plain text _, later => later.prepend text
  | unfinished text _, later => later.prepend text
  | unit text payload rest, later => unit text payload (rest.continued later)

/-- The bytes that were parsed. -/
def flatten (m : Brackets β) : Parsed β → List β
  | plain text tail => text ++ tail
  | unfinished text payload => text ++ (m.opening ++ payload)
  | unit text payload rest => text ++ (m.opening ++ payload ++ m.closing) ++ rest.flatten m

@[simp]
theorem items_prepend (front : List β) (p : Parsed β) :
    (p.prepend front).items = front.map Item.plain ++ p.items := by
  cases p <;> simp [prepend, items]

@[simp]
theorem pending_prepend (m : Brackets β) (front : List β) (p : Parsed β) :
    (p.prepend front).pending m = p.pending m := by
  cases p <;> rfl

@[simp]
theorem inside_prepend (front : List β) (p : Parsed β) : (p.prepend front).inside = p.inside := by
  cases p <;> rfl

@[simp]
theorem items_continued (p later : Parsed β) :
    (p.continued later).items = p.items ++ later.items := by
  induction p with
  | plain text tail => rw [continued, items_prepend, items]
  | unfinished text payload => rw [continued, items_prepend, items]
  | unit text payload rest ih =>
      rw [continued, items, items, ih, List.append_assoc, List.cons_append]

@[simp]
theorem pending_continued (m : Brackets β) (p later : Parsed β) :
    (p.continued later).pending m = later.pending m := by
  induction p with
  | plain text tail => rw [continued, pending_prepend]
  | unfinished text payload => rw [continued, pending_prepend]
  | unit text payload rest ih => rw [continued, pending, ih]

@[simp]
theorem inside_continued (p later : Parsed β) : (p.continued later).inside = later.inside := by
  induction p with
  | plain text tail => rw [continued, inside_prepend]
  | unfinished text payload => rw [continued, inside_prepend]
  | unit text payload rest ih => rw [continued, inside, ih]

end Parsed

variable [DecidableEq β] (m : Brackets β)

theorem Brackets.rest_lt {input before after inner rest : List β}
    (opened : cutAt m.opening input = some (before, after))
    (closed : cutAt m.closing after = some (inner, rest)) : rest.length < input.length := by
  have whole := congrArg List.length (cutAt_eq_append opened)
  have body := congrArg List.length (cutAt_eq_append closed)
  have nonempty := List.length_pos_iff.mpr m.closing_ne
  simp only [List.length_append] at whole body
  omega

/-- Read a whole stream. -/
def parse (input : List β) : Parsed β :=
  match _opened : cutAt m.opening input with
  | none => .plain (released m.opening input) (held m.opening input)
  | some (before, after) =>
      match _closed : cutAt m.closing after with
      | none => .unfinished before after
      | some (inner, rest) => .unit before inner (parse rest)
termination_by input.length
decreasing_by exact m.rest_lt _opened _closed

variable {m}

theorem parse_of_none {input : List β} (opened : cutAt m.opening input = none) :
    parse m input = .plain (released m.opening input) (held m.opening input) := by
  rw [parse]
  split
  · rfl
  · rename_i found
    rw [opened] at found
    cases found

@[simp]
theorem parse_nil : parse m [] = .plain [] [] := parse_of_none rfl

theorem parse_of_unfinished {input before after : List β}
    (opened : cutAt m.opening input = some (before, after))
    (closed : cutAt m.closing after = none) :
    parse m input = .unfinished before after := by
  rw [parse]
  split
  · rename_i found
    rw [opened] at found
    cases found
  · rename_i found
    rw [opened] at found
    cases found
    split
    · rfl
    · rename_i closed'
      rw [closed] at closed'
      cases closed'

theorem parse_of_unit {input before after inner rest : List β}
    (opened : cutAt m.opening input = some (before, after))
    (closed : cutAt m.closing after = some (inner, rest)) :
    parse m input = .unit before inner (parse m rest) := by
  rw [parse]
  split
  · rename_i found
    rw [opened] at found
    cases found
  · rename_i found
    rw [opened] at found
    cases found
    split
    · rename_i closed'
      rw [closed] at closed'
      cases closed'
    · rename_i closed'
      rw [closed] at closed'
      cases closed'
      rfl

/-- The three shapes of a parse, with the induction hypothesis for the rest
after a finished unit. -/
theorem parse_induction {motive : List β → Prop}
    (plain : ∀ input, cutAt m.opening input = none → motive input)
    (unfinished : ∀ input before after, cutAt m.opening input = some (before, after) →
      cutAt m.closing after = none → motive input)
    (unit : ∀ input before after inner rest, cutAt m.opening input = some (before, after) →
      cutAt m.closing after = some (inner, rest) → motive rest → motive input)
    (input : List β) : motive input := by
  induction input using parse.induct m with
  | case1 input opened => exact plain input opened
  | case2 input before after opened closed => exact unfinished input before after opened closed
  | case3 input before after opened inner rest closed ih =>
      exact unit input before after inner rest opened closed ih

/-- Text in front that neither contains nor begins a unit. -/
theorem parse_append_of_text {front input : List β}
    (cut : cutAt m.opening (front ++ input) =
      (cutAt m.opening input).map fun cut => (front ++ cut.1, cut.2))
    (tail : held m.opening (front ++ input) = held m.opening input) :
    parse m (front ++ input) = (parse m input).prepend front := by
  cases opened : cutAt m.opening input with
  | none =>
      have text : released m.opening (front ++ input) = front ++ released m.opening input := by
        have whole := released_append_held m.opening (front ++ input)
        rw [tail] at whole
        have parts :
            front ++ released m.opening input ++ held m.opening input = front ++ input := by
          rw [List.append_assoc, released_append_held]
        exact List.append_cancel_right (whole.trans parts.symm)
      rw [opened] at cut
      rw [parse_of_none cut, parse_of_none opened, tail, text, Parsed.prepend]
  | some found =>
      obtain ⟨before, after⟩ := found
      rw [opened] at cut
      cases closed : cutAt m.closing after with
      | none =>
          rw [parse_of_unfinished cut closed, parse_of_unfinished opened closed, Parsed.prepend]
      | some found =>
          rw [parse_of_unit cut closed, parse_of_unit opened closed, Parsed.prepend]

/-- Up to its first opening marker a stream is plain text. -/
theorem parse_of_opened {input before after : List β}
    (opened : cutAt m.opening input = some (before, after)) :
    parse m input = (parse m (m.opening ++ after)).prepend before := by
  have again := cutAt_of_isPrefix m.opening_ne after
  cases closed : cutAt m.closing after with
  | none =>
      rw [parse_of_unfinished opened closed, parse_of_unfinished again closed]
      simp [Parsed.prepend]
  | some found =>
      rw [parse_of_unit opened closed, parse_of_unit again closed]
      simp [Parsed.prepend]

/-- A parse is continued from its pending tail. -/
theorem parse_append (xs ys : List β) :
    parse m (xs ++ ys) = (parse m xs).continued (parse m ((parse m xs).pending m ++ ys)) := by
  induction xs using parse_induction (m := m) with
  | plain xs opened =>
      have split : xs ++ ys =
          released m.opening xs ++ (held m.opening xs ++ ys) := by
        rw [← List.append_assoc, released_append_held]
      rw [parse_of_none opened, Parsed.continued, Parsed.pending]
      rw [split, parse_append_of_text]
      · rw [← split]
        exact cutAt_append_of_none opened ys
      · rw [← split]
        exact held_append m.opening xs ys
  | unfinished xs before after opened closed =>
      rw [parse_of_unfinished opened closed, Parsed.continued, Parsed.pending, List.append_assoc]
      exact parse_of_opened (cutAt_append_of_some opened ys)
  | unit xs before after inner rest opened closed ih =>
      rw [parse_of_unit opened closed,
        parse_of_unit (cutAt_append_of_some opened ys) (cutAt_append_of_some closed ys),
        ih, Parsed.continued, Parsed.pending]

/-- Nothing is lost in a parse. -/
@[simp]
theorem flatten_parse (input : List β) : (parse m input).flatten m = input := by
  induction input using parse_induction (m := m) with
  | plain input opened => rw [parse_of_none opened, Parsed.flatten, released_append_held]
  | unfinished input before after opened closed =>
      rw [parse_of_unfinished opened closed, Parsed.flatten, cutAt_eq_append opened,
        List.append_assoc]
  | unit input before after inner rest opened closed ih =>
      rw [parse_of_unit opened closed, Parsed.flatten, ih, cutAt_eq_append opened,
        cutAt_eq_append closed]
      simp only [List.append_assoc]

/-- A unit behind plain text, both without the marker that ends them. -/
theorem parse_text_unit (opening : held m.opening m.opening = [])
    (closing : held m.closing m.closing = []) {text payload : List β}
    (plain : ¬ m.opening <:+: text) (closed : ¬ m.closing <:+: payload) (rest : List β) :
    parse m (text ++ (m.opening ++ (payload ++ (m.closing ++ rest)))) =
      .unit text payload (parse m rest) :=
  parse_of_unit (cutAt_append_marker m.opening_ne opening plain _)
    (cutAt_append_marker m.closing_ne closing closed rest)

/-- A shorter stream has settled no more items. -/
theorem items_isPrefix (xs ys : List β) :
    (parse m xs).items <+: (parse m (xs ++ ys)).items := by
  rw [parse_append, Parsed.items_continued]
  exact List.prefix_append _ _

omit [DecidableEq β] in
theorem Parsed.flatten_of_items_nil {p : Parsed β} (empty : p.items = []) :
    p.flatten m = p.pending m := by
  cases p with
  | plain text tail =>
      rw [items, List.map_eq_nil_iff] at empty
      rw [flatten, pending, empty, List.nil_append]
  | unfinished text payload =>
      rw [items, List.map_eq_nil_iff] at empty
      rw [flatten, pending, empty, List.nil_append]
  | unit text payload rest => simp [items] at empty

/-- A stream that ends with an item has settled it only when it is complete. -/
theorem items_isPrefix_of_cut {xs ys : List β} {front : List (Item β)} {last : Item β}
    (items : (parse m (xs ++ ys)).items = front ++ [last])
    (ended : (parse m (xs ++ ys)).pending m = []) (cut : ys ≠ []) :
    (parse m xs).items <+: front := by
  have isPrefix := items_isPrefix (m := m) xs ys
  rw [items] at isPrefix
  rcases List.prefix_concat_iff.mp isPrefix with all | fewer
  · rw [parse_append, Parsed.items_continued, all] at items
    rw [parse_append, Parsed.pending_continued] at ended
    have rest := Parsed.flatten_of_items_nil (m := m) (List.append_right_eq_self.mp items)
    rw [flatten_parse, ended, List.append_eq_nil_iff] at rest
    exact absurd rest.2 cut
  · exact fewer

/-- Outside units the pending tail is what the whole stream holds, if no opening
marker reaches back over a closing one. -/
theorem pending_parse_of_outside
    (separated : ∀ xs, held m.opening (xs ++ m.closing) = []) {input : List β}
    (outside : (parse m input).inside = false) :
    (parse m input).pending m = held m.opening input := by
  induction input using parse_induction (m := m) with
  | plain input opened => rw [parse_of_none opened, Parsed.pending]
  | unfinished input before after opened closed =>
      rw [parse_of_unfinished opened closed] at outside
      cases outside
  | unit input before after inner rest opened closed ih =>
      rw [parse_of_unit opened closed] at outside ⊢
      rw [Parsed.pending, ih outside, cutAt_eq_append opened, cutAt_eq_append closed,
        ← List.append_assoc, ← List.append_assoc, held_append, separated, List.nil_append]

/-- Inside a unit the pending tail is the unfinished unit. -/
theorem pending_parse_of_inside {input : List β} (inside : (parse m input).inside = true) :
    ∃ payload, (parse m input).pending m = m.opening ++ payload ∧ ¬ m.closing <:+: payload := by
  induction input using parse_induction (m := m) with
  | plain input opened =>
      rw [parse_of_none opened] at inside
      cases inside
  | unfinished input before after opened closed =>
      rw [parse_of_unfinished opened closed]
      exact ⟨after, rfl, (cutAt_eq_none_iff m.closing_ne).mp closed⟩
  | unit input before after inner rest opened closed ih =>
      rw [parse_of_unit opened closed] at inside ⊢
      exact ih inside

/-- No opening marker occurs in the plain text. -/
theorem not_infix_of_mem_texts {input text : List β} (mem : text ∈ (parse m input).texts) :
    ¬ m.opening <:+: text := by
  induction input using parse_induction (m := m) with
  | plain input opened =>
      rw [parse_of_none opened, Parsed.texts, List.mem_singleton] at mem
      subst mem
      intro occurs
      have inInput : m.opening <:+: input := by
        rw [← released_append_held m.opening input]
        exact occurs.trans (List.prefix_append _ _).isInfix
      exact (cutAt_eq_none_iff m.opening_ne).mp opened inInput
  | unfinished input before after opened closed =>
      rw [parse_of_unfinished opened closed, Parsed.texts, List.mem_singleton] at mem
      subst mem
      exact not_infix_before m.opening_ne opened
  | unit input before after inner rest opened closed ih =>
      rw [parse_of_unit opened closed, Parsed.texts, List.mem_cons] at mem
      rcases mem with same | later
      · subst same
        exact not_infix_before m.opening_ne opened
      · exact ih later

end Drover.Stream
