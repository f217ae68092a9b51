import Drover.Term.Page

/-!
# Producer streams

What the producer sends over one connection: a META with `v=2`, a history body,
`hist_end`, and frames.  `Producer.items_received` lists what the filter has
settled after any prefix of it.
-/

namespace Drover.Term

open Drover.Stream

/-- The separator of a payload, `;`. -/
def semicolon : UInt8 := 0x3b

/-- A `key=value` part of a META other than `v` and `hist`. -/
structure Field where
  key : Bytes
  value : Bytes
  key_clean : ∀ b ∈ key, b ≠ 0x1b ∧ b ≠ semicolon ∧ b ≠ 0x3d
  value_clean : ∀ b ∈ value, b ≠ 0x1b ∧ b ≠ semicolon
  key_ne_v : key ≠ ascii "v"
  key_ne_hist : key ≠ ascii "hist"

/-- `key=value`. -/
def Field.render (field : Field) : Bytes := field.key ++ ascii "=" ++ field.value

/-- A well-formed stream of the producer. -/
structure Producer where
  hist : Bool
  before : List Field
  after : List Field
  body : Bytes
  frames : Bytes
  body_clean : ¬ OSC <:+: body
  frames_clean : ¬ OSC <:+: frames

namespace Producer

/-- `hist=0` or `hist=1`. -/
def histPart (hist : Bool) : Bytes := if hist then ascii "hist=1" else ascii "hist=0"

/-- The parts of the META after `v=2`. -/
def parts (s : Producer) : List Bytes :=
  s.before.map Field.render ++ histPart s.hist :: s.after.map Field.render

/-- The payload of the META: `v=2;…;hist=…;…`. -/
def payload (s : Producer) : Bytes := [semicolon].intercalate (ascii "v=2" :: s.parts)

/-- A control unit, as the producer writes it. -/
def control (payload : Bytes) : Bytes := OSC ++ (payload ++ ST)

/-- The META unit. -/
def metaUnit (s : Producer) : Bytes := control s.payload

/-- The history section: META, body and `hist_end`. -/
def historySection (s : Producer) : Bytes := s.metaUnit ++ (s.body ++ control (ascii "hist_end"))

/-- The whole stream. -/
def bytes (s : Producer) : Bytes := s.historySection ++ s.frames

/-! ## The META payload -/

theorem indexOf_eq {key : Bytes} (clean : (0x3d : UInt8) ∉ key) (value : Bytes) :
    indexOf (key ++ ascii "=" ++ value) (ascii "=") = some key.length := by
  induction key with
  | nil => simp [indexOf, ascii]
  | cons b key ih =>
      have differs : ¬ ascii "=" <+: b :: (key ++ ascii "=" ++ value) := by
        intro isPrefix
        have same : (0x3d : UInt8) = b := (List.cons_prefix_cons.mp isPrefix).1
        exact clean (same ▸ List.mem_cons_self)
      rw [List.cons_append, List.cons_append, indexOf, if_neg differs,
        ih fun mem => clean (List.mem_cons_of_mem _ mem)]
      rfl

theorem metaPart_eq {key : Bytes} (clean : (0x3d : UInt8) ∉ key) (value : Bytes) :
    metaPart (key ++ ascii "=" ++ value) = (key, metaValue value) := by
  rw [metaPart, indexOf_eq clean]
  simp [ascii, List.take_left', List.append_assoc]

theorem metaPart_render (field : Field) :
    metaPart field.render = (field.key, metaValue field.value) :=
  metaPart_eq (fun mem => (field.key_clean _ mem).2.2 rfl) field.value

theorem metaPart_histPart (hist : Bool) :
    metaPart (histPart hist) = (ascii "hist", .num (if hist then 1 else 0)) := by
  cases hist <;> decide

theorem semicolon_notMem_render (field : Field) : semicolon ∉ field.render := by
  intro mem
  rw [Field.render, List.mem_append, List.mem_append] at mem
  rcases mem with (inKey | isEq) | inValue
  · exact (field.key_clean _ inKey).2.1 rfl
  · exact absurd isEq (by decide)
  · exact (field.value_clean _ inValue).2 rfl

theorem semicolon_notMem_parts (s : Producer) : ∀ part ∈ s.parts, semicolon ∉ part := by
  intro part mem
  rw [parts, List.mem_append, List.mem_cons] at mem
  rcases mem with inBefore | rfl | inAfter
  · obtain ⟨field, -, rfl⟩ := List.mem_map.mp inBefore
    exact semicolon_notMem_render field
  · cases s.hist <;> decide
  · obtain ⟨field, -, rfl⟩ := List.mem_map.mp inAfter
    exact semicolon_notMem_render field

theorem splitOn_payload (s : Producer) : s.payload.splitOn semicolon = ascii "v=2" :: s.parts := by
  refine List.splitOn_intercalate semicolon (fun part mem => ?_) (by simp)
  rcases List.mem_cons.mp mem with rfl | inParts
  · decide
  · exact semicolon_notMem_parts s part inParts

/-- One assignment of `cmParseMeta`. -/
def assign (o : Bytes → Option MetaValue) (part : Bytes) : Bytes → Option MetaValue :=
  Function.update o (metaPart part).1 (some (metaPart part).2)

theorem foldl_assign_of_ne {key : Bytes} {list : List Bytes}
    (others : ∀ part ∈ list, (metaPart part).1 ≠ key) (o : Bytes → Option MetaValue) :
    list.foldl assign o key = o key := by
  induction list generalizing o with
  | nil => rfl
  | cons part list ih =>
      rw [List.foldl_cons, ih fun later mem => others later (List.mem_cons_of_mem _ mem), assign,
        Function.update_of_ne (others part List.mem_cons_self).symm]

theorem cmParseMeta_payload (s : Producer) :
    cmParseMeta s.payload = (ascii "v=2" :: s.parts).foldl assign fun _ => none := by
  rw [← splitOn_payload]
  rfl

theorem cmParseMeta_v (s : Producer) : cmParseMeta s.payload (ascii "v") = some (.num 2) := by
  rw [cmParseMeta_payload, List.foldl_cons, foldl_assign_of_ne]
  · decide
  · intro part mem
    rw [parts, List.mem_append, List.mem_cons] at mem
    rcases mem with inBefore | rfl | inAfter
    · obtain ⟨field, -, rfl⟩ := List.mem_map.mp inBefore
      rw [metaPart_render]
      exact field.key_ne_v
    · rw [metaPart_histPart]
      exact (by decide : ascii "hist" ≠ ascii "v")
    · obtain ⟨field, -, rfl⟩ := List.mem_map.mp inAfter
      rw [metaPart_render]
      exact field.key_ne_v

theorem cmParseMeta_hist (s : Producer) :
    cmParseMeta s.payload (ascii "hist") = some (.num (if s.hist then 1 else 0)) := by
  rw [cmParseMeta_payload, parts, List.foldl_cons, List.foldl_append, List.foldl_cons,
    foldl_assign_of_ne]
  · rw [assign, metaPart_histPart, Function.update_self]
  · intro part mem
    obtain ⟨field, -, rfl⟩ := List.mem_map.mp mem
    rw [metaPart_render]
    exact field.key_ne_hist

/-! ## What the filter sees in the payload -/

theorem cons_isInfix_append {b : UInt8} {text : Bytes} (absent : b ∉ text) (word rest : Bytes) :
    b :: word <:+: text ++ b :: rest ↔ word <+: rest ∨ b :: word <:+: rest := by
  induction text with
  | nil => rw [List.nil_append, List.infix_cons_iff, List.prefix_cons_inj]
  | cons c text ih =>
      have notHere : ¬ b :: word <+: c :: (text ++ b :: rest) := fun isPrefix =>
        absent ((List.cons_prefix_cons.mp isPrefix).1 ▸ List.mem_cons_self)
      rw [List.cons_append, List.infix_cons_iff, ih fun mem => absent (List.mem_cons_of_mem _ mem)]
      exact or_iff_right notHere

theorem isPrefix_append_cons {b : UInt8} {word : Bytes} (absent : b ∉ word) (text rest : Bytes) :
    word <+: text ++ b :: rest ↔ word <+: text := by
  refine ⟨fun isPrefix => ?_, fun isPrefix => isPrefix.trans (List.prefix_append _ _)⟩
  rcases List.prefix_or_prefix_of_prefix isPrefix (List.prefix_append text (b :: rest)) with
    fits | ⟨tail, rfl⟩
  · exact fits
  · rw [List.prefix_append_right_inj] at isPrefix
    cases tail with
    | nil => rw [List.append_nil]
    | cons c tail =>
        rw [(List.cons_prefix_cons.mp isPrefix).1] at absent
        simp at absent

/-- A word behind a separator begins one of the later parts. -/
theorem cons_isInfix_intercalate {word first : Bytes} {later : List Bytes}
    (wordClean : semicolon ∉ word) (firstClean : semicolon ∉ first)
    (laterClean : ∀ part ∈ later, semicolon ∉ part) :
    semicolon :: word <:+: [semicolon].intercalate (first :: later) ↔
      ∃ part ∈ later, word <+: part := by
  induction later generalizing first with
  | nil =>
      rw [List.intercalate_singleton]
      refine ⟨fun occurs => absurd (occurs.subset List.mem_cons_self) firstClean, ?_⟩
      rintro ⟨part, mem, -⟩
      cases mem
  | cons part later ih =>
      have partClean := laterClean part List.mem_cons_self
      have begins : word <+: [semicolon].intercalate (part :: later) ↔ word <+: part := by
        cases later with
        | nil => rw [List.intercalate_singleton]
        | cons next later =>
            rw [List.intercalate_cons_cons, List.append_assoc]
            exact isPrefix_append_cons wordClean part _
      rw [List.intercalate_cons_cons, List.append_assoc, List.singleton_append,
        cons_isInfix_append firstClean, begins,
        ih partClean fun part mem => laterClean part (List.mem_cons_of_mem _ mem)]
      simp

theorem v_isPrefix_payload (s : Producer) : ascii "v=" <+: s.payload := by
  have nonempty : s.parts ≠ [] := by simp [parts]
  rw [payload, List.intercalate_cons_of_ne_nil nonempty, List.append_assoc]
  exact (show ascii "v=" <+: ascii "v=2" by decide).trans (List.prefix_append _ _)

theorem hist_isInfix_payload (s : Producer) : ascii ";hist=1" <:+: s.payload ↔ s.hist = true := by
  rw [show ascii ";hist=1" = semicolon :: ascii "hist=1" by decide, payload,
    cons_isInfix_intercalate (by decide) (by decide) s.semicolon_notMem_parts]
  have notField : ∀ field : Field, ¬ ascii "hist=1" <+: field.render := by
    rintro field ⟨tail, same⟩
    have key := metaPart_render field
    rw [← same, show ascii "hist=1" ++ tail = ascii "hist" ++ ascii "=" ++ (ascii "1" ++ tail) from
      rfl, metaPart_eq (by decide)] at key
    exact field.key_ne_hist (congrArg Prod.fst key).symm
  constructor
  · rintro ⟨part, mem, isPrefix⟩
    rw [parts, List.mem_append, List.mem_cons] at mem
    rcases mem with inBefore | rfl | inAfter
    · obtain ⟨field, -, rfl⟩ := List.mem_map.mp inBefore
      exact absurd isPrefix (notField field)
    · cases hist : s.hist with
      | true => rfl
      | false =>
          rw [hist] at isPrefix
          exact absurd isPrefix (by decide)
    · obtain ⟨field, -, rfl⟩ := List.mem_map.mp inAfter
      exact absurd isPrefix (notField field)
  · intro hist
    refine ⟨histPart s.hist, by simp [parts], ?_⟩
    rw [hist]
    decide

/-- The META opens a history section. -/
theorem next_payload (s : Producer) (h : History) :
    h.next s.payload = { h with inHist := true, blockHasHist := s.hist } := by
  rw [History.next, if_pos s.v_isPrefix_payload]
  congr 1
  rw [Bool.eq_iff_iff, decide_eq_true_iff]
  exact s.hist_isInfix_payload

/-- `hist_end` closes it. -/
theorem next_histEnd (h : History) :
    h.next (ascii "hist_end") =
      { h with inHist := false, histDone := if h.blockHasHist then true else h.histDone } := by
  rw [History.next, if_neg (by decide), if_pos rfl]

/-- `onMeta` takes the history for received at the META already. -/
theorem onMeta_payload (s : Producer) (histGot : Bool) :
    Page.onMeta histGot s.payload = (histGot || s.hist) := by
  rw [Page.onMeta, cmParseMeta_v, cmParseMeta_hist]
  cases histGot <;> cases s.hist <;> rfl

theorem onMeta_histEnd (histGot : Bool) : Page.onMeta histGot (ascii "hist_end") = histGot := by
  rw [Page.onMeta, if_neg (by decide)]

/-! ## What the filter has settled -/

theorem esc_notMem_render (field : Field) : (0x1b : UInt8) ∉ field.render := by
  intro mem
  rw [Field.render, List.mem_append, List.mem_append] at mem
  rcases mem with (inKey | isEq) | inValue
  · exact (field.key_clean _ inKey).1 rfl
  · exact absurd isEq (by decide)
  · exact (field.value_clean _ inValue).1 rfl

theorem notMem_intercalate {b : UInt8} (differs : b ≠ semicolon) {list : List Bytes}
    (clean : ∀ part ∈ list, b ∉ part) : b ∉ [semicolon].intercalate list := by
  induction list with
  | nil => simp
  | cons part list ih =>
      have partClean := clean part List.mem_cons_self
      have rest := ih fun part mem => clean part (List.mem_cons_of_mem _ mem)
      cases list with
      | nil => rwa [List.intercalate_singleton]
      | cons next list =>
          rw [List.intercalate_cons_cons]
          simp only [List.mem_append, List.mem_singleton, not_or]
          exact ⟨⟨partClean, differs⟩, rest⟩

theorem length_le_intercalate {list : List Bytes} {part : Bytes} (mem : part ∈ list) :
    part.length ≤ ([semicolon].intercalate list).length := by
  induction list with
  | nil => cases mem
  | cons first list ih =>
      cases list with
      | nil =>
          rw [List.mem_singleton] at mem
          rw [mem, List.intercalate_singleton]
      | cons next list =>
          rw [List.intercalate_cons_cons, List.length_append, List.length_append]
          rcases List.mem_cons.mp mem with rfl | later
          · omega
          · have rest := ih later
            omega

/-- The payload of the META is longer than `hist_end`. -/
theorem histEnd_le_payload (s : Producer) : (ascii "hist_end").length ≤ s.payload.length := by
  have hist : histPart s.hist ∈ s.parts := List.mem_append_right _ List.mem_cons_self
  have rest := length_le_intercalate hist
  have size : (histPart s.hist).length = 6 := by cases s.hist <;> rfl
  have whole : s.payload = ascii "v=2" ++ [semicolon] ++ [semicolon].intercalate s.parts := by
    rw [payload, List.intercalate_cons_of_ne_nil (List.ne_nil_of_mem hist)]
  have short : (ascii "hist_end").length = 8 := rfl
  have front : (ascii "v=2").length = 3 := rfl
  rw [whole, List.length_append, List.length_append, short, front, List.length_singleton]
  omega

/-- No ST ends the payload early. -/
theorem ST_not_isInfix_payload (s : Producer) : ¬ ST <:+: s.payload := by
  intro occurs
  have mem : (0x1b : UInt8) ∈ s.payload := occurs.subset (by decide)
  refine notMem_intercalate (by decide) (fun part inParts => ?_) mem
  rw [parts, List.mem_cons, List.mem_append, List.mem_cons] at inParts
  rcases inParts with rfl | inBefore | rfl | inAfter
  · decide
  · obtain ⟨field, -, rfl⟩ := List.mem_map.mp inBefore
    exact esc_notMem_render field
  · cases s.hist <;> decide
  · obtain ⟨field, -, rfl⟩ := List.mem_map.mp inAfter
    exact esc_notMem_render field

theorem parse_metaUnit (s : Producer) (rest : Bytes) :
    parse MetaFilter.brackets (s.metaUnit ++ rest) =
      .unit [] s.payload (parse MetaFilter.brackets rest) := by
  rw [metaUnit, control, List.append_assoc, List.append_assoc]
  exact parse_text_unit (m := MetaFilter.brackets) (by decide) (by decide)
    (show ¬ OSC <:+: [] by decide) s.ST_not_isInfix_payload rest

theorem parse_historySection (s : Producer) (rest : Bytes) :
    parse MetaFilter.brackets (s.historySection ++ rest) =
      .unit [] s.payload (.unit s.body (ascii "hist_end") (parse MetaFilter.brackets rest)) := by
  rw [historySection, List.append_assoc, parse_metaUnit, control, List.append_assoc,
    List.append_assoc, List.append_assoc]
  congr 1
  exact parse_text_unit (m := MetaFilter.brackets) (by decide) (by decide) s.body_clean (by decide)
    rest

/-- What has been settled when the filter has got a prefix of the stream. -/
inductive Settled (s : Producer) (received : Bytes) : Prop
  /-- The META has not arrived. -/
  | nothing (noMeta : ¬ s.metaUnit <+: received)
      (items : (parse MetaFilter.brackets received).items = [])
  /-- The history section is unfinished. -/
  | started (gotMeta : s.metaUnit <+: received) (unfinished : ¬ s.historySection <+: received)
      (shown : Bytes)
      (items : (parse MetaFilter.brackets received).items =
        .unit s.payload :: shown.map Item.plain)
  /-- The history section is complete. -/
  | complete (gotMeta : s.metaUnit <+: received) (gotSection : s.historySection <+: received)
      (shown : Bytes)
      (items : (parse MetaFilter.brackets received).items =
        .unit s.payload :: (s.body.map Item.plain ++ .unit (ascii "hist_end") ::
          shown.map Item.plain))

theorem metaUnit_isPrefix (s : Producer) : s.metaUnit <+: s.historySection :=
  List.prefix_append _ _

/-- A proper prefix has settled less than a stream that ends with an item. -/
theorem items_of_cut {received whole : Bytes} (front : List (Item UInt8)) (last : Item UInt8)
    (cut : received <+: whole) (unfinished : ¬ whole <+: received)
    (items : (parse MetaFilter.brackets whole).items = front ++ [last])
    (ended : (parse MetaFilter.brackets whole).pending MetaFilter.brackets = []) :
    (parse MetaFilter.brackets received).items <+: front := by
  obtain ⟨rest, rfl⟩ := cut
  refine items_isPrefix_of_cut items ended fun empty => unfinished ?_
  rw [empty, List.append_nil]

theorem settled (s : Producer) {received : Bytes} (isPrefix : received <+: s.bytes) :
    Settled s received := by
  have whole : parse MetaFilter.brackets s.metaUnit = .unit [] s.payload (.plain [] []) := by
    have parsed := s.parse_metaUnit []
    rwa [List.append_nil, parse_nil] at parsed
  have wholeSection : parse MetaFilter.brackets s.historySection =
      .unit [] s.payload (.unit s.body (ascii "hist_end") (.plain [] [])) := by
    have parsed := s.parse_historySection []
    rwa [List.append_nil, parse_nil] at parsed
  by_cases gotSection : s.historySection <+: received
  · obtain ⟨rest, rfl⟩ := gotSection
    have inFrames : rest <+: s.frames := (List.prefix_append_right_inj _).mp isPrefix
    have noUnit : cutAt OSC rest = none := (cutAt_eq_none_iff (by decide)).mpr fun occurs =>
      s.frames_clean (occurs.trans inFrames.isInfix)
    refine .complete (s.metaUnit_isPrefix.trans (List.prefix_append _ _)) (List.prefix_append _ _)
      (released OSC rest) ?_
    rw [parse_historySection, parse_of_none (m := MetaFilter.brackets) noUnit]
    rfl
  · have inSection : received <+: s.historySection :=
      (List.prefix_or_prefix_of_prefix isPrefix (List.prefix_append _ _)).resolve_right gotSection
    by_cases gotMeta : s.metaUnit <+: received
    · have cut := items_of_cut (.unit s.payload :: s.body.map Item.plain)
        (.unit (ascii "hist_end")) inSection gotSection
        (by rw [wholeSection]; rfl) (by rw [wholeSection]; rfl)
      obtain ⟨rest, rfl⟩ := gotMeta
      rw [parse_metaUnit] at cut
      obtain ⟨shown, -, same⟩ := List.prefix_map_iff.mp (List.cons_prefix_cons.mp cut).2
      refine .started (List.prefix_append _ _) gotSection shown ?_
      rw [parse_metaUnit]
      exact congrArg (Item.unit s.payload :: ·) same
    · have inMeta : received <+: s.metaUnit :=
        (List.prefix_or_prefix_of_prefix inSection s.metaUnit_isPrefix).resolve_right gotMeta
      have cut := items_of_cut [] (.unit s.payload) inMeta gotMeta
        (by rw [whole]; rfl) (by rw [whole]; rfl)
      exact .nothing gotMeta (List.prefix_nil.mp cut)

end Producer

end Drover.Term
