import Drover.Stream.Bracket
import Drover.Term.Scan

/-!
# The synchronized-update filter

`makeSyncFilter` of `sync.js` collects everything from BSU to ESU and passes it
to the terminal in one write.  `feedAll_spec` relates what it emits and holds to
the parse of everything it was fed, however that was cut into chunks.
-/

namespace Drover.Term

open Drover.Stream

/-- `ESC [ ? 2 0 2 6 h`. -/
def BSU : Bytes := [0x1b, 0x5b, 0x3f, 0x32, 0x30, 0x32, 0x36, 0x68]

/-- `ESC [ ? 2 0 2 6 l`. -/
def ESU : Bytes := [0x1b, 0x5b, 0x3f, 0x32, 0x30, 0x32, 0x36, 0x6c]

/-- The variables `makeSyncFilter` closes over. -/
structure SyncFilter where
  carry : Bytes
  syncing : Bool
  acc : Bytes
  deriving DecidableEq

namespace SyncFilter

/-- `makeSyncFilter`. -/
def make : SyncFilter := ⟨[], false, []⟩

theorem closing_lt {data : Bytes} (syncing : Bool) (nonempty : data ≠ []) (j : Nat) :
    2 * (data.drop (j + ESU.length)).length + 1 < 2 * data.length + (if syncing then 0 else 1) := by
  have := List.length_pos_iff.mpr nonempty
  rw [List.length_drop, show ESU.length = 8 from rfl]
  split <;> omega

/-- The `while` loop, on `data.subarray(pos)`: the filter afterwards and the
emits in order. -/
def loop (f : SyncFilter) (data : Bytes) : SyncFilter × List Bytes :=
  if _nonempty : data = [] then (f, [])
  else
    match _mode : f.syncing with
    | false =>
        match indexOf data BSU with
        | none =>
            let hold := tailPrefix data BSU
            let cut := data.length - hold
            ({ f with carry := data.drop cut }, if 0 < cut then [data.take cut] else [])
        | some i =>
            let after := loop { f with syncing := true, acc := [] } (data.drop i)
            (after.1, (if 0 < i then [data.take i] else []) ++ after.2)
    | true =>
        match indexOf data ESU with
        | none =>
            let hold := tailPrefix data ESU
            let cut := data.length - hold
            ({ f with
                acc := if 0 < cut then f.acc ++ data.take cut else f.acc
                carry := data.drop cut }, [])
        | some j =>
            let stop := j + ESU.length
            let after := loop { f with acc := [], syncing := false } (data.drop stop)
            (after.1, (f.acc ++ data.take stop) :: after.2)
termination_by 2 * data.length + if f.syncing then 0 else 1
decreasing_by
  · simp only [_mode, List.length_drop, if_true, Bool.false_eq_true, if_false]
    omega
  · simpa [_mode] using closing_lt true _nonempty j

/-- `feed`. -/
def feed (f : SyncFilter) (chunk : Bytes) : SyncFilter × List Bytes :=
  let data := if f.carry.length ≠ 0 then f.carry ++ chunk else chunk
  loop { f with carry := [] } data

/-- Feed chunks one after the other, collecting the emits. -/
def feedAll (f : SyncFilter) : List Bytes → SyncFilter × List Bytes
  | [] => (f, [])
  | chunk :: chunks =>
      let fed := f.feed chunk
      let rest := fed.1.feedAll chunks
      (rest.1, fed.2 ++ rest.2)

/-! ## What the emits are -/

/-- The markers of a synchronized update. -/
def brackets : Brackets UInt8 where
  opening := BSU
  closing := ESU
  opening_ne := by decide
  closing_ne := by decide

/-- A synchronized update, markers included. -/
def block (payload : Bytes) : Bytes := BSU ++ payload ++ ESU

/-- The emits are the settled part of the parse: plain text in any number of
pieces, and each block in an emit of its own. -/
def Renders : Parsed UInt8 → List Bytes → Prop
  | .plain text _, emits => emits.flatten = text
  | .unfinished text _, emits => emits.flatten = text
  | .unit text payload rest, emits =>
      ∃ pieces later, emits = pieces ++ block payload :: later ∧ pieces.flatten = text ∧
        Renders rest later

theorem Renders.prepend {p : Parsed UInt8} {emits : List Bytes} (renders : Renders p emits)
    (pieces : List Bytes) : Renders (p.prepend pieces.flatten) (pieces ++ emits) := by
  cases p with
  | plain text tail =>
      rw [Renders] at renders
      rw [Parsed.prepend, Renders, List.flatten_append, renders]
  | unfinished text payload =>
      rw [Renders] at renders
      rw [Parsed.prepend, Renders, List.flatten_append, renders]
  | unit text payload rest =>
      obtain ⟨pieces', later, rfl, rfl, restRenders⟩ := renders
      exact ⟨pieces ++ pieces', later, (List.append_assoc _ _ _).symm, List.flatten_append,
        restRenders⟩

theorem Renders.continued {p later : Parsed UInt8} {emits laterEmits : List Bytes}
    (renders : Renders p emits) (laterRenders : Renders later laterEmits) :
    Renders (p.continued later) (emits ++ laterEmits) := by
  induction p generalizing emits with
  | plain text tail =>
      rw [Renders] at renders
      subst renders
      exact laterRenders.prepend emits
  | unfinished text payload =>
      rw [Renders] at renders
      subst renders
      exact laterRenders.prepend emits
  | unit text payload rest ih =>
      obtain ⟨pieces, restEmits, rfl, textEq, restRenders⟩ := renders
      exact ⟨pieces, restEmits ++ laterEmits, by simp, textEq, ih restRenders⟩

/-- The emits contain the input up to the pending tail. -/
theorem Renders.flatten_append_pending {p : Parsed UInt8} {emits : List Bytes}
    (renders : Renders p emits) : emits.flatten ++ p.pending brackets = p.flatten brackets := by
  induction p generalizing emits with
  | plain text tail => rw [Renders] at renders; rw [renders]; rfl
  | unfinished text payload => rw [Renders] at renders; rw [renders]; rfl
  | unit text payload rest ih =>
      obtain ⟨pieces, later, rfl, rfl, restRenders⟩ := renders
      rw [Parsed.flatten, Parsed.pending, ← ih restRenders]
      simp [block, brackets]

theorem not_block_of_text {text piece : Bytes} {pieces : List Bytes} (plain : ¬ BSU <:+: text)
    (textEq : pieces.flatten = text) (mem : piece ∈ pieces) : ¬ BSU <+: piece := by
  intro starts
  apply plain
  rw [← textEq]
  exact starts.isInfix.trans (List.infix_of_mem_flatten mem)

/-- The emits that start with BSU are the blocks. -/
theorem Renders.filter_eq {p : Parsed UInt8} {emits : List Bytes} (renders : Renders p emits)
    (plain : ∀ text ∈ p.texts, ¬ BSU <:+: text) :
    emits.filter (BSU <+: ·) = p.payloads.map block := by
  induction p generalizing emits with
  | plain text tail =>
      rw [Renders] at renders
      simpa [Parsed.payloads] using fun piece mem =>
        not_block_of_text (plain text (by simp [Parsed.texts])) renders mem
  | unfinished text payload =>
      rw [Renders] at renders
      simpa [Parsed.payloads] using fun piece mem =>
        not_block_of_text (plain text (by simp [Parsed.texts])) renders mem
  | unit text payload rest ih =>
      obtain ⟨pieces, later, rfl, textEq, restRenders⟩ := renders
      have noBlock : pieces.filter (BSU <+: ·) = [] := by
        simpa using fun piece mem =>
          not_block_of_text (plain text (by simp [Parsed.texts])) textEq mem
      have isBlock : BSU <+: block payload := by simp [block, List.append_assoc]
      rw [List.filter_append, noBlock, List.nil_append,
        List.filter_cons_of_pos (by simpa using isBlock),
        ih restRenders fun text mem => plain text (List.mem_cons_of_mem _ mem)]
      rfl

/-! ## What is held -/

/-- The bytes that were fed and not emitted. -/
def withheld (f : SyncFilter) : Bytes := f.acc ++ f.carry

/-- What holds of a filter between two chunks. -/
inductive Holding : SyncFilter → Prop
  | outside {carry : Bytes} (isPrefix : carry <+: BSU) (proper : carry.length < BSU.length) :
      Holding ⟨carry, false, []⟩
  | inside {carry acc : Bytes} (starts : BSU <+: acc ++ carry)
      (noEnd : cutAt ESU (acc ++ carry) = none) (tail : held ESU (acc ++ carry) = carry) :
      Holding ⟨carry, true, acc⟩

theorem Holding.make : Holding make := .outside List.nil_prefix (by decide)

theorem Holding.of_not_syncing {f : SyncFilter} (holding : Holding f)
    (outside : f.syncing = false) : f.acc = [] ∧ f.carry <+: BSU ∧ f.carry.length ≤ 7 := by
  cases holding with
  | outside isPrefix proper => exact ⟨rfl, isPrefix, Nat.le_of_lt_succ proper⟩
  | inside => cases outside

/-- What holds when the loop continues with `data`: inside a block, `acc` is out
of the way of the search for ESU. -/
inductive Ready (data : Bytes) : SyncFilter → Prop
  | outside : Ready data ⟨[], false, []⟩
  | inside {acc : Bytes} (starts : BSU <+: acc ++ data)
      (cut : cutAt ESU (acc ++ data) = (cutAt ESU data).map fun cut => (acc ++ cut.1, cut.2))
      (tail : held ESU (acc ++ data) = held ESU data) :
      Ready data ⟨[], true, acc⟩

theorem Holding.ready {f : SyncFilter} (holding : Holding f) (chunk : Bytes) :
    Ready (f.carry ++ chunk) { f with carry := [] } := by
  cases holding with
  | outside isPrefix proper => exact .outside
  | @inside carry acc starts noEnd tail =>
      have text : released ESU (acc ++ carry) = acc := by
        have parts := released_append_held ESU (acc ++ carry)
        rw [tail] at parts
        exact List.append_cancel_right parts
      refine .inside ?_ ?_ ?_
      · rw [← List.append_assoc]
        exact starts.trans (List.prefix_append _ _)
      · rw [← List.append_assoc, cutAt_append_of_none noEnd, tail, text]
      · rw [← List.append_assoc, held_append, tail]

/-- What `loop` and `feed` have to do with `data`: emit the settled part of its
parse and hold the rest. -/
structure Feeds (data : Bytes) (result : SyncFilter × List Bytes) : Prop where
  renders : Renders (parse brackets data) result.2
  withheld_eq : result.1.withheld = (parse brackets data).pending brackets
  syncing_eq : result.1.syncing = (parse brackets data).inside
  holding : Holding result.1

theorem flatten_piece (data : Bytes) (cut : Nat) :
    (if 0 < cut then [data.take cut] else []).flatten = data.take cut := by
  cases cut <;> simp

/-- Inside a block, ESU is searched for after BSU. -/
theorem cutAt_ESU (payload : Bytes) :
    cutAt ESU (BSU ++ payload) = (cutAt ESU payload).map fun cut => (BSU ++ cut.1, cut.2) := by
  rw [cutAt_append_of_none (by decide), show held ESU BSU = [] by decide,
    show released ESU BSU = BSU by decide, List.nil_append]

/-- No block begins in `data`. -/
theorem Feeds.plain {data : Bytes} (noBegin : cutAt BSU data = none) {emits : List Bytes}
    (text : emits.flatten = released BSU data) :
    Feeds data (⟨held BSU data, false, []⟩, emits) := by
  have parsed : parse brackets data = .plain (released BSU data) (held BSU data) :=
    parse_of_none noBegin
  refine ⟨?_, ?_, ?_, .outside (held_isPrefix _ _) (held_length_lt (by decide) _)⟩
  · rw [parsed]
    exact text
  · rw [parsed]
    rfl
  · rw [parsed]
    rfl

/-- The text before the first BSU is emitted, and the block begins. -/
theorem Feeds.begin {data before after : Bytes} (opened : cutAt BSU data = some (before, after))
    {result : SyncFilter × List Bytes} (fed : Feeds (BSU ++ after) result) {pieces : List Bytes}
    (text : pieces.flatten = before) : Feeds data (result.1, pieces ++ result.2) := by
  have parsed : parse brackets data = (parse brackets (BSU ++ after)).prepend before :=
    parse_of_opened opened
  refine ⟨?_, ?_, ?_, fed.holding⟩
  · rw [parsed, ← text]
    exact fed.renders.prepend pieces
  · rw [parsed, Parsed.pending_prepend]
    exact fed.withheld_eq
  · rw [parsed, Parsed.inside_prepend]
    exact fed.syncing_eq

/-- A block has begun, and no ESU ends it. -/
theorem Feeds.stay {acc data : Bytes} (starts : BSU <+: acc ++ data)
    (noEnd : cutAt ESU (acc ++ data) = none) (tail : held ESU (acc ++ data) = held ESU data) :
    Feeds (acc ++ data) (⟨held ESU data, true, acc ++ released ESU data⟩, []) := by
  obtain ⟨payload, same⟩ := starts
  have closed : cutAt brackets.closing payload = none := by
    rw [← same, cutAt_ESU] at noEnd
    exact Option.map_eq_none_iff.mp noEnd
  have parsed : parse brackets (acc ++ data) = .unfinished [] payload := by
    rw [← same]
    exact parse_of_unfinished (cutAt_of_isPrefix brackets.opening_ne payload) closed
  have whole : acc ++ released ESU data ++ held ESU data = acc ++ data := by
    rw [List.append_assoc, released_append_held]
  refine ⟨?_, ?_, ?_, ?_⟩
  · rw [parsed]
    rfl
  · rw [parsed, Parsed.pending, withheld, whole, ← same]
    rfl
  · rw [parsed]
    rfl
  · exact .inside (by rw [whole, ← same]; exact List.prefix_append _ _) (by rw [whole, noEnd])
      (by rw [whole, tail])

/-- The first ESU ends the block, which is emitted at once. -/
theorem Feeds.finish {acc data before after : Bytes} (starts : BSU <+: acc ++ data)
    (cut : cutAt ESU (acc ++ data) = (cutAt ESU data).map fun cut => (acc ++ cut.1, cut.2))
    (closed : cutAt ESU data = some (before, after))
    {result : SyncFilter × List Bytes} (fed : Feeds after result) :
    Feeds (acc ++ data) (result.1, (acc ++ (before ++ ESU)) :: result.2) := by
  obtain ⟨rest, same⟩ := starts
  rw [closed, ← same, cutAt_ESU] at cut
  obtain ⟨⟨payload, later⟩, closed', whole⟩ := Option.map_eq_some_iff.mp cut
  simp only [Prod.mk.injEq] at whole
  obtain ⟨textEq, laterEq⟩ := whole
  subst laterEq
  have blockEq : acc ++ (before ++ ESU) = block payload := by
    rw [← List.append_assoc, ← textEq]
    rfl
  have parsed : parse brackets (acc ++ data) = .unit [] payload (parse brackets later) := by
    rw [← same]
    exact parse_of_unit (cutAt_of_isPrefix (by decide) rest) closed'
  refine ⟨?_, ?_, ?_, fed.holding⟩
  · rw [parsed]
    exact ⟨[], _, by rw [List.nil_append, ← blockEq], rfl, fed.renders⟩
  · rw [parsed]
    exact fed.withheld_eq
  · rw [parsed]
    exact fed.syncing_eq

/-- Between two chunks, what was held is still to be held. -/
theorem Holding.feeds {f : SyncFilter} (holding : Holding f) : Feeds f.withheld (f, []) := by
  cases holding with
  | @outside carry isPrefix proper =>
      have whole := held_eq_self isPrefix proper
      have noBegin : cutAt BSU carry = none := by
        rw [← whole]
        exact cutAt_held (by decide) carry
      have fed : Feeds carry (⟨held BSU carry, false, []⟩, []) :=
        Feeds.plain noBegin (released_eq_nil isPrefix proper).symm
      rwa [whole] at fed
  | @inside carry acc starts noEnd tail =>
      have whole : held ESU carry = carry := by
        rw [← tail, held_held]
      have nothing : released ESU carry = [] := by
        have parts := released_append_held ESU carry
        rw [whole] at parts
        simpa using parts
      have stay := Feeds.stay starts noEnd (tail.trans whole.symm)
      rwa [nothing, whole, List.append_nil] at stay

/-- The loop goes through the cases above. -/
theorem loop_spec (f : SyncFilter) (data : Bytes) (ready : Ready data f) :
    Feeds (f.acc ++ data) (f.loop data) := by
  induction f, data using loop.induct with
  | case1 f =>
      rw [loop, dif_pos rfl]
      cases ready with
      | outside => exact Feeds.plain rfl rfl
      | @inside acc starts cut tail =>
          simpa [held, released] using Feeds.stay starts cut tail
  | case2 f data nonempty mode absent =>
      rw [loop, dif_neg nonempty]
      cases ready with
      | inside => cases mode
      | outside =>
          simp only [absent]
          rw [drop_tailPrefix (by decide)]
          apply Feeds.plain (indexOf_eq_none (by decide) absent)
          rw [flatten_piece]
          exact take_tailPrefix (by decide) data
  | case3 f data nonempty mode i found ih =>
      rw [loop, dif_neg nonempty]
      cases ready with
      | inside => cases mode
      | outside =>
          have opened := indexOf_eq_some (by decide) found
          have begins : BSU ++ data.drop (i + BSU.length) = data.drop i := by
            have whole := cutAt_eq_append opened
            rw [List.append_assoc] at whole
            exact (List.append_cancel_left ((List.take_append_drop i data).trans whole)).symm
          have fed := ih (.inside ⟨_, begins⟩ (by simp) rfl)
          rw [List.nil_append, ← begins] at fed
          simp only [found]
          rw [← begins]
          exact Feeds.begin opened fed (flatten_piece data i)
  | case4 f data nonempty mode absent =>
      rw [loop, dif_neg nonempty]
      cases ready with
      | outside => cases mode
      | @inside acc starts cut tail =>
          have noEnd : cutAt ESU (acc ++ data) = none := by
            rw [cut, indexOf_eq_none (by decide) absent]
            rfl
          simp only [absent]
          rw [ite_append_take, drop_tailPrefix (by decide), take_tailPrefix (by decide)]
          exact Feeds.stay starts noEnd tail
  | case5 f data nonempty mode j found stop ih =>
      rw [loop, dif_neg nonempty]
      cases ready with
      | outside => cases mode
      | @inside acc starts cut tail =>
          have closed := indexOf_eq_some (by decide) found
          have stopEq : data.take stop = data.take j ++ ESU :=
            List.append_cancel_right ((List.take_append_drop stop data).trans
              (cutAt_eq_append closed))
          simp only [found]
          rw [stopEq]
          exact Feeds.finish starts cut closed (ih .outside)

theorem feed_spec {f : SyncFilter} (holding : Holding f) (chunk : Bytes) :
    Feeds (f.withheld ++ chunk) (f.feed chunk) := by
  have data : (if f.carry.length ≠ 0 then f.carry ++ chunk else chunk) = f.carry ++ chunk := by
    split
    · rfl
    · rename_i empty
      rw [List.length_eq_zero_iff.mp (not_not.mp empty), List.nil_append]
  rw [feed, data, SyncFilter.withheld, List.append_assoc]
  exact loop_spec _ _ (holding.ready chunk)

/-- The filter emits the parse of what it was fed. -/
theorem feedAll_spec {f : SyncFilter} (holding : Holding f) (chunks : List Bytes) :
    Feeds (f.withheld ++ chunks.flatten) (f.feedAll chunks) := by
  induction chunks generalizing f with
  | nil =>
      rw [List.flatten_nil, List.append_nil]
      exact holding.feeds
  | cons chunk chunks ih =>
      have fed := feed_spec holding chunk
      have later := ih fed.holding
      have parsed := parse_append (m := brackets) (f.withheld ++ chunk) chunks.flatten
      rw [← fed.withheld_eq] at parsed
      rw [feedAll, List.flatten_cons, ← List.append_assoc]
      refine ⟨?_, ?_, ?_, later.holding⟩
      · rw [parsed]
        exact fed.renders.continued later.renders
      · rw [parsed, Parsed.pending_continued]
        exact later.withheld_eq
      · rw [parsed, Parsed.inside_continued]
        exact later.syncing_eq

/-- The synchronized-update filter is lossless and atomic for every
chunking.  The emits and the held bytes are the input; each block is emitted
in an emit of its own once its ESU has arrived; and outside blocks only a proper
prefix of BSU is held back. -/
theorem syncFilter_lossless_and_atomic (chunks : List Bytes) :
    let input := chunks.flatten
    let parsed := parse brackets input
    let result := make.feedAll chunks
    result.2.flatten ++ result.1.acc ++ result.1.carry = input ∧
      Renders parsed result.2 ∧
      result.1.acc ++ result.1.carry = parsed.pending brackets ∧
      result.1.syncing = parsed.inside ∧
      (parsed.inside = false →
        result.1.acc = [] ∧ result.1.carry <+: BSU ∧ result.1.carry.length ≤ 7) ∧
      result.2.filter (BSU <+: ·) = parsed.payloads.map block := by
  intro input parsed result
  have fed := feedAll_spec .make chunks
  refine ⟨?_, fed.renders, fed.withheld_eq, fed.syncing_eq, ?_, ?_⟩
  · rw [List.append_assoc]
    exact (congrArg _ fed.withheld_eq).trans
      (fed.renders.flatten_append_pending.trans (flatten_parse input))
  · intro outside
    exact fed.holding.of_not_syncing (fed.syncing_eq.trans outside)
  · exact fed.renders.filter_eq fun _ mem => not_infix_of_mem_texts mem

end SyncFilter

end Drover.Term
