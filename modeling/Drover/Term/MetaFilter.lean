import Drover.Stream.Bracket
import Drover.Term.Scan
import Mathlib.Data.List.TakeWhile

/-!
# The META filter

`cmMakeMetaFilter` of `term.js` takes the control units `ESC ] 7707 ; … ESC \`
out of the stream, passes their payloads to `onMeta`, and emits the history of a
page only once.  `feedAll_spec` relates its outputs to the parse of everything
it was fed since the last reset, as long as the payloads can be read: a payload
is read by `apply`, and engines bound the arguments of a call.
-/

namespace Drover.Term

open Drover.Stream

/-- `ESC ] 7 7 0 7 ;`. -/
def OSC : Bytes := [0x1b, 0x5d, 0x37, 0x37, 0x30, 0x37, 0x3b]

/-- `ESC \`. -/
def ST : Bytes := [0x1b, 0x5c]

/-- `String.fromCharCode.apply(null, acc)` returns, for an engine that passes so many
arguments; the language sets no bound, which is `none`.  Otherwise it throws. -/
def Fits (limit : Option Nat) (acc : Bytes) : Prop := ∀ n ∈ limit, acc.length ≤ n

instance (limit : Option Nat) (acc : Bytes) : Decidable (Fits limit acc) :=
  inferInstanceAs (Decidable (∀ n ∈ limit, acc.length ≤ n))

/-- What the filter remembers about history sections. -/
structure History where
  inHist : Bool
  histDone : Bool
  blockHasHist : Bool
  deriving DecidableEq

/-- The effect of a payload on the flags. -/
def History.next (h : History) (payload : Bytes) : History :=
  if ascii "v=" <+: payload then
    { h with inHist := true, blockHasHist := ascii ";hist=1" <:+: payload }
  else if payload = ascii "hist_end" then
    { h with inHist := false, histDone := if h.blockHasHist then true else h.histDone }
  else h

/-- The variables `cmMakeMetaFilter` closes over. -/
structure MetaFilter extends History where
  carry : Bytes
  inMeta : Bool
  acc : Bytes
  deriving DecidableEq

/-- The calls the filter makes. -/
inductive Output where
  | emit (bytes : Bytes)
  | onMeta (payload : Bytes)
  deriving DecidableEq

namespace MetaFilter

/-- `cmMakeMetaFilter`. -/
def make : MetaFilter :=
  { inHist := false, histDone := false, blockHasHist := false, carry := [], inMeta := false,
    acc := [] }

/-- `out`. -/
def out (f : MetaFilter) (bytes : Bytes) : List Output :=
  if bytes.length = 0 then []
  else if f.inHist && f.histDone then []
  else [.emit bytes]

/-- The `while` loop, on `data.subarray(pos)`: the filter afterwards and its
calls in order.  An exception ends it. -/
def loop (limit : Option Nat) (f : MetaFilter) (data : Bytes) : MetaFilter × List Output :=
  if _nonempty : data = [] then (f, [])
  else
    match f.inMeta with
    | false =>
        match indexOf data OSC with
        | none =>
            let hold := tailPrefix data OSC
            let cut := data.length - hold
            ({ f with carry := data.drop cut }, if 0 < cut then f.out (data.take cut) else [])
        | some i =>
            let rest := loop limit { f with inMeta := true, acc := [] } (data.drop (i + OSC.length))
            (rest.1, (if 0 < i then f.out (data.take i) else []) ++ rest.2)
    | true =>
        match indexOf data ST with
        | none =>
            let hold := tailPrefix data ST
            let cut := data.length - hold
            ({ f with
                acc := if 0 < cut then f.acc ++ data.take cut else f.acc
                carry := data.drop cut }, [])
        | some j =>
            let payload := f.acc ++ data.take j
            if Fits limit payload then
              let rest :=
                loop limit { f with toHistory := f.next payload, inMeta := false, acc := payload }
                  (data.drop (j + ST.length))
              (rest.1, .onMeta payload :: rest.2)
            else ({ f with acc := payload }, [])
termination_by data.length
decreasing_by
  all_goals
    have := List.length_pos_iff.mpr _nonempty
    simp only [List.length_drop, OSC, ST, List.length_cons, List.length_nil]
    omega

/-- `feed`. -/
def feed (limit : Option Nat) (f : MetaFilter) (chunk : Bytes) : MetaFilter × List Output :=
  let data := if f.carry.length ≠ 0 then f.carry ++ chunk else chunk
  loop limit { f with carry := [] } data

/-- `feed.reset`. -/
def reset (f : MetaFilter) : MetaFilter :=
  { f with carry := [], inMeta := false, acc := [], inHist := false }

/-- Feed chunks one after the other, collecting the calls. -/
def feedAll (limit : Option Nat) (f : MetaFilter) : List Bytes → MetaFilter × List Output
  | [] => (f, [])
  | chunk :: chunks =>
      let fed := f.feed limit chunk
      let rest := fed.1.feedAll limit chunks
      (rest.1, fed.2 ++ rest.2)

end MetaFilter

/-! ## What the calls are -/

/-- A run of emitted bytes is its bytes, however they were cut. -/
def Output.items : Output → List (Item UInt8)
  | .emit bytes => bytes.map Item.plain
  | .onMeta payload => [.unit payload]

/-- The emitted bytes, interleaved with the payloads. -/
def outputItems (outputs : List Output) : List (Item UInt8) := outputs.flatMap Output.items

namespace History

/-- The flags after a stream. -/
def after (h : History) : List (Item UInt8) → History
  | [] => h
  | .plain _ :: items => h.after items
  | .unit payload :: items => (h.next payload).after items

/-- What of a stream reaches the page: everything but the plain bytes of a
history section when the history is done. -/
def shown (h : History) : List (Item UInt8) → List (Item UInt8)
  | [] => []
  | .plain b :: items =>
      if h.inHist && h.histDone then h.shown items else .plain b :: h.shown items
  | .unit payload :: items => .unit payload :: (h.next payload).shown items

theorem after_append (h : History) (items later : List (Item UInt8)) :
    h.after (items ++ later) = (h.after items).after later := by
  induction items generalizing h with
  | nil => rfl
  | cons item items ih => cases item <;> exact ih _

theorem shown_append (h : History) (items later : List (Item UInt8)) :
    h.shown (items ++ later) = h.shown items ++ (h.after items).shown later := by
  induction items generalizing h with
  | nil => rfl
  | cons item items ih =>
      cases item with
      | plain b =>
          simp only [List.cons_append, shown, after]
          split
          · exact ih h
          · rw [ih h, List.cons_append]
      | unit payload =>
          simp only [List.cons_append, shown, after]
          rw [ih]

@[simp]
theorem after_plain (h : History) (bytes : Bytes) : h.after (bytes.map Item.plain) = h := by
  induction bytes with
  | nil => rfl
  | cons b bytes ih => exact ih

theorem shown_plain (h : History) (bytes : Bytes) :
    h.shown (bytes.map Item.plain) =
      if h.inHist && h.histDone then [] else bytes.map Item.plain := by
  induction bytes with
  | nil => simp [shown]
  | cons b bytes ih =>
      simp only [List.map_cons, shown]
      rw [ih]
      split <;> rfl

end History

namespace MetaFilter

/-- The markers of a control unit. -/
def brackets : Brackets UInt8 where
  opening := OSC
  closing := ST
  opening_ne := by decide
  closing_ne := by decide

/-- The bytes that were fed and belong to no call yet. -/
def withheld (f : MetaFilter) : Bytes :=
  if f.inMeta then OSC ++ (f.acc ++ f.carry) else f.carry

/-- What holds of a filter between two chunks. -/
inductive Holding : MetaFilter → Prop
  | outside {h : History} {carry acc : Bytes} (isPrefix : carry <+: OSC)
      (proper : carry.length < OSC.length) : Holding ⟨h, carry, false, acc⟩
  | inside {h : History} {carry acc : Bytes} (noEnd : cutAt ST (acc ++ carry) = none)
      (tail : held ST (acc ++ carry) = carry) : Holding ⟨h, carry, true, acc⟩

theorem Holding.make : Holding make := .outside List.nil_prefix (by decide)

theorem Holding.reset (f : MetaFilter) : Holding f.reset := .outside List.nil_prefix (by decide)

/-- What holds when the loop continues with `data`: inside a unit, `acc` is out
of the way of the search for ST. -/
inductive Ready (data : Bytes) : MetaFilter → Prop
  | outside {h : History} {acc : Bytes} : Ready data ⟨h, [], false, acc⟩
  | inside {h : History} {acc : Bytes}
      (cut : cutAt ST (acc ++ data) = (cutAt ST data).map fun cut => (acc ++ cut.1, cut.2))
      (tail : held ST (acc ++ data) = held ST data) : Ready data ⟨h, [], true, acc⟩

theorem Holding.ready {f : MetaFilter} (holding : Holding f) (chunk : Bytes) :
    Ready (f.carry ++ chunk) { f with carry := [] } := by
  cases holding with
  | outside isPrefix proper => exact .outside
  | @inside h carry acc noEnd tail =>
      have text : released ST (acc ++ carry) = acc := by
        have parts := released_append_held ST (acc ++ carry)
        rw [tail] at parts
        exact List.append_cancel_right parts
      refine .inside ?_ ?_
      · rw [← List.append_assoc, cutAt_append_of_none noEnd, tail, text]
      · rw [← List.append_assoc, held_append, tail]

/-- What `loop` and `feed` have to do with the bytes that were withheld and the
new ones: make the calls of the settled part of the parse and withhold the
rest. -/
structure Feeds (h : History) (data : Bytes) (result : MetaFilter × List Output) : Prop where
  items_eq : outputItems result.2 = h.shown (parse brackets data).items
  history_eq : result.1.toHistory = h.after (parse brackets data).items
  withheld_eq : result.1.withheld = (parse brackets data).pending brackets
  inMeta_eq : result.1.inMeta = (parse brackets data).inside
  holding : Holding result.1

theorem outputItems_out (f : MetaFilter) (data : Bytes) (cut : Nat) :
    outputItems (if 0 < cut then f.out (data.take cut) else []) =
      f.toHistory.shown ((data.take cut).map Item.plain) := by
  rw [History.shown_plain, out]
  cases empty : data.take cut with
  | nil => simp [outputItems]
  | cons b bytes =>
      have positive : 0 < cut := by
        cases cut with
        | zero => cases empty
        | succ cut => exact Nat.succ_pos cut
      rw [if_pos positive, if_neg (by simp)]
      split <;> simp [outputItems, Output.items]

/-- No unit begins in `data`. -/
theorem Feeds.plain {h : History} {data acc : Bytes} (noBegin : cutAt OSC data = none)
    {outputs : List Output}
    (text : outputItems outputs = h.shown ((released OSC data).map Item.plain)) :
    Feeds h data (⟨h, held OSC data, false, acc⟩, outputs) := by
  have parsed : parse brackets data = .plain (released OSC data) (held OSC data) :=
    parse_of_none noBegin
  refine ⟨?_, ?_, ?_, ?_, .outside (held_isPrefix _ _) (held_length_lt (by decide) _)⟩
  · rw [parsed]
    exact text
  · rw [parsed, Parsed.items, History.after_plain]
  · rw [parsed]
    rfl
  · rw [parsed]
    rfl

/-- The text before the first OSC is emitted, and the unit begins. -/
theorem Feeds.begin {h : History} {data before after : Bytes}
    (opened : cutAt OSC data = some (before, after)) {result : MetaFilter × List Output}
    (fed : Feeds h (OSC ++ after) result) {outputs : List Output}
    (text : outputItems outputs = h.shown (before.map Item.plain)) :
    Feeds h data (result.1, outputs ++ result.2) := by
  have parsed : parse brackets data = (parse brackets (OSC ++ after)).prepend before :=
    parse_of_opened opened
  refine ⟨?_, ?_, ?_, ?_, fed.holding⟩
  · rw [parsed, Parsed.items_prepend, History.shown_append, History.after_plain, ← text,
      ← fed.items_eq]
    exact List.flatMap_append
  · rw [parsed, Parsed.items_prepend, History.after_append, History.after_plain]
    exact fed.history_eq
  · rw [parsed, Parsed.pending_prepend]
    exact fed.withheld_eq
  · rw [parsed, Parsed.inside_prepend]
    exact fed.inMeta_eq

/-- A unit has begun, and no ST ends it. -/
theorem Feeds.stay {h : History} {acc data : Bytes} (noEnd : cutAt ST (acc ++ data) = none)
    (tail : held ST (acc ++ data) = held ST data) :
    Feeds h (OSC ++ (acc ++ data)) (⟨h, held ST data, true, acc ++ released ST data⟩, []) := by
  have parsed : parse brackets (OSC ++ (acc ++ data)) = .unfinished [] (acc ++ data) :=
    parse_of_unfinished (cutAt_of_isPrefix brackets.opening_ne _) noEnd
  have whole : acc ++ released ST data ++ held ST data = acc ++ data := by
    rw [List.append_assoc, released_append_held]
  refine ⟨?_, ?_, ?_, ?_, ?_⟩
  · rw [parsed]
    rfl
  · rw [parsed]
    rfl
  · rw [parsed, withheld, if_pos rfl, whole]
    rfl
  · rw [parsed]
    rfl
  · exact .inside (by rw [whole, noEnd]) (by rw [whole, tail])

/-- The first ST ends the unit, and its payload is reported. -/
theorem Feeds.finish {h : History} {acc data before after : Bytes}
    (cut : cutAt ST (acc ++ data) = (cutAt ST data).map fun cut => (acc ++ cut.1, cut.2))
    (closed : cutAt ST data = some (before, after)) {result : MetaFilter × List Output}
    (fed : Feeds (h.next (acc ++ before)) after result) :
    Feeds h (OSC ++ (acc ++ data)) (result.1, .onMeta (acc ++ before) :: result.2) := by
  rw [closed] at cut
  have parsed : parse brackets (OSC ++ (acc ++ data)) =
      .unit [] (acc ++ before) (parse brackets after) :=
    parse_of_unit (cutAt_of_isPrefix brackets.opening_ne _) cut
  refine ⟨?_, ?_, ?_, ?_, fed.holding⟩
  · rw [parsed, Parsed.items, List.map_nil, List.nil_append, History.shown, ← fed.items_eq]
    rfl
  · rw [parsed]
    exact fed.history_eq
  · rw [parsed]
    exact fed.withheld_eq
  · rw [parsed]
    exact fed.inMeta_eq

/-- Between two chunks, what was withheld is still to be withheld. -/
theorem Holding.feeds {f : MetaFilter} (holding : Holding f) :
    Feeds f.toHistory f.withheld (f, []) := by
  cases holding with
  | @outside h carry acc isPrefix proper =>
      have whole := held_eq_self isPrefix proper
      have noBegin : cutAt OSC carry = none := by
        rw [← whole]
        exact cutAt_held (by decide) carry
      have fed : Feeds h carry (⟨h, held OSC carry, false, acc⟩, []) := by
        apply Feeds.plain noBegin
        rw [released_eq_nil isPrefix proper]
        rfl
      rwa [whole] at fed
  | @inside h carry acc noEnd tail =>
      have whole : held ST carry = carry := by
        rw [← tail, held_held]
      have nothing : released ST carry = [] := by
        have parts := released_append_held ST carry
        rw [whole] at parts
        simpa using parts
      have stay := Feeds.stay (h := h) noEnd (tail.trans whole.symm)
      rwa [nothing, whole, List.append_nil] at stay

/-- What the loop has before it: the unit that has begun, and `data`. -/
def ahead (f : MetaFilter) (data : Bytes) : Bytes :=
  if f.inMeta then OSC ++ (f.acc ++ data) else data

theorem fits_none (acc : Bytes) : Fits none acc := by
  intro n mem
  cases mem

/-- The loop goes through the cases above. -/
theorem loop_spec (f : MetaFilter) (data : Bytes) (ready : Ready data f) :
    Feeds f.toHistory (f.ahead data) (f.loop none data) := by
  induction f, data using loop.induct none with
  | case1 f =>
      rw [loop, dif_pos rfl]
      cases ready with
      | outside => exact Feeds.plain rfl rfl
      | inside cut tail =>
          simpa [ahead, held, released] using Feeds.stay cut tail
  | case2 f data nonempty mode absent =>
      rw [loop, dif_neg nonempty]
      cases ready with
      | inside => cases mode
      | outside =>
          simp only [absent]
          rw [drop_tailPrefix (by decide)]
          apply Feeds.plain (indexOf_eq_none (by decide) absent)
          rw [outputItems_out]
          rw [take_tailPrefix (by decide)]
  | case3 f data nonempty mode i found ih =>
      rw [loop, dif_neg nonempty]
      cases ready with
      | inside => cases mode
      | outside =>
          simp only [found]
          exact Feeds.begin (indexOf_eq_some (by decide) found) (ih (.inside (by simp) rfl))
            (outputItems_out _ _ _)
  | case4 f data nonempty mode absent =>
      rw [loop, dif_neg nonempty]
      cases ready with
      | outside => cases mode
      | inside cut tail =>
          have noEnd := cut
          rw [indexOf_eq_none (by decide) absent, Option.map_none] at noEnd
          simp only [absent]
          rw [ite_append_take, drop_tailPrefix (by decide), take_tailPrefix (by decide)]
          exact Feeds.stay noEnd tail
  | case5 f data nonempty mode j found payload fits ih =>
      rw [loop, dif_neg nonempty]
      cases ready with
      | outside => cases mode
      | inside cut tail =>
          simp only [found]
          rw [if_pos (fits_none _)]
          exact Feeds.finish cut (indexOf_eq_some (by decide) found) (ih .outside)
  | case6 f data nonempty mode j found payload long => exact absurd (fits_none _) long

theorem feed_eq_loop (limit : Option Nat) (f : MetaFilter) (chunk : Bytes) :
    f.feed limit chunk = loop limit { f with carry := [] } (f.carry ++ chunk) := by
  rw [feed]
  split
  · rfl
  · rename_i empty
    rw [List.length_eq_zero_iff.mp (not_not.mp empty), List.nil_append]

theorem feed_spec {f : MetaFilter} (holding : Holding f) (chunk : Bytes) :
    Feeds f.toHistory (f.withheld ++ chunk) (f.feed none chunk) := by
  have whole : f.withheld ++ chunk = ahead { f with carry := [] } (f.carry ++ chunk) := by
    simp only [withheld, ahead]
    split <;> simp only [List.append_assoc]
  rw [feed_eq_loop, whole]
  exact loop_spec _ _ (holding.ready chunk)

/-- The filter makes the calls of the parse of what it was fed, where every payload can
be read. -/
theorem feedAll_spec {f : MetaFilter} (holding : Holding f) (chunks : List Bytes) :
    Feeds f.toHistory (f.withheld ++ chunks.flatten) (f.feedAll none chunks) := by
  induction chunks generalizing f with
  | nil =>
      rw [List.flatten_nil, List.append_nil]
      exact holding.feeds
  | cons chunk chunks ih =>
      have fed := feed_spec holding chunk
      have later := ih fed.holding
      have parsed := parse_append (m := brackets) (f.withheld ++ chunk) chunks.flatten
      rw [← fed.withheld_eq] at parsed
      rw [feedAll, List.flatten_cons, ← List.append_assoc]
      refine ⟨?_, ?_, ?_, ?_, later.holding⟩
      · rw [parsed, Parsed.items_continued, History.shown_append, ← fed.items_eq,
          ← fed.history_eq, ← later.items_eq]
        exact List.flatMap_append
      · rw [parsed, Parsed.items_continued, History.after_append, ← fed.history_eq]
        exact later.history_eq
      · rw [parsed, Parsed.pending_continued]
        exact later.withheld_eq
      · rw [parsed, Parsed.inside_continued]
        exact later.inMeta_eq

/-- No opening marker reaches back over ST. -/
theorem held_append_ST (bytes : Bytes) : held OSC (bytes ++ ST) = [] := by
  rw [show bytes ++ ST = (bytes ++ [0x1b]) ++ [0x5c] by simp [ST]]
  exact held_concat_of_notMem (by decide) _

/-! ## Payloads that cannot be read -/

/-- The call is made by the engine. -/
def Readable (limit : Option Nat) : Output → Prop
  | .emit _ => True
  | .onMeta payload => Fits limit payload

instance (limit : Option Nat) : DecidablePred (Readable limit)
  | .emit _ => inferInstanceAs (Decidable True)
  | .onMeta payload => inferInstanceAs (Decidable (Fits limit payload))

/-- The calls before the first payload that cannot be read. -/
def readable (limit : Option Nat) (outputs : List Output) : List Output :=
  outputs.takeWhile (Readable limit ·)

/-- The filter is in a unit whose payload cannot be read any more, however it ends. -/
def Stuck (limit : Option Nat) (f : MetaFilter) : Prop := f.inMeta = true ∧ ¬ Fits limit f.acc

theorem fits_of_append {limit : Option Nat} {acc more : Bytes} (fits : Fits limit (acc ++ more)) :
    Fits limit acc := by
  intro n mem
  have whole := fits n mem
  rw [List.length_append] at whole
  omega

theorem Stuck.loop {limit : Option Nat} {f : MetaFilter} (stuck : Stuck limit f) (data : Bytes) :
    (f.loop limit data).2 = [] ∧ Stuck limit (f.loop limit data).1 := by
  obtain ⟨inside, long⟩ := stuck
  have longer (more : Bytes) : ¬ Fits limit (f.acc ++ more) := fun fits =>
    long (fits_of_append fits)
  rw [MetaFilter.loop]
  split
  · exact ⟨rfl, inside, long⟩
  · simp only [inside]
    cases found : indexOf data ST with
    | none =>
        simp only
        rw [ite_append_take]
        exact ⟨trivial, rfl, longer _⟩
    | some j =>
        simp only
        rw [if_neg (longer _)]
        exact ⟨rfl, rfl, longer _⟩

theorem Stuck.feed {limit : Option Nat} {f : MetaFilter} (stuck : Stuck limit f) (chunk : Bytes) :
    (f.feed limit chunk).2 = [] ∧ Stuck limit (f.feed limit chunk).1 := by
  rw [feed_eq_loop]
  exact Stuck.loop (f := { f with carry := [] }) stuck _

theorem Stuck.feedAll {limit : Option Nat} {f : MetaFilter} (stuck : Stuck limit f)
    (chunks : List Bytes) :
    (f.feedAll limit chunks).2 = [] ∧ Stuck limit (f.feedAll limit chunks).1 := by
  induction chunks generalizing f with
  | nil => exact ⟨rfl, stuck⟩
  | cons chunk chunks ih =>
      obtain ⟨noCalls, stillStuck⟩ := stuck.feed chunk
      obtain ⟨noMore, stuckLater⟩ := ih stillStuck
      exact ⟨by rw [MetaFilter.feedAll, noCalls, noMore, List.append_nil], stuckLater⟩

/-- A filter against one whose engine sets no bound: the same, or stuck behind the same
calls. -/
inductive Runs (limit : Option Nat) (free : MetaFilter × List Output) :
    MetaFilter × List Output → Prop
  | through (all : ∀ output ∈ free.2, Readable limit output) : Runs limit free free
  | stops {f : MetaFilter} (unread : ∃ output ∈ free.2, ¬ Readable limit output)
      (stuck : Stuck limit f) : Runs limit free (f, readable limit free.2)

section

variable {limit : Option Nat} {free result : MetaFilter × List Output}

theorem readable_append {outputs : List Output}
    (all : ∀ output ∈ outputs, Readable limit output) (later : List Output) :
    readable limit (outputs ++ later) = outputs ++ readable limit later := by
  rw [readable, List.takeWhile_append_of_pos fun output mem => decide_eq_true (all output mem)]
  rfl

theorem readable_append_of_stopped {outputs : List Output}
    (unread : ∃ output ∈ outputs, ¬ Readable limit output) (later : List Output) :
    readable limit (outputs ++ later) = readable limit outputs := by
  obtain ⟨output, mem, long⟩ := unread
  rw [readable, List.takeWhile_append, if_neg]
  · rfl
  · intro whole
    have same := (List.takeWhile_prefix (fun o => decide (Readable limit o))).eq_of_length whole
    rw [List.takeWhile_eq_self_iff] at same
    exact long (of_decide_eq_true (same output mem))

/-- Calls that can be read stand in front. -/
theorem Runs.prepend (runs : Runs limit free result) {outputs : List Output}
    (all : ∀ output ∈ outputs, Readable limit output) :
    Runs limit (free.1, outputs ++ free.2) (result.1, outputs ++ result.2) := by
  cases runs with
  | through allLater =>
      refine .through fun output mem => ?_
      rcases List.mem_append.mp mem with now | later
      · exact all output now
      · exact allLater output later
  | stops unread stuck =>
      obtain ⟨output, mem, long⟩ := unread
      rw [← readable_append all]
      exact .stops ⟨output, List.mem_append_right _ mem, long⟩ stuck

theorem readable_of_mem_out {f : MetaFilter} {data : Bytes} {cut : Nat} :
    ∀ output ∈ (if 0 < cut then f.out (data.take cut) else []), Readable limit output := by
  intro output mem
  rw [out] at mem
  repeat' split at mem
  all_goals first | cases mem; done | (rw [List.mem_singleton] at mem; rw [mem]; exact trivial)

theorem loop_runs (f : MetaFilter) (data : Bytes) :
    Runs limit (f.loop none data) (f.loop limit data) := by
  induction f, data using loop.induct none with
  | case1 f =>
      rw [loop, dif_pos rfl, loop, dif_pos rfl]
      exact .through (List.forall_mem_nil _)
  | case2 f data nonempty mode absent =>
      rw [loop, dif_neg nonempty, loop, dif_neg nonempty]
      simp only [mode, absent]
      exact .through readable_of_mem_out
  | case3 f data nonempty mode i found ih =>
      rw [loop, dif_neg nonempty, loop, dif_neg nonempty]
      simp only [mode, found]
      exact ih.prepend readable_of_mem_out
  | case4 f data nonempty mode absent =>
      rw [loop, dif_neg nonempty, loop, dif_neg nonempty]
      simp only [mode, absent]
      exact .through (List.forall_mem_nil _)
  | case5 f data nonempty mode j found payload fits ih =>
      rw [loop, dif_neg nonempty, loop, dif_neg nonempty]
      simp only [mode, found]
      rw [if_pos (fits_none _)]
      by_cases short : Fits limit (f.acc ++ data.take j)
      · rw [if_pos short]
        have one : ∀ output ∈ [Output.onMeta (f.acc ++ data.take j)], Readable limit output := by
          intro output mem
          rw [List.mem_singleton] at mem
          rw [mem]
          exact short
        exact ih.prepend one
      · rw [if_neg short]
        have nothing : ∀ later, readable limit (.onMeta (f.acc ++ data.take j) :: later) = [] :=
          fun later => List.takeWhile_cons_of_neg fun read => short (of_decide_eq_true read)
        rw [← nothing]
        exact .stops ⟨_, List.mem_cons_self, short⟩ ⟨rfl, short⟩
  | case6 f data nonempty mode j found payload long => exact absurd (fits_none _) long

theorem feedAll_runs (limit : Option Nat) (f : MetaFilter) (chunks : List Bytes) :
    Runs limit (f.feedAll none chunks) (f.feedAll limit chunks) := by
  induction chunks generalizing f with
  | nil => exact .through (List.forall_mem_nil _)
  | cons chunk chunks ih =>
      have first : Runs limit (f.feed none chunk) (f.feed limit chunk) := by
        rw [feed_eq_loop, feed_eq_loop]
        exact loop_runs _ _
      rw [feedAll, feedAll]
      revert first
      generalize f.feed none chunk = free
      generalize f.feed limit chunk = result
      intro first
      cases first with
      | through all => exact (ih free.1).prepend all
      | @stops g unread stuck =>
          obtain ⟨noCalls, stillStuck⟩ := stuck.feedAll chunks
          obtain ⟨output, mem, long⟩ := unread
          simp only [noCalls, List.append_nil]
          rw [← readable_append_of_stopped ⟨output, mem, long⟩ (free.1.feedAll none chunks).2]
          exact .stops ⟨output, List.mem_append_left _ mem, long⟩ stillStuck

end

/-! ## From any state -/

/-- What a page does with the filter. -/
inductive Op where
  | feed (chunk : Bytes)
  | reset

/-- The filter after one operation. -/
def apply (limit : Option Nat) (f : MetaFilter) : Op → MetaFilter
  | .feed chunk => (f.feed limit chunk).1
  | .reset => f.reset

/-- The filter after the operations of the past. -/
def after (limit : Option Nat) (past : List Op) : MetaFilter := past.foldl (apply limit) make

/-- A run of chunks is filtered as the reference parse of the bytes says, of those that
were withheld and the new ones: however it was cut, every byte accounted for, and nothing
withheld but an unfinished unit or the longest proper prefix of OSC at the end. -/
structure Exact (limit : Option Nat) (f : MetaFilter) (chunks : List Bytes) : Prop where
  once : outputItems (f.feedAll limit chunks).2 = outputItems (f.feed limit chunks.flatten).2
  shown : outputItems (f.feedAll limit chunks).2 =
    f.toHistory.shown (parse brackets (f.withheld ++ chunks.flatten)).items
  accounted : (parse brackets (f.withheld ++ chunks.flatten)).flatten brackets =
    f.withheld ++ chunks.flatten
  withheld : (f.feedAll limit chunks).1.withheld =
    (parse brackets (f.withheld ++ chunks.flatten)).pending brackets
  inside : (parse brackets (f.withheld ++ chunks.flatten)).inside = true →
    ∃ payload, (f.feedAll limit chunks).1.withheld = OSC ++ payload ∧ ¬ ST <:+: payload
  outside : (parse brackets (f.withheld ++ chunks.flatten)).inside = false →
    (f.feedAll limit chunks).1.withheld = held OSC (f.withheld ++ chunks.flatten)

/-- Every unit among the items can be read, and so can what a filter inside a unit has
of it. -/
def Legible (limit : Option Nat) (f : MetaFilter) (items : List (Item UInt8)) : Prop :=
  ∀ payload, .unit payload ∈ items → Fits limit payload ∧ (f.inMeta = true → Fits limit f.acc)

section

variable {limit : Option Nat} {f : MetaFilter}

/-- Inside a unit, bytes without ST are kept. -/
theorem loop_unended (inside : f.inMeta = true) (noCarry : f.carry = []) {data : Bytes}
    (noEnd : ¬ ST <:+: data) :
    (f.loop limit data).2 = [] ∧ (f.loop limit data).1.inMeta = true ∧
      (f.loop limit data).1.acc ++ (f.loop limit data).1.carry = f.acc ++ data := by
  rw [loop]
  split
  · rename_i empty
    exact ⟨rfl, inside, by rw [noCarry, empty]⟩
  · have absent : indexOf data ST = none := by
      cases found : indexOf data ST with
      | none => rfl
      | some j =>
          have cut := indexOf_eq_some (by decide) found
          rw [(cutAt_eq_none_iff (by decide)).mpr noEnd] at cut
          cases cut
    simp only [inside, absent]
    refine ⟨trivial, trivial, ?_⟩
    rw [ite_append_take, List.append_assoc, List.take_append_drop]

theorem feedAll_unended (inside : f.inMeta = true) {chunks : List Bytes}
    (noEnd : ¬ ST <:+: f.acc ++ (f.carry ++ chunks.flatten)) :
    (f.feedAll limit chunks).2 = [] ∧
      (f.feedAll limit chunks).1.withheld = f.withheld ++ chunks.flatten := by
  induction chunks generalizing f with
  | nil => exact ⟨rfl, by rw [List.flatten_nil, List.append_nil]; rfl⟩
  | cons chunk chunks ih =>
      rw [List.flatten_cons] at noEnd ⊢
      have noEndNow : ¬ ST <:+: f.carry ++ chunk := fun occurs => noEnd <|
        occurs.trans ⟨f.acc, chunks.flatten, by simp only [List.append_assoc]⟩
      obtain ⟨noCalls, stillInside, kept⟩ :=
        @loop_unended limit { f with carry := [] } inside rfl _ noEndNow
      rw [← feed_eq_loop] at noCalls stillInside kept
      obtain ⟨noMore, keptLater⟩ := ih stillInside (by
        rw [← List.append_assoc, kept]
        simpa only [List.append_assoc] using noEnd)
      refine ⟨by rw [feedAll, noCalls, noMore, List.append_nil], ?_⟩
      rw [feedAll, keptLater]
      simp only [withheld, inside, stillInside, if_true, kept, List.append_assoc]

theorem unit_mem_shown (h : History) (items : List (Item UInt8)) (payload : Bytes) :
    .unit payload ∈ h.shown items ↔ .unit payload ∈ items := by
  induction items generalizing h with
  | nil => rfl
  | cons item items ih =>
      cases item with
      | plain b =>
          rw [History.shown]
          split <;> simp [ih]
      | unit other => simp [History.shown, ih]

theorem unit_mem_outputItems (outputs : List Output) (payload : Bytes) :
    .unit payload ∈ outputItems outputs ↔ .onMeta payload ∈ outputs := by
  rw [outputItems, List.mem_flatMap]
  constructor
  · rintro ⟨output, mem, item⟩
    cases output with
    | emit bytes => simp [Output.items] at item
    | onMeta other =>
        rw [Output.items, List.mem_singleton] at item
        cases item
        exact mem
  · exact fun mem => ⟨_, mem, List.mem_singleton_self _⟩

/-- The calls agree with the parse as they do where every payload can be read. -/
theorem Exact.of_calls {chunks : List Bytes} {result : MetaFilter × List Output}
    (isResult : f.feedAll limit chunks = result)
    (once : outputItems (f.feed limit chunks.flatten).2 =
      f.toHistory.shown (parse brackets (f.withheld ++ chunks.flatten)).items)
    (shown : outputItems result.2 =
      f.toHistory.shown (parse brackets (f.withheld ++ chunks.flatten)).items)
    (kept : result.1.withheld =
      (parse brackets (f.withheld ++ chunks.flatten)).pending brackets) :
    Exact limit f chunks := by
  subst isResult
  refine ⟨shown.trans once.symm, shown, flatten_parse _, kept, fun inside => ?_, fun outside => ?_⟩
  · rw [kept]
    exact pending_parse_of_inside inside
  · rw [kept]
    exact pending_parse_of_outside held_append_ST outside

theorem feedAll_singleton (chunk : Bytes) : f.feedAll limit [chunk] = f.feed limit chunk := by
  rw [feedAll, feedAll, List.append_nil]

/-- Where every payload can be read, the limit does not show. -/
theorem feedAll_eq_of_fit (holding : Holding f) {chunks : List Bytes}
    (fit : ∀ payload, .unit payload ∈
      (parse brackets (f.withheld ++ chunks.flatten)).items → Fits limit payload) :
    f.feedAll limit chunks = f.feedAll none chunks := by
  have fed := feedAll_spec holding chunks
  have runs := feedAll_runs limit f chunks
  revert fed runs
  generalize f.feedAll none chunks = free
  generalize f.feedAll limit chunks = result
  intro fed runs
  cases runs with
  | through all => rfl
  | stops unread stuck =>
      obtain ⟨output, mem, long⟩ := unread
      cases output with
      | emit bytes => exact absurd trivial long
      | onMeta payload =>
          refine absurd (fit payload ?_) long
          rw [← unit_mem_shown f.toHistory, ← fed.items_eq, unit_mem_outputItems]
          exact mem

/-- A payload that is reported has been read. -/
theorem fits_of_mem_feedAll (f : MetaFilter) {chunks : List Bytes} {payload : Bytes}
    (mem : .onMeta payload ∈ (f.feedAll limit chunks).2) : Fits limit payload := by
  have runs := feedAll_runs limit f chunks
  revert mem runs
  generalize f.feedAll none chunks = free
  generalize f.feedAll limit chunks = result
  intro mem runs
  cases runs with
  | through all => exact all _ mem
  | stops unread stuck =>
      have read := List.mem_takeWhile_imp (p := fun o => decide (Readable limit o)) mem
      exact of_decide_eq_true read

theorem Runs.holding_or_stuck {free result : MetaFilter × List Output}
    (runs : Runs limit free result) (holding : Holding free.1) :
    Holding result.1 ∨ Stuck limit result.1 := by
  cases runs with
  | through all => exact .inl holding
  | stops unread stuck => exact .inr stuck

theorem exact_iff_of_holding (holding : Holding f) (chunks : List Bytes) :
    Exact limit f chunks ↔
      ∀ payload, .unit payload ∈ (parse brackets (f.withheld ++ chunks.flatten)).items →
        Fits limit payload := by
  constructor
  · intro isExact payload mem
    have reported : .onMeta payload ∈ (f.feedAll limit chunks).2 := by
      rw [← unit_mem_outputItems, isExact.shown, unit_mem_shown]
      exact mem
    exact fits_of_mem_feedAll f reported
  · intro fit
    have fed := feedAll_spec holding chunks
    have once := feedAll_spec holding [chunks.flatten]
    have fitOnce := fit
    rw [← feedAll_eq_of_fit holding fit] at fed
    rw [← List.flatten_singleton (l := chunks.flatten)] at fitOnce
    rw [← feedAll_eq_of_fit holding fitOnce, feedAll_singleton, List.flatten_singleton] at once
    exact .of_calls rfl once.items_eq fed.items_eq fed.withheld_eq

theorem exact_iff_of_stuck (stuck : Stuck limit f) (chunks : List Bytes) :
    Exact limit f chunks ↔
      ∀ payload, .unit payload ∉ (parse brackets (f.withheld ++ chunks.flatten)).items := by
  have whole : f.withheld ++ chunks.flatten = OSC ++ (f.acc ++ (f.carry ++ chunks.flatten)) := by
    rw [withheld, if_pos stuck.1]
    simp only [List.append_assoc]
  have opened := cutAt_of_isPrefix brackets.opening_ne (f.acc ++ (f.carry ++ chunks.flatten))
  constructor
  · intro isExact payload mem
    rw [← unit_mem_shown f.toHistory, ← isExact.shown, (stuck.feedAll chunks).1] at mem
    cases mem
  · intro noUnit
    have noEnd : cutAt ST (f.acc ++ (f.carry ++ chunks.flatten)) = none := by
      cases closed : cutAt ST (f.acc ++ (f.carry ++ chunks.flatten)) with
      | none => rfl
      | some cut =>
          refine absurd ?_ (noUnit cut.1)
          rw [whole, show OSC = brackets.opening from rfl, parse_of_unit opened closed,
            Parsed.items]
          exact List.mem_append_right _ List.mem_cons_self
    have parsed : parse brackets (f.withheld ++ chunks.flatten) =
        .unfinished [] (f.acc ++ (f.carry ++ chunks.flatten)) := by
      rw [whole]
      exact parse_of_unfinished opened noEnd
    have kept : (f.feedAll limit chunks).1.withheld = f.withheld ++ chunks.flatten :=
      (feedAll_unended stuck.1 ((cutAt_eq_none_iff (by decide)).mp noEnd)).2
    refine .of_calls rfl ?_ ?_ ?_
    · rw [(stuck.feed _).1, parsed]
      rfl
    · rw [(stuck.feedAll _).1, parsed]
      rfl
    · rw [kept, parsed, whole]
      rfl

theorem holding_or_stuck_after (past : List Op) :
    Holding (after limit past) ∨ Stuck limit (after limit past) := by
  suffices ∀ f, Holding f ∨ Stuck limit f →
      Holding (past.foldl (apply limit) f) ∨ Stuck limit (past.foldl (apply limit) f) from
    this _ (.inl .make)
  induction past with
  | nil => exact fun _ known => known
  | cons op past ih =>
      intro f known
      apply ih
      cases op with
      | reset => exact .inl (.reset f)
      | feed chunk =>
          rcases known with holding | stuck
          · have runs := feedAll_runs limit f [chunk]
            have fed := feed_spec holding chunk
            rw [feedAll_singleton, feedAll_singleton] at runs
            exact runs.holding_or_stuck fed.holding
          · exact .inr (stuck.feed chunk).2

end

/-- The META filter is chunk-invariant and exact exactly when every payload can be read,
from any state between chunks. -/
theorem metaFilter_exact_iff (limit : Option Nat) (past : List Op) (chunks : List Bytes) :
    Exact limit (after limit past) chunks ↔
      Legible limit (after limit past)
        (parse brackets ((after limit past).withheld ++ chunks.flatten)).items := by
  by_cases stuck : Stuck limit (after limit past)
  · rw [exact_iff_of_stuck stuck]
    exact ⟨fun noUnit payload mem => absurd mem (noUnit payload),
      fun legible payload mem => stuck.2 ((legible payload mem).2 stuck.1)⟩
  · rw [exact_iff_of_holding ((holding_or_stuck_after past).resolve_right stuck)]
    refine ⟨fun fit payload mem => ⟨fit payload mem, fun inside => ?_⟩,
      fun legible payload mem => (legible payload mem).1⟩
    exact not_not.mp fun long => stuck ⟨inside, long⟩

/-- A unit that cannot be read is not passed on, and neither is anything behind it until
a reset. -/
theorem stuck_of_long {limit : Option Nat} {payload : Bytes} (long : ¬ Fits limit payload)
    (noEnd : ¬ ST <:+: payload) :
    Stuck limit (make.feed limit (OSC ++ (payload ++ ST))).1 ∧
      ¬ Exact limit make [OSC ++ (payload ++ ST)] := by
  have parsed : parse brackets (OSC ++ (payload ++ ST)) = .unit [] payload (.plain [] []) := by
    have whole := parse_text_unit (m := brackets) (by decide) (by decide)
      (show ¬ OSC <:+: [] by decide) noEnd []
    rwa [List.append_nil, parse_nil] at whole
  have runs := feedAll_runs limit make [OSC ++ (payload ++ ST)]
  have fed := feed_spec .make (OSC ++ (payload ++ ST))
  rw [feedAll_singleton, feedAll_singleton] at runs
  rw [show make.withheld ++ (OSC ++ (payload ++ ST)) = OSC ++ (payload ++ ST) from rfl] at fed
  constructor
  · revert fed runs
    generalize make.feed none (OSC ++ (payload ++ ST)) = free
    generalize make.feed limit (OSC ++ (payload ++ ST)) = result
    intro runs fed
    cases runs with
    | stops unread stuck => exact stuck
    | through all =>
        refine absurd (all (.onMeta payload) ?_) long
        rw [← unit_mem_outputItems, fed.items_eq, unit_mem_shown, parsed]
        exact List.mem_singleton_self _
  · rw [exact_iff_of_holding .make]
    intro fit
    refine long (fit payload ?_)
    rw [List.flatten_singleton,
      show make.withheld ++ (OSC ++ (payload ++ ST)) = OSC ++ (payload ++ ST) from rfl, parsed]
    exact List.mem_singleton_self _

/-- One unit of 126000 bytes, in an engine that passes 125000 arguments. -/
theorem longUnit_not_exact :
    let unit : Bytes := OSC ++ (List.replicate 126000 0x61 ++ ST)
    (∀ later, ((make.feed (some 125000) unit).1.feedAll (some 125000) later).2 = []) ∧
      ¬ ∀ past chunks, Exact (some 125000) (after (some 125000) past) chunks := by
  have long : ¬ Fits (some 125000) (List.replicate 126000 (0x61 : UInt8)) := by
    intro fits
    have bound := fits 125000 rfl
    rw [List.length_replicate] at bound
    omega
  have noEnd : ¬ ST <:+: List.replicate 126000 (0x61 : UInt8) := by
    intro occurs
    have mem : (0x1b : UInt8) ∈ List.replicate 126000 (0x61 : UInt8) := occurs.subset (by decide)
    exact absurd (List.eq_of_mem_replicate mem) (by decide)
  obtain ⟨stuck, inexact⟩ := stuck_of_long long noEnd
  exact ⟨fun later => (stuck.feedAll later).1, fun isExact => inexact (isExact [] _)⟩

end MetaFilter

end Drover.Term
