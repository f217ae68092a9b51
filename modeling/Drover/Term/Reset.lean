import Drover.Term.MetaFilter
import Drover.Term.SyncFilter

/-!
# What a reset leaves behind

`connect` of `term.js` resets the META filter of the page and makes a new
synchronized-update filter.  No byte survives that, but two flags of the META
filter do: `histDone`, which is meant to, and `blockHasHist`, which is not.
`reset_forgets_iff` says when the second one shows.
-/

namespace Drover.Term

open Drover.Stream

namespace MetaFilter

/-- The calls the filter makes during some operations. -/
def calls (limit : Option Nat) (f : MetaFilter) : List Op → List Output
  | [] => []
  | .feed chunk :: later => (f.feed limit chunk).2 ++ (f.feed limit chunk).1.calls limit later
  | .reset :: later => f.reset.calls limit later

end MetaFilter

/-! ## The filters of a page -/

/-- The variables of `run` through which the bytes of its sockets pass. -/
structure Screen where
  /-- How many sockets were made. -/
  made : Nat
  /-- The index of the current one. -/
  ws : Option Nat
  metaFeed : MetaFilter
  syncFeed : Option SyncFilter

/-- What happens to the filters: `connect`, and the messages of any socket. -/
inductive ScreenEvent where
  | connect
  | message (sock : Nat) (data : Bytes)

namespace Screen

/-- A page that has not connected yet. -/
def init : Screen := ⟨0, none, .make, none⟩

/-- `connect`. -/
def connect (s : Screen) : Screen where
  made := s.made + 1
  ws := some s.made
  syncFeed := some .make
  metaFeed := s.metaFeed.reset

/-- `(b) => { if (syncFeed) syncFeed(b); }` for the emits among some calls: the
filter afterwards, and what is written to the terminal. -/
def pass (syncFeed : Option SyncFilter) : List Output → Option SyncFilter × List Bytes
  | [] => (syncFeed, [])
  | .onMeta _ :: calls => pass syncFeed calls
  | .emit bytes :: calls =>
      match syncFeed with
      | none => pass none calls
      | some f =>
          let rest := pass (some (f.feed bytes).1) calls
          (rest.1, (f.feed bytes).2 ++ rest.2)

/-- `sock.onmessage`: the page afterwards, the calls of the META filter and what
is written to the terminal. -/
def onmessage (limit : Option Nat) (s : Screen) (sock : Nat) (data : Bytes) :
    Screen × List Output × List Bytes :=
  if s.ws ≠ some sock then (s, [], [])
  else
    let fed := s.metaFeed.feed limit data
    let drawn := pass s.syncFeed fed.2
    ({ s with metaFeed := fed.1, syncFeed := drawn.1 }, fed.2, drawn.2)

/-- The messages of a connection, those of other sockets among them. -/
def onmessages (limit : Option Nat) (s : Screen) :
    List (Nat × Bytes) → Screen × List Output × List Bytes
  | [] => (s, [], [])
  | message :: messages =>
      let first := s.onmessage limit message.1 message.2
      let rest := first.1.onmessages limit messages
      (rest.1, first.2.1 ++ rest.2.1, first.2.2 ++ rest.2.2)

/-- The page after an event. -/
def step (limit : Option Nat) (s : Screen) : ScreenEvent → Screen
  | .connect => s.connect
  | .message sock data => (s.onmessage limit sock data).1

/-- The page after some events. -/
def after (limit : Option Nat) (s : Screen) (events : List ScreenEvent) : Screen :=
  events.foldl (step limit) s

end Screen

/-- The bytes that a call passes on. -/
def Output.bytes : Output → Bytes
  | .emit bytes => bytes
  | .onMeta payload => payload

/-- The bytes that some calls emit. -/
def emitted : List Output → Bytes
  | [] => []
  | .emit bytes :: calls => bytes ++ emitted calls
  | .onMeta _ :: calls => emitted calls

/-- What a socket received. -/
def received (sock : Nat) (messages : List (Nat × Bytes)) : Bytes :=
  ((messages.filter (·.1 = sock)).map Prod.snd).flatten

/-- On the next connection, whatever the sockets of the page receive, every
payload and every emit is a piece of what this connection's socket received,
and every write is a piece of what was emitted on this connection. -/
def Screen.Separates (limit : Option Nat) (s : Screen) : Prop :=
  ∀ messages,
    let result := s.connect.onmessages limit messages
    (∀ call ∈ result.2.1, call.bytes <:+: received s.made messages) ∧
      ∀ piece ∈ result.2.2, piece <:+: emitted result.2.1

/-! ## No byte survives -/

namespace MetaFilter

/-- The bytes behind the last marker that belong to no call yet. -/
def unsettled (f : MetaFilter) : Bytes := if f.inMeta then f.acc ++ f.carry else f.carry

/-- What stays unsettled is the end of `whole`, or will not get into a call any more. -/
def Behind (limit : Option Nat) (whole : Bytes) (f : MetaFilter) : Prop :=
  f.unsettled <:+ whole ∨ Stuck limit f

/-- The calls are pieces of `whole`, and so are those to come. -/
structure Within (limit : Option Nat) (whole : Bytes) (result : MetaFilter × List Output) :
    Prop where
  calls : ∀ call ∈ result.2, call.bytes <:+: whole
  behind : Behind limit whole result.1

variable {limit : Option Nat}

theorem bytes_of_mem_out {f : MetaFilter} {data : Bytes} {cut : Nat} {call : Output}
    (mem : call ∈ if 0 < cut then f.out (data.take cut) else []) : call.bytes = data.take cut := by
  rw [out] at mem
  split at mem
  · split at mem
    · cases mem
    · split at mem
      · cases mem
      · rw [List.mem_singleton] at mem
        rw [mem]
        rfl
  · cases mem

theorem within_loop (f : MetaFilter) (data : Bytes) {whole : Bytes} (noCarry : f.carry = [])
    (ahead : (if f.inMeta then f.acc ++ data else data) <:+ whole) :
    Within limit whole (f.loop limit data) := by
  induction f, data using loop.induct limit with
  | case1 f =>
      rw [loop, dif_pos rfl]
      constructor
      · intro call mem
        cases mem
      · left
        rw [unsettled, noCarry]
        exact ahead
  | case2 f data nonempty mode absent =>
      rw [loop, dif_neg nonempty]
      simp only [mode, absent] at ahead ⊢
      rw [if_neg Bool.false_ne_true] at ahead
      constructor
      · intro call mem
        rw [bytes_of_mem_out mem]
        exact (List.take_prefix _ _).isInfix.trans ahead.isInfix
      · exact .inl ((List.drop_suffix _ _).trans ahead)
  | case3 f data nonempty mode i found ih =>
      rw [loop, dif_neg nonempty]
      simp only [mode, found] at ahead ⊢
      rw [if_neg Bool.false_ne_true] at ahead
      have rest := ih noCarry ((List.drop_suffix _ _).trans ahead)
      constructor
      · intro call mem
        rcases List.mem_append.mp mem with before | behind
        · rw [bytes_of_mem_out before]
          exact (List.take_prefix _ _).isInfix.trans ahead.isInfix
        · exact rest.calls call behind
      · exact rest.behind
  | case4 f data nonempty mode absent =>
      rw [loop, dif_neg nonempty]
      simp only [mode, absent] at ahead ⊢
      rw [if_pos trivial] at ahead
      constructor
      · intro call mem
        cases mem
      · left
        rw [ite_append_take]
        simp only [unsettled, if_pos, List.append_assoc, List.take_append_drop]
        exact ahead
  | case5 f data nonempty mode j found payload fits ih =>
      rw [loop, dif_neg nonempty]
      simp only [mode, found] at ahead ⊢
      rw [if_pos trivial] at ahead
      rw [if_pos (show Fits limit (f.acc ++ data.take j) from fits)]
      have dataBehind : data <:+ whole := (List.suffix_append _ _).trans ahead
      have rest := ih noCarry ((List.drop_suffix _ _).trans dataBehind)
      have inPayload : payload <+: f.acc ++ data :=
        (List.prefix_append_right_inj f.acc).mpr (List.take_prefix j data)
      constructor
      · intro call mem
        rcases List.mem_cons.mp mem with isPayload | behind
        · rw [isPayload]
          exact inPayload.isInfix.trans ahead.isInfix
        · exact rest.calls call behind
      · exact rest.behind

  | case6 f data nonempty mode j found payload long =>
      rw [loop, dif_neg nonempty]
      simp only [mode, found]
      rw [if_neg (show ¬ Fits limit (f.acc ++ data.take j) from long)]
      exact ⟨List.forall_mem_nil _, .inr ⟨rfl, long⟩⟩

/-- A feed adds its chunk to what the filter was fed before. -/
theorem within_feed {f : MetaFilter} {fed : Bytes} (before : Behind limit fed f)
    (chunk : Bytes) : Within limit (fed ++ chunk) (f.feed limit chunk) := by
  rcases before with before | stuck
  · rw [feed_eq_loop]
    apply within_loop _ _ rfl
    obtain ⟨front, rfl⟩ := before
    refine ⟨front, ?_⟩
    simp only [unsettled]
    split <;> simp only [List.append_assoc]
  · obtain ⟨noCalls, stillStuck⟩ := stuck.feed chunk
    refine ⟨?_, .inr stillStuck⟩
    rw [noCalls]
    exact List.forall_mem_nil _

end MetaFilter

theorem emitted_append (calls later : List Output) :
    emitted (calls ++ later) = emitted calls ++ emitted later := by
  induction calls with
  | nil => rfl
  | cons call calls ih =>
      cases call with
      | emit bytes => rw [List.cons_append, emitted, ih, emitted, List.append_assoc]
      | onMeta payload => exact ih

theorem received_cons_self (sock : Nat) (data : Bytes) (messages : List (Nat × Bytes)) :
    received sock ((sock, data) :: messages) = data ++ received sock messages := by
  simp [received]

theorem received_cons_of_ne {sock other : Nat} (ne : other ≠ sock) (data : Bytes)
    (messages : List (Nat × Bytes)) :
    received sock ((other, data) :: messages) = received sock messages := by
  simp [received, ne]

/-- The filter holds nothing but the end of what it was fed. -/
structure SyncFilter.Ends (fed : Bytes) (f : SyncFilter) : Prop where
  holding : f.Holding
  withheld : f.withheld <:+ fed

theorem SyncFilter.Ends.feed {f : SyncFilter} {fed : Bytes} (ends : Ends fed f) (chunk : Bytes) :
    Ends (fed ++ chunk) (f.feed chunk).1 ∧ ∀ piece ∈ (f.feed chunk).2, piece <:+: fed ++ chunk := by
  have feeds := feed_spec ends.holding chunk
  have parts := feeds.renders.flatten_append_pending
  rw [← feeds.withheld_eq, flatten_parse] at parts
  have behind : f.withheld ++ chunk <:+ fed ++ chunk := by
    obtain ⟨front, rfl⟩ := ends.withheld
    exact ⟨front, by rw [List.append_assoc]⟩
  rw [← parts] at behind
  constructor
  · exact ⟨feeds.holding, (List.suffix_append _ _).trans behind⟩
  · intro piece mem
    exact (List.infix_of_mem_flatten mem).trans
      ((List.prefix_append _ _).isInfix.trans behind.isInfix)

namespace Screen

variable {limit : Option Nat}

theorem pass_some {f : SyncFilter} {fed : Bytes} (ends : f.Ends fed) (calls : List Output) :
    ∃ g writes, pass (some f) calls = (some g, writes) ∧ g.Ends (fed ++ emitted calls) ∧
      ∀ piece ∈ writes, piece <:+: fed ++ emitted calls := by
  induction calls generalizing f fed with
  | nil => exact ⟨f, [], rfl, by rwa [emitted, List.append_nil], List.forall_mem_nil _⟩
  | cons call calls ih =>
      cases call with
      | onMeta payload => exact ih ends
      | emit bytes =>
          obtain ⟨endsToo, pieces⟩ := ends.feed bytes
          obtain ⟨g, writes, passed, endsLater, later⟩ := ih endsToo
          rw [List.append_assoc] at endsLater later
          refine ⟨g, (f.feed bytes).2 ++ writes, by rw [pass, passed], endsLater, ?_⟩
          intro piece mem
          rcases List.mem_append.mp mem with now | then_
          · apply (pieces piece now).trans
            rw [emitted, ← List.append_assoc]
            exact (List.prefix_append _ _).isInfix
          · exact later piece then_

/-- What a connection leaves in the filters comes from this connection: of what
its socket received, and of what was emitted. -/
structure Own (limit : Option Nat) (sock : Nat) (got drawn : Bytes) (s : Screen) : Prop where
  isCurrent : s.ws = some sock
  behind : s.metaFeed.Behind limit got
  syncFeed : ∃ f, s.syncFeed = some f ∧ f.Ends drawn

theorem Own.connect (s : Screen) : Own limit s.made [] [] s.connect where
  isCurrent := rfl
  behind := .inl List.suffix_rfl
  syncFeed := ⟨.make, rfl, .make, List.suffix_rfl⟩

theorem Own.onmessage {s : Screen} {sock : Nat} {got drawn : Bytes}
    (own : s.Own limit sock got drawn)
    (data : Bytes) :
    let result := s.onmessage limit sock data
    result.1.Own limit sock (got ++ data) (drawn ++ emitted result.2.1) ∧
      (∀ call ∈ result.2.1, call.bytes <:+: got ++ data) ∧
      ∀ piece ∈ result.2.2, piece <:+: drawn ++ emitted result.2.1 := by
  obtain ⟨f, isSync, ends⟩ := own.syncFeed
  have fed := MetaFilter.within_feed own.behind data
  obtain ⟨g, writes, passed, endsLater, pieces⟩ := pass_some ends (s.metaFeed.feed limit data).2
  simp only [Screen.onmessage, own.isCurrent, ne_eq, not_true_eq_false, if_false, isSync, passed]
  exact ⟨⟨rfl, fed.behind, g, rfl, endsLater⟩, fed.calls, pieces⟩

theorem onmessage_of_ne {s : Screen} {sock : Nat} (other : s.ws ≠ some sock) (data : Bytes) :
    s.onmessage limit sock data = (s, [], []) := if_pos other

theorem Own.onmessages {s : Screen} {sock : Nat} {got drawn : Bytes}
    (own : s.Own limit sock got drawn)
    (messages : List (Nat × Bytes)) :
    let result := s.onmessages limit messages
    (∀ call ∈ result.2.1, call.bytes <:+: got ++ received sock messages) ∧
      ∀ piece ∈ result.2.2, piece <:+: drawn ++ emitted result.2.1 := by
  induction messages generalizing s got drawn with
  | nil => exact ⟨List.forall_mem_nil _, List.forall_mem_nil _⟩
  | cons message messages ih =>
      obtain ⟨from_, data⟩ := message
      by_cases isOwn : from_ = sock
      · subst isOwn
        obtain ⟨ownToo, calls, pieces⟩ := own.onmessage data
        obtain ⟨callsLater, piecesLater⟩ := ih ownToo
        rw [received_cons_self, ← List.append_assoc]
        simp only [Screen.onmessages, emitted_append, ← List.append_assoc] at piecesLater ⊢
        constructor
        · intro call mem
          rcases List.mem_append.mp mem with now | later
          · exact (calls call now).trans (List.prefix_append _ _).isInfix
          · exact callsLater call later
        · intro piece mem
          rcases List.mem_append.mp mem with now | later
          · exact (pieces piece now).trans (List.prefix_append _ _).isInfix
          · exact piecesLater piece later
      · have other : s.ws ≠ some from_ := by
          rw [own.isCurrent]
          exact fun same => isOwn (Option.some.inj same).symm
        rw [received_cons_of_ne isOwn]
        simpa only [Screen.onmessages, onmessage_of_ne other, List.nil_append] using ih own

/-- No byte of an earlier connection is joined to bytes of a later one. -/
theorem separates (s : Screen) : s.Separates limit :=
  fun messages => (Own.connect s).onmessages messages

end Screen

/-! ## Two flags survive -/

namespace MetaFilter

/-- With the history done, `blockHasHist` decides nothing. -/
theorem next_done {h : History} (done : h.histDone = true) (b : Bool) (payload : Bytes) :
    (h.next payload).histDone = true ∧
      ∃ b', History.next { h with blockHasHist := b } payload =
        { h.next payload with blockHasHist := b' } := by
  simp only [History.next]
  split
  · exact ⟨done, _, rfl⟩
  · split
    · simp only [done, ite_self]
      exact ⟨trivial, b, rfl⟩
    · exact ⟨done, b, rfl⟩

theorem loop_done {f : MetaFilter} {data : Bytes} (done : f.histDone = true) (b : Bool) :
    (f.loop limit data).1.histDone = true ∧
      ∃ b', loop limit { f with blockHasHist := b } data =
        ({ (f.loop limit data).1 with blockHasHist := b' }, (f.loop limit data).2) := by
  induction f, data using loop.induct limit generalizing b with
  | case1 f =>
      rw [loop, dif_pos rfl, loop, dif_pos rfl]
      exact ⟨done, b, rfl⟩
  | case2 f data nonempty mode absent =>
      rw [loop, dif_neg nonempty, loop, dif_neg nonempty]
      simp only [mode, absent]
      exact ⟨done, b, rfl⟩
  | case3 f data nonempty mode i found ih =>
      obtain ⟨stillDone, b', same⟩ := ih done b
      rw [loop, dif_neg nonempty, loop, dif_neg nonempty]
      simp only [mode, found]
      exact ⟨stillDone, b',
        congrArg (fun r => (r.1, (if 0 < i then f.out (data.take i) else []) ++ r.2)) same⟩
  | case4 f data nonempty mode absent =>
      rw [loop, dif_neg nonempty, loop, dif_neg nonempty]
      simp only [mode, absent]
      exact ⟨done, b, rfl⟩
  | case5 f data nonempty mode j found payload fits ih =>
      obtain ⟨nextDone, b₁, nextSame⟩ := next_done done b payload
      obtain ⟨stillDone, b', same⟩ := ih nextDone b₁
      rw [loop, dif_neg nonempty, loop, dif_neg nonempty]
      simp only [mode, found]
      rw [if_pos (show Fits limit (f.acc ++ data.take j) from fits),
        if_pos (show Fits limit (f.acc ++ data.take j) from fits)]
      refine ⟨stillDone, b', ?_⟩
      rw [nextSame, same]
  | case6 f data nonempty mode j found payload long =>
      rw [loop, dif_neg nonempty, loop, dif_neg nonempty]
      simp only [mode, found]
      rw [if_neg (show ¬ Fits limit (f.acc ++ data.take j) from long),
        if_neg (show ¬ Fits limit (f.acc ++ data.take j) from long)]
      exact ⟨done, b, rfl⟩

theorem feed_done {f : MetaFilter} (done : f.histDone = true) (b : Bool) (chunk : Bytes) :
    (f.feed limit chunk).1.histDone = true ∧
      ∃ b', feed limit { f with blockHasHist := b } chunk =
        ({ (f.feed limit chunk).1 with blockHasHist := b' }, (f.feed limit chunk).2) := by
  rw [feed_eq_loop, feed_eq_loop]
  exact loop_done (f := { f with carry := [] }) done b

/-- Once the history is done, the calls do not depend on `blockHasHist`. -/
theorem calls_done {f : MetaFilter} (done : f.histDone = true) (b : Bool) (later : List Op) :
    calls limit { f with blockHasHist := b } later = f.calls limit later := by
  induction later generalizing f b with
  | nil => rfl
  | cons op later ih =>
      cases op with
      | reset => exact ih (f := f.reset) done b
      | feed chunk =>
          obtain ⟨stillDone, b', same⟩ := feed_done done b chunk
          rw [calls, same, ih stillDone b', calls]

/-- A fresh filter but for two flags. -/
def remembering (histDone blockHasHist : Bool) : MetaFilter :=
  { make with histDone := histDone, blockHasHist := blockHasHist }

/-- The two flags survive a reset, and nothing else does. -/
theorem reset_eq (f : MetaFilter) : f.reset = remembering f.histDone f.blockHasHist := rfl

/-- A `hist_end` without its META, then a history section of one byte. -/
def probe : Bytes :=
  OSC ++ ascii "hist_end" ++ ST ++ (OSC ++ ascii "v=2" ++ ST) ++ ascii "x"

/-- The probe is read by an engine that passes enough arguments for `hist_end`. -/
theorem feed_probe (enough : Fits limit (ascii "hist_end")) (b : Bool) :
    (remembering false b).feed limit probe = (remembering false b).feed none probe := by
  have holding : Holding (remembering false b) := .outside List.nil_prefix (by decide)
  have items : (parse brackets probe).items =
      [.unit (ascii "hist_end"), .unit (ascii "v=2"), .plain 0x78] := by decide +kernel
  have same : (remembering false b).feedAll limit [probe] =
      (remembering false b).feedAll none [probe] := feedAll_eq_of_fit holding fun payload mem => by
    change .unit payload ∈ (parse brackets probe).items at mem
    simp only [items, List.mem_cons, Item.unit.injEq, reduceCtorEq, List.not_mem_nil,
      or_false] at mem
    rcases mem with rfl | rfl
    · exact enough
    · exact fun n mem => le_trans (by decide) (enough n mem)
  simpa only [feedAll_singleton] using same

/-- The section behind the stray `hist_end` is dropped by a filter that
remembers a section with history. -/
theorem calls_probe (enough : Fits limit (ascii "hist_end")) (b : Bool) :
    (remembering false b).calls limit [.feed probe] =
      [.onMeta (ascii "hist_end"), .onMeta (ascii "v=2")] ++
        if b then [] else [.emit (ascii "x")] := by
  rw [calls, calls, feed_probe enough]
  cases b <;> decide +kernel

theorem eq_of_calls_probe (enough : Fits limit (ascii "hist_end")) {b b' : Bool}
    (same : (remembering false b).calls limit [.feed probe] =
      (remembering false b').calls limit [.feed probe]) : b = b' := by
  rw [calls_probe enough, calls_probe enough] at same
  cases b <;> cases b' <;> first | rfl | simp at same

/-- A `v=` payload with history is longer than `hist_end`. -/
theorem next_of_short (short : ¬ Fits limit (ascii "hist_end")) {h : History}
    (unset : h.blockHasHist = false) {payload : Bytes} (fits : Fits limit payload) :
    (h.next payload).blockHasHist = false := by
  rw [History.next]
  split
  · rename_i version
    refine Bool.eq_false_iff.mpr fun hist => short fun n mem => ?_
    obtain ⟨front, back, whole⟩ := of_decide_eq_true hist
    have bound := fits n mem
    rw [← whole] at version bound
    cases front with
    | nil => exact absurd (List.cons_prefix_cons.mp version).1 (by decide)
    | cons b front =>
        simp only [List.length_append, List.length_cons] at bound
        have part : (ascii ";hist=1").length = 7 := rfl
        have whole : (ascii "hist_end").length = 8 := rfl
        omega
  · split <;> exact unset

theorem loop_of_short (short : ¬ Fits limit (ascii "hist_end")) {f : MetaFilter} {data : Bytes}
    (unset : f.blockHasHist = false) : (f.loop limit data).1.blockHasHist = false := by
  induction f, data using loop.induct limit with
  | case1 f => rwa [loop, dif_pos rfl]
  | case2 f data nonempty mode absent =>
      rw [loop, dif_neg nonempty]
      simp only [mode, absent]
      exact unset
  | case3 f data nonempty mode i found ih =>
      rw [loop, dif_neg nonempty]
      simp only [mode, found]
      exact ih unset
  | case4 f data nonempty mode absent =>
      rw [loop, dif_neg nonempty]
      simp only [mode, absent]
      exact unset
  | case5 f data nonempty mode j found payload fits ih =>
      rw [loop, dif_neg nonempty]
      simp only [mode, found]
      rw [if_pos (show Fits limit (f.acc ++ data.take j) from fits)]
      exact ih (next_of_short short unset fits)
  | case6 f data nonempty mode j found payload long =>
      rw [loop, dif_neg nonempty]
      simp only [mode, found]
      rw [if_neg (show ¬ Fits limit (f.acc ++ data.take j) from long)]
      exact unset

/-- Where not even `hist_end` is read, no past has had a section with history. -/
theorem after_of_short (short : ¬ Fits limit (ascii "hist_end")) (past : List Op) :
    (after limit past).blockHasHist = false := by
  suffices ∀ f : MetaFilter, f.blockHasHist = false →
      (past.foldl (apply limit) f).blockHasHist = false from this _ rfl
  induction past with
  | nil => exact fun _ unset => unset
  | cons op past ih =>
      intro f unset
      apply ih
      cases op with
      | reset => exact unset
      | feed chunk =>
          rw [apply, feed_eq_loop]
          exact loop_of_short short unset

/-- The past shows only through `histDone` exactly when the history is done or
`blockHasHist` agrees too; bytes of the past never do. -/
theorem reset_forgets_iff (limit : Option Nat) (past past' : List Op)
    (same : (after limit past).histDone = (after limit past').histDone) :
    ((∀ later, (after limit past).reset.calls limit later =
          (after limit past').reset.calls limit later) ∧
        ∀ events, (Screen.init.after limit events).Separates limit) ↔
      ((after limit past).histDone = true ∨
        (after limit past).blockHasHist = (after limit past').blockHasHist) := by
  rw [reset_eq, reset_eq, ← same]
  constructor
  · rintro ⟨agree, -⟩
    by_cases enough : Fits limit (ascii "hist_end")
    · cases done : (after limit past).histDone with
      | true => exact .inl rfl
      | false =>
          rw [done] at agree
          exact .inr (eq_of_calls_probe enough (agree [.feed probe]))
    · exact .inr ((after_of_short enough past).trans (after_of_short enough past').symm)
  · intro condition
    constructor
    · intro later
      rcases condition with done | flag
      · rw [done]
        exact calls_done (f := remembering true (after limit past').blockHasHist) rfl _ later
      · rw [flag]
    · intro events
      exact (Screen.init.after limit events).separates

/-- Two pasts with one section each, the second one cut inside a unit. -/
theorem sections_forgotten :
    let passed : List Op := [.feed (OSC ++ ascii "v=2;hist=1" ++ ST ++ ascii "a")]
    let cut : List Op := passed ++ [.feed (ascii "b" ++ OSC)]
    (after none passed).histDone = (after none cut).histDone ∧
      (∀ later, (after none passed).reset.calls none later =
        (after none cut).reset.calls none later) ∧
      ∀ events, (Screen.init.after none events).Separates none := by
  intro passed cut
  have same : (after none passed).histDone = (after none cut).histDone := by decide +kernel
  exact ⟨same, (reset_forgets_iff none passed cut same).mpr (.inr (by decide +kernel))⟩

/-- A connection that is cut inside its history section leaves `blockHasHist`: a
stray `hist_end` on the next one ends the history for good, which it does not
do on the first connection of a page. -/
theorem cut_section_remembered :
    let cut : List Op := [.feed (OSC ++ ascii "v=2;hist=1" ++ ST)]
    let limit := some 65535
    ((after limit cut).histDone = (after limit []).histDone ∧
        (after limit cut).reset.calls limit [.feed probe] =
          [.onMeta (ascii "hist_end"), .onMeta (ascii "v=2")] ∧
        (after limit []).reset.calls limit [.feed probe] =
          [.onMeta (ascii "hist_end"), .onMeta (ascii "v=2"), .emit (ascii "x")]) ∧
      ¬ ∀ past past', (after limit past).histDone = (after limit past').histDone →
        ∀ later, (after limit past).reset.calls limit later =
          (after limit past').reset.calls limit later := by
  intro cut limit
  refine ⟨by decide +kernel, fun forgets => ?_⟩
  have same := forgets cut [] (by decide +kernel) [.feed probe]
  exact absurd same (by decide +kernel)

end MetaFilter

end Drover.Term
