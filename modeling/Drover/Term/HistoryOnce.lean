import Drover.Term.Producer

/-!
# History once per page

The filter takes the history for done at `hist_end`, the page takes it for
received at the META.  A connection that is cut between the two leaves them
disagreeing: the page asks for no more history while the filter would still
accept it.  `oncePerPage_iff` says that nothing else can go wrong.
-/

namespace Drover.Term

open Drover.Stream

/-- A connection: how much of a producer stream arrived over it, and in which
messages.  The engine passes as many arguments as the META has bytes. -/
structure Connection (limit : Option Nat) where
  producer : Producer
  messages : List Bytes
  isPrefix : messages.flatten <+: producer.bytes
  readable : Fits limit producer.payload

variable {limit : Option Nat}

namespace Connection

/-- The META of a stream with history arrived. -/
def GotMeta (c : Connection limit) : Prop :=
  c.producer.hist = true ∧ c.producer.metaUnit <+: c.messages.flatten

/-- A history section arrived, up to its `hist_end`. -/
def GotSection (c : Connection limit) : Prop :=
  c.producer.hist = true ∧ c.producer.historySection <+: c.messages.flatten

end Connection

/-- What a page did during one connection. -/
structure Visit (limit : Option Nat) where
  connection : Connection limit
  hello : List Hello
  outputs : List Output

/-- The plain bytes up to the next unit. -/
def plainBytes : List (Item UInt8) → Bytes
  | .plain b :: items => b :: plainBytes items
  | _ => []

/-- The emitted bytes of the history section: those right behind the META. -/
def historyBytes : List (Item UInt8) → Bytes
  | .unit _ :: items => plainBytes items
  | _ => []

namespace Visit

/-- Bytes of a history body were emitted. -/
def EmitsHistory (v : Visit limit) : Prop :=
  v.connection.producer.hist = true ∧ historyBytes (outputItems v.outputs) ≠ []

/-- A history section was passed on completely. -/
def Delivers (v : Visit limit) : Prop :=
  v.connection.producer.hist = true ∧
    .unit v.connection.producer.payload ::
      (v.connection.producer.body.map Item.plain ++ [.unit (ascii "hist_end")]) <+:
        outputItems v.outputs

end Visit

namespace Page

/-- The visit of a connection. -/
def visit (p : Page) (c : Connection limit) : Visit limit :=
  let done := p.connection limit c.messages
  ⟨c, done.2.1, done.2.2⟩

/-- The page after some connections. -/
def after (p : Page) : List (Connection limit) → Page
  | [] => p
  | c :: connections => (p.connection limit c.messages).1.after connections

/-- The visits of some connections. -/
def visits (p : Page) : List (Connection limit) → List (Visit limit)
  | [] => []
  | c :: connections => p.visit c :: (p.connection limit c.messages).1.visits connections

end Page

/-- The history is delivered once per page: at most one visit emits bytes of a
history body, and a page that asks for no more history has passed on a complete
section. -/
structure OncePerPage (visits : List (Visit limit)) : Prop where
  once : ∀ past v later, visits = past ++ v :: later → v.EmitsHistory →
    ∀ u ∈ past, ¬ u.EmitsHistory
  delivered : ∀ past v later, visits = past ++ v :: later → .v2NoHist ∈ v.hello →
    ∃ u ∈ past, u.Delivers

/-- No connection follows one that was cut inside a history section, unless a
complete section had arrived. -/
def Undisturbed (connections : List (Connection limit)) : Prop :=
  ∀ past c later, connections = past ++ c :: later →
    (∃ d ∈ past, d.GotMeta) → ∃ d ∈ past, d.GotSection

/-! ## One connection -/

/-- The effect of an item on `histGot`. -/
def handleItem (histGot : Bool) : Item UInt8 → Bool
  | .plain _ => histGot
  | .unit payload => Page.onMeta histGot payload

theorem foldl_handleItem_plain (bytes : Bytes) (histGot : Bool) :
    (bytes.map Item.plain).foldl handleItem histGot = histGot := by
  induction bytes with
  | nil => rfl
  | cons b bytes ih => exact ih

/-- `onMeta` only depends on the payloads. -/
theorem foldl_handle (outputs : List Output) (histGot : Bool) :
    outputs.foldl Page.handle histGot = (outputItems outputs).foldl handleItem histGot := by
  induction outputs generalizing histGot with
  | nil => rfl
  | cons output outputs ih =>
      rw [List.foldl_cons, ih, show outputItems (output :: outputs) =
        output.items ++ outputItems outputs from rfl, List.foldl_append]
      cases output with
      | emit bytes => rw [Output.items, foldl_handleItem_plain]; rfl
      | onMeta payload => rfl

theorem foldl_handleItem_shown (h : History) (items : List (Item UInt8)) (histGot : Bool) :
    (h.shown items).foldl handleItem histGot = items.foldl handleItem histGot := by
  induction items generalizing h histGot with
  | nil => rfl
  | cons item items ih =>
      cases item with
      | plain b =>
          rw [History.shown]
          split
          · exact ih h histGot
          · exact ih h histGot
      | unit payload => exact ih _ _

/-- What a connection does to the page, and what it shows. -/
structure Visited (p : Page) (c : Connection limit) : Prop where
  holding : (p.connection limit c.messages).1.metaFeed.Holding
  histGot : (p.connection limit c.messages).1.histGot = true ↔ p.histGot = true ∨ c.GotMeta
  histDone : (p.connection limit c.messages).1.metaFeed.histDone = true ↔
    p.metaFeed.histDone = true ∨ c.GotSection
  noHist : .v2NoHist ∈ (p.visit c).hello ↔ p.histGot = true
  emits : (p.visit c).EmitsHistory → c.GotMeta ∧ p.metaFeed.histDone = false
  delivers : (p.visit c).Delivers → c.GotSection
  delivers_of : c.GotSection → p.metaFeed.histDone = false → (p.visit c).Delivers

/-- All units of a connection can be read. -/
theorem Connection.fit (c : Connection limit) : ∀ payload,
    .unit payload ∈ (parse MetaFilter.brackets c.messages.flatten).items → Fits limit payload := by
  intro payload mem
  cases c.producer.settled c.isPrefix with
  | nothing noMeta itemsEq =>
      rw [itemsEq] at mem
      cases mem
  | started gotMeta unfinished text itemsEq =>
      rw [itemsEq] at mem
      simp only [List.mem_cons, Item.unit.injEq, List.mem_map, reduceCtorEq, and_false,
        exists_false, or_false] at mem
      rw [mem]
      exact c.readable
  | complete gotMeta gotSection text itemsEq =>
      rw [itemsEq] at mem
      simp only [List.mem_cons, Item.unit.injEq, List.mem_append, List.mem_map, reduceCtorEq,
        and_false, exists_false, or_false, false_or] at mem
      rcases mem with isMeta | isEnd
      · rw [isMeta]
        exact c.readable
      · rw [isEnd]
        exact fun n mem => (c.producer.histEnd_le_payload).trans (c.readable n mem)

theorem visited (p : Page) (c : Connection limit) : Visited p c := by
  have fed := MetaFilter.feedAll_spec (MetaFilter.Holding.reset p.metaFeed) c.messages
  rw [← MetaFilter.feedAll_eq_of_fit (MetaFilter.Holding.reset p.metaFeed) c.fit] at fed
  rw [show p.metaFeed.reset.withheld = [] from rfl, List.nil_append] at fed
  have items := fed.items_eq
  have history := fed.history_eq
  have got : (p.connection limit c.messages).1.histGot =
      (parse MetaFilter.brackets c.messages.flatten).items.foldl handleItem p.histGot := by
    rw [← foldl_handleItem_shown p.metaFeed.reset.toHistory, ← items, ← foldl_handle]
    rfl
  have done : (p.connection limit c.messages).1.metaFeed.histDone =
      (p.metaFeed.reset.toHistory.after
        (parse MetaFilter.brackets c.messages.flatten).items).histDone :=
    congrArg History.histDone history
  have shown : outputItems (p.visit c).outputs = _ := items
  have noHist : .v2NoHist ∈ (p.visit c).hello ↔ p.histGot = true := by
    change .v2NoHist ∈ p.connect.onopen ↔ p.histGot = true
    rw [Page.onopen, Page.connect]
    cases p.histGot <;> simp
  cases c.producer.settled c.isPrefix with
  | nothing noMeta itemsEq =>
      have noSection : ¬ c.GotSection := fun gotSection =>
        noMeta (c.producer.metaUnit_isPrefix.trans gotSection.2)
      have noGotMeta : ¬ c.GotMeta := fun gotMeta => noMeta gotMeta.2
      rw [itemsEq] at got done shown
      refine ⟨fed.holding, ?_, ?_, noHist, ?_, ?_, fun gotSection => absurd gotSection noSection⟩
      · rw [got, or_iff_left noGotMeta]
        rfl
      · rw [done, or_iff_left noSection]
        rfl
      · rintro ⟨-, emitted⟩
        rw [shown] at emitted
        exact absurd rfl emitted
      · rintro ⟨-, isPrefix⟩
        rw [shown] at isPrefix
        cases List.prefix_nil.mp isPrefix
  | started gotMeta unfinished text itemsEq =>
      have noSection : ¬ c.GotSection := fun gotSection => unfinished gotSection.2
      rw [itemsEq] at got done shown
      rw [List.foldl_cons, foldl_handleItem_plain, handleItem, Producer.onMeta_payload] at got
      rw [History.after, History.after_plain, Producer.next_payload] at done
      rw [History.shown, History.shown_plain, Producer.next_payload] at shown
      refine ⟨fed.holding, ?_, ?_, noHist, ?_, ?_, fun gotSection => absurd gotSection noSection⟩
      · rw [got, Bool.or_eq_true, Connection.GotMeta, and_iff_left gotMeta]
      · rw [done, or_iff_left noSection]
        rfl
      · rintro ⟨hist, emitted⟩
        refine ⟨⟨hist, gotMeta⟩, Bool.eq_false_iff.mpr fun histDone => ?_⟩
        rw [shown, if_pos (by exact histDone)] at emitted
        exact absurd rfl emitted
      · rintro ⟨-, isPrefix⟩
        rw [shown] at isPrefix
        have ended := (List.cons_prefix_cons.mp isPrefix).2.subset
          (List.mem_append_right _ List.mem_cons_self)
        split at ended <;> simp at ended
  | complete gotMeta gotSection text itemsEq =>
      rw [itemsEq] at got done shown
      rw [List.foldl_cons, List.foldl_append, List.foldl_cons, foldl_handleItem_plain,
        foldl_handleItem_plain, handleItem, handleItem, Producer.onMeta_payload,
        Producer.onMeta_histEnd] at got
      rw [History.after, History.after_append, History.after_plain, History.after,
        History.after_plain, Producer.next_payload, Producer.next_histEnd] at done
      rw [History.shown, History.shown_append, History.after_plain, History.shown_plain,
        History.shown, History.shown_plain, Producer.next_payload, Producer.next_histEnd] at shown
      refine ⟨fed.holding, ?_, ?_, noHist, ?_, fun delivers => ⟨delivers.1, gotSection⟩, ?_⟩
      · rw [got, Bool.or_eq_true, Connection.GotMeta, and_iff_left gotMeta]
      · rw [done, Connection.GotSection, and_iff_left gotSection]
        simp [MetaFilter.reset, or_comm]
      · rintro ⟨hist, emitted⟩
        refine ⟨⟨hist, gotMeta⟩, Bool.eq_false_iff.mpr fun histDone => ?_⟩
        rw [shown, if_pos (by exact histDone)] at emitted
        exact absurd rfl emitted
      · rintro ⟨hist, -⟩ notDone
        refine ⟨hist, ?_⟩
        rw [shown, if_neg (by exact Bool.eq_false_iff.mp notDone)]
        refine List.cons_prefix_cons.mpr ⟨rfl, (List.prefix_append_right_inj _).mpr ?_⟩
        exact List.cons_prefix_cons.mpr ⟨rfl, List.nil_prefix⟩

/-! ## Runs of connections -/

namespace Page

/-- A page that has been used so far as the connections tell. -/
structure Reflects (p : Page) (past : List (Connection limit)) : Prop where
  histGot : p.histGot = true ↔ ∃ d ∈ past, d.GotMeta
  histDone : p.metaFeed.histDone = true ↔ ∃ d ∈ past, d.GotSection

theorem Reflects.init : init.Reflects ([] : List (Connection limit)) :=
  ⟨by simp [Page.init], by simp [Page.init, MetaFilter.make]⟩

theorem Reflects.connection {p : Page} {past : List (Connection limit)} (reflects : p.Reflects past)
    (c : Connection limit) : (p.connection limit c.messages).1.Reflects (past ++ [c]) := by
  have step := visited p c
  constructor
  · rw [step.histGot, reflects.histGot]
    simp only [List.mem_append, List.mem_singleton, or_and_right, exists_or, exists_eq_left]
  · rw [step.histDone, reflects.histDone]
    simp only [List.mem_append, List.mem_singleton, or_and_right, exists_or, exists_eq_left]

theorem Reflects.after {p : Page} {past : List (Connection limit)} (reflects : p.Reflects past)
    (connections : List (Connection limit)) :
    (p.after connections).Reflects (past ++ connections) := by
  induction connections generalizing p past with
  | nil => rwa [List.append_nil]
  | cons c connections ih =>
      have rest := ih (reflects.connection c)
      rwa [List.append_assoc] at rest

theorem visits_append (p : Page) (past connections : List (Connection limit)) :
    p.visits (past ++ connections) = p.visits past ++ (p.after past).visits connections := by
  induction past generalizing p with
  | nil => rfl
  | cons c past ih => exact congrArg (p.visit c :: ·) (ih _)

/-- A visit among others is the visit of a connection among others. -/
theorem visits_eq_append {p : Page} {connections : List (Connection limit)}
    {past later : List (Visit limit)}
    {v : Visit limit} (split : p.visits connections = past ++ v :: later) :
    ∃ before c rest, connections = before ++ c :: rest ∧ past = p.visits before ∧
      v = (p.after before).visit c := by
  induction past generalizing p connections with
  | nil =>
      cases connections with
      | nil => cases split
      | cons c connections => exact ⟨[], c, connections, rfl, rfl, (List.cons.inj split).1.symm⟩
  | cons u past ih =>
      cases connections with
      | nil => cases split
      | cons c connections =>
          obtain ⟨same, rest⟩ := List.cons.inj split
          obtain ⟨before, d, later, rfl, rfl, rfl⟩ := ih rest
          exact ⟨c :: before, d, later, rfl, by rw [← same]; rfl, rfl⟩

theorem mem_visits {p : Page} {connections : List (Connection limit)} {v : Visit limit}
    (mem : v ∈ p.visits connections) :
    ∃ before c rest, connections = before ++ c :: rest ∧ v = (p.after before).visit c := by
  obtain ⟨past, later, split⟩ := List.append_of_mem mem
  obtain ⟨before, c, rest, same, -, visitEq⟩ := visits_eq_append split
  exact ⟨before, c, rest, same, visitEq⟩

/-- The first complete section is passed on. -/
theorem exists_delivers {p : Page} (notDone : p.metaFeed.histDone = false)
    {connections : List (Connection limit)} (got : ∃ d ∈ connections, d.GotSection) :
    ∃ u ∈ p.visits connections, u.Delivers := by
  induction connections generalizing p with
  | nil => simp at got
  | cons c connections ih =>
      by_cases first : c.GotSection
      · exact ⟨p.visit c, List.mem_cons_self, (visited p c).delivers_of first notDone⟩
      · have stillNot : (p.connection limit c.messages).1.metaFeed.histDone = false := by
          rw [Bool.eq_false_iff, ne_eq, (visited p c).histDone, notDone]
          simpa using first
        have rest : ∃ d ∈ connections, d.GotSection := by
          obtain ⟨d, mem, gotSection⟩ := got
          rcases List.mem_cons.mp mem with rfl | later
          · exact absurd gotSection first
          · exact ⟨d, later, gotSection⟩
        obtain ⟨u, mem, delivers⟩ := ih stillNot rest
        exact ⟨u, List.mem_cons_of_mem _ mem, delivers⟩

end Page

open Page

theorem OncePerPage.undisturbed {connections : List (Connection limit)}
    (holds : OncePerPage (init.visits connections)) : Undisturbed connections := by
  rintro past c later rfl got
  have asks := (visited (init.after past) c).noHist.mpr ((Reflects.init.after past).histGot.mpr got)
  obtain ⟨u, mem, delivers⟩ := holds.delivered _ _ _ (visits_append init past (c :: later)) asks
  obtain ⟨before, d, rest, rfl, rfl⟩ := mem_visits mem
  exact ⟨d, by simp, (visited _ d).delivers delivers⟩

theorem Undisturbed.oncePerPage {connections : List (Connection limit)}
    (undisturbed : Undisturbed connections) : OncePerPage (init.visits connections) := by
  constructor
  · intro past v later split emits u mem emitsToo
    obtain ⟨before, c, rest, same, rfl, rfl⟩ := visits_eq_append split
    obtain ⟨before', d, rest', rfl, rfl⟩ := mem_visits mem
    -- the first of the two got a META, so a complete section came before the second
    have gotMeta := ((visited _ d).emits emitsToo).1
    have gotSection := undisturbed _ c rest same ⟨d, by simp, gotMeta⟩
    have histDone := (Reflects.init.after (before' ++ d :: rest')).histDone.mpr gotSection
    rw [((visited _ c).emits emits).2] at histDone
    cases histDone
  · intro past v later split asks
    obtain ⟨before, c, rest, same, rfl, rfl⟩ := visits_eq_append split
    have got := (Reflects.init.after before).histGot.mp ((visited _ c).noHist.mp asks)
    exact exists_delivers rfl (undisturbed before c rest same got)

/-- The history is delivered once per page exactly when no connection follows
one that was cut inside a history section, before a complete section
arrived. -/
theorem oncePerPage_iff (connections : List (Connection limit)) :
    OncePerPage (init.visits connections) ↔ Undisturbed connections :=
  ⟨OncePerPage.undisturbed, Undisturbed.oncePerPage⟩

/-- A short stream with history. -/
def shortStream : Producer where
  hist := true
  before := [⟨ascii "cols", ascii "80", by simp [ascii, semicolon], by simp [ascii, semicolon],
    by decide, by decide⟩]
  after := []
  body := ascii "old"
  frames := ascii "new"
  body_clean := by decide
  frames_clean := by decide

/-- The connection is cut inside the history body, and the page connects again. -/
def cutRun : List (Connection (some 65535)) :=
  [⟨shortStream, [shortStream.metaUnit, ascii "ol"], by decide, by decide⟩,
    ⟨shortStream, [shortStream.bytes], by decide, by decide⟩]

/-- On its second connection the page asks for no more history without having
got a complete section, and the start of the body is emitted again. -/
theorem history_repeats :
    (init.visits cutRun).map (fun v => (v.hello, historyBytes (outputItems v.outputs))) =
        [([.v2, .resize], ascii "ol"), ([.v2, .v2NoHist, .resize], ascii "old")] ∧
      ¬ OncePerPage (init.visits cutRun) := by
  refine ⟨by decide +kernel, fun holds => ?_⟩
  obtain ⟨u, mem, delivers⟩ :=
    holds.delivered [_] _ [] rfl (show Hello.v2NoHist ∈ _ by decide +kernel)
  rw [List.mem_singleton] at mem
  subst mem
  have isPrefix := delivers.2
  exact absurd isPrefix (by decide +kernel)

end Drover.Term
