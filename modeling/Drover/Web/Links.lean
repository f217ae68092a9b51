import Drover.Net.Percent
import Drover.Web.Dial
import Mathlib.Algebra.Order.Ring.Int

/-!
# From a console's link to the relay

The list of devices links each session to the terminal page, the page's buttons
lead on to the consoles before and behind it, and the page opens `/ws` for its
own.  On the way a PC and a session id are encoded by `encodeURIComponent`, read
by `URLSearchParams`, encoded again, parsed by the server and, where there is an
upstream relay, escaped and parsed once more.
-/

namespace Drover.Web

open Drover.Net

/-- An entry of `buildConsoleList`. -/
structure Console where
  pc : Bytes
  sid : Bytes
  dir : Bytes
  agent : Bytes

/-- What the terminal page reads of its own URL; `get` may find nothing. -/
structure TermPage where
  pc : Option Bytes
  sid : Option Bytes
  dir : Bytes
  agent : Bytes
  cols : Option Bytes
  rows : Option Bytes

/-- The value of `qs.get`, if it is true. -/
def truthy (value : Option Bytes) : Option Bytes := value.filter (· ≠ [])

/-- The page at a query. -/
def termPage (browser : Browser) (query : Bytes) : TermPage :=
  let qs := browser.searchParams query
  { pc := qs.lookup (ascii "pc")
    sid := qs.lookup (ascii "sid")
    dir := (truthy (qs.lookup (ascii "dir"))).getD []
    agent := (truthy (qs.lookup (ascii "agent"))).getD []
    cols := qs.lookup (ascii "cols")
    rows := qs.lookup (ascii "rows") }

/-- A parameter of a link that is left out if it is empty. -/
def optional (start : Bytes) (value : Option Bytes) : Bytes :=
  match truthy value with
  | some value => start ++ encodeURIComponent value
  | none => []

/-- The link of the list of devices. -/
def deviceLink (c : Console) : Bytes :=
  ascii "/term?pc=" ++ encodeURIComponent c.pc ++ ascii "&sid=" ++ encodeURIComponent c.sid ++
    ascii "&dir=" ++ encodeURIComponent c.dir ++ optional (ascii "&agent=") (some c.agent)

/-- `termURL`, on this page. -/
def termURL (page : TermPage) (c : Console) : Bytes :=
  ascii "/term?pc=" ++ encodeURIComponent c.pc ++ ascii "&sid=" ++ encodeURIComponent c.sid ++
    ascii "&dir=" ++ encodeURIComponent c.dir ++ optional (ascii "&agent=") (some c.agent) ++
    optional (ascii "&cols=") page.cols ++ optional (ascii "&rows=") page.rows

/-- The query of a link that a browser follows. -/
def follow (href : Bytes) : Bytes := urlQuery (rawQuery href)

/-! ## What a link holds -/

/-- A parameter of a link, encoded. -/
def linkText (name : String) (value : Bytes) : Bytes × Bytes :=
  (ascii name, encodeURIComponent value)

/-- A parameter that is left out where it has no value, as the link has it. -/
def optionalTexts (name : String) (value : Option Bytes) : Values :=
  ((truthy value).map (linkText name)).toList

/-- A parameter that is left out where it has no value, as it is read. -/
def optionalPairs (name : String) (value : Option Bytes) : Values :=
  ((truthy value).map fun v => (ascii name, v)).toList

/-- The parameters of a link. -/
def linkPairs (c : Console) (cols rows : Option Bytes) : Values :=
  [(ascii "pc", c.pc), (ascii "sid", c.sid), (ascii "dir", c.dir)] ++
    (optionalPairs "agent" (some c.agent) ++ (optionalPairs "cols" cols ++
      optionalPairs "rows" rows))

/-- The parameters of the link to a console, as it has them. -/
def linkTexts (c : Console) (cols rows : Option Bytes) : Values :=
  [linkText "pc" c.pc, linkText "sid" c.sid, linkText "dir" c.dir] ++
    (optionalTexts "agent" (some c.agent) ++ (optionalTexts "cols" cols ++
      optionalTexts "rows" rows))

theorem optional_eq (start : Bytes) (name : String) (value : Option Bytes)
    (isName : start = ampersand :: (ascii name ++ [equals])) :
    optional start value =
      (optionalTexts name value).flatMap fun p => ampersand :: pairText p.1 p.2 := by
  rw [optional, optionalTexts, isName]
  cases truthy value with
  | none => rfl
  | some v =>
      simp only [Option.map_some, Option.toList_some, List.flatMap_singleton, linkText, pairText,
        List.cons_append, List.append_assoc, List.nil_append]

theorem link_eq (c : Console) (cols rows : Option Bytes) :
    ascii "/term?pc=" ++ encodeURIComponent c.pc ++ ascii "&sid=" ++ encodeURIComponent c.sid ++
      ascii "&dir=" ++ encodeURIComponent c.dir ++ optional (ascii "&agent=") (some c.agent) ++
      optional (ascii "&cols=") cols ++ optional (ascii "&rows=") rows =
        ascii "/term" ++ question :: joinPairs (linkTexts c cols rows) := by
  have front : ascii "/term?pc=" = ascii "/term" ++ question :: (ascii "pc" ++ [equals]) := by
    decide
  have sid : ascii "&sid=" = ampersand :: (ascii "sid" ++ [equals]) := by decide
  have dir : ascii "&dir=" = ampersand :: (ascii "dir" ++ [equals]) := by decide
  have three : joinPairs [linkText "pc" c.pc, linkText "sid" c.sid, linkText "dir" c.dir] =
      pairText (ascii "pc") (encodeURIComponent c.pc) ++ ampersand ::
        (pairText (ascii "sid") (encodeURIComponent c.sid) ++ ampersand ::
          pairText (ascii "dir") (encodeURIComponent c.dir)) := by
    rw [joinPairs_cons_cons, joinPairs_cons_cons, joinPairs, List.map_singleton,
      List.intercalate_singleton]
    rfl
  rw [linkTexts, joinPairs_append (List.cons_ne_nil _ _), three, List.flatMap_append,
    List.flatMap_append, optional_eq (ascii "&agent=") "agent" _ (by decide),
    optional_eq (ascii "&cols=") "cols" _ (by decide),
    optional_eq (ascii "&rows=") "rows" _ (by decide), front, sid, dir]
  simp only [pairText, List.append_assoc, List.cons_append, List.nil_append]

theorem encodes_ascii {name : String} (plain : (ascii name).all isUnreserved = true) :
    Encodes (ascii name) (ascii name) := by
  have escaped := encodes_queryEscape (ascii name)
  rwa [queryEscape_of_isUnreserved plain] at escaped

theorem pairsEncode_optional {name : String} (plain : (ascii name).all isUnreserved = true)
    (value : Option Bytes) :
    PairsEncode (optionalTexts name value) (optionalPairs name value) := by
  rw [optionalTexts, optionalPairs]
  cases truthy value with
  | none => exact .nil
  | some v => exact .cons ⟨encodes_ascii plain, encodes_encodeURIComponent v⟩ .nil

theorem pairsEncode_link (c : Console) (cols rows : Option Bytes) :
    PairsEncode (linkTexts c cols rows) (linkPairs c cols rows) := by
  have fixed : ∀ {name : String} (value : Bytes), (ascii name).all isUnreserved = true →
      Encodes (linkText name value).1 (ascii name) ∧ Encodes (linkText name value).2 value :=
    fun value plain => ⟨encodes_ascii plain, encodes_encodeURIComponent value⟩
  exact .append (.cons (fixed c.pc (by decide)) (.cons (fixed c.sid (by decide))
      (.cons (fixed c.dir (by decide)) .nil)))
    (.append (pairsEncode_optional (by decide) _)
      (.append (pairsEncode_optional (by decide) _) (pairsEncode_optional (by decide) _)))

/-! ## What the page reads -/

/-- The texts of a console are valid UTF-8. -/
structure Console.Valid (c : Console) : Prop where
  pc : ValidString c.pc
  sid : ValidString c.sid
  dir : ValidString c.dir
  agent : ValidString c.agent

theorem mem_optionalPairs {name : String} {value : Option Bytes} {p : Bytes × Bytes}
    (mem : p ∈ optionalPairs name value) : p.1 = ascii name ∧ value = some p.2 := by
  rw [optionalPairs, truthy, Option.mem_toList, Option.map_eq_some_iff] at mem
  obtain ⟨v, kept, rfl⟩ := mem
  exact ⟨rfl, (Option.filter_eq_some_iff.mp kept).1⟩

theorem valid_linkPairs {c : Console} (valid : c.Valid) {cols rows : Option Bytes}
    (colsValid : ∀ v ∈ cols, ValidString v) (rowsValid : ∀ v ∈ rows, ValidString v) :
    ∀ p ∈ linkPairs c cols rows, ValidString p.1 ∧ ValidString p.2 := by
  have name : ∀ {name : String}, (ascii name).all (· < 0x80) = true → ValidString (ascii name) :=
    fun plain => validString_of_ascii plain
  intro p mem
  simp only [linkPairs, List.mem_append, List.mem_cons, List.not_mem_nil, or_false] at mem
  rcases mem with (rfl | rfl | rfl) | agent | cols | rows
  · exact ⟨name (by decide), valid.pc⟩
  · exact ⟨name (by decide), valid.sid⟩
  · exact ⟨name (by decide), valid.dir⟩
  · obtain ⟨same, value⟩ := mem_optionalPairs agent
    rw [same, ← Option.some.inj value]
    exact ⟨name (by decide), valid.agent⟩
  · obtain ⟨same, value⟩ := mem_optionalPairs cols
    rw [same]
    exact ⟨name (by decide), colsValid _ value⟩
  · obtain ⟨same, value⟩ := mem_optionalPairs rows
    rw [same]
    exact ⟨name (by decide), rowsValid _ value⟩

theorem lookup_cons_of_ne {key other : Bytes} (ne : other ≠ key) (v : Bytes) (rest : Values) :
    ((key, v) :: rest).lookup other = rest.lookup other := by
  rw [List.lookup_cons, beq_eq_false_iff_ne.mpr ne]

theorem lookup_optionalPairs (name : String) (value : Option Bytes) :
    (optionalPairs name value).lookup (ascii name) = truthy value := by
  rw [optionalPairs]
  cases truthy value with
  | none => rfl
  | some v => exact List.lookup_cons_self

theorem lookup_optionalPairs_of_ne {name other : String} (ne : ascii other ≠ ascii name)
    (value : Option Bytes) (rest : Values) :
    (optionalPairs name value ++ rest).lookup (ascii other) = rest.lookup (ascii other) := by
  rw [optionalPairs]
  cases truthy value with
  | none => rfl
  | some v => exact lookup_cons_of_ne ne v rest

theorem lookup_append_optionalPairs (name : String) (value : Option Bytes) {rest : Values}
    (absent : rest.lookup (ascii name) = none) :
    (optionalPairs name value ++ rest).lookup (ascii name) = truthy value := by
  rw [optionalPairs]
  cases truthy value with
  | none => exact absent
  | some v => exact List.lookup_cons_self

theorem truthy_truthy (value : Option Bytes) : truthy (truthy value) = truthy value := by
  rw [truthy, truthy, Option.filter_filter]
  simp

theorem getD_truthy (s : Bytes) : (truthy (some s)).getD [] = s := by
  by_cases empty : s = []
  · subst empty
    rfl
  · rw [truthy, Option.filter_some, if_pos (decide_eq_true empty), Option.getD_some]

/-- The page reads the console of the link. -/
theorem termPage_link (browser : Browser) {c : Console} (valid : c.Valid) {cols rows : Option Bytes}
    (colsValid : ∀ v ∈ cols, ValidString v) (rowsValid : ∀ v ∈ rows, ValidString v) :
    termPage browser (follow (ascii "/term" ++ question :: joinPairs (linkTexts c cols rows))) =
      ⟨some c.pc, some c.sid, c.dir, c.agent, truthy cols, truthy rows⟩ := by
  have encodes := pairsEncode_link c cols rows
  have read : browser.searchParams
      (follow (ascii "/term" ++ question :: joinPairs (linkTexts c cols rows))) =
        linkPairs c cols rows := by
    rw [follow, rawQuery_append (by decide) (by decide) (hash_notMem_joinPairs encodes),
      urlQuery_joinPairs]
    exact browser.searchParams_joinPairs encodes.urlQuery
      (valid_linkPairs valid colsValid rowsValid)
  have pc : (linkPairs c cols rows).lookup (ascii "pc") = some c.pc := List.lookup_cons_self
  have sid : (linkPairs c cols rows).lookup (ascii "sid") = some c.sid :=
    (lookup_cons_of_ne (by decide) _ _).trans List.lookup_cons_self
  have dir : (linkPairs c cols rows).lookup (ascii "dir") = some c.dir :=
    (lookup_cons_of_ne (by decide) _ _).trans
      ((lookup_cons_of_ne (by decide) _ _).trans List.lookup_cons_self)
  have behind : ∀ {l : String}, ascii l ≠ ascii "pc" → ascii l ≠ ascii "sid" →
      ascii l ≠ ascii "dir" → (linkPairs c cols rows).lookup (ascii l) =
        (optionalPairs "agent" (some c.agent) ++ (optionalPairs "cols" cols ++
          optionalPairs "rows" rows)).lookup (ascii l) := fun notPC notSid notDir =>
    (lookup_cons_of_ne notPC _ _).trans
      ((lookup_cons_of_ne notSid _ _).trans (lookup_cons_of_ne notDir _ _))
  have agent : (linkPairs c cols rows).lookup (ascii "agent") = truthy (some c.agent) := by
    rw [behind (by decide) (by decide) (by decide), lookup_append_optionalPairs]
    rw [lookup_optionalPairs_of_ne (by decide)]
    rw [← List.append_nil (optionalPairs "rows" rows), lookup_optionalPairs_of_ne (by decide)]
    rfl
  have colsRead : (linkPairs c cols rows).lookup (ascii "cols") = truthy cols := by
    rw [behind (by decide) (by decide) (by decide), lookup_optionalPairs_of_ne (by decide),
      lookup_append_optionalPairs]
    rw [← List.append_nil (optionalPairs "rows" rows), lookup_optionalPairs_of_ne (by decide)]
    rfl
  have rowsRead : (linkPairs c cols rows).lookup (ascii "rows") = truthy rows := by
    rw [behind (by decide) (by decide) (by decide), lookup_optionalPairs_of_ne (by decide),
      lookup_optionalPairs_of_ne (by decide), lookup_optionalPairs]
  simp only [termPage, read, pc, sid, dir, agent, colsRead, rowsRead, truthy_truthy, getD_truthy]

theorem deviceLink_eq (c : Console) :
    deviceLink c = ascii "/term" ++ question :: joinPairs (linkTexts c none none) := by
  rw [← link_eq, deviceLink]
  simp only [optional, truthy, Option.filter_none, List.append_nil]

/-- The list's link leads to its console. -/
theorem termPage_deviceLink (browser : Browser) {c : Console} (valid : c.Valid) :
    termPage browser (follow (deviceLink c)) =
      ⟨some c.pc, some c.sid, c.dir, c.agent, none, none⟩ := by
  rw [deviceLink_eq, termPage_link browser valid (by simp) (by simp)]
  rfl

/-! ## From console to console -/

/-- The test of `findIndex`. -/
def isAt (page : TermPage) (c : Console) : Bool :=
  page.pc = some c.pc && page.sid = some c.sid

/-- `go`: where a button of this page leads, if it leads anywhere. -/
def go (list : List Console) (page : TermPage) (delta : Int) : Option Bytes :=
  match list.findIdx? (isAt page) with
  | none => none
  | some idx =>
      if list.length < 2 then none
      else
        let n := (idx + delta + list.length).tmod list.length
        (list[n.toNat]?).map (termURL page)

/-- A page at a console, with the sizes of the page before. -/
structure Follows (first page : TermPage) (c : Console) : Prop where
  isAt : isAt page c = true
  cols : truthy page.cols = truthy first.cols
  rows : truthy page.rows = truthy first.rows
  colsValid : ∀ v ∈ page.cols, ValidString v
  rowsValid : ∀ v ∈ page.rows, ValidString v

section

variable (browser : Browser) {list : List Console}
  (distinct : (list.map fun c => (c.pc, c.sid)).Nodup) (valid : ∀ c ∈ list, c.Valid)
  (two : 2 ≤ list.length)

include distinct valid two

end

/-- A value of `qs.get` where a string is wanted. -/
def textOf (value : Option Bytes) : Bytes := value.getD (ascii "null")

/-- The address of the page's WebSocket, behind the host. -/
def wsPath (page : TermPage) : Bytes :=
  ascii "/ws?pc=" ++ encodeURIComponent (textOf page.pc) ++ ascii "&sid=" ++
    encodeURIComponent (textOf page.sid)

/-- The request of the page's WebSocket. -/
def dialRequest (page : TermPage) : Request := ⟨[], follow (wsPath page)⟩

theorem parseQuery_dialRequest {page : TermPage} {c : Console} (here : isAt page c = true) :
    parseQuery (dialRequest page).query = [(ascii "pc", c.pc), (ascii "sid", c.sid)] := by
  have front : ascii "/ws?pc=" = ascii "/ws" ++ question :: (ascii "pc" ++ [equals]) := by decide
  have sid : ascii "&sid=" = ampersand :: (ascii "sid" ++ [equals]) := by decide
  have encodes : PairsEncode [linkText "pc" c.pc, linkText "sid" c.sid]
      [(ascii "pc", c.pc), (ascii "sid", c.sid)] :=
    .cons ⟨encodes_ascii (by decide), encodes_encodeURIComponent _⟩
      (.cons ⟨encodes_ascii (by decide), encodes_encodeURIComponent _⟩ .nil)
  simp only [isAt, Bool.and_eq_true, decide_eq_true_eq] at here
  have path : wsPath page =
      ascii "/ws" ++ question :: joinPairs [linkText "pc" c.pc, linkText "sid" c.sid] := by
    rw [wsPath, here.1, here.2, joinPairs_cons_cons, joinPairs, List.map_singleton,
      List.intercalate_singleton, front, sid]
    simp only [textOf, Option.getD_some, linkText, pairText, List.append_assoc, List.cons_append,
      List.nil_append]
  rw [dialRequest, path, follow, rawQuery_append (by decide) (by decide)
    (hash_notMem_joinPairs encodes), urlQuery_joinPairs]
  exact parseQuery_joinPairs encodes.urlQuery

/-- The page's console is the relay's.  The WebSocket of a page is about the
page's console: without an upstream relay it is accepted under the key of that
console's source, and with one it is dialed as a viewer of the same PC and
session, which the upstream relay accepts under that key, provided it has the
grant. -/
theorem console_reaches_relay {page : TermPage} {c : Console} (here : isAt page c = true)
    (pcNonempty : c.pc ≠ []) (sidNonempty : c.sid ≠ []) {scope : Bytes}
    (allowed : allows scope c.pc = true) (answers : Answers) :
    let key (answers : Answers) : Bytes :=
      if pcRole (answers.getPC c.pc) = slave then slaveSessionKey c.pc c.sid else c.sid
    wsViewer (some scope) answers none (dialRequest page) = .accept (key answers) viewer ∧
      ∀ up : DialBase, ∃ dialed, clientDialViewerFrom up c.sid c.pc = some dialed ∧
        wsViewer (some scope) answers (some up.toBase) (dialRequest page) = .dial dialed ∧
        ∀ enrollSA upstream, upstream.checkRelayGrant c.sid viewer = true →
          serveHTTP enrollSA upstream dialed = .accept (key upstream) viewer := by
  have query := parseQuery_dialRequest here
  have pcParam : (dialRequest page).param "pc" = c.pc := by
    rw [Request.param, query, Values.get_cons_same]
  have sidParam : (dialRequest page).param "sid" = c.sid := by
    rw [Request.param, query, Values.get_cons_of_ne (by decide), Values.get_cons_same]
  have pc : wsPC scope (dialRequest page) = c.pc := by
    rw [wsPC, pcParam, if_neg fun empty => pcNonempty empty.1]
  have wellFormed : ¬ (c.sid = [] ∨ c.pc = [] ∨ allows scope c.pc = false) := by
    rw [not_or, not_or, Bool.not_eq_false]
    exact ⟨sidNonempty, pcNonempty, allowed⟩
  constructor
  · rw [wsViewer]
    simp only [sidParam, pc, if_neg wellFormed]
  · intro up
    refine ⟨dialViewerFrom up.toBase c.sid c.pc, clientDialViewerFrom_eq up c.sid c.pc, ?_, ?_⟩
    · rw [wsViewer]
      simp only [sidParam, pc, if_neg wellFormed]
    · intro enrollSA upstream granted
      have noBearer : (dialViewerFrom up.toBase c.sid c.pc).bearer = [] := rfl
      rw [serveHTTP_of_reads noBearer sidNonempty (.inr rfl) (dialViewerFrom_sid ..)
        (dialViewerFrom_role ..), granted]
      simp only [if_true, viewerKey, ne_eq, not_true_eq_false, if_false, dialViewerFrom_spc,
        if_neg pcNonempty]

theorem sampleConsole_reaches_relay :
    wsViewer (some accountScope)
        ⟨fun _ => none, fun _ => false, fun _ => false, fun _ _ => false, fun _ _ => true,
          fun _ => .found (some slave)⟩ none
        (dialRequest ⟨some (ascii "pc 2"), some (ascii "w1:p2"), [], [], none, none⟩) =
      .accept (slaveSessionKey (ascii "pc 2") (ascii "w1:p2")) viewer :=
  (@console_reaches_relay ⟨some (ascii "pc 2"), some (ascii "w1:p2"), [], [], none, none⟩
    ⟨ascii "pc 2", ascii "w1:p2", [], []⟩ (by decide) (by decide) (by decide) accountScope
    (by decide) ⟨fun _ => none, fun _ => false, fun _ => false, fun _ _ => false,
      fun _ _ => true, fun _ => .found (some slave)⟩).1

end Drover.Web
