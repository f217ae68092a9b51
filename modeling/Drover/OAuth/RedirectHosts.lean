import Drover.OAuth.Endpoint
import Mathlib.Data.List.Induction
import Mathlib.Data.List.Nodup

/-!
# The allow-list of redirect hosts

`New` cuts `MCP_ALLOWED_REDIRECT_HOSTS` at its commas, each entry at its first slash and
its last colon, and keeps one rule for each host: a later entry replaces an earlier one,
and an IPv6 literal is cut at a colon of its own.  `hostAllowed_union_iff` says for which
URIs the list means the union of its entries all the same.
-/

namespace Drover.OAuth.Endpoint

/-! ## Parsing -/

/-- The byte between the entries of a list. -/
def comma : UInt8 := 0x2c

/-- The byte before a path. -/
def slash : UInt8 := 0x2f

/-- The byte before a port. -/
def colon : UInt8 := 0x3a

/-- What stands before and after the last colon. -/
def cutPort : Bytes → Option (Bytes × Bytes)
  | [] => none
  | b :: s =>
      match cutPort s with
      | some (host, port) => some (b :: host, port)
      | none => if b = colon then some ([], s) else none

/-- An entry: the host in lower case, and its rule. -/
def parseEntry (toLower : Bytes → Bytes) (h : Bytes) : Bytes × RedirectRule :=
  let hostPort := h.takeWhile (· ≠ slash)
  let path := h.dropWhile (· ≠ slash)
  let (host, port) := (cutPort hostPort).getD (hostPort, [])
  (toLower host, ⟨port, path⟩)

/-- The entries that are not empty. -/
def entries (value : Bytes) : List Bytes :=
  ((value.splitOn comma).map trimSpace).filter (· ≠ [])

/-- The map that `New` fills, latest first. -/
def redirectHosts (toLower : Bytes → Bytes) (value : Bytes) : List (Bytes × RedirectRule) :=
  (entries value).foldl
    (fun rh h =>
      let (host, rule) := parseEntry toLower h
      if host ≠ [] then (host, rule) :: rh else rh)
    []

/-- `New`, with this value of `MCP_ALLOWED_REDIRECT_HOSTS`. -/
def Server.withRedirectHosts (server : Server) (value : Bytes) : Server :=
  { server with allowedRedirectHosts := redirectHosts server.toLower value }

/-! ## The union -/

/-- What an entry says; an empty port or path stands for none. -/
structure Entry where
  host : Bytes
  port : Bytes
  path : Bytes

/-- The IPv6 loopback address. -/
def loopback6 : Bytes := ascii "::1"

/-- How a host is written in an entry. -/
inductive WrittenHost : Bytes → Bytes → Prop
  | name {host : Bytes} (nonempty : host ≠ []) (noColon : colon ∉ host) (noSlash : slash ∉ host) :
      WrittenHost host host
  | literal : WrittenHost loopback6 loopback6
  | bracketed : WrittenHost (ascii "[::1]") loopback6

/-- The entry has one of the forms `host`, `host/path`, `host:port` and `host:port/path`. -/
inductive Parses : Bytes → Entry → Prop
  | host {text host path : Bytes} (written : WrittenHost text host)
      (isPath : path = [] ∨ ∃ rest, path = slash :: rest) : Parses (text ++ path) ⟨host, [], path⟩
  | hostPort {text host port path : Bytes} (written : WrittenHost text host)
      (noColon : colon ∉ port) (noSlash : slash ∉ port)
      (isPath : path = [] ∨ ∃ rest, path = slash :: rest) :
      Parses (text ++ colon :: port ++ path) ⟨host, port, path⟩

/-- The entry matches the URI. -/
structure Entry.Matches (toLower : Bytes → Bytes) (e : Entry) (u : URL) : Prop where
  host : toLower e.host = toLower u.hostname
  port : e.port = [] ∨ u.port = e.port
  path : e.path = [] ∨ u.path = e.path

/-- Some entry matches the URI. -/
def Listed (toLower : Bytes → Bytes) (value : Bytes) (u : URL) : Prop :=
  ∃ text ∈ entries value, ∃ e, Parses text e ∧ e.Matches toLower u

/-- `https`, or `http` to a loopback host. -/
def SchemeFits (toLower : Bytes → Bytes) (u : URL) : Prop :=
  u.scheme = ascii "https" ∨ u.scheme = ascii "http" ∧ toLower u.hostname ∈ loopbackHosts

/-! ## What goes wrong -/

/-- The entry is cut to this host, port and path: the path begins at the first slash, the
port after the last colon before it, and the host is in lower case. -/
inductive CutTo (toLower : Bytes → Bytes) (host : Bytes) : Bytes → Bytes → Bytes → Prop
  | whole {text path : Bytes} (noColon : colon ∉ text) (noSlash : slash ∉ text)
      (isPath : path = [] ∨ ∃ rest, path = slash :: rest) (isHost : toLower text = host) :
      CutTo toLower host (text ++ path) [] path
  | atColon {text port path : Bytes} (noColon : colon ∉ port)
      (noSlash : slash ∉ text ++ colon :: port)
      (isPath : path = [] ∨ ∃ rest, path = slash :: rest) (isHost : toLower text = host) :
      CutTo toLower host (text ++ colon :: port ++ path) port path

/-- The last entry of the list that is cut to the host has this port and path. -/
def LastCut (toLower : Bytes → Bytes) (value host port path : Bytes) : Prop :=
  ∃ before text after, entries value = before ++ text :: after ∧
    CutTo toLower host text port path ∧ ∀ later ∈ after, ∀ port path,
      ¬ CutTo toLower host later port path

/-- A loopback literal without a port, or in its brackets: the last colon is its own, or the
brackets stay with it. -/
inductive Miscut : Bytes → Prop
  | bare {path : Bytes} (isPath : path = [] ∨ ∃ rest, path = slash :: rest) :
      Miscut (loopback6 ++ path)
  | bracketed {path : Bytes} (isPath : path = [] ∨ ∃ rest, path = slash :: rest) :
      Miscut (ascii "[::1]" ++ path)
  | bracketedPort {port path : Bytes} (noColon : colon ∉ port) (noSlash : slash ∉ port)
      (isPath : path = [] ∨ ∃ rest, path = slash :: rest) :
      Miscut (ascii "[::1]" ++ colon :: port ++ path)

/-- A port and a path of an entry fit the URI. -/
def Fits (port path : Bytes) (u : URL) : Prop :=
  (port = [] ∨ u.port = port) ∧ (path = [] ∨ u.path = path)

/-- What makes the list and its union differ for a URI. -/
inductive Misread (toLower : Bytes → Bytes) (value : Bytes) (u : URL) : Prop
  /-- Some entry matches, and the last one for its host does not. -/
  | overruled {port path : Bytes} (listed : Listed toLower value u)
      (last : LastCut toLower value (toLower u.hostname) port path)
      (differs : ¬ Fits port path u)
  /-- A literal matches that is cut at a colon of its own or in its brackets, and no entry is
  cut to the host. -/
  | cutAway {text : Bytes} {e : Entry} (isEntry : text ∈ entries value) (miscut : Miscut text)
      (reads : Parses text e) (isMatch : e.Matches toLower u)
      (alone : ∀ other ∈ entries value, ∀ port path,
        ¬ CutTo toLower (toLower u.hostname) other port path)
  /-- The host has a colon and is no loopback literal, and the last entry that is cut to it
  fits. -/
  | stray {port path : Bytes} (hasColon : colon ∈ u.hostname) (other : u.hostname ≠ loopback6)
      (last : LastCut toLower value (toLower u.hostname) port path) (fits : Fits port path u)

/-- What is documented of `strings.ToLower`. -/
structure LowerCase (toLower : Bytes → Bytes) : Prop where
  nil_iff : ∀ s, toLower s = [] ↔ s = []
  colon_iff : ∀ s, colon ∈ toLower s ↔ colon ∈ s
  loopback_iff : ∀ s, toLower s = loopback6 ↔ s = loopback6

/-! ## What decides -/

/-- The rules of the entries that `New` files under the host. -/
def filed (toLower : Bytes → Bytes) (value host : Bytes) : List RedirectRule :=
  (entries value).filterMap fun h =>
    let (host', rule) := parseEntry toLower h
    if host' = host then some rule else none

/-- The rule admits the port and the path of a URI. -/
def RedirectRule.admits (rule : RedirectRule) (u : URL) : Bool :=
  (rule.port = [] || u.port = rule.port) && (rule.path = [] || rule.path = u.path)

/-- The last entry that is filed under the host of the URI admits it. -/
def LastAdmits (toLower : Bytes → Bytes) (value : Bytes) (u : URL) : Prop :=
  ∃ rule ∈ (filed toLower value (toLower u.hostname)).getLast?, rule.admits u = true

/-- If some entry matches the URI, the last one that is filed under its host admits it; and
a host with a colon that is no loopback literal is not admitted. -/
structure LastDecides (toLower : Bytes → Bytes) (value : Bytes) (u : URL) : Prop where
  matched : Listed toLower value u → LastAdmits toLower value u
  stray : colon ∈ u.hostname → u.hostname ≠ loopback6 → ¬LastAdmits toLower value u

section

variable {toLower : Bytes → Bytes} {value h host port path : Bytes} {u : URL}

theorem cutPort_eq_none {s : Bytes} (noColon : colon ∉ s) : cutPort s = none := by
  induction s with
  | nil => rfl
  | cons b s ih =>
      rw [List.mem_cons, not_or] at noColon
      rw [cutPort, ih noColon.2]
      exact if_neg (Ne.symm noColon.1)

theorem cutPort_append (host : Bytes) (noColon : colon ∉ port) :
    cutPort (host ++ colon :: port) = some (host, port) := by
  induction host with
  | nil =>
      rw [List.nil_append, cutPort, cutPort_eq_none noColon]
      exact if_pos rfl
  | cons b host ih => rw [List.cons_append, cutPort, ih]

/-- A string has no colon, or is cut at its last one. -/
theorem cutPort_cases (s : Bytes) :
    colon ∉ s ∨ ∃ host port, s = host ++ colon :: port ∧ colon ∉ port := by
  induction s with
  | nil => exact .inl List.not_mem_nil
  | cons b s ih =>
      rcases ih with noColon | ⟨host, port, rfl, noColon⟩
      · by_cases isColon : b = colon
        · exact .inr ⟨[], s, by rw [isColon, List.nil_append], noColon⟩
        · refine .inl fun mem => ?_
          rcases List.mem_cons.mp mem with same | mem
          · exact isColon same.symm
          · exact noColon mem
      · exact .inr ⟨b :: host, port, rfl, noColon⟩

/-- Where the path of an entry begins. -/
theorem cut_path {hostPort : Bytes} (noSlash : slash ∉ hostPort)
    (isPath : path = [] ∨ ∃ rest, path = slash :: rest) :
    (hostPort ++ path).takeWhile (· ≠ slash) = hostPort ∧
      (hostPort ++ path).dropWhile (· ≠ slash) = path := by
  have before : ∀ b ∈ hostPort, decide (b ≠ slash) = true := by
    intro b mem
    rw [decide_eq_true_iff]
    rintro rfl
    exact noSlash mem
  rw [List.takeWhile_append_of_pos before, List.dropWhile_append_of_pos before]
  rcases isPath with rfl | ⟨rest, rfl⟩
  · exact ⟨List.append_nil _, rfl⟩
  · simp

theorem parseEntry_host (noColon : colon ∉ host) (noSlash : slash ∉ host)
    (isPath : path = [] ∨ ∃ rest, path = slash :: rest) :
    parseEntry toLower (host ++ path) = (toLower host, ⟨[], path⟩) := by
  obtain ⟨before, after⟩ := cut_path noSlash isPath
  rw [parseEntry, before, after, cutPort_eq_none noColon]
  rfl

theorem parseEntry_hostPort (noSlash : slash ∉ host ++ colon :: port) (noColon : colon ∉ port)
    (isPath : path = [] ∨ ∃ rest, path = slash :: rest) :
    parseEntry toLower (host ++ colon :: port ++ path) = (toLower host, ⟨port, path⟩) := by
  obtain ⟨before, after⟩ := cut_path noSlash isPath
  rw [parseEntry, before, after, cutPort_append host noColon]
  rfl

/-- Every entry is cut in one of two ways. -/
theorem entry_cases (text : Bytes) :
    ∃ path, (path = [] ∨ ∃ rest, path = slash :: rest) ∧
      ((∃ host, colon ∉ host ∧ slash ∉ host ∧ text = host ++ path) ∨
        ∃ host port, slash ∉ host ++ colon :: port ∧ colon ∉ port ∧
          text = host ++ colon :: port ++ path) := by
  have noSlash : slash ∉ text.takeWhile (· ≠ slash) := by
    intro mem
    have other := List.mem_takeWhile_imp mem
    simp at other
  refine ⟨text.dropWhile (· ≠ slash), ?_, ?_⟩
  · cases rest : text.dropWhile (· ≠ slash) with
    | nil => exact .inl rfl
    | cons b rest' =>
        have first := List.head?_dropWhile_not (fun b => decide (b ≠ slash)) text
        rw [rest] at first
        simp only [List.head?_cons, decide_eq_false_iff_not, not_not] at first
        exact .inr ⟨rest', by rw [first]⟩
  · have whole : text = text.takeWhile (· ≠ slash) ++ text.dropWhile (· ≠ slash) :=
      List.takeWhile_append_dropWhile.symm
    rcases cutPort_cases (text.takeWhile (· ≠ slash)) with noColon | ⟨host, port, cut, noColon⟩
    · exact .inl ⟨_, noColon, noSlash, whole⟩
    · exact .inr ⟨host, port, cut ▸ noSlash, noColon, cut ▸ whole⟩

theorem mem_filed_iff {rule : RedirectRule} :
    rule ∈ filed toLower value host ↔
      ∃ text ∈ entries value, parseEntry toLower text = (host, rule) := by
  rw [filed, List.mem_filterMap]
  apply exists_congr
  intro text
  rw [and_congr_right_iff]
  intro _
  rcases parseEntry toLower text with ⟨host', rule'⟩
  by_cases same : host' = host
  · simp [same]
  · simp [same]

/-- The map holds the last rule for each host. -/
theorem lookup_redirectHosts (nonempty : host ≠ []) :
    (redirectHosts toLower value).lookup host = (filed toLower value host).getLast? := by
  rw [redirectHosts, filed]
  induction entries value using List.reverseRecOn with
  | nil => rfl
  | append_singleton texts text ih =>
      rw [List.foldl_append, List.filterMap_append, List.getLast?_append, ← ih]
      rcases entry : parseEntry toLower text with ⟨host', rule⟩
      simp only [List.foldl_cons, List.foldl_nil, List.filterMap_cons, List.filterMap_nil, entry]
      by_cases same : host' = host
      · simp [same, nonempty]
      · by_cases empty : host' = []
        · simp [empty, Ne.symm nonempty]
        · simp [empty, same, List.lookup_cons, beq_eq_false_iff_ne.mpr (Ne.symm same)]

theorem RedirectRule.admits_iff {rule : RedirectRule} :
    rule.admits u = true ↔
      (rule.port = [] ∨ u.port = rule.port) ∧ (rule.path = [] ∨ u.path = rule.path) := by
  rw [admits, Bool.and_eq_true, Bool.or_eq_true, Bool.or_eq_true, decide_eq_true_iff,
    decide_eq_true_iff, decide_eq_true_iff, decide_eq_true_iff, eq_comm (b := u.path)]

theorem schemeAllowed_iff {scheme : Bytes} :
    schemeAllowed scheme host = true ↔
      scheme = ascii "https" ∨ scheme = ascii "http" ∧ host ∈ loopbackHosts := by
  rw [schemeAllowed]
  by_cases loopback : host ∈ loopbackHosts
  · simp [loopback, or_comm]
  · simp [loopback]

/-- Such a rule is one of an entry that matches the URI. -/
theorem listed_of_filed (lower : LowerCase toLower) (nonempty : u.hostname ≠ [])
    (known : colon ∉ u.hostname ∨ u.hostname = loopback6) {rule : RedirectRule}
    (mem : rule ∈ filed toLower value (toLower u.hostname)) (admits : rule.admits u = true) :
    Listed toLower value u := by
  obtain ⟨text, isEntry, parsed⟩ := mem_filed_iff.mp mem
  rw [RedirectRule.admits_iff] at admits
  obtain ⟨path, isPath, ⟨host, noColon, noSlash, rfl⟩ | ⟨host, port, noSlash, noColon, rfl⟩⟩ :=
    entry_cases text
  · rw [parseEntry_host noColon noSlash isPath, Prod.mk.injEq] at parsed
    obtain ⟨sameHost, rfl⟩ := parsed
    have hostNonempty : host ≠ [] := by
      rintro rfl
      rw [(lower.nil_iff []).mpr rfl] at sameHost
      exact nonempty ((lower.nil_iff _).mp sameHost.symm)
    exact ⟨_, isEntry, _, .host (.name hostNonempty noColon noSlash) isPath,
      ⟨sameHost, .inl rfl, admits.2⟩⟩
  · rw [parseEntry_hostPort noSlash noColon isPath, Prod.mk.injEq] at parsed
    obtain ⟨sameHost, rfl⟩ := parsed
    have hostNonempty : host ≠ [] := by
      rintro rfl
      rw [(lower.nil_iff []).mpr rfl] at sameHost
      exact nonempty ((lower.nil_iff _).mp sameHost.symm)
    rw [List.mem_append, List.mem_cons, not_or, not_or] at noSlash
    have written : WrittenHost host host := by
      rcases known with noColonThere | isLoopback
      · refine .name hostNonempty (fun mem => noColonThere ?_) noSlash.1
        rw [← lower.colon_iff, ← sameHost, lower.colon_iff]
        exact mem
      · rw [isLoopback, (lower.loopback_iff _).mpr rfl, lower.loopback_iff] at sameHost
        rw [sameHost]
        exact .literal
    exact ⟨_, isEntry, _, .hostPort written noColon noSlash.2.2 isPath,
      ⟨sameHost, admits.1, admits.2⟩⟩

theorem Parses.host_cases {text : Bytes} {e : Entry} (reads : Parses text e) :
    e.host ≠ [] ∧ (colon ∉ e.host ∨ e.host = loopback6) := by
  have cases_ : ∀ {text host : Bytes}, WrittenHost text host →
      host ≠ [] ∧ (colon ∉ host ∨ host = loopback6) := by
    intro text host written
    cases written with
    | name nonempty noColon => exact ⟨nonempty, .inl noColon⟩
    | literal | bracketed => exact ⟨by decide, .inr rfl⟩
  cases reads with
  | host written => exact cases_ written
  | hostPort written => exact cases_ written

/-- An entry matches only a URI with a host that has no colon or is the literal. -/
theorem Listed.host_cases (lower : LowerCase toLower) (listed : Listed toLower value u) :
    u.hostname ≠ [] ∧ (colon ∉ u.hostname ∨ u.hostname = loopback6) := by
  obtain ⟨text, -, e, reads, matches_⟩ := listed
  obtain ⟨nonempty, known⟩ := reads.host_cases
  constructor
  · rw [← (lower.nil_iff _).ne, ← matches_.host, (lower.nil_iff _).ne]
    exact nonempty
  · rw [← lower.colon_iff, ← lower.loopback_iff, ← matches_.host, lower.colon_iff,
      lower.loopback_iff]
    exact known

end

namespace Server

variable {server : Server} {value raw : Bytes}

theorem hostAllowed_iff (lower : LowerCase server.toLower) :
    (server.withRedirectHosts value).hostAllowed raw = true ↔
      ∃ u, server.parseURL raw = some u ∧ u.hostname ≠ [] ∧
        SchemeFits server.toLower u ∧ LastAdmits server.toLower value u := by
  rw [hostAllowed, withRedirectHosts]
  cases parsed : server.parseURL raw with
  | none => simp
  | some u =>
      by_cases empty : u.hostname = []
      · simp [empty]
      · have nonempty : server.toLower u.hostname ≠ [] := (lower.nil_iff _).ne.mpr empty
        have fits : SchemeFits server.toLower u ↔
            schemeAllowed u.scheme (server.toLower u.hostname) = true := schemeAllowed_iff.symm
        simp only [empty, if_false, lookup_redirectHosts nonempty, Option.some.injEq,
          exists_eq_left', ne_eq, not_false_eq_true, true_and, fits, LastAdmits]
        cases (filed server.toLower value (server.toLower u.hostname)).getLast? with
        | none => simp
        | some rule => simp [RedirectRule.admits, Bool.and_assoc]

end Server

/-- A URI is accepted exactly if some entry matches it, exactly if the last entry for its
host decides for all. -/
theorem union_iff_lastDecides (server : Server) (lower : LowerCase server.toLower)
    (value raw : Bytes) :
    ((server.withRedirectHosts value).hostAllowed raw = true ↔
        ∃ u, server.parseURL raw = some u ∧ SchemeFits server.toLower u ∧
          Listed server.toLower value u) ↔
      ∀ u, server.parseURL raw = some u → SchemeFits server.toLower u →
        LastDecides server.toLower value u := by
  rw [Server.hostAllowed_iff lower]
  constructor
  · intro union u parsed fits
    have here : LastAdmits server.toLower value u ∧ u.hostname ≠ [] ↔
        Listed server.toLower value u := by
      constructor
      · rintro ⟨admits, nonempty⟩
        obtain ⟨u', parsed', -, listed⟩ := union.mp ⟨u, parsed, nonempty, fits, admits⟩
        cases parsed.symm.trans parsed'
        exact listed
      · intro listed
        obtain ⟨u', parsed', nonempty, -, admits⟩ := union.mpr ⟨u, parsed, fits, listed⟩
        cases parsed.symm.trans parsed'
        exact ⟨admits, nonempty⟩
    refine ⟨fun listed => (here.mpr listed).1, fun hasColon notLoopback admits => ?_⟩
    have listed := here.mp ⟨admits, List.ne_nil_of_mem hasColon⟩
    rcases (listed.host_cases lower).2 with noColon | isLoopback
    · exact noColon hasColon
    · exact notLoopback isLoopback
  · intro decides
    constructor
    · rintro ⟨u, parsed, nonempty, fits, rule, isLast, admits⟩
      refine ⟨u, parsed, fits, ?_⟩
      have known : colon ∉ u.hostname ∨ u.hostname = loopback6 := by
        by_contra stray
        rw [not_or, not_not] at stray
        exact (decides u parsed fits).stray stray.1 stray.2 ⟨rule, isLast, admits⟩
      exact listed_of_filed lower nonempty known (List.mem_of_getLast? isLast) admits
    · rintro ⟨u, parsed, fits, listed⟩
      exact ⟨u, parsed, (listed.host_cases lower).1, fits, (decides u parsed fits).matched listed⟩

theorem slash_notMem_hostPort {host port : Bytes} (noSlashHost : slash ∉ host)
    (noSlashPort : slash ∉ port) : slash ∉ host ++ colon :: port := by
  rw [List.mem_append, List.mem_cons, not_or, not_or]
  exact ⟨noSlashHost, by decide, noSlashPort⟩

theorem colon_mem_loopback6 : colon ∈ loopback6 := by decide

/-- An entry with a name is filed as it reads. -/
theorem parseEntry_of_reads {toLower : Bytes → Bytes} {text : Bytes} {e : Entry}
    (reads : Parses text e) (noColon : colon ∉ e.host) :
    parseEntry toLower text = (toLower e.host, ⟨e.port, e.path⟩) := by
  cases reads with
  | host written isPath =>
      cases written with
      | name _ _ noSlash => exact parseEntry_host noColon noSlash isPath
      | literal | bracketed => exact absurd colon_mem_loopback6 noColon
  | hostPort written noColonPort noSlashPort isPath =>
      cases written with
      | name _ _ noSlash =>
          exact parseEntry_hostPort (slash_notMem_hostPort noSlash noSlashPort) noColonPort isPath
      | literal | bracketed => exact absurd colon_mem_loopback6 noColon

section

variable {toLower : Bytes → Bytes} {value text host port path : Bytes} {u : URL}

theorem cutTo_iff :
    CutTo toLower host text port path ↔ parseEntry toLower text = (host, ⟨port, path⟩) := by
  constructor
  · intro cut
    cases cut with
    | whole noColon noSlash isPath isHost => rw [parseEntry_host noColon noSlash isPath, isHost]
    | atColon noColon noSlash isPath isHost =>
        rw [parseEntry_hostPort noSlash noColon isPath, isHost]
  · intro parsed
    obtain ⟨path', isPath,
        ⟨host', noColon, noSlash, rfl⟩ | ⟨host', port', noSlash, noColon, rfl⟩⟩ :=
      entry_cases text
    · rw [parseEntry_host noColon noSlash isPath] at parsed
      cases parsed
      exact .whole noColon noSlash isPath rfl
    · rw [parseEntry_hostPort noSlash noColon isPath] at parsed
      cases parsed
      exact .atColon noColon noSlash isPath rfl

theorem mem_filed_iff_cutTo : ⟨port, path⟩ ∈ filed toLower value host ↔
    ∃ text ∈ entries value, CutTo toLower host text port path := by
  rw [mem_filed_iff]
  simp only [cutTo_iff]

/-- The last rule under a host is that of the last entry that is cut to it. -/
theorem lastCut_iff : LastCut toLower value host port path ↔
    (filed toLower value host).getLast? = some ⟨port, path⟩ := by
  have files : ∀ text rule, (if (parseEntry toLower text).1 = host then
      some (parseEntry toLower text).2 else none) = some rule ↔
        parseEntry toLower text = (host, rule) := by
    intro text rule
    rcases parseEntry toLower text with ⟨host', rule'⟩
    by_cases same : host' = host <;> simp [same]
  have skips : ∀ text, (if (parseEntry toLower text).1 = host then
      some (parseEntry toLower text).2 else none) = none ↔
        ∀ port path, ¬ CutTo toLower host text port path := by
    intro text
    simp only [Option.eq_none_iff_forall_ne_some, ne_eq, files, cutTo_iff]
    exact ⟨fun others port path => others ⟨port, path⟩,
      fun others rule => others rule.port rule.path⟩
  rw [filed, List.getLast?_filterMap, List.findSome?_eq_some_iff]
  constructor
  · rintro ⟨before, text, after, whole, cut, others⟩
    refine ⟨after.reverse, text, before.reverse, by simp [whole], ?_, ?_⟩
    · exact (files text _).mpr (cutTo_iff.mp cut)
    · exact fun later mem => (skips later).mpr (others later (List.mem_reverse.mp mem))
  · rintro ⟨after, text, before, whole, cut, others⟩
    refine ⟨before.reverse, text, after.reverse, ?_, cutTo_iff.mpr ((files text _).mp cut), ?_⟩
    · rw [← List.reverse_inj, whole]
      simp
    · exact fun later mem => (skips later).mp (others later (List.mem_reverse.mp mem))

/-- An entry is cut as it reads, or is a literal that is cut wrongly. -/
theorem Parses.miscut_or_cutTo {e : Entry} (reads : Parses text e)
    (toLower : Bytes → Bytes) :
    Miscut text ∨ CutTo toLower (toLower e.host) text e.port e.path := by
  cases reads with
  | host written isPath =>
      cases written with
      | name _ noColon noSlash => exact .inr (.whole noColon noSlash isPath rfl)
      | literal => exact .inl (.bare isPath)
      | bracketed => exact .inl (.bracketed isPath)
  | hostPort written noColon noSlash isPath =>
      cases written with
      | bracketed => exact .inl (.bracketedPort noColon noSlash isPath)
      | literal =>
          exact .inr (.atColon noColon (slash_notMem_hostPort (by decide) noSlash) isPath rfl)
      | name _ _ noSlashHost =>
          exact .inr (.atColon noColon (slash_notMem_hostPort noSlashHost noSlash) isPath rfl)

/-- The last entry for the host decides exactly if nothing goes wrong. -/
theorem lastDecides_iff : LastDecides toLower value u ↔ ¬ Misread toLower value u := by
  have admits_iff : ∀ {port path}, LastCut toLower value (toLower u.hostname) port path →
      (LastAdmits toLower value u ↔ Fits port path u) := by
    intro port path last
    rw [LastAdmits, lastCut_iff.mp last]
    simp only [Option.mem_def, Option.some.injEq, exists_eq_left', RedirectRule.admits_iff]
    rfl
  constructor
  · rintro decides (⟨listed, last, differs⟩ | ⟨isEntry, miscut, reads, isMatch, alone⟩ |
      ⟨hasColon, other, last, fits⟩)
    · exact differs ((admits_iff last).mp (decides.matched listed))
    · obtain ⟨rule, last, -⟩ := decides.matched ⟨_, isEntry, _, reads, isMatch⟩
      obtain ⟨text, isEntry', cut⟩ := mem_filed_iff_cutTo.mp (List.mem_of_getLast? last)
      exact alone text isEntry' _ _ cut
    · exact decides.stray hasColon other ((admits_iff last).mpr fits)
  · intro readsWell
    constructor
    · rintro ⟨text, isEntry, e, reads, isMatch⟩
      cases last : (filed toLower value (toLower u.hostname)).getLast? with
      | some rule =>
          have isLast := lastCut_iff.mpr last
          refine (admits_iff isLast).mpr (not_not.mp fun differs => readsWell ?_)
          exact .overruled ⟨text, isEntry, e, reads, isMatch⟩ isLast differs
      | none =>
          have alone : ∀ other ∈ entries value, ∀ port path,
              ¬ CutTo toLower (toLower u.hostname) other port path := by
            intro other isOther port path cut
            have mem := mem_filed_iff_cutTo.mpr ⟨other, isOther, cut⟩
            rw [List.getLast?_eq_none_iff.mp last] at mem
            cases mem
          rcases reads.miscut_or_cutTo toLower with miscut | cut
          · exact absurd (.cutAway isEntry miscut reads isMatch alone) readsWell
          · rw [isMatch.host] at cut
            exact absurd cut (alone text isEntry _ _)
    · rintro hasColon other ⟨rule, last, admits⟩
      have isLast := lastCut_iff.mpr last
      exact readsWell (.stray hasColon other isLast ((admits_iff isLast).mp ⟨rule, last, admits⟩))

end

/-- A URI is accepted exactly if some entry matches it, exactly if no entry for its host is
overruled by another one or is cut at a wrong colon. -/
theorem hostAllowed_union_iff (server : Server) (lower : LowerCase server.toLower)
    (value raw : Bytes) :
    ((server.withRedirectHosts value).hostAllowed raw = true ↔
        ∃ u, server.parseURL raw = some u ∧ SchemeFits server.toLower u ∧
          Listed server.toLower value u) ↔
      ∀ u, server.parseURL raw = some u → SchemeFits server.toLower u →
        ¬ Misread server.toLower value u := by
  rw [union_iff_lastDecides server lower]
  exact forall₃_congr fun u _ _ => lastDecides_iff

/-- A list that names every host once, and none by a literal, means the union of its entries
for every URI whose host has no colon. -/
theorem hostAllowed_union_of_once {server : Server} (lower : LowerCase server.toLower)
    {value raw : Bytes}
    (names : ∀ text ∈ entries value, ∀ e, Parses text e → colon ∉ e.host)
    (once : ((entries value).map fun text => (parseEntry server.toLower text).1).Nodup)
    (noColon : ∀ u, server.parseURL raw = some u → colon ∉ u.hostname) :
    (server.withRedirectHosts value).hostAllowed raw = true ↔
      ∃ u, server.parseURL raw = some u ∧ SchemeFits server.toLower u ∧
        Listed server.toLower value u := by
  rw [union_iff_lastDecides server lower]
  intro u parsed _
  refine ⟨?_, fun hasColon => absurd hasColon (noColon u parsed)⟩
  rintro ⟨text, isEntry, e, reads, matches_⟩
  have read : parseEntry server.toLower text = (server.toLower e.host, ⟨e.port, e.path⟩) :=
    parseEntry_of_reads reads (names text isEntry e reads)
  have mem : ⟨e.port, e.path⟩ ∈ filed server.toLower value (server.toLower u.hostname) :=
    mem_filed_iff.mpr ⟨text, isEntry, matches_.host ▸ read⟩
  cases last : (filed server.toLower value (server.toLower u.hostname)).getLast? with
  | none => exact absurd (List.getLast?_eq_none_iff.mp last) (List.ne_nil_of_mem mem)
  | some rule =>
      obtain ⟨text', isEntry', read'⟩ := mem_filed_iff.mp (List.mem_of_getLast? last)
      have same : text' = text := List.inj_on_of_nodup_map once isEntry' isEntry
        (by rw [read', read, matches_.host])
      rw [same, read, Prod.mk.injEq] at read'
      refine ⟨rule, last, ?_⟩
      rw [← read'.2]
      exact RedirectRule.admits_iff.mpr ⟨matches_.port, matches_.path⟩

/-! ## Sample lists -/

/-- One ASCII byte in lower case. -/
def lowerByte (b : UInt8) : UInt8 := if 0x41 ≤ b ∧ b ≤ 0x5a then b + 0x20 else b

/-- `strings.ToLower` of an ASCII string. -/
def lowerASCII (s : Bytes) : Bytes := s.map lowerByte

/-- The ASCII letters. -/
def isLetter (c : UInt8) : Bool := 0x41 ≤ c && c ≤ 0x5a || 0x61 ≤ c && c ≤ 0x7a

/-- Bytes that are no letters come from themselves only. -/
theorem lowerByte_eq_iff {b c : UInt8} (noLetter : isLetter c = false) :
    lowerByte b = c ↔ b = c := by
  rw [lowerByte]
  split
  · rename_i isUpper
    simp only [isLetter, Bool.or_eq_false_iff, Bool.and_eq_false_iff, decide_eq_false_iff_not,
      UInt8.le_iff_toNat_le] at noLetter isUpper
    simp only [← UInt8.toNat_inj, UInt8.toNat_add]
    simp only [UInt8.reduceToNat] at noLetter isUpper ⊢
    omega
  · rfl

theorem lowerASCII_eq_iff {s t : Bytes} (noLetters : t.any isLetter = false) :
    lowerASCII s = t ↔ s = t := by
  rw [lowerASCII]
  induction t generalizing s with
  | nil => exact List.map_eq_nil_iff
  | cons c t ih =>
      rw [List.any_cons, Bool.or_eq_false_iff] at noLetters
      cases s with
      | nil => simp
      | cons b s =>
          rw [List.map_cons, List.cons.injEq, List.cons.injEq, lowerByte_eq_iff noLetters.1,
            ih noLetters.2]

theorem lowerASCII_lowerCase : LowerCase lowerASCII where
  nil_iff s := List.map_eq_nil_iff
  colon_iff s := by
    rw [lowerASCII, List.mem_map]
    constructor
    · rintro ⟨b, mem, isColon⟩
      rwa [(lowerByte_eq_iff (by decide)).mp isColon] at mem
    · exact fun mem => ⟨colon, mem, rfl⟩
  loopback_iff s := lowerASCII_eq_iff (by decide)

/-- The URIs `https://a.io/x` and `http://[::1]:8787/cb`, parsed. -/
def sampleURLs (raw : Bytes) : Option URL :=
  if raw = ascii "https://a.io/x" then some ⟨ascii "https", ascii "a.io", [], ascii "/x"⟩
  else if raw = ascii "http://[::1]:8787/cb" then
    some ⟨ascii "http", ascii "::1", ascii "8787", ascii "/cb"⟩
  else none

/-- The sample server, with the sample URLs. -/
def listServer : Server := { sampleServer with toLower := lowerASCII, parseURL := sampleURLs }

theorem sampleList_union_iff :
    ((listServer.withRedirectHosts (ascii "a.io/x,a.io/y")).hostAllowed (ascii "https://a.io/x") =
          true ↔
        ∃ u, listServer.parseURL (ascii "https://a.io/x") = some u ∧ SchemeFits lowerASCII u ∧
          Listed lowerASCII (ascii "a.io/x,a.io/y") u) ↔
      ∀ u, listServer.parseURL (ascii "https://a.io/x") = some u → SchemeFits lowerASCII u →
        ¬ Misread lowerASCII (ascii "a.io/x,a.io/y") u :=
  hostAllowed_union_iff listServer lowerASCII_lowerCase _ _

/-- Two entries for one host, and a literal: the first entry and the literal match their
URIs, which are refused. -/
theorem listed_refused :
    ((listServer.withRedirectHosts (ascii "a.io/x,a.io/y")).hostAllowed (ascii "https://a.io/x") =
          false ∧
        ∃ u, listServer.parseURL (ascii "https://a.io/x") = some u ∧ SchemeFits lowerASCII u ∧
          Listed lowerASCII (ascii "a.io/x,a.io/y") u) ∧
      (listServer.withRedirectHosts (ascii "[::1]:8787/cb")).hostAllowed
            (ascii "http://[::1]:8787/cb") = false ∧
        ∃ u, listServer.parseURL (ascii "http://[::1]:8787/cb") = some u ∧
          SchemeFits lowerASCII u ∧ Listed lowerASCII (ascii "[::1]:8787/cb") u := by
  constructor
  · refine ⟨by decide, _, rfl, .inl rfl, ascii "a.io/x", by decide,
      ⟨ascii "a.io", [], ascii "/x"⟩, ?_, rfl, .inl rfl, .inr rfl⟩
    have written : WrittenHost (ascii "a.io") (ascii "a.io") :=
      .name (by decide) (by decide) (by decide)
    exact .host written (.inr ⟨ascii "x", rfl⟩)
  · refine ⟨by decide, _, rfl, .inr ⟨rfl, by decide⟩, ascii "[::1]:8787/cb", by decide,
      ⟨loopback6, ascii "8787", ascii "/cb"⟩, ?_, rfl, .inr rfl, .inr rfl⟩
    have noColon : colon ∉ ascii "8787" := by decide
    have noSlash : slash ∉ ascii "8787" := by decide
    exact .hostPort .bracketed noColon noSlash (.inr ⟨ascii "cb", rfl⟩)

end Drover.OAuth.Endpoint
