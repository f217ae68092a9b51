import Drover.Web.Access

/-!
# Dialing the relay

Three functions dial a relay with a session id and a role: the `Dial` of the
relay's package writes the id into the URL as it is, the two of the relay's
client escape it first.  An escaped id always comes back from the query; one
written as it is comes back only if no byte of it means something in a URL.
-/

namespace Drover.Web

open Drover.Net

/-- `stringContainsCTLByte`. -/
def isCTL (b : UInt8) : Bool := b < 0x20 || b = 0x7f

/-- The text of a URL that relays are dialed at. -/
structure DialBase extends Base where
  printable : ∀ b ∈ text, isCTL b = false

/-- The request that a dialed URL becomes.  `url.Parse` fails at a control byte
before the fragment and at a bad escape in the fragment; with a space in the
query, the server finds no version of HTTP behind the first two words of the
request line. -/
def requestOf (url : Bytes) : Option Request :=
  if (cut hash url).1.any isCTL then none
  else if queryUnescape (cut hash url).2 = none then none
  else if space ∈ rawQuery url then none
  else some ⟨[], rawQuery url⟩

/-- The URL of `relay.Dial`. -/
def relayURL (base : Base) (sid role : Bytes) : Bytes :=
  base.text ++ ascii "/session?sid=" ++ sid ++ ascii "&role=" ++ role

/-- The URL of `relayclient.Dial`. -/
def clientURL (base : Base) (sid role : Bytes) : Bytes :=
  base.text ++ ascii "/session?sid=" ++ queryEscape sid ++ ascii "&role=" ++ role

/-- `relay.Dial`. -/
def relayDial (base : DialBase) (sid role : Bytes) : Option Request :=
  requestOf (relayURL base.toBase sid role)

/-- `relayclient.Dial`. -/
def clientDial (base : DialBase) (sid role : Bytes) : Option Request :=
  requestOf (clientURL base.toBase sid role)

/-- `DialViewerFrom`. -/
def clientDialViewerFrom (base : DialBase) (sid sourcePC : Bytes) : Option Request :=
  requestOf (viewerURL base.toBase sid sourcePC)

/-- The dialed request arrives, and the relay reads the id and the role that it
was dialed with. -/
def Reads (dialed : Option Request) (sid role : Bytes) : Prop :=
  ∃ r, dialed = some r ∧ r.param "sid" = sid ∧ r.param "role" = role

/-- The same, with the source PC. -/
def ReadsFrom (dialed : Option Request) (sid role sourcePC : Bytes) : Prop :=
  ∃ r, dialed = some r ∧ r.param "sid" = sid ∧ r.param "role" = role ∧ r.param "spc" = sourcePC

/-- A byte that means nothing in a URL's query. -/
def isRaw (b : UInt8) : Bool :=
  !isCTL b && b ∉ [space, hash, percent, ampersand, plus, semicolon]

theorem notMem_of_isRaw {c : UInt8} (special : isRaw c = false) {s : Bytes}
    (raw : ∀ b ∈ s, isRaw b = true) : c ∉ s := fun mem => by
  rw [raw c mem] at special
  cases special

/-! ## What arrives -/

/-- The URL of a session with any query. -/
theorem requestOf_session (base : DialBase) (query : Bytes) :
    requestOf ((base.text ++ ascii "/session") ++ question :: query) =
      if (cut hash query).1.any isCTL then none
      else if queryUnescape (cut hash query).2 = none then none
      else if space ∈ (cut hash query).1 then none
      else some ⟨[], (cut hash query).1⟩ := by
  have absent : ∀ c, c ∉ base.text → c ∉ ascii "/session" → c ∉ base.text ++ ascii "/session" :=
    fun c inBase inPath mem => (List.mem_append.mp mem).elim inBase inPath
  have noHash := absent hash base.hash_notMem (by decide)
  have noHashThen : hash ∉ (base.text ++ ascii "/session") ++ [question] := by
    rw [List.mem_append, List.mem_singleton]
    rintro (inPath | isQuestion)
    · exact noHash inPath
    · exact absurd isQuestion (by decide)
  have plainBase : base.text.any isCTL = false := by
    rw [List.any_eq_false]
    intro b mem
    rw [base.printable b mem]
    exact Bool.false_ne_true
  have plainPath : (ascii "/session" ++ [question]).any isCTL = false := by decide
  rw [requestOf, rawQuery_append_fragment (absent question base.question_notMem (by decide)) noHash,
    List.append_cons, cut_append_left noHashThen]
  rw [List.append_assoc base.text, List.any_append, List.any_append, plainBase, plainPath,
    Bool.false_or, Bool.false_or]

/-- The query that a `Dial` writes, `sid` being escaped or not. -/
def dialQuery (sid role : Bytes) : Bytes :=
  ascii "sid=" ++ sid ++ ampersand :: (ascii "role=" ++ role)

theorem relayURL_eq (base : Base) (sid role : Bytes) :
    relayURL base sid role = (base.text ++ ascii "/session") ++ question :: dialQuery sid role := by
  have sidStart : ascii "/session?sid=" = ascii "/session" ++ question :: ascii "sid=" := by decide
  have roleStart : ascii "&role=" = ampersand :: ascii "role=" := by decide
  rw [relayURL, dialQuery, sidStart, roleStart]
  simp only [List.append_assoc, List.cons_append]

theorem clientURL_eq (base : Base) (sid role : Bytes) :
    clientURL base sid role = relayURL base (queryEscape sid) role := rfl

/-- A query that is printable, has no space and leaves nothing for a fragment
arrives as it is. -/
theorem requestOf_session_of_plain (base : DialBase) {query : Bytes} (noHash : hash ∉ query)
    (noSpace : space ∉ query) (printable : ∀ b ∈ query, isCTL b = false) :
    requestOf ((base.text ++ ascii "/session") ++ question :: query) = some ⟨[], query⟩ := by
  have plain : query.any isCTL = false := by
    rw [List.any_eq_false]
    intro b mem
    rw [printable b mem]
    exact Bool.false_ne_true
  rw [requestOf_session, cut_of_notMem noHash, plain, if_neg Bool.false_ne_true,
    if_neg (by simp [queryUnescape]), if_neg noSpace]

theorem special_of_isCTL {b : UInt8} (control : isCTL b = true) :
    isUnreserved b = false ∧ b ∉ [percent, plus, equals, ampersand] := by
  rw [isCTL, Bool.or_eq_true, decide_eq_true_eq, decide_eq_true_eq] at control
  rcases control with low | rfl
  · constructor
    · simp only [isUnreserved, Bool.or_eq_false_iff, Bool.and_eq_false_iff, decide_eq_false_iff_not,
        beq_eq_false_iff_ne, ne_eq]
      grind
    · simp only [percent, plus, equals, ampersand, List.mem_cons]
      grind
  · decide

/-- Escaped pairs arrive as they are. -/
theorem requestOf_session_encodeQuery (base : DialBase) (values : Values) :
    requestOf ((base.text ++ ascii "/session") ++ question :: encodeQuery values) =
      some ⟨[], encodeQuery values⟩ := by
  have noSpace : space ∉ encodeQuery values :=
    notMem_encodeQuery (by decide) (by decide) (by decide) (by decide) (by decide) values
  have printable : ∀ b ∈ encodeQuery values, isCTL b = false := by
    intro b mem
    by_contra control
    obtain ⟨special, others⟩ := special_of_isCTL (Bool.not_eq_false _ ▸ control)
    simp only [List.mem_cons, List.not_mem_nil, or_false, not_or] at others
    exact notMem_encodeQuery special others.1 others.2.1 others.2.2.1 others.2.2.2 values mem
  exact requestOf_session_of_plain base (hash_notMem_encodeQuery values) noSpace printable

/-! ## The relay's own `Dial` -/

theorem isRaw_of_known {role : Bytes} (known : role = source ∨ role = viewer) :
    ∀ b ∈ role, isRaw b = true := by
  rcases known with rfl | rfl
  · exact List.all_eq_true.mp (by decide)
  · exact List.all_eq_true.mp (by decide)

/-- A key with a value that means nothing else is one pair. -/
theorem parseQuery_append_equals {key value : Bytes} (plain : key.all isUnreserved = true)
    (raw : ∀ b ∈ value, isRaw b = true) :
    parseQuery (key ++ equals :: value) = [(key, value)] := by
  have clean : ampersand ∉ key ++ equals :: value := by
    rw [List.mem_append, List.mem_cons]
    rintro (inKey | isEquals | inValue)
    · exact ne_of_isUnreserved (List.all_eq_true.mp plain _ inKey) (by decide) rfl
    · exact absurd isEquals (by decide)
    · exact notMem_of_isRaw (by decide) raw inValue
  rw [parseQuery_of_notMem clean, parsePair_append_equals plain (notMem_of_isRaw (by decide) raw)
    (notMem_of_isRaw (by decide) raw) (notMem_of_isRaw (by decide) raw)]
  rfl

/-- The pairs of a query with the id as it is. -/
theorem parseQuery_dialQuery {sid role : Bytes} (raw : ∀ b ∈ sid, isRaw b = true)
    (known : role = source ∨ role = viewer) :
    parseQuery (dialQuery sid role) = [(ascii "sid", sid), (ascii "role", role)] := by
  have sidStart : ascii "sid=" ++ sid = ascii "sid" ++ equals :: sid := rfl
  have roleStart : ascii "role=" ++ role = ascii "role" ++ equals :: role := rfl
  rw [dialQuery, parseQuery_append_ampersand, sidStart, roleStart,
    parseQuery_append_equals (by decide) raw,
    parseQuery_append_equals (by decide) (isRaw_of_known known), List.singleton_append]

/-- Without a `#` in the id, nothing is left for a fragment. -/
theorem cut_hash_dialQuery {sid role : Bytes} (clean : hash ∉ sid)
    (known : role = source ∨ role = viewer) :
    cut hash (dialQuery sid role) = (dialQuery sid role, []) := by
  have noFragment : hash ∉ dialQuery sid role := by
    rw [dialQuery, List.mem_append, List.mem_append, List.mem_cons, List.mem_append]
    rintro ((inKey | inSid) | isAmpersand | inKey | inRole)
    · exact absurd inKey (by decide)
    · exact clean inSid
    · exact absurd isAmpersand (by decide)
    · exact absurd inKey (by decide)
    · exact notMem_of_isRaw (by decide) (isRaw_of_known known) inRole
  exact cut_of_notMem noFragment

/-- A `#` leaves less than the id before the fragment. -/
theorem hash_notMem_of_read {sid role : Bytes} (named : sid ≠ [])
    (read : (ascii "sid", sid) ∈ parseQuery (cut hash (dialQuery sid role)).1) : hash ∉ sid := by
  intro found
  obtain ⟨segment, inQuery, parsed⟩ := List.mem_filterMap.mp read
  have long : (ascii "sid=").length + sid.length ≤ segment.length :=
    length_of_parsePair parsed named
  obtain ⟨before, after, rfl, clean⟩ := List.eq_append_cons_of_mem found
  have cleanBefore : hash ∉ ascii "sid=" ++ before := by
    rw [List.mem_append]
    rintro (inKey | inBefore)
    · exact absurd inKey (by decide)
    · exact clean inBefore
  have kept : (cut hash (dialQuery (before ++ hash :: after) role)).1 = ascii "sid=" ++ before := by
    rw [dialQuery, ← List.append_assoc, List.append_assoc, List.cons_append,
      cut_append cleanBefore]
  rw [kept] at inQuery
  have short := length_of_mem_splitOn inQuery
  rw [List.length_append] at short
  rw [List.length_append, List.length_cons] at long
  omega

/-- An id that is read from its own segment is read as it was written, and
nothing splits the segment. -/
theorem notMem_of_read {sid : Bytes} (named : sid ≠ [])
    (read : (ascii "sid", sid) ∈ parseQuery (ascii "sid=" ++ sid)) :
    percent ∉ sid ∧ ampersand ∉ sid ∧ plus ∉ sid ∧ semicolon ∉ sid := by
  obtain ⟨segment, inQuery, parsed⟩ := List.mem_filterMap.mp read
  have long : (ascii "sid=").length + sid.length ≤ segment.length :=
    length_of_parsePair parsed named
  obtain ⟨rfl, noAmpersand⟩ := eq_of_mem_splitOn inQuery (by rw [List.length_append]; exact long)
  obtain ⟨noSemicolon, -, valueRead⟩ := parsePair_eq_some parsed
  have value : (cut equals (ascii "sid=" ++ sid)).2 = sid :=
    congrArg Prod.snd (cut_append (show equals ∉ ascii "sid" by decide) sid)
  rw [value] at valueRead
  obtain ⟨noPercent, noPlus⟩ := queryUnescape_eq_self_iff.mp valueRead
  exact ⟨noPercent, fun mem => noAmpersand (List.mem_append_right _ mem), noPlus,
    fun mem => noSemicolon (List.mem_append_right _ mem)⟩

/-- An id that comes back is raw. -/
theorem isRaw_of_read {sid role : Bytes} (named : sid ≠ []) (known : role = source ∨ role = viewer)
    (read : (ascii "sid", sid) ∈ parseQuery (cut hash (dialQuery sid role)).1)
    (plain : (cut hash (dialQuery sid role)).1.any isCTL = false)
    (noSpace : space ∉ (cut hash (dialQuery sid role)).1) : ∀ b ∈ sid, isRaw b = true := by
  have noHash := hash_notMem_of_read named read
  rw [cut_hash_dialQuery noHash known] at read plain noSpace
  have roleStart : ascii "role=" ++ role = ascii "role" ++ equals :: role := rfl
  have inSid : (ascii "sid", sid) ∈ parseQuery (ascii "sid=" ++ sid) := by
    rw [dialQuery, parseQuery_append_ampersand, roleStart,
      parseQuery_append_equals (by decide) (isRaw_of_known known), List.mem_append,
      List.mem_singleton] at read
    rcases read with inSid | isRole
    · exact inSid
    · exact absurd (congrArg Prod.fst isRole) (show ascii "sid" ≠ ascii "role" by decide)
  obtain ⟨noPercent, noAmpersand, noPlus, noSemicolon⟩ := notMem_of_read named inSid
  intro b mem
  have inQuery : b ∈ dialQuery sid role := List.mem_append_left _ (List.mem_append_right _ mem)
  have printable : isCTL b = false := Bool.eq_false_iff.mpr (List.any_eq_false.mp plain b inQuery)
  have notSpecial : b ∉ [space, hash, percent, ampersand, plus, semicolon] := by
    intro special
    simp only [List.mem_cons, List.not_mem_nil, or_false] at special
    rcases special with rfl | rfl | rfl | rfl | rfl | rfl
    · exact noSpace inQuery
    · exact noHash mem
    · exact noPercent mem
    · exact noAmpersand mem
    · exact noPlus mem
    · exact noSemicolon mem
  rw [isRaw, printable, decide_eq_true notSpecial]
  rfl

theorem plain_dialQuery {sid role : Bytes} (raw : ∀ b ∈ sid, isRaw b = true)
    (known : role = source ∨ role = viewer) :
    ∀ b ∈ dialQuery sid role, isRaw b = true ∨ b = ampersand := by
  intro b mem
  rw [dialQuery, List.mem_append, List.mem_append, List.mem_cons, List.mem_append] at mem
  have inWord : ∀ c ∈ ascii "sid=" ++ ascii "role=", isRaw c = true :=
    List.all_eq_true.mp (by decide)
  rcases mem with (inKey | inSid) | isAmpersand | inKey | inRole
  · exact .inl (inWord b (List.mem_append_left _ inKey))
  · exact .inl (raw b inSid)
  · exact .inr isAmpersand
  · exact .inl (inWord b (List.mem_append_right _ inKey))
  · exact .inl (isRaw_of_known known b inRole)

/-- The relay's own `Dial` carries an id exactly if all its bytes are raw. -/
theorem reads_relayDial_iff (base : DialBase) {sid role : Bytes} (named : sid ≠ [])
    (known : role = source ∨ role = viewer) :
    Reads (relayDial base sid role) sid role ↔ ∀ b ∈ sid, isRaw b = true := by
  constructor
  · rintro ⟨r, arrived, sidRead, -⟩
    rw [relayDial, relayURL_eq, requestOf_session] at arrived
    split at arrived
    · cases arrived
    · rename_i plain
      split at arrived
      · cases arrived
      · split at arrived
        · cases arrived
        · rename_i noSpace
          cases arrived
          exact isRaw_of_read named known (Values.mem_of_get sidRead named)
            (Bool.eq_false_iff.mpr plain) noSpace
  · intro raw
    have bytes := plain_dialQuery raw known
    have absent : ∀ c, isRaw c = false → c ≠ ampersand → c ∉ dialQuery sid role :=
      fun c special other mem => (bytes c mem).elim
        (fun isRaw => Bool.false_ne_true (special.symm.trans isRaw)) other
    have printable : ∀ b ∈ dialQuery sid role, isCTL b = false := by
      intro b mem
      rcases bytes b mem with isRawByte | rfl
      · rw [isRaw, Bool.and_eq_true, Bool.not_eq_true'] at isRawByte
        exact isRawByte.1
      · decide
    have arrived : relayDial base sid role = some ⟨[], dialQuery sid role⟩ := by
      rw [relayDial, relayURL_eq, requestOf_session_of_plain base
        (absent hash (by decide) (by decide)) (absent space (by decide) (by decide)) printable]
    have pairs := parseQuery_dialQuery raw known
    refine ⟨_, arrived, ?_, ?_⟩
    · rw [Request.param, pairs, Values.get_cons_same]
    · rw [Request.param, pairs, Values.get_cons_of_ne (by decide), Values.get_cons_same]

/-! ## The client's -/

/-- The client's `Dial` carries every id. -/
theorem reads_clientDial (base : DialBase) (sid : Bytes) {role : Bytes}
    (known : role = source ∨ role = viewer) : Reads (clientDial base sid role) sid role := by
  have plainRole : role.all isUnreserved = true := by rcases known with rfl | rfl <;> decide
  have sidPair : escapePair (ascii "sid", sid) = ascii "sid=" ++ queryEscape sid := by
    rw [escapePair, queryEscape_of_isUnreserved (s := ascii "sid") (by decide)]
    rfl
  have rolePair : escapePair (ascii "role", role) = ascii "role=" ++ role := by
    rw [escapePair, queryEscape_of_isUnreserved (s := ascii "role") (by decide),
      queryEscape_of_isUnreserved plainRole]
    rfl
  have query : dialQuery (queryEscape sid) role =
      encodeQuery [(ascii "sid", sid), (ascii "role", role)] := by
    rw [encodeQuery, List.map_cons, List.map_singleton, sidPair, rolePair,
      List.intercalate_cons_cons, List.intercalate_singleton, dialQuery, List.append_assoc,
      List.append_assoc]
    rfl
  have arrived : clientDial base sid role =
      some ⟨[], encodeQuery [(ascii "sid", sid), (ascii "role", role)]⟩ := by
    rw [clientDial, clientURL_eq, relayURL_eq, query, requestOf_session_encodeQuery]
  refine ⟨_, arrived, ?_, ?_⟩
  · rw [Request.param, parseQuery_encodeQuery, Values.get_cons_same]
  · rw [Request.param, parseQuery_encodeQuery, Values.get_cons_of_ne (by decide),
      Values.get_cons_same]

theorem clientDialViewerFrom_eq (base : DialBase) (sid sourcePC : Bytes) :
    clientDialViewerFrom base sid sourcePC = some (dialViewerFrom base.toBase sid sourcePC) := by
  have absent : ∀ c, c ∉ base.text → c ∉ ascii "/session" → c ∉ base.text ++ ascii "/session" :=
    fun c inBase inPath mem => (List.mem_append.mp mem).elim inBase inPath
  rw [clientDialViewerFrom, dialViewerFrom, viewerURL_eq, requestOf_session_encodeQuery,
    rawQuery_append (absent _ base.question_notMem (by decide))
      (absent _ base.hash_notMem (by decide)) (hash_notMem_encodeQuery _)]

/-- `DialViewerFrom` carries every id and every source PC. -/
theorem readsFrom_clientDialViewerFrom (base : DialBase) (sid sourcePC : Bytes) :
    ReadsFrom (clientDialViewerFrom base sid sourcePC) sid viewer sourcePC :=
  ⟨_, clientDialViewerFrom_eq base sid sourcePC, dialViewerFrom_sid .., dialViewerFrom_role ..,
    dialViewerFrom_spc ..⟩

/-! ## The relay -/

/-- The handler decides about the id and the role that it reads. -/
theorem serveHTTP_of_reads {r : Request} (noBearer : r.bearer = []) {sid role : Bytes}
    (named : sid ≠ []) (known : role = source ∨ role = viewer) (sidRead : r.param "sid" = sid)
    (roleRead : r.param "role" = role) (enrollSA : Bytes) (answers : Answers) :
    serveHTTP enrollSA answers r =
      if answers.checkRelayGrant sid role then .accept (viewerKey answers r sid role) role
      else .refuse 403 := by
  have wellFormed : ¬ (sid = [] ∨ (role ≠ source ∧ role ≠ viewer)) := by
    rw [not_or, not_and_or, not_not, not_not]
    exact ⟨named, known⟩
  rw [serveHTTP, sidRead, roleRead, if_neg wellFormed, slaveGate_of_no_bearer noBearer]

/-- What is dialed is what the relay reads, exactly for a raw id; the client's
two functions need nothing of the id. -/
theorem dial_reads_iff (base : DialBase) {sid role : Bytes} (sourcePC : Bytes) (named : sid ≠ [])
    (known : role = source ∨ role = viewer) :
    ((Reads (relayDial base sid role) sid role ∧ Reads (clientDial base sid role) sid role ∧
        ReadsFrom (clientDialViewerFrom base sid sourcePC) sid viewer sourcePC) ↔
      ∀ b ∈ sid, isRaw b = true) ∧
    Reads (clientDial base sid role) sid role ∧
      ReadsFrom (clientDialViewerFrom base sid sourcePC) sid viewer sourcePC := by
  have client := reads_clientDial base sid known
  have viewerFrom := readsFrom_clientDialViewerFrom base sid sourcePC
  constructor
  · rw [reads_relayDial_iff base named known]
    exact ⟨fun reads => reads.1, fun raw => ⟨raw, client, viewerFrom⟩⟩
  · exact ⟨client, viewerFrom⟩

/-- The relay of a test. -/
def localRelay : DialBase where
  text := ascii "ws://localhost:8080"
  question_notMem := by decide
  hash_notMem := by decide
  printable := by
    intro b mem
    have none_ : (ascii "ws://localhost:8080").any isCTL = false := by decide
    exact Bool.eq_false_iff.mpr (List.any_eq_false.mp none_ b mem)

/-- A pane's id is raw. -/
theorem pane_dial_reads :
    Reads (relayDial localRelay (ascii "w1:p2") source) (ascii "w1:p2") source :=
  ((dial_reads_iff localRelay [] (by decide) (.inl rfl)).1.mpr
    (List.all_eq_true.mp (by decide))).1

/-- The id of an injection into it is not: the role is lost with the fragment. -/
theorem injection_dial_not_reads :
    ascii "w1:p2#inj" ≠ [] ∧
      ¬ Reads (relayDial localRelay (ascii "w1:p2#inj") source) (ascii "w1:p2#inj") source := by
  constructor
  · decide
  · intro reads
    have raw := (reads_relayDial_iff localRelay (by decide) (.inl rfl)).mp reads
    exact absurd (raw hash (by decide)) (by decide)

end Drover.Web
