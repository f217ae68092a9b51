import Drover.Glasses.Operations

/-!
# What the calls change

The paths of answers and asks tell their PC and request id, and every document is
filed under its own.  What an operation leaves at a path is read off by cases.
-/

namespace Drover.Glasses

open Drover.Store Drover.Transition

variable {h : Handler} {req : Request} {pc pc' requestID requestID' text : Bytes}

/-! ## Paths -/

/-- The byte between the parts of `docID`. -/
def underscore : UInt8 := 0x5f

theorem docID_eq (pc requestID : Bytes) : docID pc requestID = pc ++ underscore :: requestID := by
  rw [docID, List.append_assoc]
  rfl

theorem isIDByte_of_validPC (valid : validPC pc = true) {b : UInt8} (mem : b ∈ pc) :
    isIDByte b = true := by
  simp only [validPC, Bool.and_eq_true, List.all_eq_true] at valid
  exact valid.2 b mem

theorem isIDByte_of_validRequestID (valid : validRequestID requestID = true) {b : UInt8}
    (mem : b ∈ requestID) : isIDByte b = true := by
  rw [validRequestID.eq_def] at valid
  split at valid
  · rename_i kind dash id
    simp only [Bool.and_eq_true, Bool.or_eq_true, beq_iff_eq, List.all_eq_true] at valid
    obtain ⟨⟨⟨⟨isKind, rfl⟩, -⟩, -⟩, all⟩ := valid
    rcases List.mem_cons.mp mem with rfl | mem
    · rcases isKind with rfl | rfl <;> decide
    · rcases List.mem_cons.mp mem with rfl | mem
      · decide
      · exact all b mem
  · cases valid

/-- The parts of an id are told if those of the other id are valid. -/
theorem docID_inj (valid : ValidKey pc requestID) :
    docID pc' requestID' = docID pc requestID ↔ pc' = pc ∧ requestID' = requestID := by
  have clean : underscore ∉ pc :=
    fun mem => absurd (isIDByte_of_validPC valid.pc mem) (by decide)
  rw [docID_eq, docID_eq, separated_eq_iff clean, or_iff_left]
  rintro ⟨x, -, rfl⟩
  have mem : underscore ∈ x ++ underscore :: requestID' :=
    List.mem_append_right _ List.mem_cons_self
  exact absurd (isIDByte_of_validRequestID valid.requestID mem) (by decide)

theorem slash_notMem_docID (valid : ValidKey pc requestID) : slash ∉ docID pc requestID := by
  rw [docID_eq, List.mem_append, List.mem_cons]
  rintro (mem | isUnderscore | mem)
  · exact absurd (isIDByte_of_validPC valid.pc mem) (by decide)
  · exact absurd isUnderscore (by decide)
  · exact absurd (isIDByte_of_validRequestID valid.requestID mem) (by decide)

theorem docID_ne_nil (pc requestID : Bytes) : docID pc requestID ≠ [] := by
  rw [docID_eq]
  exact List.append_ne_nil_of_right_ne_nil _ (List.cons_ne_nil _ _)

theorem answerPath_inj (valid : ValidKey pc requestID) :
    answerPath pc' requestID' = answerPath pc requestID ↔
      pc' = pc ∧ requestID' = requestID := by
  rw [answerPath, answerPath, docPath_inj, docID_inj valid]

theorem askPath_inj (valid : ValidKey pc requestID) :
    askPath pc' requestID' = askPath pc requestID ↔ pc' = pc ∧ requestID' = requestID := by
  rw [askPath, askPath, docPath_inj, docID_inj valid]

theorem answerPath_ne_askPath (pc requestID pc' requestID' : Bytes) :
    answerPath pc requestID ≠ askPath pc' requestID' :=
  docPath_ne (by decide) (by decide) (by decide)

/-! ## Documents -/

/-- When a document expires. -/
def Doc.expireAt : Doc → Option Nat
  | .answer a => some a.expireAt
  | .ask k => some k.expireAt
  | .chat c => some c.expireAt
  | .pc | .revoked => none

/-- The document is filed under its PC and request id. -/
def Filed (path : Path) : Doc → Prop
  | .answer a => ValidKey a.pc a.requestID ∧ path = answerPath a.pc a.requestID
  | .ask _ => ∃ pc requestID, ValidKey pc requestID ∧ path = askPath pc requestID
  | .chat _ | .pc | .revoked => True

/-- Another program registers a PC or revokes it, or deletes what has expired. -/
def Outside (s : System) : Label → Prop
  | .external path none =>
      ∀ d, s.machine.docs[path]? = some d → ∀ e, d.expireAt = some e → e ≤ s.machine.clock
  | .external path (some d) =>
      (d = .pc ∧ ∃ pc, path = docPath pcsCol pc) ∨ (d = .revoked ∧ ∃ pc, path = revokedPath pc)
  | .tick _ | .begin .. | .advance .. => True

/-- The documents are filed, and every call keeps to its operations and ends well. -/
structure Sound (h : Handler) (s : System) : Prop where
  filed : ∀ path d, s.machine.docs[path]? = some d → Filed path d
  follows : s.Follows (fun req _ => Does h req) (Ends h)

/-- An update of an ask finds one and writes it. -/
theorem updateAsk_eq_some_iff {change : StoredAsk → StoredAsk} {snap : Snapshot Doc}
    {f : Option Doc → Option Doc} :
    updateAsk change snap = some f ↔
      ∃ k, snap = .found (.ask k) ∧ f = fun _ => some (.ask (change k)) := by
  rw [updateAsk.eq_def]
  constructor
  · intro isChange
    split at isChange
    · rename_i k
      cases isChange
      exact ⟨k, rfl, rfl⟩
    · cases isChange
  · rintro ⟨k, rfl, rfl⟩
    rfl

theorem Does.justified {o : ClientOp} (does : Does h req o) : o.Justified Filed := by
  cases does with
  | look looks =>
      cases o with
      | write | transact => cases looks
      | get | list | lookup | remember | forget | now | emit => exact trivial
  | put now valid answers =>
      rintro old d ⟨⟩
      exact ⟨valid, rfl⟩
  | delete valid acks mem => exact fun old d isSome => nomatch isSome
  | register now valid asks =>
      rintro old d ⟨⟩
      exact ⟨_, _, valid, rfl⟩
  | answer now valid notEmpty answers =>
      intro snap f old d isChange isSome
      obtain ⟨k, rfl, rfl⟩ := updateAsk_eq_some_iff.mp isChange
      cases isSome
      exact ⟨_, _, valid, rfl⟩
  | deliver now expireAt valid takes =>
      intro snap f old d isChange isSome
      obtain ⟨k, rfl, rfl⟩ := updateAsk_eq_some_iff.mp isChange
      cases isSome
      exact ⟨_, _, valid, rfl⟩

theorem Sound.does {s : System} (sound : Sound h s) {r : Nat}
    {c : Call Request Doc Unit Sent Response} {o : ClientOp}
    {next : o.Result → Client Response} (running : s.calls r = some c)
    (isOp : c.program = .op o next) : Does h c.input o := by
  have along := sound.follows r c running
  rw [isOp] at along
  exact along.1

theorem Sound.step {s s' : System} {label : Label} (sound : Sound h s) (outside : Outside s label)
    (taken : h.step s label = some s') : Sound h s' := by
  constructor
  case filed =>
    intro path d found
    cases stepped_of_step taken with
    | tick later => exact sound.filed path d found
    | begin input unused => exact sound.filed path d found
    | external target doc =>
        change (changeDocument s.machine.docs .ok target fun _ => doc)[path]? = some d at found
        by_cases same : path = target
        · rw [same, changeDocument_same] at found
          cases found
          rcases outside with ⟨rfl, -⟩ | ⟨rfl, -⟩ <;> exact trivial
        · rw [changeDocument_of_ne same] at found
          exact sound.filed path d found
    | advance choice running isOp =>
        rcases (sound.does running isOp).justified.after found with old | new
        · exact sound.filed path d old
        · exact new
  case follows => exact sound.follows.step (fun _ _ _ => handle_follows h _) taken

theorem sound_start (h : Handler) : Sound h {} where
  filed path d found := by rw [Std.ExtTreeMap.getElem?_empty] at found; cases found
  follows r c running := by cases running

theorem Looks.docs_after {o : ClientOp} (looks : Looks o) (m : Machine Doc Unit Sent)
    (choice : Choice) : (m.after choice o).docs = m.docs := by
  cases o with
  | write | transact => cases looks
  | get | list | lookup | remember | forget | now | emit => rfl

/-- An answer after an operation was there before, or has just been put. -/
theorem Does.answer_after {o : ClientOp} (does : Does h req o) {m : Machine Doc Unit Sent}
    {choice : Choice} {path : Path} {a : StoredAnswer}
    (found : (m.after choice o).docs[path]? = some (.answer a)) :
    m.docs[path]? = some (.answer a) ∨
      (choice.write.applied = true ∧ ∃ pc requestID text now,
        req.answers = some (pc, requestID, text) ∧ path = answerPath pc requestID ∧
        a = storedAnswer pc requestID text now ∧
        o = .write (answerPath pc requestID) fun _ => some (.answer a)) := by
  have updated : ∀ (target : Path) (change : StoredAsk → StoredAsk),
      (m.transaction choice target target (updateAsk change))[path]? = some (.answer a) →
        m.docs[path]? = some (.answer a) := by
    intro target change found
    rw [Machine.transaction] at found
    split at found
    · exact found
    · rename_i f isChange
      obtain ⟨k, -, rfl⟩ := updateAsk_eq_some_iff.mp isChange
      by_cases same : path = target
      · rw [same] at found ⊢
        rw [changeDocument_same] at found
        split at found
        · cases found
        · exact found
      · rwa [changeDocument_of_ne same] at found
  cases does with
  | look looks => exact .inl (looks.docs_after m choice ▸ found)
  | @put pc requestID text now valid answers =>
      change (changeDocument ..)[path]? = _ at found
      by_cases same : path = answerPath pc requestID
      · subst same
        rw [changeDocument_same] at found
        split at found
        · rename_i applied
          cases found
          exact .inr ⟨applied, pc, requestID, text, now, answers, rfl, rfl, rfl⟩
        · exact .inl found
      · rw [changeDocument_of_ne same] at found
        exact .inl found
  | @delete pc id ids valid acks mem =>
      change (changeDocument ..)[path]? = _ at found
      by_cases same : path = answerPath pc id
      · subst same
        rw [changeDocument_same] at found
        split at found
        · cases found
        · exact .inl found
      · rw [changeDocument_of_ne same] at found
        exact .inl found
  | @register pc requestID now valid asks =>
      change (changeDocument ..)[path]? = _ at found
      by_cases same : path = askPath pc requestID
      · subst same
        rw [changeDocument_same] at found
        split at found
        · cases found
        · exact .inl found
      · rw [changeDocument_of_ne same] at found
        exact .inl found
  | answer now valid notEmpty answers => exact .inl (updated _ _ found)
  | deliver now expireAt valid takes => exact .inl (updated _ _ found)

theorem answerPath_ne_pcsPath (pc requestID pc' : Bytes) :
    answerPath pc requestID ≠ docPath pcsCol pc' :=
  docPath_ne (by decide) (by decide) (by decide)

theorem answerPath_ne_revokedPath (pc requestID pc' : Bytes) :
    answerPath pc requestID ≠ revokedPath pc' :=
  docPath_ne (by decide) (by decide) (by decide)

theorem askPath_ne_pcsPath (pc requestID pc' : Bytes) :
    askPath pc requestID ≠ docPath pcsCol pc' :=
  docPath_ne (by decide) (by decide) (by decide)

theorem askPath_ne_revokedPath (pc requestID pc' : Bytes) :
    askPath pc requestID ≠ revokedPath pc' :=
  docPath_ne (by decide) (by decide) (by decide)

/-! ## Listings -/

theorem answerOf_eq_some_iff {now : Nat} {a : StoredAnswer} {item : Answer} :
    answerOf now a = some item ↔
      now < a.expireAt ∧ a.requestID ≠ [] ∧ item = ⟨a.requestID, a.text, a.createdAt⟩ := by
  rw [answerOf]
  split
  · rename_i expired
    simp [Nat.not_lt.mpr expired]
  · rename_i notExpired
    split
    · rename_i noID
      simp [noID]
    · rename_i isID
      simp [Nat.lt_of_not_le notExpired, isID, eq_comm]

theorem mem_answersOf_iff {pc : Bytes} {docs : List (Bytes × Doc)} {a : StoredAnswer} :
    a ∈ answersOf pc docs ↔ a.pc = pc ∧ ∃ id, (id, .answer a) ∈ docs := by
  rw [answersOf, List.mem_filterMap]
  constructor
  · rintro ⟨⟨id, d⟩, inDocs, isAnswer⟩
    cases d with
    | answer a' =>
        simp only at isAnswer
        split at isAnswer
        · rename_i isPC
          cases isAnswer
          exact ⟨isPC, id, inDocs⟩
        · cases isAnswer
    | ask | chat | pc | revoked => cases isAnswer
  · rintro ⟨rfl, id, inDocs⟩
    exact ⟨(id, .answer a), inDocs, if_pos rfl⟩

/-- What a pull returns is an answer of its PC that it has listed. -/
theorem mem_selected {pc : Bytes} {docs : List (Bytes × Doc)} {now : Nat} {item : Answer}
    (mem : item ∈ h.selected pc docs now) :
    ∃ id a, (id, .answer a) ∈ docs ∧ a.pc = pc ∧ now < a.expireAt ∧
      item = ⟨a.requestID, a.text, a.createdAt⟩ := by
  have inSorted := List.mem_of_mem_take mem
  rw [SliceSort.mem_sort_iff] at inSorted
  obtain ⟨a, isFetched, isItem⟩ := List.mem_filterMap.mp inSorted
  obtain ⟨isPC, id, inDocs⟩ := mem_answersOf_iff.mp (List.mem_of_mem_take isFetched)
  obtain ⟨notExpired, -, rfl⟩ := answerOf_eq_some_iff.mp isItem
  exact ⟨id, a, inDocs, isPC, notExpired, rfl⟩

/-- The listing is of filed documents. -/
def FiledListing (docs : List (Bytes × Doc)) : Prop :=
  ∃ store : Documents Doc, (∀ path d, store[path]? = some d → Filed path d) ∧
    docs = listDocuments store answersCol

/-- An answer of a listing is the only one under its PC and request id. -/
theorem FiledListing.eq_of_mem {docs : List (Bytes × Doc)} (listing : FiledListing docs)
    {a a' : StoredAnswer} {id id' : Bytes} (mem : (id, .answer a) ∈ docs)
    (mem' : (id', .answer a') ∈ docs) (samePC : a.pc = a'.pc)
    (sameID : a.requestID = a'.requestID) : a = a' := by
  obtain ⟨store, filed, rfl⟩ := listing
  obtain ⟨found, -⟩ := mem_listDocuments.mp mem
  obtain ⟨found', -⟩ := mem_listDocuments.mp mem'
  have path := (filed _ _ found).2
  have path' := (filed _ _ found').2
  rw [samePC, sameID] at path
  rw [path] at found
  rw [path', found] at found'
  cases found'
  rfl

theorem listed_event_eq_some_iff {o : ClientOp} {m : Machine Doc Unit Sent} {choice : Choice}
    {docs : List (Bytes × Doc)} :
    listed (m.event choice o) = some docs ↔
      o = .list answersCol ∧ choice.read = true ∧ docs = listDocuments m.docs answersCol := by
  cases o with
  | list col =>
      simp only [Machine.event, Machine.result, listed, Op.list.injEq]
      split
      · rename_i isAnswers
        subst isAnswers
        cases choice.read <;> simp [eq_comm]
      · rename_i notAnswers
        simp [notAnswers]
  | get | write | transact | lookup | remember | forget | now | emit =>
      simp [Machine.event, listed]

/-- A call that has a listing after an operation has made it now, or had it before. -/
theorem listing_of_perform {s : System} {r q : Nat} {c c' : Call Request Doc Unit Sent Response}
    {o : ClientOp} {next : o.Result → Client Response} {choice : Choice}
    {docs : List (Bytes × Doc)} (running : s.calls r = some c)
    (running' : (s.perform r c choice o next).calls q = some c')
    (isListing : listing c'.past = some docs) :
    (q = r ∧ o = .list answersCol ∧ choice.read = true ∧
        docs = listDocuments s.machine.docs answersCol) ∨
      ((q ≠ r ∨ o ≠ .list answersCol ∨ choice.read ≠ true) ∧
        ∃ c, s.calls q = some c ∧ listing c.past = some docs) := by
  rw [State.perform, State.calls_setCall] at running'
  by_cases same : q = r
  · subst same
    rw [Function.update_self] at running'
    cases running'
    rw [listing, List.findSome?_cons] at isListing
    split at isListing
    · rename_i isListed
      cases isListing
      exact .inl ⟨rfl, listed_event_eq_some_iff.mp isListed⟩
    · rename_i notListed
      refine .inr ⟨.inr ?_, c, running, isListing⟩
      by_contra! isList
      rw [listed_event_eq_some_iff.mpr ⟨isList.1, isList.2, rfl⟩] at notListed
      cases notListed
  · rw [Function.update_of_ne same] at running'
    exact .inr ⟨.inl same, c', running', isListing⟩

/-! ## Reads -/

theorem readAt_event_eq_some_iff {o : ClientOp} {m : Machine Doc Unit Sent} {choice : Choice}
    {path : Path} {snap : Snapshot Doc} :
    readAt path (m.event choice o) = some snap ↔
      o = .get path ∧ choice.read = true ∧ snap = readDocument m.docs true path := by
  cases o with
  | get path' =>
      simp only [Machine.event, Machine.result, Op.get.injEq]
      cases isRead : choice.read with
      | false => simp [readDocument, readAt]
      | true =>
          by_cases same : path' = path
          · subst same
            cases found : m.docs[path']? <;> simp [readDocument, found, readAt, eq_comm]
          · cases found : m.docs[path']? <;> simp [readDocument, found, readAt, same]
  | list | write | transact | lookup | remember | forget | now | emit =>
      simp [Machine.event, readAt]

/-- A call that has a read after an operation has made it now, or had it before. -/
theorem lastRead_of_perform {s : System} {r q : Nat} {c c' : Call Request Doc Unit Sent Response}
    {o : ClientOp} {next : o.Result → Client Response} {choice : Choice} {path : Path}
    {snap : Snapshot Doc} (running : s.calls r = some c)
    (running' : (s.perform r c choice o next).calls q = some c')
    (isRead : lastRead path c'.past = some snap) :
    (q = r ∧ o = .get path ∧ choice.read = true ∧ snap = readDocument s.machine.docs true path) ∨
      ((q ≠ r ∨ o ≠ .get path ∨ choice.read ≠ true) ∧
        ∃ c, s.calls q = some c ∧ lastRead path c.past = some snap) := by
  rw [State.perform, State.calls_setCall] at running'
  by_cases same : q = r
  · subst same
    rw [Function.update_self] at running'
    cases running'
    rw [lastRead, List.findSome?_cons] at isRead
    split at isRead
    · rename_i isNow
      cases isRead
      exact .inl ⟨rfl, readAt_event_eq_some_iff.mp isNow⟩
    · rename_i notNow
      refine .inr ⟨.inr ?_, c, running, isRead⟩
      by_contra! isGet
      rw [readAt_event_eq_some_iff.mpr ⟨isGet.1, isGet.2, rfl⟩] at notNow
      cases notNow
  · rw [Function.update_of_ne same] at running'
    exact .inr ⟨.inl same, c', running', isRead⟩

/-! ## Returned answers -/

/-- The PC and the answers that a pull has returned. -/
def returnedBy (s : System) (q : Nat) : Option (Bytes × List Answer) := do
  let c ← s.calls q
  let pc ← c.input.pulls
  let value ← s.answer q
  let items ← value.items
  return (pc, items)

/-- A call has returned an answer of a PC. -/
def Returned (s : System) (q : Nat) (pc : Bytes) (item : Answer) : Prop :=
  ∃ items, returnedBy s q = some (pc, items) ∧ item ∈ items

theorem returnedBy_eq_some_iff {s : System} {q : Nat} {pc : Bytes} {items : List Answer} :
    returnedBy s q = some (pc, items) ↔
      ∃ c value, s.calls q = some c ∧ c.input.pulls = some pc ∧ c.program = .reply value ∧
        value.items = some items := by
  simp only [returnedBy, Option.bind_eq_bind, Option.bind_eq_some_iff, Option.pure_def,
    Option.some.injEq, Prod.mk.injEq]
  constructor
  · rintro ⟨c, running, pc, pulls, value, answered, items, isItems, rfl, rfl⟩
    obtain ⟨c', running', isReply⟩ := State.answer_eq_some_iff.mp answered
    cases running.symm.trans running'
    exact ⟨c, value, running, pulls, isReply, isItems⟩
  · rintro ⟨c, value, running, pulls, isReply, isItems⟩
    exact ⟨c, running, pc, pulls, value, State.answer_eq_some_iff.mpr ⟨c, running, isReply⟩, items,
      isItems, rfl, rfl⟩

end Drover.Glasses
