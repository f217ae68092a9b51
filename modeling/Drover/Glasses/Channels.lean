import Drover.Glasses.History

/-!
# The channels of an answer

A question of `POST /glasses/ask` is registered until its document expires.  An answer
that finds it registered is stored there, and only a reply returns it; any other one is
stored for the pulls.  Which of the two is decided when the answer is accepted: a
registration that has expired sends the answer to the pulls.
-/

namespace Drover.Glasses

open Drover.Store Drover.Transition

/-! ## What is returned -/

/-- A reply has returned a text for a PC and a request id. -/
def Replied (h : Handler) (s : System) (q : Nat) (pc requestID shown : Bytes) : Prop :=
  ∃ c value, s.calls q = some c ∧ h.takes c.input = some (pc, requestID) ∧
    c.program = .reply value ∧ value.reply = some shown

/-- The pull has reached one of its limits: it has fetched no more, or returns as many
older answers as it may. -/
def Limited (pc : Bytes) (docs : List (Bytes × Doc)) (items : List Answer) (a : StoredAnswer) :
    Prop :=
  fetchLimit < (answersOf pc docs).length ∨
    items.length = maxItems ∧ ∀ item ∈ items, item.createdAt ≤ a.createdAt

/-- Each accepted answer goes one way, stays there as long as it may, and is found there
and nowhere else. -/
structure Channels (h : Handler) (p : System × History) : Prop where
  /-- What a pull returns, a call has put. -/
  pulled : ∀ q pc item, Returned p.1 q pc item →
    ∃ r a, p.2.listed q (answerPath pc item.requestID) = some r ∧ PutBy p.1 r a ∧ a.pc = pc ∧
      item = a.shown
  /-- What a reply returns, a call has answered to the ask. -/
  replied : ∀ q pc requestID shown, Replied h p.1 q pc requestID shown →
    ∃ r text, p.2.read q (askPath pc requestID) = some r ∧ AskedBy p.1 r pc requestID text ∧
      shown = replyText requestID text
  /-- An accepted answer is put or answered to the ask, and never both. -/
  oneChannel : ∀ r pc requestID text expiresAt, Accepts p.1 r pc requestID text expiresAt →
    ((∃ a, PutBy p.1 r a) ↔ ¬AskedBy p.1 r pc requestID text)
  /-- It is answered to an ask that was registered and had not expired. -/
  toReply : ∀ r c pc requestID text expiresAt, p.1.calls r = some c →
    c.program = .reply (.stored (.ok expiresAt)) → c.input = .putAnswer pc requestID text →
    AskedBy p.1 r pc requestID text →
    ∃ e, p.2.asked r (askPath pc requestID) = some e ∧ ∃ event ∈ c.past, event.time < e
  /-- It is put if none was registered or the registration has expired. -/
  toPull : ∀ r c pc requestID text expiresAt, p.1.calls r = some c →
    c.program = .reply (.stored (.ok expiresAt)) → c.input = .putAnswer pc requestID text →
    ¬AskedBy p.1 r pc requestID text →
    ∀ e, p.2.asked r (askPath pc requestID) = some e → e ≤ p.1.machine.clock
  /-- An accepted answer to what was never registered is put, and none is a reply. -/
  unregistered : ∀ pc requestID, p.2.registered (askPath pc requestID) = none →
    (∀ r text expiresAt, Accepts p.1 r pc requestID text expiresAt → ∃ a, PutBy p.1 r a) ∧
      ∀ q shown, ¬Replied h p.1 q pc requestID shown
  /-- An answer that was put is there until another one is accepted, it is acknowledged or
  it expires. -/
  keptToPull : ∀ r pc requestID text expiresAt a,
    Accepts p.1 r pc requestID text expiresAt → PutBy p.1 r a →
    p.1.machine.docs[answerPath pc requestID]? = some (.answer a) ∧
        p.2.holder (answerPath pc requestID) = some r ∨
      (∃ q c, p.2.left r = some (.changed q) ∧ p.1.calls q = some c ∧
        ((∃ text, c.input.answers = some (pc, requestID, text)) ∨
          ∃ ids, c.input.acks = some (pc, ids) ∧ requestID ∈ ids)) ∨
      ∃ d, p.2.left r = some (.expired d) ∧ timestamp expiresAt ≤ p.1.machine.clock
  /-- An answer to an ask is there until another one is accepted, the question is asked
  again or the ask expires. -/
  keptToReply : ∀ r pc requestID text expiresAt,
    Accepts p.1 r pc requestID text expiresAt → AskedBy p.1 r pc requestID text →
    (∃ k, p.1.machine.docs[askPath pc requestID]? = some (.ask k) ∧ k.answer = text ∧
        p.2.holder (askPath pc requestID) = some r) ∨
      (∃ q c, p.2.left r = some (.changed q) ∧ p.1.calls q = some c ∧
        ((∃ text, c.input.answers = some (pc, requestID, text)) ∨
          h.asks c.input = some (pc, requestID))) ∨
      ∃ k, p.2.left r = some (.expired (.ask k)) ∧ k.expireAt ≤ p.1.machine.clock
  /-- A pull returns the answers that are there, up to its limits, unless they expire. -/
  shownToPull : ∀ q c pc items r a docs requestID text expiresAt,
    returnedBy p.1 q = some (pc, items) → p.1.calls q = some c → listing c.past = some docs →
    p.2.listed q (answerPath pc requestID) = some r →
    Accepts p.1 r pc requestID text expiresAt → PutBy p.1 r a →
    a.shown ∈ items ∨ a.expireAt ≤ p.1.machine.clock ∨ Limited pc docs items a
  /-- A reply returns the answer that is there, unless it expires or the store fails. -/
  shownToReply : ∀ q c pc requestID value k r, p.1.calls q = some c →
    h.takes c.input = some (pc, requestID) → c.program = .reply value →
    lastRead (askPath pc requestID) c.past = some (.found (.ask k)) →
    p.2.read q (askPath pc requestID) = some r →
    AskedBy p.1 r pc requestID k.answer ∧
      (value.reply = some (replyText requestID k.answer) ∨ k.expireAt ≤ p.1.machine.clock ∨
        ∃ body, value = .http 500 body)

/-! ## Accepted answers -/

section

variable {h : Handler} {p : System × History} {r : Nat} {pc requestID text : Bytes}
  {expiresAt : Nat}

theorem Quiet.not_wrote {past : List ClientEvent} (quiet : Quiet past) {e : ClientEvent}
    (mem : e ∈ past) {path : Path} {a : StoredAnswer} : ¬Wrote path a e := by
  obtain ⟨time, o, result⟩ := e
  have looks := quiet _ mem
  cases o with
  | write => cases looks
  | get | list | transact | lookup | remember | forget | now | emit => exact id

theorem Quiet.not_updated {past : List ClientEvent} (quiet : Quiet past) {e : ClientEvent}
    (mem : e ∈ past) {path : Path} : ¬Updated path e := by
  obtain ⟨time, o, result⟩ := e
  have looks := quiet _ mem
  cases o with
  | transact => cases looks
  | get | list | write | lookup | remember | forget | now | emit => exact id

/-- What was looked at, and whether it had expired. -/
theorem Looked.reads {found : Bool} {past : List ClientEvent}
    (looked : Looked pc requestID found past) :
    ∃ snap, lastRead (askPath pc requestID) past = some snap ∧
      (found = true → ∃ k, snap = .found (.ask k) ∧ ∃ e ∈ past, e.time < k.expireAt) ∧
      (found = false →
        isFound snap = false ∨ ∃ k, snap = .found (.ask k) ∧ ExpiredBy k.expireAt past) := by
  cases looked with
  | @absent time snap past isRead isAbsent =>
      refine ⟨snap, ?_, nofun, fun _ => .inl isAbsent⟩
      rw [lastRead, List.findSome?_cons]
      cases snap with
      | failed => exact absurd rfl isRead
      | absent | found d => simp [readAt]
  | @read time now k past =>
      refine ⟨.found (.ask k), ?_, fun notExpired => ⟨k, rfl, _, List.mem_cons_self, ?_⟩,
        fun expired => .inr ⟨k, rfl, _, List.mem_cons_self, ?_⟩⟩
      · rw [lastRead, List.findSome?_cons, List.findSome?_cons]
        simp [readAt]
      · exact of_decide_eq_true notExpired
      · exact Nat.le_of_not_lt (of_decide_eq_false expired)

/-- The two ways of an accepted answer. -/
inductive Way (s : System) (r : Nat) (req : Request) (pc requestID text : Bytes) (expiresAt : Nat)
    (past : List ClientEvent) : Prop
  | put (a : StoredAnswer) (put : PutBy s r a) (isPC : a.pc = pc) (isID : a.requestID = requestID)
      (expiry : a.expireAt = timestamp expiresAt) (only : ∀ a', PutBy s r a' → a' = a)
      (notAsked : ∀ pc requestID text, ¬AskedBy s r pc requestID text)
      (reads : req = .putAnswer pc requestID text →
        ∃ snap, lastRead (askPath pc requestID) past = some snap ∧
          (isFound snap = false ∨ ∃ k, snap = .found (.ask k) ∧ ExpiredBy k.expireAt past))
  | ask (asked : AskedBy s r pc requestID text) (notPut : ∀ a, ¬PutBy s r a)
      (reads : ∃ k, lastRead (askPath pc requestID) past = some (.found (.ask k)) ∧
        ∃ e ∈ past, e.time < k.expireAt)

theorem way_of_accepts {s : System} {c : Call Request Doc Unit Sent Response} (sound : Sound h s)
    (running : s.calls r = some c) (answers : c.input.answers = some (pc, requestID, text))
    (isReply : c.program = .reply (.stored (.ok expiresAt))) :
    Way s r c.input pc requestID text expiresAt c.past := by
  have accepted := sound.accepted running answers isReply
  obtain ⟨req, past, program⟩ := c
  simp only at answers accepted ⊢
  cases accepted with
  | @put time now past quiet looked =>
      have quiet' : Quiet (⟨now, .now, now⟩ :: past) := quiet.cons rfl
      refine .put (storedAnswer pc requestID text now) ?_ rfl rfl rfl ?_ ?_ ?_
      · exact ⟨_, running, answers, _, List.mem_cons_self, rfl, rfl⟩
      · rintro a' ⟨c', running', -, e, mem, wrote⟩
        cases running.symm.trans running'
        rcases List.mem_cons.mp mem with rfl | mem
        · cases wrote.2
          rfl
        · exact absurd wrote (quiet'.not_wrote mem)
      · rintro pc' requestID' text' ⟨c', running', -, e, mem, updated⟩
        cases running.symm.trans running'
        rcases List.mem_cons.mp mem with rfl | mem
        · exact updated
        · exact quiet'.not_updated mem updated
      · intro isPut
        obtain ⟨snap, isRead, -, reads⟩ := (looked isPut).reads
        refine ⟨snap, isRead, (reads rfl).imp_right ?_⟩
        rintro ⟨k, isAsk, e, mem, expired⟩
        exact ⟨k, isAsk, e, List.mem_cons_of_mem _ (List.mem_cons_of_mem _ mem), expired⟩
  | @ask time now k past quiet looked =>
      have quiet' : Quiet (⟨now, .now, now⟩ :: past) := quiet.cons rfl
      refine .ask ?_ ?_ ?_
      · exact ⟨_, running, answers, _, List.mem_cons_self, rfl⟩
      · rintro a ⟨c', running', -, e, mem, wrote⟩
        cases running.symm.trans running'
        rcases List.mem_cons.mp mem with rfl | mem
        · exact wrote
        · exact quiet'.not_wrote mem wrote
      · obtain ⟨snap, isRead, reads, -⟩ := looked.reads
        obtain ⟨k, rfl, e, mem, notExpired⟩ := reads rfl
        exact ⟨k, isRead, e, List.mem_cons_of_mem _ (List.mem_cons_of_mem _ mem), notExpired⟩

theorem AskedBy.text_eq {s : System} {c : Call Request Doc Unit Sent Response}
    {pc' requestID' text' : Bytes} (asked : AskedBy s r pc' requestID' text')
    (running : s.calls r = some c) (answers : c.input.answers = some (pc, requestID, text)) :
    pc' = pc ∧ requestID' = requestID ∧ text' = text := by
  obtain ⟨c', running', answers', -⟩ := asked
  cases running.symm.trans running'
  cases answers.symm.trans answers'
  exact ⟨rfl, rfl, rfl⟩

end

/-! ## Every run -/

section

variable {h : Handler} {p : System × History}

theorem Traced.pulled (traced : Traced h p) {q : Nat} {pc : Bytes} {item : Answer}
    (returned : Returned p.1 q pc item) :
    ∃ r a, p.2.listed q (answerPath pc item.requestID) = some r ∧ PutBy p.1 r a ∧ a.pc = pc ∧
      item = a.shown := by
  obtain ⟨items, isReturned, mem⟩ := returned
  obtain ⟨c, value, running, pulls, isReply, isItems⟩ := returnedBy_eq_some_iff.mp isReturned
  have ends := traced.sound.follows q c running
  rw [isReply] at ends
  obtain ⟨docs, now, isListing, -, rfl⟩ := ends.pulled _ _ pulls isItems
  obtain ⟨id, a, inDocs, rfl, -, rfl⟩ := mem_selected mem
  obtain ⟨r, isHolder, isPath, put⟩ := (traced.listings q c docs running isListing).held id a inDocs
  exact ⟨r, a, isPath ▸ isHolder, put, rfl, rfl⟩

theorem Traced.replied (traced : Traced h p) {q : Nat} {pc requestID shown : Bytes}
    (replied : Replied h p.1 q pc requestID shown) :
    ∃ r text, p.2.read q (askPath pc requestID) = some r ∧ AskedBy p.1 r pc requestID text ∧
      shown = replyText requestID text := by
  obtain ⟨c, value, running, takes, isReply, isShown⟩ := replied
  have ends := traced.sound.follows q c running
  rw [isReply] at ends
  obtain ⟨k, isRead, notEmpty, rfl⟩ := ends.replied _ _ _ takes isShown
  obtain ⟨r, isHolder, pc', requestID', valid, isPath, asked⟩ :=
    (traced.reads q c _ _ running isRead).held k rfl notEmpty
  obtain ⟨rfl, rfl⟩ := (askPath_inj valid).mp isPath
  exact ⟨r, k.answer, isHolder, asked, rfl⟩

theorem Traced.oneChannel (traced : Traced h p) {r : Nat} {pc requestID text : Bytes}
    {expiresAt : Nat} (accepts : Accepts p.1 r pc requestID text expiresAt) :
    (∃ a, PutBy p.1 r a) ↔ ¬AskedBy p.1 r pc requestID text := by
  obtain ⟨c, running, answers, isReply⟩ := accepts
  cases way_of_accepts traced.sound running answers isReply with
  | put a put isPC isID expiry only notAsked reads =>
      exact ⟨fun _ => notAsked _ _ _, fun _ => ⟨a, put⟩⟩
  | ask asked notPut reads =>
      exact ⟨fun ⟨a, put⟩ => absurd put (notPut a), fun notAsked => absurd asked notAsked⟩

theorem Traced.toReply (traced : Traced h p) {r : Nat}
    {c : Call Request Doc Unit Sent Response} {pc requestID text : Bytes} {expiresAt : Nat}
    (running : p.1.calls r = some c) (isReply : c.program = .reply (.stored (.ok expiresAt)))
    (isAnswer : c.input = .putAnswer pc requestID text)
    (asked : AskedBy p.1 r pc requestID text) :
    ∃ e, p.2.asked r (askPath pc requestID) = some e ∧ ∃ event ∈ c.past, event.time < e := by
  have answers : c.input.answers = some (pc, requestID, text) := by
    rw [isAnswer, Request.answers]
  cases way_of_accepts traced.sound running answers isReply with
  | put a put isPC isID expiry only notAsked reads => exact absurd asked (notAsked _ _ _)
  | ask asked notPut reads =>
      obtain ⟨k, isRead, notExpired⟩ := reads
      exact ⟨k.expireAt, (traced.reads r c _ _ running isRead).asked k rfl, notExpired⟩

theorem Traced.toPull (traced : Traced h p) {r : Nat}
    {c : Call Request Doc Unit Sent Response} {pc requestID text : Bytes} {expiresAt : Nat}
    (running : p.1.calls r = some c) (isReply : c.program = .reply (.stored (.ok expiresAt)))
    (isAnswer : c.input = .putAnswer pc requestID text)
    (notAsked : ¬AskedBy p.1 r pc requestID text) {e : Nat}
    (isAsked : p.2.asked r (askPath pc requestID) = some e) : e ≤ p.1.machine.clock := by
  have answers : c.input.answers = some (pc, requestID, text) := by
    rw [isAnswer, Request.answers]
  cases way_of_accepts traced.sound running answers isReply with
  | put a put isPC isID expiry only notAsked reads =>
      obtain ⟨snap, isRead, isAbsent | ⟨k, rfl, event, mem, expired⟩⟩ := reads isAnswer
      · exact (traced.reads r c _ _ running isRead).lapsed isAbsent e isAsked
      · cases isAsked.symm.trans ((traced.reads r c _ _ running isRead).asked k rfl)
        exact Nat.le_trans expired (traced.dated r c running event mem)
  | ask asked notPut reads => exact absurd asked notAsked

theorem Traced.unregistered (traced : Traced h p) {pc requestID : Bytes}
    (never : p.2.registered (askPath pc requestID) = none) :
    (∀ r text expiresAt, Accepts p.1 r pc requestID text expiresAt → ∃ a, PutBy p.1 r a) ∧
      ∀ q shown, ¬Replied h p.1 q pc requestID shown := by
  -- What a call has read as an ask was registered.
  have notRead : ∀ r c k, p.1.calls r = some c →
      lastRead (askPath pc requestID) c.past ≠ some (.found (.ask k)) := by
    intro r c k running isRead
    exact traced.asked r _ _ ((traced.reads r c _ _ running isRead).asked k rfl) never
  constructor
  · rintro r text expiresAt ⟨c, running, answers, isReply⟩
    cases way_of_accepts traced.sound running answers isReply with
    | put a put isPC isID expiry only notAsked reads => exact ⟨a, put⟩
    | ask asked notPut reads =>
        obtain ⟨k, isRead, -⟩ := reads
        exact absurd isRead (notRead r c k running)
  · rintro q shown ⟨c, value, running, takes, isReply, isShown⟩
    have ends := traced.sound.follows q c running
    rw [isReply] at ends
    obtain ⟨k, isRead, -⟩ := ends.replied _ _ _ takes isShown
    exact notRead q c k running isRead

/-- What writes an answer has put it or acknowledges it. -/
theorem Does.of_target_answer {req : Request} {o : ClientOp} (does : Does h req o)
    {pc requestID : Bytes} (isTarget : o.target = some (answerPath pc requestID)) :
    (∃ text, req.answers = some (pc, requestID, text)) ∨
      ∃ ids, req.acks = some (pc, ids) ∧ requestID ∈ ids := by
  cases does with
  | look looks =>
      cases o with
      | write | transact => cases looks
      | get | list | lookup | remember | forget | now | emit => cases isTarget
  | put now valid answers =>
      obtain ⟨rfl, rfl⟩ := (answerPath_inj valid).mp (Option.some.inj isTarget).symm
      exact .inl ⟨_, answers⟩
  | delete valid acks mem =>
      obtain ⟨rfl, rfl⟩ := (answerPath_inj valid).mp (Option.some.inj isTarget).symm
      exact .inr ⟨_, acks, mem⟩
  | register | answer | deliver =>
      exact absurd (Option.some.inj isTarget).symm (answerPath_ne_askPath _ _ _ _)

/-- What writes an ask registers it, answers it or hands it over. -/
theorem Does.of_target_ask {req : Request} {o : ClientOp} (does : Does h req o)
    {pc requestID : Bytes} (isTarget : o.target = some (askPath pc requestID)) :
    (∃ text, req.answers = some (pc, requestID, text)) ∨
      h.asks req = some (pc, requestID) ∨ h.takes req = some (pc, requestID) := by
  cases does with
  | look looks =>
      cases o with
      | write | transact => cases looks
      | get | list | lookup | remember | forget | now | emit => cases isTarget
  | put | delete => exact absurd (Option.some.inj isTarget) (answerPath_ne_askPath _ _ _ _)
  | register now valid asks =>
      obtain ⟨rfl, rfl⟩ := (askPath_inj valid).mp (Option.some.inj isTarget).symm
      exact .inr (.inl asks)
  | answer now valid notEmpty answers =>
      obtain ⟨rfl, rfl⟩ := (askPath_inj valid).mp (Option.some.inj isTarget).symm
      exact .inl ⟨_, answers⟩
  | deliver now expireAt valid takes =>
      obtain ⟨rfl, rfl⟩ := (askPath_inj valid).mp (Option.some.inj isTarget).symm
      exact .inr (.inr takes)

theorem Traced.keptToPull (traced : Traced h p) {r : Nat} {pc requestID text : Bytes}
    {expiresAt : Nat} {a : StoredAnswer} (accepts : Accepts p.1 r pc requestID text expiresAt)
    (put : PutBy p.1 r a) :
    p.1.machine.docs[answerPath pc requestID]? = some (.answer a) ∧
        p.2.holder (answerPath pc requestID) = some r ∨
      (∃ q c, p.2.left r = some (.changed q) ∧ p.1.calls q = some c ∧
        ((∃ text, c.input.answers = some (pc, requestID, text)) ∨
          ∃ ids, c.input.acks = some (pc, ids) ∧ requestID ∈ ids)) ∨
      ∃ d, p.2.left r = some (.expired d) ∧ timestamp expiresAt ≤ p.1.machine.clock := by
  have keeps := traced.kept r pc requestID text expiresAt accepts
  obtain ⟨c, running, answers, isReply⟩ := accepts
  -- The document of the call is the one answer that it has put.
  have stored_eq : ∀ path d, StoredBy p.1 r path d →
      d = .answer a ∧ path = answerPath pc requestID ∧ a.expireAt = timestamp expiresAt := by
    intro path d stored
    cases way_of_accepts traced.sound running answers isReply with
    | ask asked notPut reads => exact absurd put (notPut a)
    | put a₀ put₀ isPC isID expiry only notAsked reads =>
        cases only a put
        cases d with
        | answer a' =>
            obtain ⟨isPath, put'⟩ := stored
            cases only a' put'
            exact ⟨rfl, isPC ▸ isID ▸ isPath, expiry⟩
        | ask k =>
            obtain ⟨pc', requestID', -, -, asked⟩ := stored
            exact absurd asked (notAsked _ _ _)
        | chat | pc | revoked => exact absurd stored id
  rcases keeps with ⟨path, isHolder⟩ | isLeft
  · obtain ⟨d, found, -, stored⟩ := traced.places.stored isHolder
    obtain ⟨rfl, rfl, -⟩ := stored_eq path d stored
    exact .inl ⟨found, isHolder⟩
  · obtain ⟨e, isEnd⟩ := Option.ne_none_iff_exists'.mp isLeft
    have left := traced.places.left r e isEnd
    cases e with
    | expired d =>
        obtain ⟨path, stored, expired⟩ := left
        obtain ⟨rfl, -, expiry⟩ := stored_eq path d stored
        exact .inr (.inr ⟨_, isEnd, expiry ▸ expired a.expireAt rfl⟩)
    | changed q =>
        obtain ⟨c', o, path, d, running', does, -, isTarget, stored⟩ := left
        obtain ⟨-, isPath, -⟩ := stored_eq path d stored
        rw [isPath] at isTarget
        exact .inr (.inl ⟨q, c', isEnd, running', does.of_target_answer isTarget⟩)

theorem Traced.keptToReply (traced : Traced h p) {r : Nat} {pc requestID text : Bytes}
    {expiresAt : Nat} (accepts : Accepts p.1 r pc requestID text expiresAt)
    (asked : AskedBy p.1 r pc requestID text) :
    (∃ k, p.1.machine.docs[askPath pc requestID]? = some (.ask k) ∧ k.answer = text ∧
        p.2.holder (askPath pc requestID) = some r) ∨
      (∃ q c, p.2.left r = some (.changed q) ∧ p.1.calls q = some c ∧
        ((∃ text, c.input.answers = some (pc, requestID, text)) ∨
          h.asks c.input = some (pc, requestID))) ∨
      ∃ k, p.2.left r = some (.expired (.ask k)) ∧ k.expireAt ≤ p.1.machine.clock := by
  have keeps := traced.kept r pc requestID text expiresAt accepts
  obtain ⟨c, running, answers, isReply⟩ := accepts
  have notPut : ∀ a, ¬PutBy p.1 r a := by
    cases way_of_accepts traced.sound running answers isReply with
    | put a put isPC isID expiry only notAsked reads => exact absurd asked (notAsked _ _ _)
    | ask asked notPut reads => exact notPut
  -- The document of the call is the ask, with its answer.
  have stored_eq : ∀ path d, StoredBy p.1 r path d →
      ∃ k, d = .ask k ∧ k.answer = text ∧ path = askPath pc requestID := by
    intro path d stored
    cases d with
    | answer a => exact absurd stored.2 (notPut a)
    | ask k =>
        obtain ⟨pc', requestID', -, isPath, asked'⟩ := stored
        obtain ⟨rfl, rfl, isText⟩ := asked'.text_eq running answers
        exact ⟨k, rfl, isText, isPath⟩
    | chat | pc | revoked => exact absurd stored id
  rcases keeps with ⟨path, isHolder⟩ | isLeft
  · obtain ⟨d, found, -, stored⟩ := traced.places.stored isHolder
    obtain ⟨k, rfl, isText, rfl⟩ := stored_eq path d stored
    exact .inl ⟨k, found, isText, isHolder⟩
  · obtain ⟨e, isEnd⟩ := Option.ne_none_iff_exists'.mp isLeft
    have left := traced.places.left r e isEnd
    cases e with
    | expired d =>
        obtain ⟨path, stored, expired⟩ := left
        obtain ⟨k, rfl, -, -⟩ := stored_eq path d stored
        exact .inr (.inr ⟨k, isEnd, expired k.expireAt rfl⟩)
    | changed q =>
        obtain ⟨c', o, path, d, running', does, notTakes, isTarget, stored⟩ := left
        obtain ⟨k, -, -, isPath⟩ := stored_eq path d stored
        rw [isPath] at isTarget
        refine .inr (.inl ⟨q, c', isEnd, running', ?_⟩)
        rcases does.of_target_ask isTarget with answers' | asks | takes
        · exact .inl answers'
        · exact .inr asks
        · cases notTakes.symm.trans takes

/-- An answer that is listed is returned, or has expired, or the pull has reached a limit. -/
theorem mem_selected_or (h : Handler) {pc : Bytes} {docs : List (Bytes × Doc)} (now : Nat)
    {a : StoredAnswer} (mem : a ∈ answersOf pc docs) (isID : a.requestID ≠ []) :
    a.shown ∈ h.selected pc docs now ∨ a.expireAt ≤ now ∨
      Limited pc docs (h.selected pc docs now) a := by
  by_cases expired : a.expireAt ≤ now
  · exact .inr (.inl expired)
  by_cases many : fetchLimit < (answersOf pc docs).length
  · exact .inr (.inr (.inl many))
  have isFetched : fetched pc docs = answersOf pc docs :=
    List.take_of_length_le (Nat.le_of_not_lt many)
  have inSorted : a.shown ∈
      h.sortAnswers.sort ((fetched pc docs).filterMap (answerOf now)) := by
    rw [SliceSort.mem_sort_iff, List.mem_filterMap, isFetched]
    exact ⟨a, mem, answerOf_eq_some_iff.mpr ⟨Nat.lt_of_not_le expired, isID, rfl⟩⟩
  have sorted := h.sortAnswers.sorted ((fetched pc docs).filterMap (answerOf now))
  rw [Handler.selected]
  generalize h.sortAnswers.sort _ = all at inSorted sorted
  by_cases inFirst : a.shown ∈ all.take maxItems
  · exact .inl inFirst
  · have inRest : a.shown ∈ all.drop maxItems := by
      rw [← List.take_append_drop maxItems all, List.mem_append] at inSorted
      exact inSorted.resolve_left inFirst
    refine .inr (.inr (.inr ⟨?_, fun item isItem => ?_⟩))
    · have notAll : ¬all.length ≤ maxItems := by
        intro short
        rw [List.drop_eq_nil_of_le short] at inRest
        cases inRest
      rw [List.length_take]
      exact Nat.min_eq_left (Nat.le_of_not_le notAll)
    · rw [← List.take_append_drop maxItems all, List.pairwise_append] at sorted
      have notBefore := sorted.2.2 item isItem a.shown inRest
      exact Nat.le_of_not_lt (of_decide_eq_false notBefore)

theorem Traced.shownToPull (traced : Traced h p) {q r : Nat}
    {c : Call Request Doc Unit Sent Response} {pc requestID text : Bytes} {items : List Answer}
    {a : StoredAnswer} {docs : List (Bytes × Doc)} {expiresAt : Nat}
    (isReturned : returnedBy p.1 q = some (pc, items)) (running : p.1.calls q = some c)
    (isListing : listing c.past = some docs)
    (isHolder : p.2.listed q (answerPath pc requestID) = some r)
    (accepts : Accepts p.1 r pc requestID text expiresAt) (put : PutBy p.1 r a) :
    a.shown ∈ items ∨ a.expireAt ≤ p.1.machine.clock ∨ Limited pc docs items a := by
  obtain ⟨c', value, running', pulls, isReply, isItems⟩ := returnedBy_eq_some_iff.mp isReturned
  cases running.symm.trans running'
  have ends := traced.sound.follows q c running
  rw [isReply] at ends
  obtain ⟨docs', now, isListing', isNow, rfl⟩ := ends.pulled _ _ pulls isItems
  cases isListing.symm.trans isListing'
  have fits := traced.listings q c docs running isListing
  -- The answer is in the listing.
  obtain ⟨a', inDocs⟩ := fits.holds _ r isHolder
  obtain ⟨r', isHolder', -, put'⟩ := fits.held _ a' inDocs
  cases isHolder.symm.trans isHolder'
  obtain ⟨c', running', answers, isAccepted⟩ := accepts
  cases way_of_accepts traced.sound running' answers isAccepted with
  | ask asked notPut reads => exact absurd put (notPut a)
  | put a₀ put₀ isPC isID expiry only notAsked reads =>
      cases only a put
      cases only a' put'
      obtain ⟨store, filed, rfl⟩ := fits.filed
      have valid := (filed _ _ (mem_listDocuments.mp inDocs).1).1
      have notEmpty : a.requestID ≠ [] := by
        intro isEmpty
        have validID := valid.requestID
        rw [isEmpty] at validID
        cases validID
      have inAnswers := mem_answersOf_iff.mpr ⟨isPC, _, inDocs⟩
      rcases mem_selected_or h now inAnswers notEmpty with shown | expired | limited
      · exact .inl shown
      · exact .inr (.inl (Nat.le_trans expired (traced.dated q c running _ isNow)))
      · exact .inr (.inr limited)

theorem Traced.shownToReply (traced : Traced h p) {q r : Nat}
    {c : Call Request Doc Unit Sent Response} {pc requestID : Bytes} {value : Response}
    {k : StoredAsk} (running : p.1.calls q = some c)
    (takes : h.takes c.input = some (pc, requestID))
    (isReply : c.program = .reply value)
    (isRead : lastRead (askPath pc requestID) c.past = some (.found (.ask k)))
    (isHolder : p.2.read q (askPath pc requestID) = some r) :
    AskedBy p.1 r pc requestID k.answer ∧
      (value.reply = some (replyText requestID k.answer) ∨ k.expireAt ≤ p.1.machine.clock ∨
        ∃ body, value = .http 500 body) := by
  have fits := traced.reads q c _ _ running isRead
  have notEmpty := fits.holds k r rfl isHolder
  obtain ⟨r', isHolder', pc', requestID', valid, isPath, asked⟩ := fits.held k rfl notEmpty
  cases isHolder.symm.trans isHolder'
  obtain ⟨rfl, rfl⟩ := (askPath_inj valid).mp isPath
  have ends := traced.sound.follows q c running
  rw [isReply] at ends
  refine ⟨asked, ?_⟩
  rcases ends.shows _ _ k takes isRead notEmpty with shown | ⟨e, mem, expired⟩ | failed
  · exact .inl shown
  · exact .inr (.inl (Nat.le_trans expired (traced.dated q c running e mem)))
  · exact .inr (.inr failed)

theorem Traced.channels (traced : Traced h p) : Channels h p := by
  constructor
  case pulled => exact fun q pc item => traced.pulled
  case replied => exact fun q pc requestID shown => traced.replied
  case oneChannel => exact fun r pc requestID text expiresAt => traced.oneChannel
  case toReply => exact fun r c pc requestID text expiresAt => traced.toReply
  case toPull =>
    exact fun r c pc requestID text expiresAt running isReply isAnswer notAsked e =>
      traced.toPull running isReply isAnswer notAsked
  case unregistered => exact fun pc requestID => traced.unregistered
  case keptToPull => exact fun r pc requestID text expiresAt a => traced.keptToPull
  case keptToReply => exact fun r pc requestID text expiresAt => traced.keptToReply
  case shownToPull =>
    exact fun q c pc items r a docs requestID text expiresAt => traced.shownToPull
  case shownToReply => exact fun q c pc requestID value k r => traced.shownToReply

theorem traced_start (h : Handler) : Traced h ({}, {}) where
  sound := sound_start h
  dated r c running := by cases running
  places := by
    constructor
    case held =>
      intro path d found
      rw [Std.ExtTreeMap.getElem?_empty] at found
      cases found
    case holds => exact fun path r isHolder => nomatch isHolder
    case left => exact fun r e isLeft => nomatch isLeft
  registry := by
    constructor
    case known =>
      intro path k found
      rw [Std.ExtTreeMap.getElem?_empty] at found
      cases found
    case lapsed => exact fun path e isRegistered => nomatch isRegistered
  kept r pc requestID text expiresAt accepts := by
    obtain ⟨c, running, -⟩ := accepts
    cases running
  listings q c docs running := by cases running
  reads q c path snap running := by cases running
  asked q path e isAsked := by cases isAsked

/-- In every run each accepted answer goes one way and is found there. -/
theorem channels_of_outside (h : Handler) (labels : List Label)
    (outside : Along h.step Outside {} labels) :
    Always (withGhost h.step trace) (Channels h) ({}, {}) labels := by
  have environment : Along (withGhost h.step trace) (fun p => Outside p.1) ({}, {}) labels :=
    along_withGhost.mpr outside
  have traced : Always (withGhost h.step trace) (Traced h) ({}, {}) labels := by
    refine always_of_preserved ?_ (traced_start h) environment
    exact fun p label next traced met taken => traced.step met taken
  exact traced.imp fun p => Traced.channels

end

/-! ## A question and its answer -/

/-- A PC is registered and asked. -/
def askLabels : List Label :=
  .external (docPath pcsCol (ascii "mac")) (some .pc) ::
    .begin 0 (.handleAsk (some ⟨ascii "mac", ascii "r-1", ascii "q"⟩) [] ⟨200, true⟩) ::
      List.replicate 6 (.advance 0 .ok)

/-- It answers, and the answer is pulled and its reply is asked for. -/
def answerLabels : List Label :=
  .begin 1 (.putAnswer (ascii "mac") (ascii "r-1") (ascii "a")) ::
    List.replicate 6 (.advance 1 .ok) ++
      .begin 2 (.pull (ascii "mac") 0 0) :: List.replicate 3 (.advance 2 .ok)

/-- The answer comes when the ask has expired. -/
def lapsedLabels : List Label := askLabels ++ .tick (11 * minute) :: answerLabels

/-- The label is no write of another program but the registration. -/
def registersMac : Label → Bool
  | .external path d => path = docPath pcsCol (ascii "mac") && d = some .pc
  | .tick _ | .begin .. | .advance .. => true

theorem outside_of_registersMac {label : Label} (registers : registersMac label = true)
    (s : System) : Outside s label := by
  cases label with
  | external path d =>
      simp only [registersMac, Bool.and_eq_true, decide_eq_true_eq] at registers
      obtain ⟨rfl, rfl⟩ := registers
      exact .inl ⟨rfl, _, rfl⟩
  | tick | begin | advance => exact trivial

theorem outside_lapsed : Along sampleHandler.step Outside {} lapsedLabels := by
  have all : lapsedLabels.all registersMac = true := by decide
  exact along_of_forall
    (fun label mem => outside_of_registersMac (List.all_eq_true.mp all label mem)) _

theorem lapsed_channels :
    Always (withGhost sampleHandler.step trace) (Channels sampleHandler) ({}, {}) lapsedLabels :=
  channels_of_outside sampleHandler lapsedLabels outside_lapsed

/-- The answer as the pull returns it. -/
def lapsedAnswer : Answer := ⟨ascii "r-1", ascii "a", 11 * minute⟩

/-- The question was asked before its answer was accepted, and a pull returns the answer. -/
theorem lapsed_pulled :
    Along sampleHandler.step Outside {} lapsedLabels ∧
      ∃ p expiresAt, exec (withGhost sampleHandler.step trace) ({}, {}) lapsedLabels = some p ∧
        p.1.answer 0 = some (.http 202 (.queued (ascii "r-1") 200)) ∧
        p.2.asked 1 (askPath (ascii "mac") (ascii "r-1")) ≠ none ∧
        Accepts p.1 1 (ascii "mac") (ascii "r-1") (ascii "a") expiresAt ∧
        Returned p.1 2 (ascii "mac") lapsedAnswer := by
  refine ⟨outside_lapsed, ?_⟩
  have ends : ((exec (withGhost sampleHandler.step trace) ({}, {}) lapsedLabels).map fun p =>
      p.1.answer 0 = some (.http 202 (.queued (ascii "r-1") 200)) &&
      p.2.asked 1 (askPath (ascii "mac") (ascii "r-1")) ≠ none &&
      ((p.1.calls 1).map (·.input.answers) =
        some (some (ascii "mac", ascii "r-1", ascii "a")) : Bool) &&
      p.1.answer 1 = some (.stored (.ok (11 * minute + defaultTTL))) &&
      returnedBy p.1 2 = some (ascii "mac", [lapsedAnswer])) = some true := by
    decide +kernel
  obtain ⟨p, run, all⟩ := Option.map_eq_some_iff.mp ends
  simp only [Bool.and_eq_true, decide_eq_true_eq] at all
  obtain ⟨⟨⟨⟨queued, wasAsked⟩, isInput⟩, isStored⟩, isReturned⟩ := all
  refine ⟨p, 11 * minute + defaultTTL, run, queued, wasAsked, ?_, _, isReturned,
    List.mem_singleton_self _⟩
  obtain ⟨c, running, answers⟩ := Option.map_eq_some_iff.mp isInput
  obtain ⟨c', running', isReply⟩ := State.answer_eq_some_iff.mp isStored
  cases running.symm.trans running'
  exact ⟨c, running, answers, isReply⟩

end Drover.Glasses
