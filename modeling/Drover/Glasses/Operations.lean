import Drover.Glasses.Handlers
import Drover.Store.History

/-!
# What the calls do to the store

`Does` lists the operations that a call may perform, and `Ends` says what its value
tells of what it has done: a pull returns what it selects of its latest listing, an
accepted answer has been stored once, and a delivered reply is the answer that was
read.
-/

namespace Drover.Glasses

open Drover.Store

/-- An operation of the client. -/
abbrev ClientOp := Op Doc Unit Sent

/-- An operation of the client with its result. -/
abbrev ClientEvent := Event Doc Unit Sent

/-! ## Requests -/

/-- What is answered: the PC, the request id and the text. -/
def Request.answers : Request → Option (Bytes × Bytes × Bytes)
  | .put pc requestID text | .putAnswer pc requestID text => some (pc, requestID, text)
  | _ => none

/-- The PC whose answers are pulled. -/
def Request.pulls : Request → Option Bytes
  | .pull pc _ _ | .handleAnswers pc _ _ => some pc
  | _ => none

/-- The PC and the ids that are acknowledged. -/
def Request.acks : Request → Option (Bytes × List Bytes)
  | .ack pc ids => some (pc, ids)
  | .handleAck body => body
  | _ => none

/-- What is asked: the PC and the request id. -/
def Handler.asks (h : Handler) : Request → Option (Bytes × Bytes)
  | .handleAsk (some req) newRequestID _ =>
      some (h.pcOf req.pc, if req.requestID = [] then newRequestID else req.requestID)
  | _ => none

/-- Whose reply is taken: the PC and the request id. -/
def Handler.takes (h : Handler) : Request → Option (Bytes × Bytes)
  | .handleReply pc requestID => some (h.pcOf pc, requestID)
  | _ => none

/-- The answers of a response to a pull. -/
def Response.items : Response → Option (List Answer)
  | .pulled (.ok items) | .http _ (.items items) => some items
  | _ => none

/-- The text of a response to `GET /glasses/reply`. -/
def Response.reply : Response → Option Bytes
  | .http _ (.reply text _ _) => text
  | _ => none

/-- The parts of a document id that can be told apart. -/
structure ValidKey (pc requestID : Bytes) : Prop where
  pc : validPC pc = true
  requestID : validRequestID requestID = true

/-! ## Operations -/

/-- The operation stores nothing. -/
def Looks (o : ClientOp) : Prop := o.stores = false

/-- The operations of a call. -/
inductive Does (h : Handler) (req : Request) : ClientOp → Prop
  | look {o : ClientOp} (looks : Looks o) : Does h req o
  | put {pc requestID text : Bytes} (now : Nat) (valid : ValidKey pc requestID)
      (answers : req.answers = some (pc, requestID, text)) :
      Does h req (.write (answerPath pc requestID) fun _ =>
        some (.answer (storedAnswer pc requestID text now)))
  | delete {pc id : Bytes} {ids : List Bytes} (valid : ValidKey pc id)
      (acks : req.acks = some (pc, ids)) (mem : id ∈ ids) :
      Does h req (.write (answerPath pc id) fun _ => none)
  | register {pc requestID : Bytes} (now : Nat) (valid : ValidKey pc requestID)
      (asks : h.asks req = some (pc, requestID)) :
      Does h req (.write (askPath pc requestID) fun _ =>
        some (.ask (storedAsk pc requestID now)))
  | answer {pc requestID text : Bytes} (now : Nat) (valid : ValidKey pc requestID)
      (notEmpty : text ≠ []) (answers : req.answers = some (pc, requestID, text)) :
      Does h req (.transact (askPath pc requestID) (askPath pc requestID)
        (updateAsk (answered text now)))
  | deliver {pc requestID : Bytes} (now expireAt : Nat) (valid : ValidKey pc requestID)
      (takes : h.takes req = some (pc, requestID)) :
      Does h req (.transact (askPath pc requestID) (askPath pc requestID)
        (updateAsk (delivered now expireAt)))

/-! ## Values -/

/-- The listing of answers of an event. -/
def listed : ClientEvent → Option (List (Bytes × Doc))
  | ⟨_, .list col, docs⟩ => if col = answersCol then docs else none
  | _ => none

/-- The latest listing of answers. -/
def listing (past : List ClientEvent) : Option (List (Bytes × Doc)) := past.findSome? listed

/-- What an event has read at a path. -/
def readAt (path : Path) : ClientEvent → Option (Snapshot Doc)
  | ⟨_, .get _, .failed⟩ => none
  | ⟨_, .get path', snap⟩ => if path' = path then some snap else none
  | _ => none

/-- The latest read of a path. -/
def lastRead (path : Path) (past : List ClientEvent) : Option (Snapshot Doc) :=
  past.findSome? (readAt path)

/-- The events store nothing. -/
def Quiet (past : List ClientEvent) : Prop := ∀ e ∈ past, Looks e.op

/-- `askDoc` has read the ask, and has found it or not. -/
inductive Looked (pc requestID : Bytes) : Bool → List ClientEvent → Prop
  | absent {time : Nat} {snap : Snapshot Doc} {past : List ClientEvent}
      (isRead : snap ≠ .failed) (isAbsent : isFound snap = false) :
      Looked pc requestID false (⟨time, .get (askPath pc requestID), snap⟩ :: past)
  | read {time now : Nat} {k : StoredAsk} {past : List ClientEvent} :
      Looked pc requestID (decide (now < k.expireAt))
        (⟨now, .now, now⟩ :: ⟨time, .get (askPath pc requestID), .found (.ask k)⟩ :: past)

/-- How an answer was accepted, and the one document that it has changed. -/
inductive Accepted (req : Request) (pc requestID text : Bytes) : Nat → List ClientEvent → Prop
  | put {time now : Nat} {past : List ClientEvent} (quiet : Quiet past)
      (looked : req = .putAnswer pc requestID text → Looked pc requestID false past) :
      Accepted req pc requestID text (now + defaultTTL)
        (⟨time, .write (answerPath pc requestID) fun _ =>
          some (.answer (storedAnswer pc requestID text now)), true⟩ :: ⟨now, .now, now⟩ :: past)
  | ask {time now : Nat} {k : StoredAsk} {past : List ClientEvent} (quiet : Quiet past)
      (looked : Looked pc requestID true past) :
      Accepted req pc requestID text (now + defaultTTL)
        (⟨time, .transact (askPath pc requestID) (askPath pc requestID)
          (updateAsk (answered text now)), (.found (.ask k), true)⟩ :: ⟨now, .now, now⟩ :: past)

/-- The pulled answers are selected of the latest listing. -/
def Selected (h : Handler) (pc : Bytes) (past : List ClientEvent) (items : List Answer) : Prop :=
  ∃ docs now, listing past = some docs ∧ (⟨now, .now, now⟩ : ClientEvent) ∈ past ∧
    items = h.selected pc docs now

/-- The time has passed at an event. -/
def ExpiredBy (expireAt : Nat) (past : List ClientEvent) : Prop := ∃ e ∈ past, expireAt ≤ e.time

/-- The value of a call, after what it has done. -/
structure Ends (h : Handler) (req : Request) (past : List ClientEvent) (value : Response) :
    Prop where
  pulled : ∀ pc items, req.pulls = some pc → value.items = some items → Selected h pc past items
  accepted : ∀ pc requestID text expiresAt, req.answers = some (pc, requestID, text) →
    value = .stored (.ok expiresAt) → Accepted req pc requestID text expiresAt past
  replied : ∀ pc requestID text, h.takes req = some (pc, requestID) → value.reply = some text →
    ∃ k, lastRead (askPath pc requestID) past = some (.found (.ask k)) ∧ k.answer ≠ [] ∧
      text = replyText requestID k.answer
  shows : ∀ pc requestID k, h.takes req = some (pc, requestID) →
    lastRead (askPath pc requestID) past = some (.found (.ask k)) → k.answer ≠ [] →
    value.reply = some (replyText requestID k.answer) ∨ ExpiredBy k.expireAt past ∨
      ∃ body, value = .http 500 body

/-! ## Methods of the store -/

/-- A program of the operations of a request, that ends so. -/
abbrev Follows {ρ : Type} (h : Handler) (req : Request)
    (ends : List ClientEvent → ρ → Prop) (past : List ClientEvent) (p : Client ρ) : Prop :=
  p.Along (fun _ => Does h req) ends past

section

variable {ρ : Type} {h : Handler} {req : Request} {past : List ClientEvent}
  {pc requestID text : Bytes} {ends : List ClientEvent → ρ → Prop}

theorem Quiet.cons {e : ClientEvent} (looks : Looks e.op) (quiet : Quiet past) :
    Quiet (e :: past) :=
  List.forall_mem_cons.mpr ⟨looks, quiet⟩

/-- A program that only looks adds quiet events. -/
theorem follows_of_looks {p : Client ρ} (looks : p.Only Looks)
    (quiet : Quiet past)
    (end_ : ∀ past' value, Quiet past' → past <:+ past' → ends past' value) :
    Follows h req ends past p := by
  induction p generalizing past with
  | reply value => exact end_ past value quiet List.suffix_rfl
  | op o next ih =>
      refine ⟨.look looks.1, fun time result _ =>
        ih result (looks.2 result) (quiet.cons looks.1) ?_⟩
      intro past' value quiet' suffix
      exact end_ past' value quiet' ((List.suffix_cons _ past).trans suffix)

theorem registered_looks (pc : Bytes) : (registered pc).Only Looks := by
  have get : Looks (.get (revokedPath pc)) := rfl
  have list : Looks (.list pcsCol) := rfl
  have isRevoked_looks : (isRevoked pc).Only Looks := by
    rw [isRevoked]
    split
    · exact .pure _
    · apply Prog.Only.bind (.op get)
      intro snap
      split <;> exact .pure _
  rw [registered]
  apply Prog.Only.bind isRevoked_looks
  intro revoked
  split
  · exact .pure _
  · apply Prog.Only.bind (.op list)
    intro docs
    split <;> exact .pure _

theorem validKey_of_validatePut (valid : validatePut pc requestID text = none) :
    ValidKey pc requestID := by
  rw [validatePut] at valid
  split at valid
  · cases valid
  · rename_i validPC
    split at valid
    · cases valid
    · rename_i validID
      exact ⟨Bool.eq_true_of_not_eq_false validPC, Bool.eq_true_of_not_eq_false validID⟩

theorem ne_nil_of_validatePut (valid : validatePut pc requestID text = none) : text ≠ [] := by
  rintro rfl
  rw [validatePut] at valid
  split at valid
  · cases valid
  · split at valid
    · cases valid
    · cases valid

theorem put_follows (answers : req.answers = some (pc, requestID, text)) (quiet : Quiet past)
    (looked : req = .putAnswer pc requestID text → Looked pc requestID false past) :
    Follows h req (fun past result => ∀ expiresAt, result = .ok expiresAt →
      Accepted req pc requestID text expiresAt past) past (put pc requestID text) := by
  rw [put]
  split
  · rintro expiresAt ⟨⟩
  · rename_i valid
    apply Prog.Along.now (.look rfl)
    intro now
    refine ⟨.put now (validKey_of_validatePut valid) answers, fun time ok _ => ?_⟩
    intro expiresAt isOk
    cases ok with
    | true =>
        cases isOk
        exact .put quiet looked
    | false => cases isOk

/-- What `askDoc` finds, and what it has read. -/
structure AskFound (pc requestID : Bytes) (result : Except Err (Option StoredAsk))
    (past : List ClientEvent) : Prop where
  quiet : Quiet past
  looked : ∀ found, result = .ok found → Looked pc requestID found.isSome past
  found : ∀ k, result = .ok (some k) →
    lastRead (askPath pc requestID) past = some (.found (.ask k))
  error : ∀ e, result = .error e → e = .store
  finds : ∀ k found, result = .ok found →
    lastRead (askPath pc requestID) past = some (.found (.ask k)) →
    found = some k ∨ ExpiredBy k.expireAt past

theorem askDoc_follows (quiet : Quiet past) :
    Follows h req (fun past' result => AskFound pc requestID result past') past
      (askDoc pc requestID) := by
  rw [askDoc]
  apply Prog.Along.get (.look rfl)
  intro time snap
  have quiet' : Quiet (⟨time, .get (askPath pc requestID), snap⟩ :: past) := quiet.cons rfl
  split
  · refine ⟨quiet', nofun, nofun, fun e isError => ?_, nofun⟩
    cases isError
    rfl
  · rename_i k
    apply Prog.Along.now (.look rfl)
    intro now
    have isRead : lastRead (askPath pc requestID)
        (⟨now, .now, now⟩ :: ⟨time, .get (askPath pc requestID), .found (.ask k)⟩ :: past) =
          some (.found (.ask k)) := by
      rw [lastRead, List.findSome?_cons, List.findSome?_cons]
      simp [readAt]
    have looked : Looked pc requestID (decide (now < k.expireAt)) _ :=
      @Looked.read pc requestID time now k past
    split
    · rename_i expired
      rw [decide_eq_false (Nat.not_lt.mpr expired)] at looked
      refine ⟨quiet'.cons rfl, fun found isOk => ?_, nofun, nofun, fun k' found isOk isRead' => ?_⟩
      · cases isOk
        exact looked
      · cases isRead.symm.trans isRead'
        exact .inr ⟨_, List.mem_cons_self, expired⟩
    · rename_i notExpired
      rw [decide_eq_true (Nat.lt_of_not_le notExpired)] at looked
      refine ⟨quiet'.cons rfl, fun found isOk => ?_, fun k' isOk => ?_, nofun,
        fun k' found isOk isRead' => ?_⟩
      · cases isOk
        exact looked
      · cases isOk
        exact isRead
      · cases isOk
        cases isRead.symm.trans isRead'
        exact .inl rfl
  · rename_i notFailed notAsk
    have isRead : lastRead (askPath pc requestID)
        (⟨time, .get (askPath pc requestID), snap⟩ :: past) = some snap := by
      rw [lastRead, List.findSome?_cons]
      cases snap with
      | failed => exact absurd rfl notFailed
      | absent | found d => simp [readAt]
    refine ⟨quiet', fun found isOk => ?_, nofun, nofun, fun k' found isOk isRead' => ?_⟩
    · cases isOk
      refine .absent (fun failed => notFailed failed) ?_
      cases snap with
      | failed | absent => rfl
      | found d =>
          cases d with
          | ask k => exact absurd rfl (notAsk k)
          | answer | chat | pc | revoked => rfl
    · cases isRead.symm.trans isRead'
      exact absurd rfl (notAsk k')

theorem answerAsk_follows (answers : req.answers = some (pc, requestID, text))
    (notEmpty : text ≠ []) (quiet : Quiet past) :
    Follows h req (fun past' result => ∀ routed, result = .ok routed →
      (∀ expiresAt, routed = some expiresAt → Accepted req pc requestID text expiresAt past') ∧
        (routed = none → ValidKey pc requestID →
          Quiet past' ∧ Looked pc requestID false past')) past
      (answerAsk pc requestID text) := by
  rw [answerAsk]
  split
  · rename_i isInvalid
    intro routed isOk
    cases isOk
    refine ⟨nofun, fun _ valid => ?_⟩
    rw [valid.pc, valid.requestID] at isInvalid
    simp at isInvalid
  · rename_i notInvalid
    rw [not_or] at notInvalid
    have valid : ValidKey pc requestID :=
      ⟨Bool.eq_true_of_not_eq_false notInvalid.1, Bool.eq_true_of_not_eq_false notInvalid.2⟩
    apply (askDoc_follows quiet).andThen
    intro past' result found
    split
    · rintro routed ⟨⟩
    · intro routed isOk
      cases isOk
      exact ⟨nofun, fun _ _ => ⟨found.quiet, found.looked none rfl⟩⟩
    · rename_i k
      apply Prog.Along.now (.look rfl)
      intro now
      refine ⟨.answer now valid notEmpty answers, fun time result _ => ?_⟩
      obtain ⟨snap, ok⟩ := result
      intro routed isOk
      cases snap with
      | failed | absent => cases isOk
      | found d =>
          cases d with
          | answer | chat | pc | revoked => cases isOk
          | ask k =>
              cases ok with
              | false => cases isOk
              | true =>
                  cases isOk
                  refine ⟨fun expiresAt isSome => ?_, nofun⟩
                  cases isSome
                  exact .ask found.quiet (found.looked _ rfl)

theorem putAnswer_follows (isRequest : req = .putAnswer pc requestID text)
    (quiet : Quiet past) :
    Follows h req (fun past' result => ∀ expiresAt, result = .ok expiresAt →
      Accepted req pc requestID text expiresAt past') past (putAnswer pc requestID text) := by
  have answers : req.answers = some (pc, requestID, text) := by rw [isRequest, Request.answers]
  rw [putAnswer]
  split
  · rintro expiresAt ⟨⟩
  · rename_i valid
    have key := validKey_of_validatePut valid
    apply Prog.Along.bind
    apply follows_of_looks (registered_looks pc) quiet
    intro past' isRegistered quiet' _
    split
    · rintro expiresAt ⟨⟩
    · rintro expiresAt ⟨⟩
    · apply (answerAsk_follows answers (ne_nil_of_validatePut valid) quiet').andThen
      intro past result routed
      split
      · rintro expiresAt ⟨⟩
      · intro expiresAt isOk
        cases isOk
        exact (routed _ rfl).1 _ rfl
      · obtain ⟨quiet, looked⟩ := (routed none rfl).2 rfl key
        exact put_follows answers quiet fun _ => looked

theorem query_follows (past : List ClientEvent) :
    Follows h req (fun past' result => ∀ items, result = some items → Selected h pc past' items)
      past (h.query pc) := by
  rw [Handler.query]
  refine ⟨.look rfl, fun time docs _ => ?_⟩
  cases docs with
  | none => exact fun items isSome => nomatch isSome
  | some docs =>
      apply Prog.Along.now (.look rfl)
      intro now items isSome
      cases isSome
      refine ⟨docs, now, ?_, List.mem_cons_self, rfl⟩
      rw [listing, List.findSome?_cons, List.findSome?_cons]
      simp [listed]

theorem Selected.cons_now {items : List Answer} (selected : Selected h pc past items) (now : Nat) :
    Selected h pc (⟨now, .now, now⟩ :: past) items := by
  obtain ⟨docs, time, isListing, mem, isSelected⟩ := selected
  exact ⟨docs, time, isListing, List.mem_cons_of_mem _ mem, isSelected⟩

theorem pullLoop_follows (deadline rounds : Nat) (past : List ClientEvent) :
    Follows h req (fun past' result => ∀ items, result = .ok items → Selected h pc past' items)
      past (pullLoop (h.query pc) deadline rounds) := by
  induction rounds generalizing past with
  | zero => exact fun items isOk => nomatch isOk
  | succ rounds ih =>
      rw [pullLoop]
      apply (query_follows past).andThen
      intro past' result selected
      split
      · exact fun items isOk => nomatch isOk
      · apply Prog.Along.now (.look rfl)
        intro now
        split
        · exact ih _
        · intro items isOk
          cases isOk
          exact (selected [] rfl).cons_now now
      · intro items isOk
        cases isOk
        exact selected _ rfl

theorem pull_follows (wait : Int) (rounds : Nat) (past : List ClientEvent) :
    Follows h req (fun past' result => ∀ items, result = .ok items → Selected h pc past' items)
      past (h.pull pc wait rounds) := by
  rw [Handler.pull]
  split
  · exact fun items isOk => nomatch isOk
  · apply Prog.Along.now (.look rfl)
    intro now
    exact pullLoop_follows _ _ _

/-- The deletions of an acknowledgement. -/
theorem ackEach_only {ids rest : List Bytes} (validPC : validPC pc = true)
    (acks : req.acks = some (pc, ids)) (sub : rest ⊆ ids) :
    (ackEach pc rest).Only (Does h req) := by
  induction rest with
  | nil => exact .pure _
  | cons id rest ih =>
      rw [List.cons_subset] at sub
      rw [ackEach]
      split
      · exact ih sub.2
      · rename_i validID
        have valid : ValidKey pc id := ⟨validPC, Bool.eq_true_of_not_eq_false validID⟩
        apply Prog.Only.bind (.op (.delete valid acks sub.1))
        intro ok
        split
        · exact ih sub.2
        · exact .pure _

theorem ack_only {ids : List Bytes} (acks : req.acks = some (pc, ids)) :
    (ack pc ids).Only (Does h req) := by
  rw [ack]
  split
  · exact .pure _
  · rename_i valid
    exact ackEach_only (Bool.eq_true_of_not_eq_false valid) acks (List.Subset.refl _)

theorem registerAsk_only (asks : h.asks req = some (pc, requestID)) :
    (registerAsk pc requestID).Only (Does h req) := by
  rw [registerAsk]
  split
  · exact .pure _
  · rename_i valid
    rw [not_or] at valid
    have key : ValidKey pc requestID :=
      ⟨Bool.eq_true_of_not_eq_false valid.1, Bool.eq_true_of_not_eq_false valid.2⟩
    apply Prog.Only.bind (.op (.look rfl))
    intro now
    apply Prog.Only.bind (.op (.register now key asks))
    exact fun ok => .pure _

/-- What `TakeAskReply` returns of what it has read. -/
structure ReplyTaken (pc requestID : Bytes) (result : Except Err (Option Bytes))
    (past : List ClientEvent) : Prop where
  taken : ∀ text, result = .ok (some text) →
    ∃ k, lastRead (askPath pc requestID) past = some (.found (.ask k)) ∧ k.answer ≠ [] ∧
      text = k.answer
  takes : ∀ k, lastRead (askPath pc requestID) past = some (.found (.ask k)) → k.answer ≠ [] →
    result = .ok (some k.answer) ∨ ExpiredBy k.expireAt past ∨ result = .error .store

theorem takeAskReply_follows (takes : h.takes req = some (pc, requestID))
    (valid : ValidKey pc requestID) :
    Follows h req (fun past' result => ReplyTaken pc requestID result past') []
      (takeAskReply pc requestID) := by
  rw [takeAskReply]
  have quiet : Quiet ([] : List ClientEvent) := List.forall_mem_nil _
  apply (askDoc_follows quiet).andThen
  intro past' result found
  split
  · rename_i e
    refine ⟨nofun, fun k isRead notEmpty => .inr (.inr ?_)⟩
    rw [found.error e rfl]
  · refine ⟨nofun, fun k isRead notEmpty => ?_⟩
    rcases found.finds k none rfl isRead with isSome | expired
    · cases isSome
    · exact .inr (.inl expired)
  · rename_i k
    have isRead := found.found k rfl
    split
    · rename_i isEmpty
      refine ⟨nofun, fun k' isRead' notEmpty => ?_⟩
      cases isRead.symm.trans isRead'
      exact absurd isEmpty notEmpty
    · rename_i notEmpty
      split
      · refine ⟨?_, fun k' isRead' _ => ?_⟩
        · rintro text ⟨⟩
          exact ⟨k, isRead, notEmpty, rfl⟩
        · cases isRead.symm.trans isRead'
          exact .inl rfl
      · apply Prog.Along.now (.look rfl)
        intro now
        refine ⟨.deliver now k.expireAt valid takes, fun time result _ => ?_⟩
        obtain ⟨snap, ok⟩ := result
        have later : ∀ k', lastRead (askPath pc requestID) (⟨time, .transact
            (askPath pc requestID) (askPath pc requestID) (updateAsk (delivered now k.expireAt)),
              (snap, ok)⟩ :: ⟨now, .now, now⟩ :: past') = some (.found (.ask k')) ↔ k' = k := by
          intro k'
          rw [lastRead, List.findSome?_cons, List.findSome?_cons]
          simp only [readAt]
          rw [← lastRead, isRead, Option.some.injEq, Snapshot.found.injEq, Doc.ask.injEq, eq_comm]
        refine ⟨fun text isOk => ?_, fun k' isRead' _ => ?_⟩
        · split at isOk
          · cases isOk
            exact ⟨k, (later k).mpr rfl, notEmpty, rfl⟩
          · cases isOk
        · rw [(later k').mp isRead']
          split
          · exact .inl rfl
          · exact .inr (.inr rfl)

/-! ## Calls -/

/-- A call that pulls, answers and takes nothing may end with any value. -/
theorem Ends.of_none {value : Response} (pulls : req.pulls = none) (answers : req.answers = none)
    (takes : h.takes req = none) : Ends h req past value where
  pulled pc items isPull := by rw [pulls] at isPull; cases isPull
  accepted pc requestID text expiresAt isAnswer := by rw [answers] at isAnswer; cases isAnswer
  replied pc requestID text isTake := by rw [takes] at isTake; cases isTake
  shows pc requestID k isTake := by rw [takes] at isTake; cases isTake

theorem Ends.of_accepted {result : Except Err Nat}
    (answers : req.answers = some (pc, requestID, text)) (pulls : req.pulls = none)
    (takes : h.takes req = none)
    (accepted : ∀ expiresAt, result = .ok expiresAt →
      Accepted req pc requestID text expiresAt past) :
    Ends h req past (.stored result) where
  pulled pc items isPull := by rw [pulls] at isPull; cases isPull
  accepted pc' requestID' text' expiresAt isAnswer isOk := by
    rw [answers] at isAnswer
    cases isAnswer
    cases isOk
    exact accepted expiresAt rfl
  replied pc requestID text isTake := by rw [takes] at isTake; cases isTake
  shows pc requestID k isTake := by rw [takes] at isTake; cases isTake

theorem Ends.of_pulled {value : Response} (pulls : req.pulls = some pc)
    (answers : req.answers = none) (takes : h.takes req = none)
    (selected : ∀ items, value.items = some items → Selected h pc past items) :
    Ends h req past value where
  pulled pc' items isPull isItems := by
    rw [pulls] at isPull
    cases isPull
    exact selected items isItems
  accepted pc requestID text expiresAt isAnswer := by rw [answers] at isAnswer; cases isAnswer
  replied pc requestID text isTake := by rw [takes] at isTake; cases isTake
  shows pc requestID k isTake := by rw [takes] at isTake; cases isTake

/-- A program of the operations of a call that pulls, answers and takes nothing. -/
theorem follows_of_only {p : Client Response} (only : p.Only (Does h req))
    (pulls : req.pulls = none) (answers : req.answers = none) (takes : h.takes req = none) :
    Follows h req (Ends h req) past p :=
  only.along (fun _ _ does => does) fun _ _ _ => .of_none pulls answers takes

/-- Looking is of the operations of every call. -/
theorem registered_only (pc : Bytes) : (registered pc).Only (Does h req) :=
  (registered_looks pc).imp fun _ => .look

theorem handleAnswers_follows (wait : Option Int) (rounds : Nat)
    (isRequest : req = .handleAnswers pc wait rounds) :
    Follows h req (Ends h req) [] (h.handleAnswers pc wait rounds) := by
  have fails : ∀ past status text, Ends h req past (writeErr status text) := by
    intro past status text
    rw [isRequest]
    exact .of_pulled rfl rfl rfl fun items isItems => nomatch isItems
  have quiet : Quiet ([] : List ClientEvent) := List.forall_mem_nil _
  unfold Handler.handleAnswers
  split
  · exact fails _ _ _
  · split
    · exact fails _ _ _
    · apply Prog.Along.bind
      apply follows_of_looks (registered_looks pc) quiet
      intro past isRegistered _ _
      split
      · exact fails _ _ _
      · exact fails _ _ _
      · apply (pull_follows _ _ _).andThen
        intro past result selected
        subst isRequest
        split
        · refine .of_pulled rfl rfl rfl fun items isItems => ?_
          cases isItems
          exact selected _ rfl
        · exact .of_pulled rfl rfl rfl fun items isItems => nomatch isItems
        · exact .of_pulled rfl rfl rfl fun items isItems => nomatch isItems
        · exact fails _ _ _

theorem handleAck_only {body : Option (Bytes × List Bytes)} (acks : req.acks = body) :
    (handleAck body).Only (Does h req) := by
  unfold handleAck
  split
  · exact .pure _
  · rename_i pc ids
    split
    · exact .pure _
    · split
      · exact .pure _
      · split
        · exact .pure _
        · apply Prog.Only.bind (registered_only pc)
          intro isRegistered
          split
          · exact .pure _
          · exact .pure _
          · apply Prog.Only.bind (ack_only acks)
            intro result
            split <;> exact .pure _

theorem handleAsk_only (body : Option AskRequest) (newRequestID : Bytes) (upstream : Upstream)
    (isRequest : req = .handleAsk body newRequestID upstream) :
    (h.handleAsk body newRequestID upstream).Only (Does h req) := by
  unfold Handler.handleAsk
  split
  · exact .pure _
  · rename_i ask
    have asks : h.asks req = some (h.pcOf ask.pc,
        if ask.requestID = [] then newRequestID else ask.requestID) := by
      rw [isRequest, Handler.asks]
    simp only
    generalize (if ask.requestID = [] then newRequestID else ask.requestID) = rid at asks ⊢
    split
    · exact .pure _
    · split
      · exact .pure _
      · split
        · exact .pure _
        · apply Prog.Only.bind (registered_only _)
          intro isRegistered
          split
          · exact .pure _
          · exact .pure _
          · apply Prog.Only.bind (registerAsk_only asks)
            intro result
            split
            · exact .pure _
            · apply Prog.Only.bind (.op (.look rfl))
              intro now
              apply Prog.Only.bind (.op (.look rfl))
              intro _
              split <;> exact .pure _

theorem handleReply_follows (isRequest : req = .handleReply pc requestID) :
    Follows h req (Ends h req) [] (h.handleReply pc requestID) := by
  have takes : h.takes req = some (h.pcOf pc, requestID) := by rw [isRequest, Handler.takes]
  have ends : ∀ past (value : Response), value.items = none →
      (∀ text, value.reply = some text → ∃ k,
        lastRead (askPath (h.pcOf pc) requestID) past = some (.found (.ask k)) ∧
          k.answer ≠ [] ∧ text = replyText requestID k.answer) →
      (∀ k, lastRead (askPath (h.pcOf pc) requestID) past = some (.found (.ask k)) →
        k.answer ≠ [] → value.reply = some (replyText requestID k.answer) ∨
          ExpiredBy k.expireAt past ∨ ∃ body, value = .http 500 body) →
      Ends h req past value := by
    intro past value noItems replied shows
    subst isRequest
    constructor
    case pulled => exact fun pc items isPull => nomatch isPull
    case accepted => exact fun pc requestID text expiresAt isAnswer => nomatch isAnswer
    case replied =>
      intro pc' requestID' text isTake
      cases isTake
      exact replied text
    case shows =>
      intro pc' requestID' k isTake
      cases isTake
      exact shows k
  have invalid : ∀ text, Ends h req [] (writeErr 400 text) :=
    fun text => ends _ _ rfl (fun text isReply => nomatch isReply) fun k isRead => nomatch isRead
  rw [Handler.handleReply]
  split
  · exact invalid _
  · rename_i validPC
    split
    · exact invalid _
    · rename_i validID
      have valid : ValidKey (h.pcOf pc) requestID :=
        ⟨Bool.eq_true_of_not_eq_false validPC, Bool.eq_true_of_not_eq_false validID⟩
      apply (takeAskReply_follows takes valid).andThen
      intro past result taken
      split
      · refine ends _ _ rfl (fun text isReply => nomatch isReply) fun k isRead notEmpty => ?_
        rcases taken.takes k isRead notEmpty with isOk | expired | isError
        · cases isOk
        · exact .inr (.inl expired)
        · cases isError
      · exact ends _ _ rfl (fun text isReply => nomatch isReply)
          fun k isRead notEmpty => .inr (.inr ⟨_, rfl⟩)
      · refine ends _ _ rfl (fun text isReply => nomatch isReply) fun k isRead notEmpty => ?_
        rcases taken.takes k isRead notEmpty with isOk | expired | isError
        · cases isOk
        · exact .inr (.inl expired)
        · cases isError
      · rename_i text
        apply Prog.Along.now (.look rfl)
        intro now
        obtain ⟨k, isRead, notEmpty, rfl⟩ := taken.taken text rfl
        have later : lastRead (askPath (h.pcOf pc) requestID) (⟨now, .now, now⟩ :: past) =
            some (.found (.ask k)) := isRead
        refine ends _ _ rfl (fun text isReply => ?_) fun k' isRead' _ => ?_
        · cases isReply
          exact ⟨k, later, notEmpty, rfl⟩
        · cases later.symm.trans isRead'
          exact .inl rfl

/-- Every call keeps to its operations, and ends so. -/
theorem handle_follows (h : Handler) (req : Request) :
    Follows h req (Ends h req) [] (h.handle req) := by
  have quiet : Quiet ([] : List ClientEvent) := List.forall_mem_nil _
  cases req with
  | put pc requestID text =>
      have answers : (Request.put pc requestID text).answers = some (pc, requestID, text) := rfl
      apply (put_follows answers quiet fun isOther => nomatch isOther).andThen
      exact fun past result accepted => .of_accepted rfl rfl rfl accepted
  | putAnswer pc requestID text =>
      apply (putAnswer_follows rfl quiet).andThen
      exact fun past result accepted => .of_accepted rfl rfl rfl accepted
  | pull pc wait rounds =>
      apply (pull_follows wait rounds []).andThen
      intro past result selected
      refine .of_pulled rfl rfl rfl fun items isItems => ?_
      cases result with
      | error e => cases isItems
      | ok items' =>
          cases isItems
          exact selected _ rfl
  | ack pc ids =>
      apply follows_of_only _ rfl rfl rfl
      exact Prog.Only.bind (ack_only rfl) fun result => .pure _
  | handleAnswers pc wait rounds => exact handleAnswers_follows wait rounds rfl
  | handleAck body => exact follows_of_only (handleAck_only rfl) rfl rfl rfl
  | handleAsk body newRequestID upstream =>
      exact follows_of_only (handleAsk_only body newRequestID upstream rfl) rfl rfl rfl
  | handleReply pc requestID => exact handleReply_follows rfl

end

end Drover.Glasses
