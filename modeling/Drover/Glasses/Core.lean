import Drover.Data.SliceSort
import Drover.Data.Strings
import Drover.Store.Calls

/-!
# Answers and asks of the glasses

The methods of `glasses.Firestore` for answers and asks, and the handlers over them,
as programs over the store.  An answer is put for a PC and a request id.  If the
question came through `POST /glasses/ask` it is stored in the document of the ask,
where `GET /glasses/reply` finds it, and otherwise in a collection that a bridge
pulls from and acknowledges.
-/

namespace Drover.Glasses

open Drover.Store

/-! ## Documents -/

/-- A document of `glasses_answers`; times are in nanoseconds. -/
structure StoredAnswer where
  pc : Bytes
  requestID : Bytes
  text : Bytes
  createdAt : Nat
  expireAt : Nat
  deriving DecidableEq

/-- A document of `glasses_asks`, without the times of its parts. -/
structure StoredAsk where
  pc : Bytes
  requestID : Bytes
  answer : Bytes
  createdAt : Nat
  expireAt : Nat
  answeredAt : Option Nat
  deliveredAt : Option Nat
  deriving DecidableEq

/-- A document of `glasses_chat`. -/
structure StoredChat where
  id : Bytes
  role : Bytes
  kind : Bytes
  text : Bytes
  ts : Int
  createdAt : Nat
  expireAt : Nat
  deriving DecidableEq

/-- A document of the store. -/
inductive Doc where
  | answer (a : StoredAnswer)
  | ask (k : StoredAsk)
  | chat (c : StoredChat)
  /-- `pcs/{pc}`. -/
  | pc
  /-- `revoked/{pc}`. -/
  | revoked
  deriving DecidableEq

/-- What a webhook is sent. -/
structure Sent where
  requestID : Bytes
  text : Bytes
  ts : Nat
  deriving DecidableEq

/-- A method of the client. -/
abbrev Client (ρ : Type) := Prog Doc Unit Sent ρ

variable {ε η : Type}

/-- `Collection`. -/
def answersCol : Path := ascii "glasses_answers"

/-- `AskCollection`. -/
def asksCol : Path := ascii "glasses_asks"

/-- The collection of the PCs. -/
def pcsCol : Path := ascii "pcs"

/-- `DocID`. -/
def docID (pc requestID : Bytes) : Bytes := pc ++ ascii "_" ++ requestID

/-- The document of an answer. -/
def answerPath (pc requestID : Bytes) : Path := docPath answersCol (docID pc requestID)

/-- The document of an ask. -/
def askPath (pc requestID : Bytes) : Path := docPath asksCol (docID pc requestID)

/-- `revoked/{pc}`. -/
def revokedPath (pc : Bytes) : Path := docPath (ascii "revoked") pc

/-! ## Constants and checks -/

/-- `time.Second`, in nanoseconds. -/
def second : Nat := 1000000000

/-- `time.Minute`. -/
def minute : Nat := 60 * second

/-- `DefaultTTL`. -/
def defaultTTL : Nat := 10 * minute

/-- `MaxItems`. -/
def maxItems : Nat := 20

/-- `MaxTextRunes`. -/
def maxTextRunes : Nat := 4000

/-- `MaxWait`. -/
def maxWait : Nat := 25 * second

/-- `fetchLimit`. -/
def fetchLimit : Nat := maxItems * 5

/-- `DeliveredGrace`. -/
def deliveredGrace : Nat := minute

/-- `maxAckIDs`. -/
def maxAckIDs : Nat := 200

/-- A time as Firestore keeps it, in microseconds. -/
def timestamp (t : Nat) : Nat := t / 1000 * 1000

/-- `[a-z0-9-]`. -/
def isIDByte (b : UInt8) : Bool := isBetween 0x61 0x7a b || isBetween 0x30 0x39 b || b == 0x2d

/-- `ValidRequestID`: `^[rt]-[a-z0-9-]{1,48}$`. -/
def validRequestID : Bytes → Bool
  | kind :: dash :: id =>
      (kind == 0x72 || kind == 0x74) && dash == 0x2d && 1 ≤ id.length && id.length ≤ 48 &&
        id.all isIDByte
  | _ => false

/-- `ValidPC`: `^[a-z0-9-]{1,64}$`. -/
def validPC (pc : Bytes) : Bool := 1 ≤ pc.length && pc.length ≤ 64 && pc.all isIDByte

/-- `ValidText`. -/
def validText (text : Bytes) : Bool :=
  1 ≤ runeCountInString text && runeCountInString text ≤ maxTextRunes

/-- An error, with its text where a handler shows it. -/
inductive Err where
  /-- It wraps `ErrInvalid`. -/
  | invalid (text : Bytes)
  /-- It wraps `ErrNotRegistered`. -/
  | notRegistered (text : Bytes)
  /-- `ErrAskNotFound`. -/
  | askNotFound
  /-- The context is done. -/
  | done
  /-- An error of the store. -/
  | store
  deriving DecidableEq

/-- `ErrInvalid`, wrapped around a text. -/
def invalidError (text : String) : Err := .invalid (utf8 "invalid glasses answer: " ++ utf8 text)

/-- `ValidatePut`. -/
def validatePut (pc requestID text : Bytes) : Option Err :=
  if validPC pc = false then some (invalidError "pc が不正です（^[a-z0-9-]\x7b1,64\x7d$）")
  else if validRequestID requestID = false then
    some (invalidError "request_id が不正です（^[rt]-[a-z0-9-]\x7b1,48\x7d$）")
  else if validText text = false then some (invalidError "text は 1〜4000 文字（rune）です")
  else none

/-- `ClampWait`. -/
def clampWait (d : Int) : Nat := min d.toNat maxWait

/-! ## Answers -/

/-- `Answer`. -/
structure Answer where
  requestID : Bytes
  text : Bytes
  createdAt : Nat
  deriving DecidableEq

/-- The order of the answers, by the time of their creation. -/
def Answer.before (x y : Answer) : Bool := decide (x.createdAt < y.createdAt)

/-- The `Handler`: its `askPC`, and `sort.Slice` on answers. -/
structure Handler where
  askPC : Bytes
  sortAnswers : SliceSort Answer Answer.before

/-- What `Put` stores. -/
def storedAnswer (pc requestID text : Bytes) (now : Nat) : StoredAnswer where
  pc := pc
  requestID := requestID
  text := text
  createdAt := timestamp now
  expireAt := timestamp (now + defaultTTL)

/-- `Put`. -/
def put (pc requestID text : Bytes) : Prog Doc ε η (Except Err Nat) :=
  match validatePut pc requestID text with
  | some e => pure (.error e)
  | none => do
      let now ← Prog.now
      let ok ← Prog.write (answerPath pc requestID) fun _ =>
        some (.answer (storedAnswer pc requestID text now))
      pure (if ok then .ok (now + defaultTTL) else .error .store)

/-- The answers of the PC in a listing. -/
def answersOf (pc : Bytes) (docs : List (Bytes × Doc)) : List StoredAnswer :=
  docs.filterMap fun p =>
    match p.2 with
    | .answer a => if a.pc = pc then some a else none
    | _ => none

/-- Those up to the limit of the fetch. -/
def fetched (pc : Bytes) (docs : List (Bytes × Doc)) : List StoredAnswer :=
  (answersOf pc docs).take fetchLimit

/-- The answer as a pull returns it. -/
def StoredAnswer.shown (a : StoredAnswer) : Answer := ⟨a.requestID, a.text, a.createdAt⟩

/-- An answer that has not expired, as it is returned. -/
def answerOf (now : Nat) (a : StoredAnswer) : Option Answer :=
  if a.expireAt ≤ now then none
  else if a.requestID = [] then none
  else some ⟨a.requestID, a.text, a.createdAt⟩

/-- The answers that `query` returns. -/
def Handler.selected (h : Handler) (pc : Bytes) (docs : List (Bytes × Doc)) (now : Nat) :
    List Answer :=
  (h.sortAnswers.sort ((fetched pc docs).filterMap (answerOf now))).take maxItems

/-- `query`; `none` is an error. -/
def Handler.query (h : Handler) (pc : Bytes) : Client (Option (List Answer)) := do
  match ← Prog.list answersCol with
  | none => pure none
  | some docs =>
      let now ← Prog.now
      pure (some (h.selected pc docs now))

/-- `pullLoop`, with the context done after so many rounds. -/
def pullLoop (query : Client (Option (List Answer))) (deadline : Nat) :
    Nat → Client (Except Err (List Answer))
  | 0 => pure (.error .done)
  | rounds + 1 => do
      match ← query with
      | none => pure (.error .store)
      | some [] =>
          let now ← Prog.now
          if now < deadline then pullLoop query deadline rounds else pure (.ok [])
      | some items => pure (.ok items)

/-- `Pull`. -/
def Handler.pull (h : Handler) (pc : Bytes) (wait : Int) (rounds : Nat) :
    Client (Except Err (List Answer)) :=
  if validPC pc = false then pure (.error (invalidError "pc が不正です（^[a-z0-9-]\x7b1,64\x7d$）"))
  else do
    let now ← Prog.now
    pullLoop (h.query pc) (now + clampWait wait) (rounds + 1)

/-- The deletions of `Ack`. -/
def ackEach (pc : Bytes) : List Bytes → Client (Except Err Unit)
  | [] => pure (.ok ())
  | id :: ids =>
      if validRequestID id = false then ackEach pc ids
      else do
        if ← Prog.write (answerPath pc id) fun _ => none then ackEach pc ids
        else pure (.error .store)

/-- `Ack`. -/
def ack (pc : Bytes) (ids : List Bytes) : Client (Except Err Unit) :=
  if validPC pc = false then pure (.error (invalidError "pc が不正です（^[a-z0-9-]\x7b1,64\x7d$）"))
  else ackEach pc ids

/-! ## Asks -/

/-- What `RegisterAsk` stores. -/
def storedAsk (pc requestID : Bytes) (now : Nat) : StoredAsk where
  pc := pc
  requestID := requestID
  answer := []
  createdAt := timestamp now
  expireAt := timestamp (now + defaultTTL)
  answeredAt := none
  deliveredAt := none

/-- `RegisterAsk`. -/
def registerAsk (pc requestID : Bytes) : Client (Except Err Nat) :=
  if validPC pc = false ∨ validRequestID requestID = false then
    pure (.error (invalidError "pc / request_id が不正です"))
  else do
    let now ← Prog.now
    let ok ← Prog.write (askPath pc requestID) fun _ => some (.ask (storedAsk pc requestID now))
    pure (if ok then .ok (now + defaultTTL) else .error .store)

/-- `askDoc`: an error, nothing, or the document. -/
def askDoc (pc requestID : Bytes) : Prog Doc ε η (Except Err (Option StoredAsk)) := do
  match ← Prog.get (askPath pc requestID) with
  | .failed => pure (.error .store)
  | .found (.ask k) =>
      let now ← Prog.now
      pure (.ok (if k.expireAt ≤ now then none else some k))
  | _ => pure (.ok none)

/-- `snap.Ref.Update` of an ask, which must exist. -/
def updateAsk (change : StoredAsk → StoredAsk) : Snapshot Doc → Option (Option Doc → Option Doc)
  | .found (.ask k) => some fun _ => some (.ask (change k))
  | _ => none

/-- The read has found an ask. -/
def isFound : Snapshot Doc → Bool
  | .found (.ask _) => true
  | _ => false

/-- The update of `AnswerAsk`. -/
def answered (text : Bytes) (now : Nat) (k : StoredAsk) : StoredAsk :=
  { k with
    answer := text
    answeredAt := some (timestamp now)
    expireAt := timestamp (now + defaultTTL) }

/-- `AnswerAsk`: the expiry, if there is such an ask. -/
def answerAsk (pc requestID text : Bytes) : Prog Doc ε η (Except Err (Option Nat)) :=
  if validPC pc = false ∨ validRequestID requestID = false then pure (.ok none)
  else do
    match ← askDoc pc requestID with
    | .error e => pure (.error e)
    | .ok none => pure (.ok none)
    | .ok (some _) =>
        let now ← Prog.now
        let path := askPath pc requestID
        let (snap, ok) ← Prog.transact path path (updateAsk (answered text now))
        pure (if isFound snap && ok then .ok (some (now + defaultTTL)) else .error .store)

/-- The update of `TakeAskReply`. -/
def delivered (now expireAt : Nat) (k : StoredAsk) : StoredAsk :=
  { k with
    deliveredAt := some (timestamp now)
    expireAt := timestamp (min (now + deliveredGrace) expireAt) }

/-- `TakeAskReply`: the text, if there is an answer. -/
def takeAskReply (pc requestID : Bytes) : Client (Except Err (Option Bytes)) := do
  match ← askDoc pc requestID with
  | .error e => pure (.error e)
  | .ok none => pure (.error .askNotFound)
  | .ok (some k) =>
      if k.answer = [] then pure (.ok none)
      else if k.deliveredAt.isSome then pure (.ok (some k.answer))
      else do
        let now ← Prog.now
        let path := askPath pc requestID
        let (snap, ok) ← Prog.transact path path (updateAsk (delivered now k.expireAt))
        pure (if isFound snap && ok then .ok (some k.answer) else .error .store)

/-! ## Registered PCs -/

/-- `IsRevoked`. -/
def isRevoked (pc : Bytes) : Prog Doc ε η Bool :=
  if pc = [] then pure false
  else do
    match ← Prog.get (revokedPath pc) with
    | .found _ => pure true
    | _ => pure false

/-- `Registered` of a `StateRegistry`; `none` is an error. -/
def registered (pc : Bytes) : Prog Doc ε η (Option Bool) := do
  if ← isRevoked pc then pure (some false)
  else
    match ← Prog.list pcsCol with
    | none => pure none
    | some docs => pure (some (docs.any fun p => p.1 = pc))

/-- `PutAnswer`. -/
def putAnswer (pc requestID text : Bytes) : Prog Doc ε η (Except Err Nat) :=
  match validatePut pc requestID text with
  | some e => pure (.error e)
  | none => do
      match ← registered pc with
      | none => pure (.error .store)
      | some false => pure (.error (.notRegistered (utf8 "pc is not registered: " ++ pc)))
      | some true =>
          match ← answerAsk pc requestID text with
          | .error e => pure (.error e)
          | .ok (some expireAt) => pure (.ok expireAt)
          | .ok none => put pc requestID text

end Drover.Glasses
