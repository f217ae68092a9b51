import Drover.Glasses.Core

/-!
# Handlers of the glasses

The handlers of `/glasses/answers`, `/glasses/answers/ack`, `/glasses/ask` and
`/glasses/reply` after their tokens are checked, and the calls that a relay serves:
these, the methods of the store and `PutAnswer`.
-/

namespace Drover.Glasses

open Drover.Store

/-! ## Responses -/

/-- The value that a handler writes. -/
inductive Body where
  | error (text : Bytes)
  | items (answers : List Answer)
  | ok
  | queued (requestID : Bytes) (upstreamStatus : Nat)
  | webhookFailed (status : Nat) (requestID : Bytes)
  /-- `text`, `ts` in milliseconds, and `status`. -/
  | reply (text : Option Bytes) (ts : Option Nat) (status : Bytes)
  deriving DecidableEq

/-- The value that a call returns. -/
inductive Response where
  | stored (result : Except Err Nat)
  | pulled (result : Except Err (List Answer))
  | acked (result : Except Err Unit)
  | http (status : Nat) (body : Body)
  /-- The client has gone. -/
  | closed
  deriving DecidableEq

/-- `writeErr`. -/
def writeErr (status : Nat) (text : String) : Response := .http status (.error (utf8 text))

/-! ## Handlers -/

/-- `handleAnswers`, for the PC of the query and the `wait` that `parseWaitSeconds` returns. -/
def Handler.handleAnswers (h : Handler) (pc : Bytes) (wait : Option Int) (rounds : Nat) :
    Client Response :=
  if validPC pc = false then pure (writeErr 400 "pc が不正です")
  else
    match wait with
    | none => pure (writeErr 400 "wait が不正です（秒・0〜25）")
    | some wait => do
        match ← registered pc with
        | none => pure (writeErr 500 "登録確認に失敗しました")
        | some false => pure (writeErr 403 "pc が未登録です")
        | some true =>
            match ← h.pull pc wait rounds with
            | .ok items => pure (.http 200 (.items items))
            | .error .done => pure .closed
            | .error (.invalid text) => pure (.http 400 (.error text))
            | .error _ => pure (writeErr 500 "取得に失敗しました")

/-- `handleAck`, for the PC and the ids that are decoded from the body. -/
def handleAck (body : Option (Bytes × List Bytes)) : Client Response :=
  match body with
  | none => pure (writeErr 400 "body が不正です（JSON・64KB 以内・フィールドは pc と ids のみ）")
  | some (pc, ids) =>
      if validPC pc = false then pure (writeErr 400 "pc が不正です")
      else if ids = [] then pure (writeErr 400 "ids が空です")
      else if maxAckIDs < ids.length then pure (writeErr 400 "ids が多すぎます")
      else do
        match ← registered pc with
        | none => pure (writeErr 500 "登録確認に失敗しました")
        | some false => pure (writeErr 403 "pc が未登録です")
        | some true =>
            match ← ack pc ids with
            | .ok () => pure (.http 200 .ok)
            | .error (.invalid text) => pure (.http 400 (.error text))
            | .error _ => pure (writeErr 500 "削除に失敗しました")

/-- `askRequest`. -/
structure AskRequest where
  pc : Bytes
  requestID : Bytes
  text : Bytes
  deriving DecidableEq

/-- What a webhook answers: a status, and whether `Send` returns no error. -/
structure Upstream where
  status : Nat
  accepted : Bool
  deriving DecidableEq

/-- The PC of a request, or else the one of the handler. -/
def Handler.pcOf (h : Handler) (pc : Bytes) : Bytes := if pc = [] then h.askPC else pc

/-- `handleAsk`, for the request that is decoded from the body, what `NewRequestID` would
return, and what the webhook answers. -/
def Handler.handleAsk (h : Handler) (body : Option AskRequest) (newRequestID : Bytes)
    (upstream : Upstream) : Client Response :=
  match body with
  | none => pure (writeErr 400 "body が不正です（JSON・64KB 以内）")
  | some req =>
      let pc := h.pcOf req.pc
      let rid := if req.requestID = [] then newRequestID else req.requestID
      if validPC pc = false then pure (writeErr 400 "pc が不正です")
      else if validRequestID rid = false then
        pure (writeErr 400 "request_id が不正です（^[rt]-[a-z0-9-]\x7b1,48\x7d$）")
      else if validText req.text = false then
        pure (writeErr 400 "text は 1〜4000 文字（rune）です")
      else do
        match ← registered pc with
        | none => pure (writeErr 500 "登録確認に失敗しました")
        | some false => pure (writeErr 403 "pc が未登録です")
        | some true =>
            match ← registerAsk pc rid with
            | .error _ => pure (writeErr 500 "問い合わせの登録に失敗しました")
            | .ok _ =>
                let now ← Prog.now
                Prog.emit ⟨rid, req.text, now⟩
                if upstream.accepted then pure (.http 202 (.queued rid upstream.status))
                else pure (.http 502 (.webhookFailed upstream.status rid))

/-- A reply as the HUD parses it. -/
def replyText (requestID text : Bytes) : Bytes := ascii "[" ++ requestID ++ ascii "] " ++ text

/-- `handleReply`, for the PC and the id of the query. -/
def Handler.handleReply (h : Handler) (pc requestID : Bytes) : Client Response :=
  let pc := h.pcOf pc
  if validPC pc = false then pure (writeErr 400 "pc が不正です")
  else if validRequestID requestID = false then
    pure (writeErr 400 "request_id が不正です（^[rt]-[a-z0-9-]\x7b1,48\x7d$）")
  else do
    match ← takeAskReply pc requestID with
    | .error .askNotFound => pure (.http 404 (.reply none none (ascii "not_found")))
    | .error _ => pure (writeErr 500 "取得に失敗しました")
    | .ok none => pure (.http 200 (.reply none none (ascii "pending")))
    | .ok (some text) =>
        let now ← Prog.now
        pure (.http 200 (.reply (some (replyText requestID text)) (some (now / 1000000))
          (ascii "delivered")))

/-! ## Calls -/

/-- What is called; `rounds` is how often a pull may ask again before its context is
done. -/
inductive Request where
  | put (pc requestID text : Bytes)
  | pull (pc : Bytes) (wait : Int) (rounds : Nat)
  | ack (pc : Bytes) (ids : List Bytes)
  | putAnswer (pc requestID text : Bytes)
  | handleAnswers (pc : Bytes) (wait : Option Int) (rounds : Nat)
  | handleAck (body : Option (Bytes × List Bytes))
  | handleAsk (body : Option AskRequest) (newRequestID : Bytes) (upstream : Upstream)
  | handleReply (pc requestID : Bytes)

/-- The program of a call. -/
def Handler.handle (h : Handler) : Request → Client Response
  | .put pc requestID text => do pure (.stored (← Glasses.put pc requestID text))
  | .pull pc wait rounds => do pure (.pulled (← h.pull pc wait rounds))
  | .ack pc ids => do pure (.acked (← Glasses.ack pc ids))
  | .putAnswer pc requestID text => do pure (.stored (← Glasses.putAnswer pc requestID text))
  | .handleAnswers pc wait rounds => h.handleAnswers pc wait rounds
  | .handleAck body => Glasses.handleAck body
  | .handleAsk body newRequestID upstream => h.handleAsk body newRequestID upstream
  | .handleReply pc requestID => h.handleReply pc requestID

/-- The store and the calls. -/
abbrev System := Store.State Request Doc Unit Sent Response

/-- What can happen to the calls next. -/
abbrev Label := Store.Label Request Doc

/-- One step of the calls. -/
abbrev Handler.step (h : Handler) : Transition.Step System Label := Store.step h.handle

/-- A handler without a PC of its own. -/
def sampleHandler : Handler where
  askPC := []
  sortAnswers := .byKey Answer.createdAt fun _ _ => rfl

end Drover.Glasses
