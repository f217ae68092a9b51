import Drover.Term.MetaFilter

/-!
# The page around the META filter

`run` of `term.js` keeps one filter for the page, resets it when it connects,
and remembers in `histGot` that it need not ask for the history again.
-/

namespace Drover.Term

/-! ## `cmParseMeta` -/

/-- A value of the object that `cmParseMeta` builds. -/
inductive MetaValue where
  /-- `true`, for a part without `=`. -/
  | flag
  /-- A number, where the value is `-?[0-9]+`. -/
  | num (n : Int)
  | text (value : Bytes)
  deriving DecidableEq

/-- `[0-9]`. -/
def isDigit (b : UInt8) : Bool := 0x30 ≤ b && b ≤ 0x39

/-- `parseInt(v, 10)` on decimal digits. -/
def decimal (digits : Bytes) : Nat :=
  digits.foldl (fun n digit => 10 * n + (digit.toNat - 0x30)) 0

/-- `/^-?[0-9]+$/.test(v) ? parseInt(v, 10) : v`. -/
def metaValue : Bytes → MetaValue
  | 0x2d :: digits =>
      if digits ≠ [] ∧ digits.all isDigit then .num (-decimal digits) else .text (0x2d :: digits)
  | value => if value ≠ [] ∧ value.all isDigit then .num (decimal value) else .text value

/-- One part of the payload: the key that is assigned, and its value. -/
def metaPart (part : Bytes) : Bytes × MetaValue :=
  match indexOf part (ascii "=") with
  | none => (part, .flag)
  | some eq => (part.take eq, metaValue (part.drop (eq + 1)))

/-- `cmParseMeta`: the object as a map from its keys. -/
def cmParseMeta (payload : Bytes) : Bytes → Option MetaValue :=
  (payload.splitOn 0x3b).foldl
    (fun o part => Function.update o (metaPart part).1 (some (metaPart part).2)) fun _ => none

/-! ## Connections -/

/-- What the page sends when a socket opens, before the queued input. -/
inductive Hello where
  /-- `HELLO_V2`. -/
  | v2
  /-- `HELLO_V2_NOHIST`. -/
  | v2NoHist
  /-- `resizeFrame(WEB_ROWS, WEB_COLS)`. -/
  | resize
  deriving DecidableEq

/-- The variables of `run` that decide over the history. -/
structure Page where
  metaFeed : MetaFilter
  histGot : Bool
  deriving DecidableEq

namespace Page

/-- A page that has just been loaded. -/
def init : Page := ⟨.make, false⟩

/-- `onMeta`, as far as `histGot` is concerned. -/
def onMeta (histGot : Bool) (payload : Bytes) : Bool :=
  let m := cmParseMeta payload
  if m (ascii "v") = some (.num 2) then
    if m (ascii "hist") = some (.num 1) ∧ histGot = false then true else histGot
  else histGot

/-- One call of the filter. -/
def handle (histGot : Bool) : Output → Bool
  | .emit _ => histGot
  | .onMeta payload => onMeta histGot payload

/-- `connect`. -/
def connect (p : Page) : Page := { p with metaFeed := p.metaFeed.reset }

/-- `sock.onopen`. -/
def onopen (p : Page) : List Hello :=
  [.v2] ++ (if p.histGot then [.v2NoHist] else []) ++ [.resize]

/-- `sock.onmessage`, for all messages of a connection. -/
def onmessages (limit : Option Nat) (p : Page) (messages : List Bytes) : Page × List Output :=
  let fed := p.metaFeed.feedAll limit messages
  (⟨fed.1, fed.2.foldl handle p.histGot⟩, fed.2)

/-- A connection, from `connect` until the next one: the page afterwards, what
it sent and what the filter called. -/
def connection (limit : Option Nat) (p : Page) (messages : List Bytes) :
    Page × List Hello × List Output :=
  let connected := p.connect
  let received := connected.onmessages limit messages
  (received.1, connected.onopen, received.2)

end Page

end Drover.Term
