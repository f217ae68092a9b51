import Drover.Data.Bytes

/-!
# Session cookies

The payload of a signed token and the check of its signature and expiry.
-/

namespace Drover.WebAuth

/-- `Token`; `exp` is in Unix seconds, and 0 is no expiry. -/
structure Token where
  pc : Bytes
  scope : Bytes
  exp : Int
  deriving DecidableEq

/-- A `Signer` and what it calls: HMAC-SHA256 under its key, the base64 encoding
and the decoding of JSON. -/
structure Signer where
  mac : Bytes → Bytes
  encodeToString : Bytes → Bytes
  decodeString : Bytes → Option Bytes
  unmarshal : Bytes → Option Token

/-- The byte between the payload and the MAC. -/
def dot : UInt8 := 0x2e

/-- `Verify`, at the time `now` in Unix seconds. -/
def Signer.verify (signer : Signer) (now : Int) (tok : Bytes) : Option Token :=
  let i := tok.idxOf dot
  -- without a dot, `i` is the length
  if i = 0 ∨ i = tok.length ∨ i + 1 = tok.length then none
  else if tok.drop (i + 1) ≠ signer.encodeToString (signer.mac (tok.take i)) then none
  else
    match signer.decodeString (tok.take i) with
    | none => none
    | some pj =>
        match signer.unmarshal pj with
        | none => none
        | some t => if t.exp ≠ 0 ∧ t.exp < now then none else some t

end Drover.WebAuth
