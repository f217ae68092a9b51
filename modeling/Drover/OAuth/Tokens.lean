import Drover.Data.Bytes
import Mathlib.Logic.Function.Basic

/-!
# Tokens

The documents of `oauth_tokens` and the operations on them.  A document is
addressed by the hash of its token.
-/

namespace Drover.OAuth

/-- The hash of a token, which its document is stored under. -/
abbrev Hash := Bytes

/-- `OAuthToken`, as `DataTo` decodes a document: a missing field is empty.
`expiresAt` is the time `time.Parse` reads from `exp`, in nanoseconds, or `none`
where it fails. -/
structure OAuthToken where
  kind : Bytes
  email : Bytes
  clientID : Bytes
  scopes : List Bytes
  expiresAt : Option Nat
  family : Bytes
  superseded : Bool
  deriving DecidableEq

/-- The document without fields. -/
def OAuthToken.empty : OAuthToken := ⟨[], [], [], [], none, [], false⟩

/-- The collection `oauth_tokens`. -/
abbrev Tokens := Hash → Option OAuthToken

/-- `CreateOAuthToken`: the field `superseded` is not written. -/
def createOAuthToken (tokens : Tokens) (tokenHash : Hash) (t : OAuthToken) : Tokens :=
  Function.update tokens tokenHash (some { t with superseded := false })

/-- `GetOAuthTokenRaw`. -/
def getOAuthTokenRaw (tokens : Tokens) (tokenHash : Hash) : Option OAuthToken := tokens tokenHash

/-- `MarkOAuthTokenSuperseded`: a merge, which creates a missing document. -/
def markOAuthTokenSuperseded (tokens : Tokens) (tokenHash : Hash) : Tokens :=
  Function.update tokens tokenHash
    (some { (tokens tokenHash).getD OAuthToken.empty with superseded := true })

/-- `RevokeOAuthToken`, and each delete of `RevokeOAuthTokenFamily`. -/
def revokeOAuthToken (tokens : Tokens) (tokenHash : Hash) : Tokens :=
  Function.update tokens tokenHash none

/-- The query of `RevokeOAuthTokenFamily`, over the hashes that were ever used. -/
def familyDocs (tokens : Tokens) (used : List Hash) (family : Bytes) : List Hash :=
  used.filter fun h => (tokens h).any fun t => t.family = family

/-- `perr != nil || time.Now().After(exp)` rejects. -/
def OAuthToken.notExpired (t : OAuthToken) (now : Nat) : Bool :=
  t.expiresAt.any fun exp => now ≤ exp

/-- `time.Second`, in nanoseconds. -/
def second : Nat := 1000000000

/-- `accessTokenTTL`. -/
def accessTokenTTL : Nat := 60 * 60 * second

/-- `accessTokenTTLAdmin`. -/
def accessTokenTTLAdmin : Nat := 15 * 60 * second

/-- `refreshTokenTTL`. -/
def refreshTokenTTL : Nat := 30 * 24 * 60 * 60 * second

/-- `accessTTLFor`. -/
def accessTTLFor (scopes : List Bytes) : Nat :=
  if ascii "drover.admin" ∈ scopes then accessTokenTTLAdmin else accessTokenTTL

/-- The kind of an access token. -/
def access : Bytes := ascii "access"

/-- The kind of a refresh token. -/
def refresh : Bytes := ascii "refresh"

/-- Whom a token pair is for. -/
structure Grant where
  email : Bytes
  clientID : Bytes
  scopes : List Bytes
  family : Bytes
  deriving DecidableEq

/-- The access token that `issueTokenPair` creates. -/
def Grant.access (g : Grant) (now : Nat) : OAuthToken :=
  ⟨OAuth.access, g.email, g.clientID, g.scopes, some (now + accessTTLFor g.scopes), g.family, false⟩

/-- The refresh token that `issueTokenPair` creates. -/
def Grant.refresh (g : Grant) (now : Nat) : OAuthToken :=
  ⟨OAuth.refresh, g.email, g.clientID, g.scopes, some (now + refreshTokenTTL), g.family, false⟩

/-- What `tokenFromRefresh` passes on to `issueTokenPair`. -/
def OAuthToken.grant (t : OAuthToken) : Grant := ⟨t.email, t.clientID, t.scopes, t.family⟩

/-- A refresh token that is not superseded. -/
def OAuthToken.Live (t : OAuthToken) : Prop := t.kind = refresh ∧ t.superseded = false

instance (t : OAuthToken) : Decidable t.Live := inferInstanceAs (Decidable (_ ∧ _))

section

variable {tokens : Tokens} {h fresh : Hash} {t : OAuthToken}

@[simp]
theorem createOAuthToken_same (tokens : Tokens) (fresh : Hash) (t : OAuthToken) :
    createOAuthToken tokens fresh t fresh = some { t with superseded := false } :=
  Function.update_self ..

theorem createOAuthToken_of_ne (other : h ≠ fresh) :
    createOAuthToken tokens fresh t h = tokens h :=
  Function.update_of_ne other ..

@[simp]
theorem markOAuthTokenSuperseded_same (tokens : Tokens) (h : Hash) :
    markOAuthTokenSuperseded tokens h h =
      some { (tokens h).getD OAuthToken.empty with superseded := true } :=
  Function.update_self ..

theorem markOAuthTokenSuperseded_of_ne {marked : Hash} (other : h ≠ marked) :
    markOAuthTokenSuperseded tokens marked h = tokens h :=
  Function.update_of_ne other ..

@[simp]
theorem revokeOAuthToken_same (tokens : Tokens) (h : Hash) : revokeOAuthToken tokens h h = none :=
  Function.update_self ..

theorem revokeOAuthToken_of_ne {revoked : Hash} (other : h ≠ revoked) :
    revokeOAuthToken tokens revoked h = tokens h :=
  Function.update_of_ne other ..

end

theorem OAuthToken.notExpired_of_le {t : OAuthToken} {now later : Nat} (le : now ≤ later)
    (still : t.notExpired later = true) : t.notExpired now = true := by
  rw [notExpired, Option.any_eq_true] at still ⊢
  obtain ⟨exp, found, notAfter⟩ := still
  rw [decide_eq_true_iff] at notAfter
  exact ⟨exp, found, decide_eq_true (Nat.le_trans le notAfter)⟩

end Drover.OAuth
