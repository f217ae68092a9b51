import Drover.Data.Base64
import Drover.Data.JsonObject
import Drover.Data.Separator
import Drover.Web.Access
import Drover.WebAuth.Cookie

/-!
# Tokens of slaves and of the owner

The relay signs custom tokens with the key of its service account: one for the
owner's browser and one for each slave.  It accepts the slaves' tokens itself, as
bearers, and the rules of the database decide what each token may read and write
there.  The implementation of RSA is a parameter.
-/

namespace Drover.Web

open JsonText
open WebAuth (dot foldName)

/-! ## Minting -/

/-- An RSA key: `SignPKCS1v15` and `VerifyPKCS1v15` of the SHA-256 sum of a
text. -/
structure Key where
  sign : Bytes → Bytes
  verify : Bytes → Bytes → Bool

/-- What is read of the JSON of a service account; there is no key if
`private_key` is missing or no RSA key in PEM. -/
structure ServiceAccount where
  clientEmail : Bytes
  privateKey : Option Key

/-- `fbOwnerUID`. -/
def fbOwnerUID : Bytes := ascii "cm-owner"

/-- The `aud` of a custom token. -/
def aud : Bytes :=
  ascii "https://identitytoolkit.googleapis.com/" ++
    ascii "google.identity.identitytoolkit.v1.IdentityToolkit"

/-- The nanoseconds of a second. -/
def nanoseconds : Nat := 1000000000

/-- `time.Hour`. -/
def hour : Nat := 3600 * nanoseconds

/-- `Unix`, of a time in nanoseconds. -/
def unix (now : Nat) : Nat := now / nanoseconds

/-- The header of a custom token. -/
def jwtHead : Members :=
  [(ascii "alg", .string (ascii "RS256")), (ascii "typ", .string (ascii "JWT"))]

/-- The claims of `firebaseCustomToken`; the keys of a map are written in
order. -/
def jwtClaims (clientEmail uid : Bytes) (now : Nat) : Members :=
  [(ascii "aud", .string aud), (ascii "exp", .int (unix (now + hour))),
    (ascii "iat", .int (unix now)), (ascii "iss", .string clientEmail),
    (ascii "sub", .string clientEmail), (ascii "uid", .string uid)]

/-- `enc` of `firebaseCustomToken`. -/
def encodeSegment (ms : Members) : Bytes := Base64.encodeToString (renderObject ms)

/-- The text that is signed. -/
def signing (clientEmail uid : Bytes) (now : Nat) : Bytes :=
  encodeSegment jwtHead ++ dot :: encodeSegment (jwtClaims clientEmail uid now)

/-- `firebaseCustomToken`. -/
def firebaseCustomToken (sa : ServiceAccount) (uid : Bytes) (now : Nat) : Option Bytes :=
  if sa.clientEmail = [] then none
  else
    sa.privateKey.map fun key =>
      signing sa.clientEmail uid now ++
        dot :: Base64.encodeToString (key.sign (signing sa.clientEmail uid now))

/-- What the `uid` of a shared PC starts with. -/
def slavePrefix : Bytes := ascii "slave:"

/-- `mintSlaveToken`. -/
def mintSlaveToken (sa : ServiceAccount) (pc : Bytes) (now : Nat) : Option Bytes :=
  firebaseCustomToken sa (slavePrefix ++ pc) now

/-! ## Checking -/

/-- The `claims` of `verifySlaveToken`. -/
structure Claims where
  exp : Int
  uid : Bytes
  deriving DecidableEq

/-- The claims that `verifySlaveToken` decodes. -/
inductive ClaimField where
  | exp
  | uid
  deriving DecidableEq

/-- The claims by their names. -/
def claimNames : List (Bytes × ClaimField) := [(ascii "exp", .exp), (ascii "uid", .uid)]

/-- The field of a key: the one of that very name, or else one of that name in
other letters. -/
def claimOf (key : Bytes) : Option ClaimField :=
  ((claimNames.find? fun p => p.1 = key).or
    (claimNames.find? fun p => foldName p.1 = foldName key)).map Prod.snd

/-- Store a value into a field; `null` leaves the field as it is. -/
def setClaim (c : Claims) : ClaimField → Value → Option Claims
  | _, .null => some c
  | .exp, .number n => n.parseInt.map fun exp => { c with exp := exp }
  | .uid, .string s => some { c with uid := s }
  | _, _ => none

/-- A member of the object; a key without a field is skipped. -/
def setClaimMember (c : Claims) (member : Bytes × Value) : Option Claims :=
  match claimOf member.1 with
  | none => some c
  | some field => setClaim c field member.2

/-- `json.Unmarshal` into zero claims, unless it fails. -/
def unmarshalClaims (cb : Bytes) : Option Claims :=
  (parse cb).bind fun v =>
    match v with
    | .object ms => ms.foldlM setClaimMember ⟨0, []⟩
    | .null => some ⟨0, []⟩
    | _ => none

/-- The checks of the claims in `verifySlaveToken`. -/
def pcOfClaims (claims : Claims) (now : Nat) : Option Bytes :=
  if claims.exp = 0 ∨ claims.exp ≤ unix now then none
  else if slavePrefix.isPrefixOf claims.uid = false then none
  else if claims.uid.drop slavePrefix.length = [] then none
  else some (claims.uid.drop slavePrefix.length)

/-- The checks of `verifySlaveToken` on the three segments. -/
def checkSegments (key : Key) (first second third : Bytes) (now : Nat) : Option Bytes :=
  match Base64.decodeString third with
  | none => none
  | some sig =>
      if key.verify (first ++ dot :: second) sig = false then none
      else (Base64.decodeString second).bind fun cb =>
        (unmarshalClaims cb).bind fun claims => pcOfClaims claims now

/-- `verifySlaveToken`. -/
def verifySlaveToken (sa : ServiceAccount) (tok : Bytes) (now : Nat) : Option Bytes :=
  match sa.privateKey with
  | none => none
  | some key =>
      match tok.splitOn dot with
      | [first, second, third] => checkSegments key first second third now
      | _ => none

/-! ## The rules of the database -/

/-- `allow read`, for a client with this uid, of a document or what is below it. -/
def allowRead (uid : Option Bytes) : List Bytes → Bool
  | collection :: _ :: _ => collection = ascii "pcs" && uid = some (ascii "cm-owner")
  | _ => false

/-- `allow write`. -/
def allowWrite (uid : Option Bytes) : List Bytes → Bool
  | collection :: pc :: _ => collection = ascii "pcs" && uid = some (ascii "slave:" ++ pc)
  | _ => false

/-! ## What is read of a token -/

/-- The time and the texts of a token that can be written. -/
structure Writable (clientEmail uid : Bytes) (now : Nat) : Prop where
  clientEmail : ValidString clientEmail
  uid : ValidString uid
  bound : unix (now + hour) ≤ 9223372036854775807

theorem validMembers_jwtClaims {clientEmail uid : Bytes} {now : Nat}
    (writable : Writable clientEmail uid now) : ValidMembers (jwtClaims clientEmail uid now) := by
  have names : ([ascii "aud", ascii "exp", ascii "iat", ascii "iss", ascii "sub", ascii "uid",
      aud].all fun s => s.all (· < 0x80)) = true := by decide +kernel
  have plain : ∀ s ∈ [ascii "aud", ascii "exp", ascii "iat", ascii "iss", ascii "sub",
      ascii "uid", aud], ValidString s := fun s mem =>
    validString_of_ascii (List.all_eq_true.mp names s mem)
  intro m mem
  simp only [jwtClaims, List.mem_cons, List.not_mem_nil, or_false] at mem
  rcases mem with rfl | rfl | rfl | rfl | rfl | rfl
  · exact ⟨plain _ (by simp), plain aud (by simp)⟩
  · exact ⟨plain _ (by simp), trivial⟩
  · exact ⟨plain _ (by simp), trivial⟩
  · exact ⟨plain _ (by simp), writable.clientEmail⟩
  · exact ⟨plain _ (by simp), writable.clientEmail⟩
  · exact ⟨plain _ (by simp), writable.uid⟩

/-- The claims come back. -/
theorem unmarshalClaims_jwtClaims {clientEmail uid : Bytes} {now : Nat}
    (writable : Writable clientEmail uid now) :
    unmarshalClaims (renderObject (jwtClaims clientEmail uid now)) =
      some ⟨unix (now + hour), uid⟩ := by
  have other : ∀ name ∈ [ascii "aud", ascii "iat", ascii "iss", ascii "sub"],
      claimOf name = none := by
    have absent : ([ascii "aud", ascii "iat", ascii "iss", ascii "sub"].all fun name =>
      claimOf name = none) = true := by decide +kernel
    exact fun name mem => of_decide_eq_true (List.all_eq_true.mp absent name mem)
  have expField : claimOf (ascii "exp") = some .exp := by decide
  have uidField : claimOf (ascii "uid") = some .uid := by decide
  have low : (-9223372036854775808 : Int) ≤ (unix (now + hour) : Int) := by omega
  have number := parseInt_intNumber low (Int.ofNat_le.mpr writable.bound)
  rw [unmarshalClaims, parse_renderObject (validMembers_jwtClaims writable), Option.bind_some]
  simp [objectOf, jwtClaims, setClaimMember, other, expField, uidField, setClaim, Scalar.toValue,
    number]

theorem dot_notMem_encodeSegment (ms : Members) : dot ∉ encodeSegment ms :=
  Base64.dot_notMem_encodeToString _

theorem decodeString_encodeSegment (ms : Members) :
    Base64.decodeString (encodeSegment ms) = some (renderObject ms) := by
  rw [encodeSegment, Base64.decodeString_encodeToString]

theorem splitOn_three {first second third : Bytes} (firstClean : dot ∉ first)
    (secondClean : dot ∉ second) (thirdClean : dot ∉ third) :
    (first ++ dot :: (second ++ dot :: third)).splitOn dot = [first, second, third] := by
  rw [List.splitOn_append_cons_self, List.splitOn_append_cons_self,
    List.splitOn_eq_singleton firstClean, List.splitOn_eq_singleton secondClean,
    List.splitOn_eq_singleton thirdClean]
  rfl

theorem verifySlaveToken_of_segments {sa : ServiceAccount} {key : Key}
    (hasKey : sa.privateKey = some key) {tok first second third : Bytes}
    (segments : tok.splitOn dot = [first, second, third]) (now : Nat) :
    verifySlaveToken sa tok now = checkSegments key first second third now := by
  rw [verifySlaveToken, hasKey]
  simp only [segments]

theorem checkSegments_of_verified {key : Key} {first second third sig cb : Bytes}
    (decodedSig : Base64.decodeString third = some sig)
    (verified : key.verify (first ++ dot :: second) sig = true)
    (decoded : Base64.decodeString second = some cb) {claims : Claims}
    (read : unmarshalClaims cb = some claims) (now : Nat) :
    checkSegments key first second third now = pcOfClaims claims now := by
  simp only [checkSegments, decodedSig, verified, Bool.true_eq_false, if_false, decoded,
    Option.bind_some, read]

/-- What `verifySlaveToken` makes of a token that the account signed. -/
theorem verifySlaveToken_custom {sa : ServiceAccount} {key : Key}
    (hasKey : sa.privateKey = some key) (signs : ∀ text, key.verify text (key.sign text) = true)
    {uid tok : Bytes} {signedAt : Nat} (writable : Writable sa.clientEmail uid signedAt)
    (minted : firebaseCustomToken sa uid signedAt = some tok) (now : Nat) :
    verifySlaveToken sa tok now = pcOfClaims ⟨unix (signedAt + hour), uid⟩ now := by
  rw [firebaseCustomToken, hasKey] at minted
  split at minted
  · cases minted
  · rw [Option.map_some, Option.some.injEq] at minted
    subst minted
    have segments : (signing sa.clientEmail uid signedAt ++ dot ::
        Base64.encodeToString (key.sign (signing sa.clientEmail uid signedAt))).splitOn dot =
          [encodeSegment jwtHead, encodeSegment (jwtClaims sa.clientEmail uid signedAt),
            Base64.encodeToString (key.sign (signing sa.clientEmail uid signedAt))] := by
      generalize key.sign (signing sa.clientEmail uid signedAt) = sig
      rw [signing, List.append_assoc, List.cons_append]
      exact splitOn_three (dot_notMem_encodeSegment _) (dot_notMem_encodeSegment _)
        (Base64.dot_notMem_encodeToString _)
    have verified := signs (signing sa.clientEmail uid signedAt)
    rw [verifySlaveToken_of_segments hasKey segments]
    exact checkSegments_of_verified (Base64.decodeString_encodeToString _) verified
      (decodeString_encodeSegment _) (unmarshalClaims_jwtClaims writable) now

theorem pcOfClaims_eq_some_iff {claims : Claims} {now : Nat} {pc : Bytes} :
    pcOfClaims claims now = some pc ↔
      (unix now < claims.exp ∧ pc ≠ []) ∧ claims.uid = slavePrefix ++ pc := by
  rw [pcOfClaims]
  constructor
  · intro accepted
    split at accepted
    · cases accepted
    · split at accepted
      · cases accepted
      · split at accepted
        · cases accepted
        · rename_i inTime isSlave named
          cases accepted
          rw [not_or] at inTime
          rw [Bool.not_eq_false, List.isPrefixOf_iff_prefix] at isSlave
          exact ⟨⟨not_le.mp inTime.2, named⟩, (List.prefix_iff_eq_append.mp isSlave).symm⟩
  · rintro ⟨⟨inTime, named⟩, isSlave⟩
    have rest : claims.uid.drop slavePrefix.length = pc := by
      rw [isSlave, List.drop_left]
    have front : slavePrefix.isPrefixOf claims.uid = true := by
      rw [List.isPrefixOf_iff_prefix, isSlave]
      exact List.prefix_append _ _
    have notZero : claims.exp ≠ 0 := by
      have low : (0 : Int) ≤ unix now := Int.natCast_nonneg _
      omega
    rw [if_neg (not_or.mpr ⟨notZero, not_le.mpr inTime⟩), front, if_neg (by decide), rest,
      if_neg named]

/-- What `verifySlaveToken` has found of a token that it accepts. -/
theorem verifySlaveToken_eq_some {sa : ServiceAccount} {tok : Bytes} {now : Nat} {pc : Bytes}
    (accepted : verifySlaveToken sa tok now = some pc) :
    ∃ key first second third sig cb claims, sa.privateKey = some key ∧
      tok = (first ++ dot :: second) ++ dot :: third ∧ dot ∉ second ∧
      Base64.decodeString third = some sig ∧ key.verify (first ++ dot :: second) sig = true ∧
      Base64.decodeString second = some cb ∧ unmarshalClaims cb = some claims ∧
      pcOfClaims claims now = some pc := by
  rw [verifySlaveToken] at accepted
  cases hasKey : sa.privateKey with
  | none =>
      rw [hasKey] at accepted
      cases accepted
  | some key =>
      rw [hasKey] at accepted
      simp only at accepted
      split at accepted
      · rename_i first second third segments
        have whole : tok = (first ++ dot :: second) ++ dot :: third := by
          rw [← @List.intercalate_splitOn _ tok _ _ dot, segments]
          simp [List.intercalate_cons_cons]
        have clean : dot ∉ second := by
          intro found
          obtain ⟨before, after, rfl⟩ := List.append_of_mem found
          rw [whole, List.append_assoc, List.cons_append, List.splitOn_append_cons_self,
            List.append_assoc, List.cons_append, List.splitOn_append_cons_self,
            List.splitOn_append_cons_self] at segments
          have pieces := congrArg List.length segments
          have some_ : ∀ s : Bytes, 0 < (s.splitOn dot).length := fun s =>
            List.length_pos_of_ne_nil (List.splitOn_ne_nil dot s)
          have first_ := some_ first
          have before_ := some_ before
          have after_ := some_ after
          have third_ := some_ third
          simp only [List.length_append, List.length_cons, List.length_nil] at pieces
          omega
        rw [checkSegments] at accepted
        split at accepted
        · cases accepted
        · rename_i sig decodedSig
          split at accepted
          · cases accepted
          · rename_i verified
            obtain ⟨cb, decoded, accepted⟩ := Option.bind_eq_some_iff.mp accepted
            obtain ⟨claims, read, accepted⟩ := Option.bind_eq_some_iff.mp accepted
            exact ⟨key, first, second, third, sig, cb, claims, rfl, whole, clean, decodedSig,
              Bool.not_eq_false _ ▸ verified, decoded, read, accepted⟩
      · cases accepted

/-! ## Who may do what -/

/-- Whom a token is issued for. -/
inductive Issue where
  | owner
  | slave (pc : Bytes)
  deriving DecidableEq

/-- The `uid` that the token is minted for. -/
def Issue.uid : Issue → Bytes
  | owner => fbOwnerUID
  | slave pc => slavePrefix ++ pc

/-- The token of `apiFBToken`, or of `mintSlaveToken`. -/
def Issue.token (sa : ServiceAccount) : Issue → Nat → Option Bytes
  | owner, now => firebaseCustomToken sa fbOwnerUID now
  | slave pc, now => mintSlaveToken sa pc now

theorem Issue.token_eq (sa : ServiceAccount) (i : Issue) (now : Nat) :
    i.token sa now = firebaseCustomToken sa i.uid now := by
  cases i <;> rfl

theorem Issue.uid_eq_slave_iff {i : Issue} {pc : Bytes} :
    i.uid = slavePrefix ++ pc ↔ i = .slave pc := by
  cases i with
  | owner =>
      constructor
      · intro same
        have front : slavePrefix <+: fbOwnerUID := ⟨pc, same.symm⟩
        exact absurd front (by decide)
      · intro same
        cases same
  | slave other =>
      rw [uid, List.append_cancel_left_eq, slave.injEq]

theorem Issue.uid_eq_owner_iff {i : Issue} : i.uid = fbOwnerUID ↔ i = .owner := by
  cases i with
  | owner => exact ⟨fun _ => rfl, fun _ => rfl⟩
  | slave pc =>
      constructor
      · intro same
        have front : slavePrefix <+: fbOwnerUID := ⟨pc, same⟩
        exact absurd front (by decide)
      · intro same
        cases same

/-- Nobody but the account finds a signature: who presents a text with one got it
from a token that was issued. -/
def Unforgeable (sa : ServiceAccount) (key : Key) (issued : Issue → Nat → Prop)
    (presented : Bytes → Prop) : Prop :=
  ∀ text third sig, presented (text ++ dot :: third) → Base64.decodeString third = some sig →
    key.verify text sig = true →
      ∃ i signedAt, issued i signedAt ∧ text = signing sa.clientEmail i.uid signedAt

/-- A token that is presented and accepted was issued to that slave. -/
theorem issued_of_verifySlaveToken {sa : ServiceAccount} {key : Key}
    (hasKey : sa.privateKey = some key) {issued : Issue → Nat → Prop} {presented : Bytes → Prop}
    (writable : ∀ i signedAt, issued i signedAt → Writable sa.clientEmail i.uid signedAt)
    (unforgeable : Unforgeable sa key issued presented) {tok : Bytes} {now : Nat} {pc : Bytes}
    (isPresented : presented tok) (accepted : verifySlaveToken sa tok now = some pc) :
    ∃ signedAt, issued (.slave pc) signedAt ∧ unix now < unix (signedAt + hour) := by
  obtain ⟨key', first, second, third, sig, cb, claims, hasKey', rfl, clean, decodedSig, verified,
    decoded, read, checked⟩ := verifySlaveToken_eq_some accepted
  obtain rfl : key = key' := Option.some.inj (hasKey.symm.trans hasKey')
  obtain ⟨i, signedAt, isIssued, text⟩ :=
    unforgeable _ _ _ isPresented decodedSig verified
  have sameSegment : second = encodeSegment (jwtClaims sa.clientEmail i.uid signedAt) :=
    ((separated_inj_right (dot_notMem_encodeSegment _) clean).mp text).2
  rw [sameSegment, decodeString_encodeSegment, Option.some.injEq] at decoded
  rw [← decoded, unmarshalClaims_jwtClaims (writable i signedAt isIssued),
    Option.some.injEq] at read
  rw [← read, pcOfClaims_eq_some_iff] at checked
  obtain ⟨⟨inTime, -⟩, isSlave⟩ := checked
  exact ⟨signedAt, Issue.uid_eq_slave_iff.mp isSlave ▸ isIssued, Int.ofNat_lt.mp inTime⟩

/-- Each token opens what it was issued for.  The relay takes a slave's token
for that slave until an hour has passed, and takes no other token: neither the
owner's nor, unless a signature is forged, one that was not issued.  In the
database, the owner's token reads below `pcs` and writes nothing, and a slave's
writes below its own PC and reads nothing. -/
theorem tokens_confined {sa : ServiceAccount} {key : Key} (hasKey : sa.privateKey = some key)
    (signs : ∀ text, key.verify text (key.sign text) = true) :
    (∀ i signedAt tok, Writable sa.clientEmail i.uid signedAt →
      Issue.token sa i signedAt = some tok → ∀ now pc, verifySlaveToken sa tok now = some pc ↔
        (i = .slave pc ∧ pc ≠ []) ∧ unix now < unix (signedAt + hour)) ∧
    (∀ issued presented,
      (∀ i signedAt, issued i signedAt → Writable sa.clientEmail i.uid signedAt) →
        Unforgeable sa key issued presented → ∀ tok now pc, presented tok →
          verifySlaveToken sa tok now = some pc →
            ∃ signedAt, issued (.slave pc) signedAt ∧ unix now < unix (signedAt + hour)) ∧
    ∀ (i : Issue) path,
      (allowRead (some i.uid) path = true ↔
        i = .owner ∧ ∃ pc rest, path = ascii "pcs" :: pc :: rest) ∧
      (allowWrite (some i.uid) path = true ↔
        ∃ pc rest, i = .slave pc ∧ path = ascii "pcs" :: pc :: rest) := by
  refine ⟨?_, ?_, ?_⟩
  · intro i signedAt tok writable minted now pc
    rw [Issue.token_eq] at minted
    rw [verifySlaveToken_custom hasKey signs writable minted, pcOfClaims_eq_some_iff,
      Issue.uid_eq_slave_iff, Int.ofNat_lt]
    constructor
    · rintro ⟨⟨inTime, named⟩, isSlave⟩
      exact ⟨⟨isSlave, named⟩, inTime⟩
    · rintro ⟨⟨isSlave, named⟩, inTime⟩
      exact ⟨⟨inTime, named⟩, isSlave⟩
  · intro issued presented writable unforgeable tok now pc isPresented accepted
    exact issued_of_verifySlaveToken hasKey writable unforgeable isPresented accepted
  · intro i path
    have owner : i.uid = ascii "cm-owner" ↔ i = .owner := Issue.uid_eq_owner_iff
    have slave : ∀ pc, i.uid = ascii "slave:" ++ pc ↔ i = .slave pc := fun pc =>
      Issue.uid_eq_slave_iff
    match path with
    | [] => simp [allowRead, allowWrite]
    | [collection] => simp [allowRead, allowWrite]
    | collection :: pc :: rest =>
        simp only [allowRead, allowWrite, Bool.and_eq_true, decide_eq_true_eq, Option.some.injEq,
          owner, slave, List.cons.injEq]
        constructor
        · constructor
          · rintro ⟨rfl, isOwner⟩
            exact ⟨isOwner, pc, rest, rfl, rfl, rfl⟩
          · rintro ⟨isOwner, _, _, inPCs, -, -⟩
            exact ⟨inPCs, isOwner⟩
        · constructor
          · rintro ⟨rfl, isSlave⟩
            exact ⟨pc, rest, isSlave, rfl, rfl, rfl⟩
          · rintro ⟨_, _, isSlave, inPCs, rfl, rfl⟩
            exact ⟨inPCs, isSlave⟩

/-! ## A token of pc1 -/

/-- The RSA signature under the token of the witness below. -/
def sampleSignature : Bytes :=
  (Base64.decodeString (ascii "S8e48nJk2lvWfsj1ZsLXl83CR4wXHHRd0QOg5rrhM7TYLDJR0Aj_huRFc-3PTqry" ++
    ascii "l0vWoXlMJSoM5m6v4fy9qegSoD0F5jPkzDwKNVpA-tpc2_jCdUcnGMPD0ixh4OCI" ++
    ascii "CeP9N4wRJS27CiKs1R0HkmnSB5FwhkqT54ECXPYnCxo")).getD []

/-- A key that has made that signature. -/
def sampleKey : Key where
  sign _ := sampleSignature
  verify _ sig := sig = sampleSignature

/-- Its account. -/
def sampleAccount : ServiceAccount where
  clientEmail := ascii "relay@d.iam.gserviceaccount.com"
  privateKey := some sampleKey

/-- The text of the token. -/
def sampleSigning : Bytes :=
  signing sampleAccount.clientEmail (Issue.uid (.slave (ascii "pc1"))) (1790000000 * nanoseconds)

/-- The token. -/
def sampleToken : Bytes := sampleSigning ++ dot :: Base64.encodeToString sampleSignature

theorem mintSlaveToken_sample :
    mintSlaveToken sampleAccount (ascii "pc1") (1790000000 * nanoseconds) = some sampleToken := by
  have named : sampleAccount.clientEmail ≠ [] := by decide
  rw [mintSlaveToken, firebaseCustomToken, if_neg named]
  simp only [sampleToken, sampleSigning, sampleAccount, sampleKey, Issue.uid, Option.map_some]

/-- What was issued. -/
def sampleIssued (i : Issue) (signedAt : Nat) : Prop :=
  i = .slave (ascii "pc1") ∧ signedAt = 1790000000 * nanoseconds

theorem sample_unforgeable :
    Unforgeable sampleAccount sampleKey sampleIssued (· = sampleToken) := by
  intro text third sig presented decoded _
  have clean : dot ∉ third := fun mem =>
    absurd (Base64.digitValue_of_decodeString decoded mem) (by decide)
  have parts := (separated_inj_right (Base64.dot_notMem_encodeToString _) clean).mp presented
  exact ⟨_, _, ⟨rfl, rfl⟩, parts.1⟩

/-- The token of pc1 is the only one that was issued and the only one that is presented. -/
theorem sampleAccount_confined :
    ∃ tok, mintSlaveToken sampleAccount (ascii "pc1") (1790000000 * nanoseconds) = some tok ∧
      verifySlaveToken sampleAccount tok (1790003599 * nanoseconds) = some (ascii "pc1") ∧
      (∀ pc, verifySlaveToken sampleAccount tok (1790003600 * nanoseconds) ≠ some pc) ∧
      (∀ now pc, verifySlaveToken sampleAccount tok now = some pc → pc = ascii "pc1") ∧
      allowWrite (some (Issue.uid (.slave (ascii "pc1")))) [ascii "pcs", ascii "pc1"] = true := by
  have writable : Writable sampleAccount.clientEmail (Issue.uid (.slave (ascii "pc1")))
      (1790000000 * nanoseconds) :=
    ⟨validString_of_ascii (by decide), validString_of_ascii (by decide), by decide⟩
  have minted := mintSlaveToken_sample
  obtain ⟨opens, issuedOnly, rules⟩ := @tokens_confined sampleAccount sampleKey rfl
    fun _ => by simp [sampleKey]
  have accepted := opens (.slave (ascii "pc1")) _ sampleToken writable minted
  refine ⟨sampleToken, minted, (accepted _ _).mpr ⟨⟨rfl, by decide⟩, by decide⟩, ?_, ?_,
    (rules (.slave (ascii "pc1")) _).2.mpr ⟨_, [], rfl, rfl⟩⟩
  · exact fun pc late => absurd ((accepted _ pc).mp late).2 (by decide)
  · intro now pc taken
    have onlyOne : ∀ i signedAt, sampleIssued i signedAt →
        Writable sampleAccount.clientEmail i.uid signedAt := by
      rintro i signedAt ⟨rfl, rfl⟩
      exact writable
    obtain ⟨signedAt, issued, -⟩ :=
      issuedOnly sampleIssued (· = sampleToken) onlyOne sample_unforgeable _ now pc rfl taken
    exact (Issue.slave.inj issued.1)

end Drover.Web
