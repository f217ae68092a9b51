import Drover.Data.Base64
import Drover.Data.JsonValue
import Drover.WebAuth.Signer

/-!
# Signing session cookies

`Sign` and `Verify` of the `Signer` that `NewSigner` makes: the payload is the
JSON text of the token, in base64, and the MAC of that text stands behind a dot.
-/

namespace Drover.WebAuth

open JsonText

/-! ## The JSON of a token -/

/-- `json.Marshal`. -/
def marshal (t : Token) : Bytes :=
  openBrace :: (ascii "\"pc\":" ++ appendString t.pc ++ ascii ",\"scope\":" ++
    appendString t.scope ++ ascii ",\"exp\":" ++ decimal t.exp ++ [closeBrace])

/-- The fields of a token. -/
inductive Field where
  | pc
  | scope
  | exp
  deriving DecidableEq

/-- The fields by their names. -/
def fieldNames : List (Bytes × Field) :=
  [(ascii "pc", .pc), (ascii "scope", .scope), (ascii "exp", .exp)]

/-- `foldRune`, as far as it comes to ASCII letters: only two other runes fold
to one. -/
def foldRune : Bytes → Bytes
  | [b] => if 0x61 ≤ b ∧ b ≤ 0x7a then [b - 0x20] else [b]
  | r => if r = [0xc5, 0xbf] then ascii "S" else if r = [0xe2, 0x84, 0xaa] then ascii "K" else r

/-- `foldName`. -/
def foldName (name : Bytes) : Bytes := (runes name).flatMap foldRune

/-- The field of a key: the one of that very name, or else one of that name in
other letters. -/
def fieldOf (key : Bytes) : Option Field :=
  ((fieldNames.find? fun p => p.1 = key).or
    (fieldNames.find? fun p => foldName p.1 = foldName key)).map Prod.snd

/-- Store a value into a field; `null` leaves the field as it is. -/
def setField (t : Token) : Field → Value → Option Token
  | _, .null => some t
  | .pc, .string s => some { t with pc := s }
  | .scope, .string s => some { t with scope := s }
  | .exp, .number n => n.parseInt.map fun exp => { t with exp := exp }
  | _, _ => none

/-- A member of the object; a key without a field is skipped. -/
def setMember (t : Token) (member : Bytes × Value) : Option Token :=
  match fieldOf member.1 with
  | none => some t
  | some field => setField t field member.2

/-- The zero `Token`. -/
def zeroToken : Token := ⟨[], [], 0⟩

/-- `json.Unmarshal` into a zero `Token`, unless it fails. -/
def unmarshal (pj : Bytes) : Option Token :=
  (parse pj).bind fun v =>
    match v with
    | .object ms => ms.foldlM setMember zeroToken
    | .null => some zeroToken
    | _ => none

/-- The object that a token is written as. -/
def members (t : Token) : List (Bytes × Value) :=
  [(ascii "pc", .string t.pc), (ascii "scope", .string t.scope),
    (ascii "exp", .number (intNumber t.exp))]

theorem marshal_eq (t : Token) :
    marshal t = openBrace :: (appendString (ascii "pc") ++ colon :: (appendString t.pc ++ comma ::
      (appendString (ascii "scope") ++ colon :: (appendString t.scope ++ comma ::
        (appendString (ascii "exp") ++ colon :: (decimal t.exp ++ [closeBrace])))))) := by
  have pcText : ascii "\"pc\":" = appendString (ascii "pc") ++ [colon] := by decide
  have scopeText : ascii ",\"scope\":" = comma :: (appendString (ascii "scope") ++ [colon]) := by
    decide
  have expText : ascii ",\"exp\":" = comma :: (appendString (ascii "exp") ++ [colon]) := by decide
  rw [marshal, pcText, scopeText, expText]
  simp only [List.append_assoc, List.cons_append, List.nil_append]

theorem readItems_members {t : Token} (pcValid : ValidString t.pc)
    (scopeValid : ValidString t.scope) (depth fuel : Nat) :
    readItems (readMember (readValue depth)) closeBrace (fuel + 3) (marshal t).tail =
      some (members t, []) := by
  have delimited : Delimited [closeBrace] := by
    intro b isHead
    cases isHead
    decide
  have pcMember := readMember_appendString (validString_of_ascii (s := ascii "pc") (by decide))
    (readValue_appendString pcValid depth (comma ::
      (appendString (ascii "scope") ++ colon :: (appendString t.scope ++ comma ::
        (appendString (ascii "exp") ++ colon :: (decimal t.exp ++ [closeBrace]))))))
  have scopeMember := readMember_appendString
    (validString_of_ascii (s := ascii "scope") (by decide))
    (readValue_appendString scopeValid depth (comma ::
      (appendString (ascii "exp") ++ colon :: (decimal t.exp ++ [closeBrace]))))
  have expMember := readMember_appendString (validString_of_ascii (s := ascii "exp") (by decide))
    (readValue_decimal t.exp depth delimited)
  rw [marshal_eq, List.tail_cons, readItems_more pcMember, readItems_more scopeMember,
    readItems_last expMember (by decide) (by decide)]
  rfl

theorem parse_marshal {t : Token} (pcValid : ValidString t.pc) (scopeValid : ValidString t.scope) :
    parse (marshal t) = some (.object (members t)) := by
  have deep : maxNestingDepth = 9999 + 1 := rfl
  have whole : marshal t = openBrace :: (marshal t).tail := rfl
  have progress := progress_readMember (progress_readValue 9999)
  have items : readItems (readMember (readValue 9999)) closeBrace (marshal t).tail.length
      (marshal t).tail = some (members t, []) := by
    rw [readItems_eq progress (Nat.le_refl _) (Nat.le_add_right _ 3),
      readItems_members pcValid scopeValid]
  have opened : skipSpace (marshal t).tail = (marshal t).tail := by
    rw [marshal_eq]
    exact skipSpace_cons (by decide) _
  have container : readContainer (readMember (readValue 9999)) closeBrace (marshal t).tail =
      some (members t, []) := by
    rw [readContainer, opened]
    rw [marshal_eq] at items ⊢
    exact items
  rw [parse, deep, readValue, whole, skipSpace_cons (by decide)]
  simp only [if_true, container]
  rfl

theorem foldlM_members {t : Token} (low : -9223372036854775808 ≤ t.exp)
    (high : t.exp ≤ 9223372036854775807) : (members t).foldlM setMember zeroToken = some t := by
  have pcField : fieldOf (ascii "pc") = some .pc := by decide
  have scopeField : fieldOf (ascii "scope") = some .scope := by decide
  have expField : fieldOf (ascii "exp") = some .exp := by decide
  simp [members, setMember, pcField, scopeField, expField, setField, parseInt_intNumber low high]

/-- A token is read from its JSON. -/
theorem unmarshal_marshal {t : Token} (pcValid : ValidString t.pc)
    (scopeValid : ValidString t.scope) (low : -9223372036854775808 ≤ t.exp)
    (high : t.exp ≤ 9223372036854775807) : unmarshal (marshal t) = some t := by
  rw [unmarshal, parse_marshal pcValid scopeValid, Option.bind_some]
  exact foldlM_members low high

/-! ## Signatures -/

/-- `NewSigner`, for an implementation of HMAC-SHA256. -/
def newSigner (hmac : Bytes → Bytes → Bytes) (secret : Bytes) : Signer where
  mac := hmac secret
  encodeToString := Base64.encodeToString
  decodeString := Base64.decodeString
  unmarshal := unmarshal

/-- The payload text of a token. -/
def payload (t : Token) : Bytes := Base64.encodeToString (marshal t)

/-- `Sign`. -/
def Signer.sign (signer : Signer) (t : Token) : Bytes :=
  payload t ++ dot :: signer.encodeToString (signer.mac (payload t))

theorem verify_eq_none_of_notMem {signer : Signer} {tok : Bytes} (noDot : dot ∉ tok) (now : Int) :
    signer.verify now tok = none := by
  have position : tok.idxOf dot = tok.length := List.idxOf_eq_length noDot
  simp only [Signer.verify, position, true_or, or_true, if_true]

/-- `Verify` of the text before and behind the first dot. -/
theorem verify_append {signer : Signer} {p s : Bytes} (clean : dot ∉ p) (now : Int) :
    signer.verify now (p ++ dot :: s) =
      if p = [] ∨ s = [] then none
      else if s ≠ signer.encodeToString (signer.mac p) then none
      else ((signer.decodeString p).bind signer.unmarshal).filter
        fun t => t.exp = 0 ∨ now ≤ t.exp := by
  have position : (p ++ dot :: s).idxOf dot = p.length := by
    rw [List.idxOf_append_of_notMem clean, List.idxOf_cons_self, Nat.add_zero]
  have before : (p ++ dot :: s).take p.length = p := List.take_left
  have behind : (p ++ dot :: s).drop (p.length + 1) = s := by
    rw [← List.drop_drop, List.drop_left, List.drop_one, List.tail_cons]
  have atEnd : (p.length = 0 ∨ p.length = (p ++ dot :: s).length ∨
      p.length + 1 = (p ++ dot :: s).length) ↔ p = [] ∨ s = [] := by
    rw [List.length_append, List.length_cons, ← List.length_eq_zero_iff,
      ← List.length_eq_zero_iff (l := s)]
    omega
  simp only [Signer.verify, position, before, behind, atEnd]
  cases signer.decodeString p with
  | none => rfl
  | some pj =>
      cases read : signer.unmarshal pj with
      | none => simp only [Option.bind_some, read, Option.filter_none]
      | some t =>
          have expired : (t.exp ≠ 0 ∧ t.exp < now) ↔ ¬ (t.exp = 0 ∨ now ≤ t.exp) := by omega
          simp only [Option.bind_some, read, Option.filter_some, expired, ite_not,
            decide_eq_true_eq]

/-- What `Verify` checks of it. -/
theorem verify_append_iff {signer : Signer} {p s : Bytes} (clean : dot ∉ p) {now : Int}
    {t : Token} :
    signer.verify now (p ++ dot :: s) = some t ↔
      (p ≠ [] ∧ s ≠ []) ∧ s = signer.encodeToString (signer.mac p) ∧
        (∃ pj, signer.decodeString p = some pj ∧ signer.unmarshal pj = some t) ∧
        (t.exp = 0 ∨ now ≤ t.exp) := by
  rw [verify_append clean]
  by_cases empty : p = [] ∨ s = []
  · rw [if_pos empty, ← not_or, iff_false_right (fun checked => checked.1 empty)]
    intro same
    cases same
  · rw [if_neg empty, ← not_or, and_iff_right empty]
    by_cases signed : s = signer.encodeToString (signer.mac p)
    · rw [if_neg (not_not.mpr signed), and_iff_right signed, Option.filter_eq_some_iff,
        Option.bind_eq_some_iff, decide_eq_true_iff]
    · rw [if_pos signed, iff_false_right (fun checked => signed checked.1)]
      intro same
      cases same

/-- An accepted string is a payload text and its MAC. -/
theorem eq_append_of_verify {signer : Signer} {now : Int} {tok : Bytes} {t : Token}
    (verified : signer.verify now tok = some t) :
    ∃ p s, tok = p ++ dot :: s ∧ dot ∉ p ∧ s = signer.encodeToString (signer.mac p) ∧
      ∃ pj, signer.decodeString p = some pj ∧ signer.unmarshal pj = some t := by
  by_cases found : dot ∈ tok
  · obtain ⟨p, s, rfl, clean⟩ := List.eq_append_cons_of_mem found
    obtain ⟨-, signed, read, -⟩ := (verify_append_iff clean).mp verified
    exact ⟨p, s, rfl, clean, signed, read⟩
  · rw [verify_eq_none_of_notMem found] at verified
    cases verified

/-- A signed token is accepted until it expires. -/
theorem verify_sign {hmac : Bytes → Bytes → Bytes}
    (sum : ∀ key text, (hmac key text).length = 32) (secret : Bytes) {t : Token}
    (pcValid : ValidString t.pc) (scopeValid : ValidString t.scope)
    (low : -9223372036854775808 ≤ t.exp) (high : t.exp ≤ 9223372036854775807) (now : Int) :
    (newSigner hmac secret).verify now ((newSigner hmac secret).sign t) =
      if t.exp = 0 ∨ now ≤ t.exp then some t else none := by
  have clean : dot ∉ payload t := Base64.dot_notMem_encodeToString _
  have nonempty : payload t ≠ [] := by
    rw [payload, ne_eq, Base64.encodeToString_eq_nil_iff]
    exact List.cons_ne_nil _ _
  have signature : (newSigner hmac secret).encodeToString
      ((newSigner hmac secret).mac (payload t)) ≠ [] := by
    have isSum : (newSigner hmac secret).encodeToString ((newSigner hmac secret).mac (payload t)) =
        Base64.encodeToString (hmac secret (payload t)) := rfl
    rw [isSum, ne_eq, Base64.encodeToString_eq_nil_iff, ← List.length_eq_zero_iff, sum]
    decide
  have read : ((newSigner hmac secret).decodeString (payload t)).bind
      (newSigner hmac secret).unmarshal = some t := by
    have decoded : (newSigner hmac secret).decodeString (payload t) = some (marshal t) :=
      Base64.decodeString_encodeToString _
    rw [decoded, Option.bind_some]
    exact unmarshal_marshal pcValid scopeValid low high
  rw [Signer.sign, verify_append clean, if_neg (not_or.mpr ⟨nonempty, signature⟩),
    if_neg (not_not.mpr rfl), read, Option.filter_some]
  simp only [decide_eq_true_eq]

/-- Nobody but the signer finds the MAC of a text: who presents one got the text
from a token that was issued. -/
def Unforgeable (signer : Signer) (issued : Token → Prop) (presented : Bytes → Prop) : Prop :=
  ∀ p s, presented (p ++ dot :: s) → s = signer.encodeToString (signer.mac p) →
    ∃ t, issued t ∧ p = payload t

/-- A cookie that is accepted was issued. -/
theorem issued_of_verify {hmac : Bytes → Bytes → Bytes} {secret : Bytes} {issued : Token → Prop}
    {presented : Bytes → Prop} (unforgeable : Unforgeable (newSigner hmac secret) issued presented)
    {now : Int} {tok : Bytes} {t : Token} (isPresented : presented tok)
    (verified : (newSigner hmac secret).verify now tok = some t) :
    ∃ t', issued t' ∧ tok = (newSigner hmac secret).sign t' := by
  obtain ⟨p, s, rfl, -, signed, -⟩ := eq_append_of_verify verified
  obtain ⟨t', isIssued, rfl⟩ := unforgeable p s isPresented signed
  exact ⟨t', isIssued, by rw [signed, Signer.sign]⟩

/-- Session cookies come back, and nobody else makes any.  For every key: a
token is accepted from its cookie until it expires; what is accepted is a payload
text and its MAC, and is read from the payload; no other string is accepted with
the same payload text; and no string but the cookies issued, unless a MAC is
forged. -/
theorem cookies {hmac : Bytes → Bytes → Bytes} (sum : ∀ key text, (hmac key text).length = 32)
    (secret : Bytes) :
    (∀ t : Token, ValidString t.pc → ValidString t.scope → -9223372036854775808 ≤ t.exp →
      t.exp ≤ 9223372036854775807 → ∀ now,
        (newSigner hmac secret).verify now ((newSigner hmac secret).sign t) =
          if t.exp = 0 ∨ now ≤ t.exp then some t else none) ∧
    (∀ now tok t, (newSigner hmac secret).verify now tok = some t →
      ∃ p s, tok = p ++ dot :: s ∧ dot ∉ p ∧ s = Base64.encodeToString (hmac secret p) ∧
        (∃ pj, Base64.decodeString p = some pj ∧ unmarshal pj = some t) ∧
        ∀ now' s' t', (newSigner hmac secret).verify now' (p ++ dot :: s') = some t' → s' = s) ∧
    ∀ issued presented, Unforgeable (newSigner hmac secret) issued presented →
      ∀ now tok t, presented tok → (newSigner hmac secret).verify now tok = some t →
        ∃ t', issued t' ∧ tok = (newSigner hmac secret).sign t' := by
  constructor
  · intro t pcValid scopeValid low high now
    exact verify_sign sum secret pcValid scopeValid low high now
  · constructor
    · intro now tok t verified
      obtain ⟨p, s, rfl, clean, signed, read⟩ := eq_append_of_verify verified
      have noOther : ∀ now' s' t',
          (newSigner hmac secret).verify now' (p ++ dot :: s') = some t' → s' = s := by
        intro now' s' t' verified'
        obtain ⟨-, signed', -⟩ := (verify_append_iff clean).mp verified'
        exact signed'.trans signed.symm
      exact ⟨p, s, rfl, clean, signed, read, noOther⟩
    · intro issued presented unforgeable now tok t isPresented verified
      exact issued_of_verify unforgeable isPresented verified

/-- The token of a PC without expiry. -/
def pcToken : Token := ⟨ascii "pc1", ascii "*", 0⟩

/-- HMAC-SHA256 under the key `secret`, of the payload text of that token. -/
def pcTokenMAC : Bytes :=
  [0x98, 0xc0, 0x2e, 0xe1, 0x3e, 0x25, 0x31, 0xad, 0x14, 0x70, 0x63, 0xb7, 0xb1, 0xd5, 0x21, 0xac,
    0x29, 0x79, 0x79, 0x74, 0xdf, 0xf1, 0xc6, 0xac, 0xa2, 0x81, 0x7b, 0x41, 0x45, 0x1d, 0xdf, 0xfb]

theorem cookie_returns_pcToken :
    (newSigner (fun _ _ => pcTokenMAC) (ascii "secret")).verify 1790000000
        ((newSigner (fun _ _ => pcTokenMAC) (ascii "secret")).sign pcToken) = some pcToken := by
  have returned := (@cookies (fun _ _ => pcTokenMAC) (fun _ _ => rfl) (ascii "secret")).1
    pcToken (validString_of_ascii (by decide)) (validString_of_ascii (by decide)) (by decide)
    (by decide) 1790000000
  exact returned.trans (if_pos (.inl rfl))

end Drover.WebAuth
