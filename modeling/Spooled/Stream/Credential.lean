import Spooled.Auth.Session
import Spooled.Lib.Form

/-!
# The credential of a realtime stream

The middleware takes the token of a realtime request from the `Authorization`
header or from the raw query string, whose pairs it splits and decodes by hand.
`stream_session` looks for the same token again, with the form parser, to bind the
stream to its expiry and its session. The two find the same token unless the first
parameter for the form parser has an encoded spelling of `token` or `api_key` as its name.
-/

namespace Spooled.Auth

/-! ## The token of a request -/

def ascii (s : String) : Bytes := s.toList.map fun c => UInt8.ofNat c.toNat

/-- `HeaderValue::to_str`. -/
def isVisible (b : UInt8) : Bool := b == 0x09 || (0x20 ≤ b && b < 0x7F)

variable (authorization : Option Bytes) (query : Bytes)

/-- The token of `Authorization: Bearer`. -/
def bearerToken : Option Bytes :=
  (authorization.filter (·.all isVisible)).bind (ascii "Bearer ").isPrefixOf?

/-- `u8::from_str_radix` of two bytes, base 16: a sign may stand before the last digit. -/
def fromStrRadix (h l : UInt8) : Option UInt8 :=
  if h = Form.plus then Form.hexValue l else Form.hexByte h l

/-- `percent_decode`. -/
def percentDecode : Bytes → Bytes
  | b :: h :: l :: rest =>
    if b = Form.percent then
      match fromStrRadix h l with
      | some x => x :: percentDecode rest
      | none => b :: percentDecode (h :: l :: rest)
    else (if b = Form.plus then Form.space else b) :: percentDecode (h :: l :: rest)
  | bs => Form.plusToSpace bs

def isCredentialName (name : Bytes) : Bool := name == ascii "token" || name == ascii "api_key"

def extractQueryCredential : Option Bytes :=
  (query.splitOn Form.ampersand).findSome? fun pair =>
    match Form.nameAndValue pair with
    | (name, some value) =>
      if isCredentialName name ∧ Form.lossy (percentDecode value) ≠ [] then
        some (Form.lossy (percentDecode value))
      else none
    | (_, none) => none

/-- The token the middleware authenticates. -/
def requestToken : Option Bytes :=
  (bearerToken authorization).or (extractQueryCredential query)

/-- The token `stream_session` looks at. -/
def streamToken : Option Bytes :=
  (bearerToken authorization).or
    (((Form.parse query).find? fun z => isCredentialName z.1 && z.2 != []).map (·.2))

/-! ## Authentication -/

structure ApiKeyContext where
  apiKeyId : KeyId
  organizationId : OrgId
  queues : List Text
  rateLimit : Option Nat
deriving DecidableEq, Repr

/-- What decides about tokens. Tokens are printed texts: a JWT is base64url with dots, and API keys
are generated from such letters. -/
structure Verifier where
  /-- The claims of a token with a valid signature. -/
  signed : Bytes → Option Claims
  /-- Revocation, key and organization: the key's queues and rate limit. -/
  admits : Claims → Option (List Text × Option Nat)
  apiKey : Bytes → Option ApiKeyContext
  signed_visible : ∀ {t c}, signed t = some c → ∀ b ∈ t, 0x20 ≤ b
  apiKey_visible : ∀ {t ctx}, apiKey t = some ctx → ∀ b ∈ t, 0x20 ≤ b

namespace Verifier

variable (v : Verifier) (now : Time)

def decode (t : Bytes) : Option Claims :=
  (v.signed t).filter fun c => unixSeconds now ≤ c.exp + jwtLeeway

def authenticateJwtToken (t : Bytes) : Option ApiKeyContext :=
  ((v.decode now t).filter (·.tokenType == .access)).bind fun c =>
    (v.admits c).map fun g => ⟨c.apiKeyId, c.orgId, g.1, g.2⟩

end Verifier

def isJwt (t : Bytes) : Bool := (ascii "eyJ").isPrefixOf t

/-- The token of the request and its context, if the middleware lets it pass. -/
def authenticate (v : Verifier) (now : Time) (authorization : Option Bytes) (query : Bytes) :
    Option (Bytes × ApiKeyContext) :=
  (requestToken authorization query).bind fun t =>
    (if isJwt t then v.authenticateJwtToken now t else v.apiKey t).map fun ctx => (t, ctx)

/-! ## The stream -/

structure StreamSession where
  jti : Option Uuid := none
  sid : Option Uuid := none
  /-- In Unix seconds. -/
  validUntil : Option Nat := none
deriving DecidableEq, Repr

def Claims.streamSession (c : Claims) : StreamSession := ⟨some c.jti, c.sid, some (c.exp + jwtLeeway)⟩

/-- The claims of an access token that belongs to the context. -/
def Verifier.claimsFor (v : Verifier) (now : Time) (ctx : ApiKeyContext) (t : Bytes) :
    Option Claims :=
  (v.decode now t).filter fun c => c.tokenType == .access && c.apiKeyId == ctx.apiKeyId &&
    c.orgId == ctx.organizationId

/-- `stream_session`; `none`: the stream is refused. -/
def streamSession (v : Verifier) (now : Time) (authorization : Option Bytes) (query : Bytes)
    (ctx : ApiKeyContext) : Option StreamSession :=
  match (streamToken authorization query).filter isJwt with
  | none => some {}
  | some t => (v.claimsFor now ctx t).map Claims.streamSession

inductive StreamEnd
  | tokenExpired
  | revoked
  | maxAge
deriving DecidableEq, Repr

structure StreamAuth where
  session : StreamSession
  deadline : Time
  deadlineReason : StreamEnd
deriving DecidableEq, Repr

namespace StreamAuth

/-- `StreamAuth::new`. -/
def new (now maxAge : Time) (session : StreamSession) : StreamAuth :=
  match session.validUntil with
  | none => ⟨session, now + maxAge, .maxAge⟩
  | some validUntil =>
    if now + secs (validUntil - unixSeconds now) ≤ now + maxAge then
      ⟨session, now + secs (validUntil - unixSeconds now), .tokenExpired⟩
    else ⟨session, now + maxAge, .maxAge⟩

/-- `check_session`; `isTokenRevoked` answers for the token id and the session id. -/
def checkSession (a : StreamAuth) (now : Time)
    (isTokenRevoked : Option Uuid → Option Uuid → Option Bool) : Option StreamEnd :=
  if a.deadline ≤ now then some a.deadlineReason
  else if (a.session.jti.isSome || a.session.sid.isSome) &&
      isTokenRevoked a.session.jti a.session.sid == some true then some .revoked
  else none

end StreamAuth

/-! ## The two decoders -/

theorem hexValue_lt {b x : UInt8} (h : Form.hexValue b = some x) : x < 0x20 := by
  have hsub : ∀ c d : UInt8, c ≤ b → b ≤ d → d.toNat - c.toNat < 0x20 → b - c < 0x20 := by
    intro c d hc hd hlt
    rw [UInt8.lt_iff_toNat_lt, UInt8.toNat_sub_of_le _ _ hc]
    have hc := UInt8.le_iff_toNat_le.1 hc
    have hd := UInt8.le_iff_toNat_le.1 hd
    show b.toNat - c.toNat < 0x20
    omega
  unfold Form.hexValue at h
  split at h
  · next hb =>
    cases h
    exact hsub _ _ hb.1 hb.2 (by decide)
  · split at h
    · next hb =>
      cases h
      exact hsub _ _ (UInt8.le_trans (by decide) hb.1) hb.2 (by decide)
    · split at h
      · next hb =>
        cases h
        exact hsub _ _ (UInt8.le_trans (by decide) hb.1) hb.2 (by decide)
      · cases h

theorem hexValue_plus : Form.hexValue Form.plus = none := by decide

theorem hexValue_space : Form.hexValue Form.space = none := by decide

/-- `+` never counts as a digit for the form parser. -/
theorem hexByte_plusToSpace (h l : UInt8) :
    Form.hexByte (if h = Form.plus then Form.space else h) (if l = Form.plus then Form.space else l) =
      Form.hexByte h l := by
  have hsame : ∀ b : UInt8, Form.hexValue (if b = Form.plus then Form.space else b) =
      Form.hexValue b := by
    intro b
    split
    · next hb => rw [hb, hexValue_plus, hexValue_space]
    · rfl
  unfold Form.hexByte
  rw [hsame h, hsame l]

/-- **The two decoders agree** where the decoder by hand reads no signed digit, which would come
out as a control character. -/
theorem percentDecode_eq {bs : Bytes} (h : ∀ b ∈ percentDecode bs, 0x20 ≤ b) :
    percentDecode bs = Form.percentDecode (Form.plusToSpace bs) := by
  have hplus : ∀ b : UInt8, (if b = Form.plus then Form.space else b) = Form.percent →
      b = Form.percent := by
    intro b hb
    split at hb
    · exact absurd hb (by decide)
    · exact hb
  induction bs using percentDecode.induct with
  | case1 hd l rest x hx ih =>
    rw [percentDecode, if_pos rfl, hx] at h ⊢
    have hrest := ih fun b hb => h b (List.mem_cons_of_mem _ hb)
    have hbyte : Form.hexByte hd l = some x := by
      unfold fromStrRadix at hx
      split at hx
      · exact absurd (hexValue_lt hx) (UInt8.not_lt.2 (h x List.mem_cons_self))
      · exact hx
    show _ = Form.percentDecode (_ :: _ :: _ :: Form.plusToSpace rest)
    rw [Form.percentDecode, if_pos (by decide), hexByte_plusToSpace, hbyte, hrest]
  | case2 hd l rest hx ih =>
    rw [percentDecode, if_pos rfl, hx] at h ⊢
    have hrest := ih fun b hb => h b (List.mem_cons_of_mem _ hb)
    have hbyte : Form.hexByte hd l = none := by
      unfold fromStrRadix at hx
      split at hx
      · next hd => rw [hd, Form.hexByte, hexValue_plus]; rfl
      · exact hx
    show _ = Form.percentDecode (_ :: _ :: _ :: Form.plusToSpace rest)
    rw [Form.percentDecode, if_pos (by decide), hexByte_plusToSpace, hbyte, hrest]
    rfl
  | case3 b hd l rest hb ih =>
    rw [percentDecode, if_neg hb] at h ⊢
    have hrest := ih fun b hb => h b (List.mem_cons_of_mem _ hb)
    show _ = Form.percentDecode (_ :: _ :: _ :: Form.plusToSpace rest)
    rw [Form.percentDecode, if_neg fun h => hb (hplus b h), hrest]
    rfl
  | case4 bs hbs =>
    have hshort : ∀ b h l rest, Form.plusToSpace bs = b :: h :: l :: rest → False := by
      intro b h l rest hp
      match bs, hp with
      | b :: h :: l :: rest, _ => exact hbs b h l rest rfl
    rw [percentDecode.eq_2 _ hbs, Form.percentDecode.eq_2 _ hshort]

theorem percentDecode_eq_nil {bs : Bytes} : percentDecode bs = [] ↔ bs = [] := by
  constructor
  · intro h
    unfold percentDecode at h
    split at h
    · split at h
      · split at h <;> cases h
      · cases h
    · exact List.map_eq_nil_iff.1 h
  · rintro rfl
    rfl

/-! ## The same token -/

/-- The first parameter that is not empty and whose name decodes to `token` or `api_key`. -/
def credentialPair (query : Bytes) : Option (Bytes × Bytes) :=
  (Form.rawPairs query).find? fun z => isCredentialName (Form.decode z.1) && z.2 != []

/-- That parameter has its name plainly, or its value is the token all the same, or another JWT,
with which the stream is refused. -/
def NamesToken (v : Verifier) (now : Time) (authorization : Option Bytes) (query t : Bytes)
    (ctx : ApiKeyContext) : Prop :=
  bearerToken authorization = none → ∀ z, credentialPair query = some z →
    isCredentialName z.1 = true ∨ Form.decode z.2 = t ∨
      isJwt (Form.decode z.2) = true ∧ v.claimsFor now ctx (Form.decode z.2) = none

theorem isCredentialName_decode {name : Bytes} (h : isCredentialName name = true) :
    isCredentialName (Form.decode name) = true := by
  unfold isCredentialName at h
  simp only [Bool.or_eq_true, beq_iff_eq] at h
  rcases h with rfl | rfl <;> decide

theorem decode_eq_of_visible {value : Bytes}
    (h : ∀ b ∈ Form.lossy (percentDecode value), 0x20 ≤ b) :
    Form.decode value = Form.lossy (percentDecode value) := by
  unfold Form.decode
  rw [percentDecode_eq fun b hb => ?_]
  by_contra hlt
  have hlt := UInt8.not_le.1 hlt
  exact UInt8.not_le.2 hlt (h b (Form.mem_lossy (UInt8.lt_of_lt_of_le hlt (by decide)) hb))

theorem extractQueryCredential_eq {query : Bytes} : extractQueryCredential query =
    ((Form.rawPairs query).find? fun z => isCredentialName z.1 && z.2 != []).map
      fun z => Form.lossy (percentDecode z.2) := by
  unfold extractQueryCredential Form.rawPairs
  induction query.splitOn Form.ampersand with
  | nil => rfl
  | cons pair pairs ih =>
    rw [List.findSome?_cons, List.map_cons, List.find?_cons, ih]
    generalize Form.nameAndValue pair = z
    obtain ⟨name, value⟩ := z
    cases value with
    | none => simp
    | some value =>
      have hvalue : Form.lossy (percentDecode value) ≠ [] ↔ (value != []) = true := by
        rw [bne_iff_ne, ne_eq, Form.lossy_eq_nil, percentDecode_eq_nil]
      simp only [hvalue, ← Bool.and_eq_true, Option.getD_some]
      cases isCredentialName name && value != [] <;> rfl

theorem streamToken_eq {authorization : Option Bytes} (h : bearerToken authorization = none)
    (query : Bytes) :
    streamToken authorization query = (credentialPair query).map fun z => Form.decode z.2 := by
  unfold streamToken credentialPair
  rw [h, Option.none_or, Form.find_parse (by decide)]

theorem decode_credentialPair {query t : Bytes} {z : Bytes × Bytes}
    (h : extractQueryCredential query = some t) (ht : ∀ b ∈ t, 0x20 ≤ b)
    (hz : credentialPair query = some z) (hname : isCredentialName z.1 = true) :
    Form.decode z.2 = t := by
  unfold credentialPair at hz
  have hin := List.find?_some hz
  rw [Bool.and_eq_true] at hin
  have hfound := Form.find?_of_find? (p := fun z => isCredentialName z.1 && z.2 != [])
    (fun y hy => by
      rw [Bool.and_eq_true] at hy ⊢
      exact ⟨isCredentialName_decode hy.1, hy.2⟩) hz (Bool.and_eq_true_iff.2 ⟨hname, hin.2⟩)
  rw [extractQueryCredential_eq, hfound] at h
  cases h
  exact decode_eq_of_visible ht

section Binding

variable {v : Verifier} {now now' : Time} {authorization : Option Bytes} {query t : Bytes}
  {ctx : ApiKeyContext}

theorem authenticate_eq_some (h : authenticate v now authorization query = some (t, ctx)) :
    requestToken authorization query = some t ∧ ∀ b ∈ t, 0x20 ≤ b := by
  obtain ⟨t', ht', hctx⟩ := Option.bind_eq_some_iff.1 h
  obtain ⟨ctx', hctx, he⟩ := Option.map_eq_some_iff.1 hctx
  cases he
  split at hctx
  · obtain ⟨c, hc, -⟩ := Option.bind_eq_some_iff.1 hctx
    have hc := (Option.filter_eq_some_iff.1 (Option.filter_eq_some_iff.1 hc).1).1
    exact ⟨ht', v.signed_visible hc⟩
  · exact ⟨ht', v.apiKey_visible hctx⟩

theorem streamSession_eq (htoken : streamToken authorization query = some t) {s : StreamSession}
    (hs : streamSession v now authorization query ctx = some s) :
    (isJwt t = false ∧ s = {}) ∨ isJwt t = true ∧ ∃ c, v.signed t = some c ∧ s = c.streamSession := by
  unfold streamSession at hs
  rw [htoken] at hs
  cases hjwt : isJwt t with
  | false =>
    rw [Option.filter_some, hjwt] at hs
    cases hs
    exact .inl ⟨rfl, rfl⟩
  | true =>
    rw [Option.filter_some, hjwt] at hs
    obtain ⟨c, hc, rfl⟩ := Option.map_eq_some_iff.1 hs
    have hc := (Option.filter_eq_some_iff.1 (Option.filter_eq_some_iff.1 hc).1).1
    exact .inr ⟨rfl, c, hc, rfl⟩

/-- When `stream_session` does not look at another token. -/
theorem streamToken_iff (h : authenticate v now authorization query = some (t, ctx)) :
    streamToken authorization query = some t ∨
        streamSession v now' authorization query ctx = none ↔
      NamesToken v now' authorization query t ctx := by
  obtain ⟨hreq, hvis⟩ := authenticate_eq_some h
  unfold requestToken at hreq
  cases hbearer : bearerToken authorization with
  | some t' =>
    rw [hbearer] at hreq
    refine iff_of_true (.inl ?_) fun hnone => absurd (hbearer.symm.trans hnone) nofun
    unfold streamToken
    rw [hbearer]
    exact hreq
  | none =>
    rw [hbearer, Option.none_or] at hreq
    unfold NamesToken streamSession
    rw [streamToken_eq hbearer]
    cases hz : credentialPair query with
    | none =>
      -- the parameter that the middleware took is one whose name decodes
      rw [extractQueryCredential_eq] at hreq
      obtain ⟨z, hz', -⟩ := Option.map_eq_some_iff.1 hreq
      have hin := List.find?_some hz'
      rw [Bool.and_eq_true] at hin
      have hno := List.find?_eq_none.1 hz z (List.mem_of_find?_eq_some hz')
      rw [isCredentialName_decode hin.1, hin.2] at hno
      exact absurd rfl hno
    | some z =>
      have hplain := decode_credentialPair hreq hvis hz
      have hrefused : (match (some (Form.decode z.2)).filter isJwt with
          | none => some ({} : StreamSession)
          | some t => (v.claimsFor now' ctx t).map Claims.streamSession) = none ↔
          isJwt (Form.decode z.2) = true ∧ v.claimsFor now' ctx (Form.decode z.2) = none := by
        rw [Option.filter_some]
        cases isJwt (Form.decode z.2) <;> simp
      rw [Option.map_some, Option.some.injEq, hrefused]
      constructor
      · rintro hor - _ ⟨⟩
        exact .inr hor
      · intro hall
        rcases hall hbearer z rfl with hname | hor
        · exact .inl (hplain hname)
        · exact hor

/-- **A stream is bound to the credential that opened it**: `stream_session` looks at the token the
middleware authenticated, or refuses the stream, if and only if the parameter it finds is named
plainly or does no harm. Then a stream opened with a JWT has its expiry, its token id and its
session id, and two requests with one token get streams that end together. -/
theorem stream_bound_to_credential (h : authenticate v now authorization query = some (t, ctx))
    (later : Time) :
    (streamToken authorization query = some t ∨
        streamSession v later authorization query ctx = none ↔
      NamesToken v later authorization query t ctx) ∧
    (NamesToken v later authorization query t ctx →
      ∀ s, streamSession v later authorization query ctx = some s →
        ((isJwt t = false ∧ s = {}) ∨
          isJwt t = true ∧ ∃ c, v.signed t = some c ∧ s = c.streamSession) ∧
        (∀ now' authorization' query' ctx',
          authenticate v now' authorization' query' = some (t, ctx') →
          ∀ later', NamesToken v later' authorization' query' t ctx' →
          ∀ s', streamSession v later' authorization' query' ctx' = some s' →
          ∀ opened maxAge, (StreamAuth.new opened maxAge s).deadline =
              (StreamAuth.new opened maxAge s').deadline ∧
            ∀ time isTokenRevoked,
              (StreamAuth.new opened maxAge s).checkSession time isTokenRevoked =
                (StreamAuth.new opened maxAge s').checkSession time isTokenRevoked)) := by
  refine ⟨streamToken_iff h, fun hnames s hs => ?_⟩
  have hsame := ((streamToken_iff h).2 hnames).resolve_right (by rw [hs]; nofun)
  refine ⟨streamSession_eq hsame hs, ?_⟩
  intro now' authorization' query' ctx' h' later' hnames' s' hs' opened maxAge
  have hsame' := ((streamToken_iff h').2 hnames').resolve_right (by rw [hs']; nofun)
  have heq : s = s' := by
    rcases streamSession_eq hsame hs with ⟨hj, rfl⟩ | ⟨hj, c, hc, rfl⟩ <;>
      rcases streamSession_eq hsame' hs' with ⟨hj', rfl⟩ | ⟨hj', c', hc', rfl⟩
    · rfl
    · exact absurd (hj.symm.trans hj') nofun
    · exact absurd (hj.symm.trans hj') nofun
    · rw [Option.some.inj (hc.symm.trans hc')]
  subst heq
  exact ⟨rfl, fun _ _ => rfl⟩

end Binding

/-- One access token, `eyJa`, of session 5. -/
def oneToken : Verifier where
  signed t := if t = ascii "eyJa" then some ⟨1, 7, 3600, 3, .access, some 5⟩ else none
  admits _ := some ([], none)
  apiKey _ := none
  signed_visible {t c} h := by
    split at h
    · next ht =>
      subst ht
      decide +kernel
    · cases h
  apiKey_visible h := by cases h

theorem stream_bound_to_credential_spelled :
    authenticate oneToken 0 none (ascii "token=eyJa") = some (ascii "eyJa", ⟨1, 7, [], none⟩) ∧
    authenticate oneToken 0 none (ascii "x=%+1&token=&api_key=eyJ%61&%74oken=x") =
      some (ascii "eyJa", ⟨1, 7, [], none⟩) ∧
    ∀ s s', streamSession oneToken 0 none (ascii "token=eyJa") ⟨1, 7, [], none⟩ = some s →
      streamSession oneToken 0 none (ascii "x=%+1&token=&api_key=eyJ%61&%74oken=x") ⟨1, 7, [], none⟩ = some s' →
      (StreamAuth.new 0 (secs 7200) s).deadline = (StreamAuth.new 0 (secs 7200) s').deadline := by
  have h : authenticate oneToken 0 none (ascii "token=eyJa") =
      some (ascii "eyJa", ⟨1, 7, [], none⟩) := by decide +kernel
  have h' : authenticate oneToken 0 none (ascii "x=%+1&token=&api_key=eyJ%61&%74oken=x") =
      some (ascii "eyJa", ⟨1, 7, [], none⟩) := by decide +kernel
  have hnames : ∀ query : Bytes, (credentialPair query).all (isCredentialName ·.1) = true →
      NamesToken oneToken 0 none query (ascii "eyJa") ⟨1, 7, [], none⟩ := by
    intro query hall _ z hz
    rw [hz] at hall
    exact .inl hall
  refine ⟨h, h', fun s s' hs hs' => ?_⟩
  have hbound := (stream_bound_to_credential h 0).2 (hnames _ (by decide +kernel)) s hs
  exact (hbound.2 _ _ _ _ h' 0 (hnames _ (by decide +kernel)) s' hs' 0 (secs 7200)).1

/-- The middleware takes the token; `stream_session` decodes the name of an earlier parameter, and
opens the stream with no expiry and no session. -/
theorem encoded_name_unbinds_stream :
    authenticate oneToken 0 none (ascii "%74oken=x&token=eyJa") =
      some (ascii "eyJa", ⟨1, 7, [], none⟩) ∧
    streamToken none (ascii "%74oken=x&token=eyJa") = some (ascii "x") ∧
    streamSession oneToken 0 none (ascii "%74oken=x&token=eyJa") ⟨1, 7, [], none⟩ = some {} := by
  decide +kernel

end Spooled.Auth
