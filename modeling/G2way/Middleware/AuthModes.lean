import G2way.Middleware.Auth

/-!
# Do credentials keep to their mode?

Basic-auth users, signing keys and client certificates have their sessions in the
same storage as plain tokens do, under the hash of a text with the mode's prefix.
The source relies on the prefixes: "a raw API key can never collide with a
certificate identity"; "a username can never collide with the SHA-256 of a stored
raw token".

## What is proved

The prefixes do not do it. An `auth_token` API hashes whatever text the client
sends, so the plain token `basic:alice` is looked up where alice's session is
stored, and no password is asked for (`plain_token_takes_basic_session`).

`credentials_stay_in_their_mode_iff` says for which API and which request the
three kinds of identity are safe, whatever is stored: always, unless an
`auth_token` API is sent the raw key of an identity as a plain token. What each
mode has checked when it accepts a request is said once for each mode, by
`authenticateStoredToken_ok`, `authenticateBasic_ok`, `authenticateHmac_ok`,
`authenticateJwt_ok` and `buildOidcSession_ok`.
-/

namespace G2way.Middleware.Auth

open G2way.Core G2way.Lib G2way.Lib.Result G2way.Middleware.Hmac

variable {Key Validation : Type} {c : Crates Key Validation} {store : Storage} {now : ℕ}
  {st : AuthState Key Validation} {req : Request} {ctx : SessionContext}

/-! ### Identities -/

/-- Who a stored session belongs to, in the three modes that ask for a proof. -/
inductive Identity where
  /-- A basic-auth user. -/
  | basicUser (username : String)
  /-- An HMAC signing key. -/
  | hmacKey (keyId : String)
  /-- A client certificate. -/
  | clientCert (fingerprint : String)
  deriving DecidableEq, Repr

/-- The text whose hash the identity's session is stored under. -/
def Identity.rawKey : Identity → String
  | .basicUser username => "basic:" ++ username
  | .hmacKey keyId => "hmac:" ++ keyId
  | .clientCert fingerprint => "mtls:" ++ fingerprint

/-- Texts with prefixes that differ in their first character differ. -/
theorem append_ne_of_head {p q s t : String} {a b : Char} {p' q' : List Char} (hp : p.toList = a :: p')
    (hq : q.toList = b :: q') (hab : a ≠ b) : p ++ s ≠ q ++ t := by
  intro h
  have hl := congrArg String.toList h
  simp only [String.toList_append, hp, hq, List.cons_append, List.cons.injEq] at hl
  exact hab hl.1

/-- The prefixes keep the three kinds apart from each other. -/
theorem Identity.rawKey_injective : Function.Injective Identity.rawKey := by
  intro i j h
  cases i with
  | basicUser u =>
    cases j with
    | basicUser v => rw [(String.append_right_inj "basic:").1 h]
    | hmacKey k => exact absurd h (append_ne_of_head rfl rfl (by decide))
    | clientCert f => exact absurd h (append_ne_of_head rfl rfl (by decide))
  | hmacKey k =>
    cases j with
    | basicUser v => exact absurd h (append_ne_of_head rfl rfl (by decide))
    | hmacKey l => rw [(String.append_right_inj "hmac:").1 h]
    | clientCert f => exact absurd h (append_ne_of_head rfl rfl (by decide))
  | clientCert f =>
    cases j with
    | basicUser v => exact absurd h (append_ne_of_head rfl rfl (by decide))
    | hmacKey l => exact absurd h (append_ne_of_head rfl rfl (by decide))
    | clientCert g => rw [(String.append_right_inj "mtls:").1 h]

/-- And from the identities of token claims. -/
theorem Identity.rawKey_ne_jwt (id : Identity) (sub : String) : "jwt:" ++ sub ≠ id.rawKey := by
  cases id with
  | basicUser u => exact append_ne_of_head rfl rfl (by decide)
  | hmacKey k => exact append_ne_of_head rfl rfl (by decide)
  | clientCert f => exact append_ne_of_head rfl rfl (by decide)

theorem Identity.rawKey_ne_oidc (id : Identity) (sub : String) : "oidc:" ++ sub ≠ id.rawKey := by
  cases id with
  | basicUser u => exact append_ne_of_head rfl rfl (by decide)
  | hmacKey k => exact append_ne_of_head rfl rfl (by decide)
  | clientCert f => exact append_ne_of_head rfl rfl (by decide)

/-- The session stored under a key hash. -/
def Stored (c : Crates Key Validation) (store : Storage) (orgId keyHash : String) (s : KeySession) : Prop :=
  ∃ record, store (sessionStorageKey orgId keyHash) = .ok (some record) ∧ c.sessionFromJson record = some s

/-- The request carries the identity's proof: the password that matches the stored hash, a
signature that verifies under the stored secret, or a verified certificate with that
fingerprint. -/
def CarriesProof (c : Crates Key Validation) (store : Storage) (orgId : String) (req : Request) :
    Identity → Prop
  | .basicUser username => ∃ password session data,
      extractBasicCredentials c req = some (username, password) ∧
      Stored c store orgId (c.hashKey ("basic:" ++ username)) session ∧ session.basicAuth = some data ∧
      c.bcryptVerify password data.passwordHash = .ok true
  | .hmacKey keyId => ∃ value params algorithm signingString session data,
      req.headers.getStr "authorization" = some value ∧
      parseSignatureHeader c.base64Decode value = some params ∧ params.keyId = keyId ∧
      buildSigningString req params.headers = some signingString ∧
      Stored c store orgId (c.hashKey ("hmac:" ++ keyId)) session ∧ session.hmac = some data ∧
      c.hmacVerify algorithm (Text.utf8 data.secret) (Text.utf8 signingString) params.signature = true
  | .clientCert fingerprint => req.extensions.connection.bind (·.clientCertFingerprint) = some fingerprint

/-! ### What each mode has checked -/

theorem storageGet_eq_ok {key : String} {r : Option String} :
    storageGet store key = .ok r ↔ store key = .ok r := by
  unfold storageGet
  cases store key with
  | ok record => simp
  | error u => simp

theorem verifyPassword_eq_ok {password hash : String} {b : Bool} :
    verifyPassword c password hash = .ok b ↔ c.bcryptVerify password hash = .ok b := by
  unfold verifyPassword
  cases c.bcryptVerify password hash with
  | ok r => simp
  | error u => simp

theorem lookupSession_eq_some {orgId keyHash : String} {s : KeySession} :
    lookupSession c store orgId keyHash = .ok (some s) ↔ Stored c store orgId keyHash s := by
  unfold lookupSession Stored
  simp only [bind_eq_ok, storageGet_eq_ok]
  constructor
  · rintro ⟨r, hr, h⟩
    cases r with
    | none => simp at h
    | some record => exact ⟨record, hr, by simpa using h⟩
  · rintro ⟨record, hr, h⟩
    exact ⟨some record, hr, by simpa using h⟩

/-- A session is attached under the hash it was looked up with. -/
theorem grantSession_keyHash {s : KeySession} {keyHash : String}
    (h : grantSession c store st s keyHash = .ok ctx) : ctx.keyHash = keyHash := by
  simp only [grantSession, bind_eq_ok, pure_eq_ok] at h
  obtain ⟨_, _, _, _, rfl⟩ := h
  rfl

theorem authenticateStoredToken_ok {token : String}
    (h : authenticateStoredToken c store now st token = .ok ctx) : ctx.keyHash = c.hashKey token := by
  simp only [authenticateStoredToken, bind_eq_ok] at h
  obtain ⟨_, _, _, _, _, _, h⟩ := h
  exact grantSession_keyHash h

theorem authenticateBasic_ok {challenge : String} (h : authenticateBasic c store now st challenge req = .ok ctx) :
    ∃ username, ctx.keyHash = c.hashKey (Identity.basicUser username).rawKey ∧
      CarriesProof c store st.orgId req (.basicUser username) := by
  simp only [authenticateBasic, bind_eq_ok, okOr_eq_ok, ensure_eq_ok] at h
  obtain ⟨⟨username, password⟩, hcred, session, hlookup, verified, hverify, s, rfl, _, hcheck, h⟩ := h
  simp only [Bool.and_eq_true, Option.isSome_iff_exists] at hcheck
  obtain ⟨⟨⟨rfl, data, hdata⟩, _⟩, _⟩ := hcheck
  refine ⟨username, grantSession_keyHash h, password, s, data, hcred, lookupSession_eq_some.1 hlookup, hdata, ?_⟩
  simpa only [Option.bind_some, hdata, Option.elim_some, verifyPassword_eq_ok] using hverify

theorem authenticateHmac_ok {algorithms : List HmacAlgorithm} {skew : Option ℕ}
    (h : authenticateHmac c store now st algorithms skew req = .ok ctx) :
    ∃ keyId, ctx.keyHash = c.hashKey (Identity.hmacKey keyId).rawKey ∧
      CarriesProof c store st.orgId req (.hmacKey keyId) := by
  simp only [authenticateHmac, bind_eq_ok, okOr_eq_ok, ensure_eq_ok, Option.bind_eq_some_iff] at h
  obtain ⟨params, ⟨value, hvalue, hparams⟩, algorithm, _, _, _, signingString, hsigning, session, hlookup, s,
    rfl, _, hcheck, h⟩ := h
  simp only [Bool.and_eq_true, Option.isSome_iff_exists] at hcheck
  obtain ⟨⟨⟨hverified, data, hdata⟩, _⟩, _⟩ := hcheck
  simp only [Option.bind_some, hdata, Option.elim_some] at hverified
  exact ⟨params.keyId, grantSession_keyHash h, value, params, algorithm, signingString, s, data, hvalue, hparams,
    rfl, hsigning, lookupSession_eq_some.1 hlookup, hdata, hverified⟩

theorem authenticateJwt_ok {key : Key} {validation : Validation} {claim token : String}
    (h : authenticateJwt c st key validation claim token = .ok ctx) :
    ∃ sub, ctx.keyHash = c.hashKey ("jwt:" ++ sub) := by
  simp only [authenticateJwt, bind_eq_ok, pure_eq_ok] at h
  obtain ⟨_, _, sub, _, rfl⟩ := h
  exact ⟨sub, rfl⟩

theorem buildOidcSession_ok {claims : Claims} {claim : String} {mapping : Option PolicyMapping}
    (h : buildOidcSession c store st claims claim mapping = .ok ctx) :
    ∃ sub, ctx.keyHash = c.hashKey ("oidc:" ++ sub) := by
  simp only [buildOidcSession, bind_eq_ok, pure_eq_ok] at h
  obtain ⟨sub, _, _, _, rfl⟩ := h
  exact ⟨sub, rfl⟩

/-! ### The law and when it holds -/

/-- The layer accepts the request and attaches this session to it. -/
def Attaches (c : Crates Key Validation) (store : Storage) (now : ℕ) (st : AuthState Key Validation)
    (req : Request) (ctx : SessionContext) : Prop :=
  req.extensions.authBypass = false ∧
    call c store now st req = .ok { req with extensions := { req.extensions with session := some ctx } }

/-- Whatever is stored, and whenever the request comes, it is given the session of a user, a
signing key or a certificate only if it carries that identity's proof. -/
def StaysInMode (c : Crates Key Validation) (st : AuthState Key Validation) (req : Request) : Prop :=
  ∀ store now ctx id, Attaches c store now st req ctx → ctx.keyHash = c.hashKey id.rawKey →
    CarriesProof c store st.orgId req id

/-- The token a request presents to an `auth_token` API. -/
def plainToken (st : AuthState Key Validation) (req : Request) : Option String :=
  match st.mode with
  | .token header queryParam cookie => extractToken header queryParam cookie req
  | _ => none

/-- The request presents an identity's raw key as a plain token. The raw key of the certificate
its own connection was made with is left out: there the proof is on the connection. -/
def PresentsRawKey (st : AuthState Key Validation) (req : Request) : Prop :=
  req.extensions.authBypass = false ∧ ∃ id : Identity, plainToken st req = some id.rawKey ∧
    ∀ fingerprint, id = .clientCert fingerprint →
      req.extensions.connection.bind (·.clientCertFingerprint) ≠ some fingerprint

theorem attaches_iff : Attaches c store now st req ctx ↔
    req.extensions.authBypass = false ∧ authenticate c store now st req = .ok ctx := by
  unfold Attaches
  refine and_congr_right fun hbypass => ?_
  simp [call, hbypass]

/-- What an accepted request has shown, whatever the mode: it carries the proof of the identity
it was resolved to, or its raw key is the plain token it presented, or it is resolved to no
identity of the three kinds. -/
theorem authenticate_ok (h : authenticate c store now st req = .ok ctx) :
    (∃ id, ctx.keyHash = c.hashKey id.rawKey ∧ CarriesProof c store st.orgId req id) ∨
    (∃ token, plainToken st req = some token ∧ ctx.keyHash = c.hashKey token) ∨
    (∃ raw, (∀ id : Identity, raw ≠ id.rawKey) ∧ ctx.keyHash = c.hashKey raw) := by
  unfold authenticate at h
  split at h
  · next header queryParam cookie hmode =>
    simp only [bind_eq_ok, okOr_eq_ok] at h
    obtain ⟨token, htoken, h⟩ := h
    exact .inr (.inl ⟨token, by rw [plainToken, hmode]; exact htoken, authenticateStoredToken_ok h⟩)
  · simp only [bind_eq_ok] at h
    obtain ⟨_, _, _, _, h⟩ := h
    obtain ⟨sub, hsub⟩ := authenticateJwt_ok h
    exact .inr (.inr ⟨_, fun id => id.rawKey_ne_jwt sub, hsub⟩)
  · simp only [bind_eq_ok] at h
    obtain ⟨_, _, _, _, _, _, h⟩ := h
    obtain ⟨sub, hsub⟩ := buildOidcSession_ok h
    exact .inr (.inr ⟨_, fun id => id.rawKey_ne_oidc sub, hsub⟩)
  · obtain ⟨username, hhash, hproof⟩ := authenticateBasic_ok h
    exact .inl ⟨_, hhash, hproof⟩
  · simp only [bind_eq_ok, okOr_eq_ok] at h
    obtain ⟨fingerprint, hconn, h⟩ := h
    exact .inl ⟨.clientCert fingerprint, authenticateStoredToken_ok h, hconn⟩
  · obtain ⟨keyId, hhash, hproof⟩ := authenticateHmac_ok h
    exact .inl ⟨_, hhash, hproof⟩

/-- A plain token takes a session with no restrictions, if one is stored under its hash. -/
theorem authenticate_of_plainToken {token text : String} (htoken : plainToken st req = some token)
    (htext : c.sessionFromJson text = some {}) :
    authenticate c (fun _ => .ok (some text)) now st req = .ok ⟨{}, c.hashKey token⟩ := by
  unfold plainToken at htoken
  split at htoken
  · next header queryParam cookie hmode =>
    simp [authenticate, hmode, htoken, authenticateStoredToken, lookupSession_eq_some, Stored, htext,
      grantSession, resolvePolicy, KeySession.allowsApi, KeySession.isExpired]
  · exact absurd htoken (by simp)

/-- **Credentials keep to their mode exactly when no raw key is presented as a plain token.**
Where one is, it takes the session of whoever it names, with no proof. -/
theorem credentials_stay_in_their_mode_iff (hhash : Function.Injective c.hashKey)
    (hjson : ∃ text, c.sessionFromJson text = some {}) : StaysInMode c st req ↔ ¬ PresentsRawKey st req := by
  constructor
  · rintro hstays ⟨hbypass, id, htoken, hcert⟩
    obtain ⟨text, htext⟩ := hjson
    have hproof := hstays (fun _ => .ok (some text)) 0 _ id
      (attaches_iff.2 ⟨hbypass, authenticate_of_plainToken htoken htext⟩) rfl
    cases id with
    | basicUser username =>
      obtain ⟨_, s, _, _, ⟨_, hrecord, hs⟩, hdata, _⟩ := hproof
      simp_all
    | hmacKey keyId =>
      obtain ⟨_, _, _, _, s, _, _, _, _, _, ⟨_, hrecord, hs⟩, hdata, _⟩ := hproof
      simp_all
    | clientCert fingerprint => exact hcert fingerprint rfl hproof
  · intro hraw store now ctx id hattaches hkey
    obtain ⟨hbypass, hauth⟩ := attaches_iff.1 hattaches
    rcases authenticate_ok hauth with ⟨id', hid', hproof⟩ | ⟨token, htoken, hid'⟩ | ⟨raw, hne, hid'⟩
    · obtain rfl := Identity.rawKey_injective (hhash (hid'.symm.trans hkey))
      exact hproof
    · obtain rfl := hhash (hid'.symm.trans hkey)
      by_contra hproof
      refine hraw ⟨hbypass, id, htoken, fun fingerprint hcert hconn => hproof ?_⟩
      rw [hcert]
      exact hconn
    · exact absurd (hhash (hid'.symm.trans hkey)) (hne id)

/-! ### A token API beside a basic-auth user -/

/-- The session of the basic-auth user alice. -/
def alice : KeySession :=
  { basicAuth := some ⟨"$2b$12$3neaCJyNondMOTlK7AuGBOMBGI0j/gZ3YsMVx1VJl.1cBJI5DVA32"⟩ }

/-- Her record. -/
def aliceRecord : String :=
  "\x7b\"basic_auth\":\x7b\"password_hash\":" ++
    "\"$2b$12$3neaCJyNondMOTlK7AuGBOMBGI0j/gZ3YsMVx1VJl.1cBJI5DVA32\"\x7d\x7d"

/-- Crates that read two records and hash one text as SHA-256 does, and any other into a text
that is no digest. -/
def sampleCrates : Crates Unit Unit where
  hashKey s :=
    if s = "basic:alice" then "65ddde1a42dc58bac7950c5b31d6ca82518b84b86492462eccf8f11c6a4308c5"
    else "no digest of " ++ s
  bcryptVerify _ _ := .ok false
  hmacVerify _ _ _ _ := false
  base64Decode _ := none
  parseHttpDate _ := none
  sessionFromJson text :=
    if text = aliceRecord then some alice else if text = "\x7b\x7d" then some {} else none
  policyFromJson _ := none
  decodeHeader _ := none
  decode _ _ _ := none

/-- Storage where alice's session is the only record. -/
def aliceStore : Storage := fun key =>
  if key = sessionStorageKey "default" (sampleCrates.hashKey "basic:alice") then .ok (some aliceRecord)
  else .ok none

/-- An `auth_token` API of alice's organization. -/
def tokenApi : AuthState Unit Unit := ⟨"orders", "default", .token "x-api-key" none none⟩

/-- A request that presents a token to it. -/
def presenting (token : String) : Request := { headers := [("x-api-key", headerValue token)] }

theorem sampleCrates_hashKey_injective : Function.Injective sampleCrates.hashKey := by
  intro s t h
  simp only [sampleCrates] at h
  split_ifs at h with hs ht ht
  · rw [hs, ht]
  · exact absurd (congrArg String.toList h) (by simp [String.toList_append])
  · exact absurd (congrArg String.toList h) (by simp [String.toList_append])
  · exact (String.append_right_inj _).1 h

/-- The plain token `basic:alice` is answered with alice's session. -/
theorem plain_token_takes_basic_session :
    Function.Injective sampleCrates.hashKey ∧
    Attaches sampleCrates aliceStore 0 tokenApi (presenting "basic:alice")
      ⟨alice, sampleCrates.hashKey (Identity.basicUser "alice").rawKey⟩ ∧
    ¬ CarriesProof sampleCrates aliceStore "default" (presenting "basic:alice") (.basicUser "alice") := by
  refine ⟨sampleCrates_hashKey_injective, ⟨rfl, by decide +kernel⟩, ?_⟩
  rintro ⟨password, session, data, hcred, -⟩
  exact absurd hcred (by
    rw [show extractBasicCredentials sampleCrates (presenting "basic:alice") = none from by decide +kernel]
    simp)

theorem credentials_stay_in_their_mode_iff_alice :
    ¬ StaysInMode sampleCrates tokenApi (presenting "basic:alice") ∧
    StaysInMode sampleCrates tokenApi (presenting "4f3a9c") := by
  have hjson : ∃ text, sampleCrates.sessionFromJson text = some {} := ⟨"\x7b\x7d", by decide +kernel⟩
  constructor
  · rw [credentials_stay_in_their_mode_iff sampleCrates_hashKey_injective hjson, not_not]
    exact ⟨rfl, .basicUser "alice", by decide +kernel, by simp⟩
  · rw [credentials_stay_in_their_mode_iff sampleCrates_hashKey_injective hjson]
    rintro ⟨-, id, htoken, -⟩
    rw [show plainToken tokenApi (presenting "4f3a9c") = some "4f3a9c" from by decide +kernel] at htoken
    have h := congrArg String.toList (Option.some.inj htoken)
    cases id <;> simp [Identity.rawKey] at h

end G2way.Middleware.Auth
