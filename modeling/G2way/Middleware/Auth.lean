import G2way.Lib.Result
import G2way.Middleware.Hmac

/-!
# Credential authentication

`AuthLayer` of `g2-middleware/src/auth.rs` resolves a client credential to a
`KeySession`. Four of its modes look the session up in storage, under the hash of
a text the mode derives from the request:

* `auth_token` — the token itself, from a header, a query parameter or a cookie;
* `basic_auth` — `basic:{username}`, and the password must match the stored hash;
* `mtls` — `mtls:{fingerprint}`, of the certificate the TLS handshake verified;
* `hmac` — `hmac:{keyId}`, and the request's signature must verify.

The other two, `jwt` and `oidc`, verify a token and make a session of its claims.
A mode's prefix is there so that its identities keep to themselves: "The `basic:`
prefix keeps usernames in their own hash namespace, so a username can never
collide with the SHA-256 of a stored raw token"; "Namespaced like basic auth's
`basic:{username}` so a raw API key can never collide with a certificate
identity."

## The model

Storage is a snapshot `String → Except Unit (Option String)`, an error being a
storage failure. The crates the layer calls are the fields of `Crates`: SHA-256,
bcrypt, HMAC, base64, the HTTP date, the JSON of the stored records, and the JWT
library. What the layer logs is left out.
-/

namespace G2way.Middleware.Auth

open G2way.Core G2way.Lib G2way.Lib.Result G2way.Middleware.Hmac

/-! ### What the layer calls -/

/-- A claim of a verified token. -/
inductive ClaimValue where
  /-- A string. -/
  | str (s : String)
  /-- An unsigned integer. -/
  | u64 (n : ℕ)
  /-- Anything else. -/
  | other
  deriving DecidableEq, Repr

/-- The claims of a verified token. -/
abbrev Claims := List (String × ClaimValue)

/-- `claims.get(name).and_then(as_str)`. -/
def Claims.getStr (c : Claims) (name : String) : Option String :=
  match c.lookup name with
  | some (.str s) => some s
  | _ => none

/-- `claims.get(name).and_then(as_u64)`. -/
def Claims.getU64 (c : Claims) (name : String) : Option ℕ :=
  match c.lookup name with
  | some (.u64 n) => some n
  | _ => none

/-- The crates the layer calls. `Key` is a JWT decoding key, `Validation` what a JWT is
checked against. -/
structure Crates (Key Validation : Type) where
  /-- `hash_key`: SHA-256 in hexadecimal. -/
  hashKey : String → String
  /-- `bcrypt::verify`, of a password and a hash. -/
  bcryptVerify : String → String → Except Unit Bool
  /-- `hmac::verify`, of a secret, a message and a signature. -/
  hmacVerify : HmacAlgorithm → List UInt8 → List UInt8 → List UInt8 → Bool
  /-- Standard base64. -/
  base64Decode : String → Option (List UInt8)
  /-- The seconds since the epoch of an HTTP date. -/
  parseHttpDate : String → Option ℕ
  /-- A stored session record. -/
  sessionFromJson : String → Option KeySession
  /-- A stored policy record. -/
  policyFromJson : String → Option Policy
  /-- The `kid` of a JWT's header, if the header parses. -/
  decodeHeader : String → Option (Option String)
  /-- The claims of a JWT that verifies. -/
  decode : Key → Validation → String → Option Claims

/-- A storage snapshot. -/
abbrev Storage := String → Except Unit (Option String)

/-- Where the JWT mode's keys come from. -/
inductive JwtKeys (Key : Type) where
  /-- One key, fixed in the definition. -/
  | static (key : Key)
  /-- Keys selected by `kid` (`JwksCache::key_for`). -/
  | jwks (keyFor : String → Option Key)

/-- The OIDC mode's map from client ids to policies. -/
structure PolicyMapping where
  claim : String
  map : List (String × String)

/-- The credentialed modes. -/
inductive Mode (Key Validation : Type) where
  /-- `auth_token`: a header, and a query parameter and a cookie where configured. -/
  | token (header : String) (queryParam cookie : Option String)
  /-- `jwt`. -/
  | jwt (header : String) (keys : JwtKeys Key) (validation : Validation) (identityClaim : String)
  /-- `oidc`. -/
  | oidc (header : String) (keyFor : String → Option Key) (validation : Validation)
      (identityClaim : String) (policyMapping : Option PolicyMapping)
  /-- `basic_auth`, with the challenge sent on every `401`. -/
  | basic (challenge : String)
  /-- `mtls`. -/
  | mtls
  /-- `hmac`: the algorithms accepted, and the clock skew where it is bounded. -/
  | hmac (allowedAlgorithms : List HmacAlgorithm) (allowedClockSkew : Option ℕ)

/-- What one API's auth needs. -/
structure AuthState (Key Validation : Type) where
  apiId : String
  orgId : String
  mode : Mode Key Validation

variable {Key Validation : Type}

/-! ### Credentials in the request -/

/-- `strip_bearer`. -/
def stripBearer (value : String) : String :=
  match Text.splitAtChecked 7 value with
  | some (scheme, rest) => if Text.eqIgnoreAsciiCase scheme "bearer " then Text.trimStart rest else value
  | none => value

/-- `strip_basic`. -/
def stripBasic (value : String) : Option String :=
  match Text.splitAtChecked 6 value with
  | some (scheme, rest) => if Text.eqIgnoreAsciiCase scheme "basic " then some (Text.trim rest) else none
  | none => none

/-- The non-empty value of a `key=value` pair that names `key`. -/
def pairValue (key pair : String) : Option String :=
  match Text.splitOnce '=' pair with
  | some (k, v) => if k = key ∧ v ≠ "" then some v else none
  | none => none

/-- `extract_token`: the first configured carrier that has one. -/
def extractToken (header : String) (queryParam cookie : Option String) (req : Request) : Option String :=
  let fromHeader := (req.headers.getStr header).bind fun value =>
    let token := stripBearer (Text.trim value)
    if token = "" then none else some token
  let fromQuery := queryParam.bind fun param =>
    req.query.bind fun query => (Text.split '&' query).findSome? (pairValue param)
  let fromCookie := cookie.bind fun name =>
    (req.headers.getAll "cookie").findSome? fun value =>
      value.toStr.bind fun text => (Text.split ';' text).findSome? fun part => pairValue name (Text.trim part)
  fromHeader <|> fromQuery <|> fromCookie

/-- `extract_basic_credentials`. -/
def extractBasicCredentials (c : Crates Key Validation) (req : Request) : Option (String × String) := do
  let value ← req.headers.getStr "authorization"
  let encoded ← stripBasic (Text.trim value)
  let decoded ← c.base64Decode encoded
  let decoded ← Text.fromUtf8 decoded
  let (username, password) ← Text.splitOnce ':' decoded
  if username = "" then none else some (username, password)

/-! ### Rejections -/

/-- `FORBIDDEN_MSG`: one message for every "you may not pass". -/
def forbidden : Rejection := ⟨403, "access to this API has been disallowed", none⟩

/-- No token in any configured carrier. -/
def fieldMissing : Rejection := ⟨401, "authorization field missing", none⟩

/-- The storage backend failed. -/
def storageUnavailable : Rejection := ⟨503, "key storage unavailable", none⟩

/-- The stored session is corrupt. -/
def malformedSession : Rejection := ⟨500, "malformed key session record", none⟩

/-- The stored policy is corrupt. -/
def malformedPolicy : Rejection := ⟨500, "malformed policy record", none⟩

/-- `storage.get`, a failure being the `503`. -/
def storageGet (store : Storage) (key : String) : Except Rejection (Option String) :=
  match store key with
  | .ok record => .ok record
  | .error () => .error storageUnavailable

/-! ### Policies -/

/-- `fetch_active_policy`. -/
def fetchActivePolicy (c : Crates Key Validation) (store : Storage) (orgId policyId : String) :
    Except Rejection Policy := do
  let record ← okOr (← storageGet store (policyStorageKey orgId policyId)) forbidden
  let policy ← okOr (c.policyFromJson record) malformedPolicy
  ensure (policy.orgId = orgId ∧ policy.policyId = policyId) malformedPolicy
  ensure policy.active forbidden
  return policy

/-- `resolve_policy`. -/
def resolvePolicy (c : Crates Key Validation) (store : Storage) (session : KeySession) :
    Except Rejection KeySession :=
  match session.applyPolicies with
  | [] => .ok session
  | [policyId] => do
    let policy ← fetchActivePolicy c store session.orgId policyId
    return session.applyPolicy policy
  | _ => .error malformedSession

/-- The session under a key hash, if there is a record and it is well formed. -/
def lookupSession (c : Crates Key Validation) (store : Storage) (orgId keyHash : String) :
    Except Rejection (Option KeySession) := do
  match ← storageGet store (sessionStorageKey orgId keyHash) with
  | none => return none
  | some record =>
    let session ← okOr (c.sessionFromJson record) malformedSession
    return some session

/-- The end of every stored-session mode: the policy is resolved, and the session must grant
this API. -/
def grantSession (c : Crates Key Validation) (store : Storage) (st : AuthState Key Validation)
    (session : KeySession) (keyHash : String) : Except Rejection SessionContext := do
  let session ← resolvePolicy c store session
  ensure (session.allowsApi st.apiId) forbidden
  return ⟨session, keyHash⟩

/-! ### The modes -/

/-- `authenticate_stored_token`. -/
def authenticateStoredToken (c : Crates Key Validation) (store : Storage) (now : ℕ)
    (st : AuthState Key Validation) (token : String) : Except Rejection SessionContext := do
  let keyHash := c.hashKey token
  let session ← okOr (← lookupSession c store st.orgId keyHash) forbidden
  ensure (session.active && !session.isExpired now) forbidden
  grantSession c store st session keyHash

/-- `DUMMY_BCRYPT_HASH`: what unknown users are verified against. -/
def dummyBcryptHash : String := "$2b$12$3neaCJyNondMOTlK7AuGBOMBGI0j/gZ3YsMVx1VJl.1cBJI5DVA32"

/-- `bcrypt::verify`, a failure being the `500`. -/
def verifyPassword (c : Crates Key Validation) (password storedHash : String) : Except Rejection Bool :=
  match c.bcryptVerify password storedHash with
  | .ok passwordMatches => .ok passwordMatches
  | .error () => .error ⟨500, "auth verification failed", none⟩

/-- `authenticate_basic`. -/
def authenticateBasic (c : Crates Key Validation) (store : Storage) (now : ℕ)
    (st : AuthState Key Validation) (challenge : String) (req : Request) :
    Except Rejection SessionContext := do
  let (username, password) ← okOr (extractBasicCredentials c req)
    ⟨401, "invalid basic auth credentials", some challenge⟩
  let keyHash := c.hashKey ("basic:" ++ username)
  let session ← lookupSession c store st.orgId keyHash
  let storedHash := (session.bind (·.basicAuth)).elim dummyBcryptHash (·.passwordHash)
  let passwordMatches ← verifyPassword c password storedHash
  let session ← okOr session forbidden
  ensure (passwordMatches && session.basicAuth.isSome && session.active && !session.isExpired now) forbidden
  grantSession c store st session keyHash

/-- `DUMMY_HMAC_SECRET`: what unknown key ids are verified against. -/
def dummyHmacSecret : List UInt8 := Text.utf8 "g2way-dummy-hmac-secret"

/-- The clock-skew check: an unsigned `Date` proves nothing, so it must be signed, readable
and within the bound. -/
def checkSkew (c : Crates Key Validation) (now : ℕ) (req : Request) (params : SignatureParams)
    (allowedClockSkew : Option ℕ) : Except Rejection Unit :=
  match allowedClockSkew with
  | none => .ok ()
  | some maxSkew => do
    ensure (params.headers.any (· == "date")) forbidden
    let dateSecs ← okOr ((req.headers.getStr "date").bind c.parseHttpDate) forbidden
    ensure (max now dateSecs - min now dateSecs ≤ maxSkew) forbidden

/-- `authenticate_hmac`. -/
def authenticateHmac (c : Crates Key Validation) (store : Storage) (now : ℕ)
    (st : AuthState Key Validation) (allowedAlgorithms : List HmacAlgorithm)
    (allowedClockSkew : Option ℕ) (req : Request) : Except Rejection SessionContext := do
  let params ← okOr ((req.headers.getStr "authorization").bind (parseSignatureHeader c.base64Decode))
    ⟨401, "invalid signature authorization header", none⟩
  let algorithm ← okOr
    (allowedAlgorithms.find? fun a => Text.eqIgnoreAsciiCase a.asStr params.algorithm) forbidden
  checkSkew c now req params allowedClockSkew
  let signingString ← okOr (buildSigningString req params.headers) forbidden
  let keyHash := c.hashKey ("hmac:" ++ params.keyId)
  let session ← lookupSession c store st.orgId keyHash
  let secret := (session.bind (·.hmac)).elim dummyHmacSecret fun h => Text.utf8 h.secret
  let verified := c.hmacVerify algorithm secret (Text.utf8 signingString) params.signature
  let session ← okOr session forbidden
  ensure (verified && session.hmac.isSome && session.active && !session.isExpired now) forbidden
  grantSession c store st session keyHash

/-- `resolve_jwks_key`. -/
def resolveJwksKey (c : Crates Key Validation) (keyFor : String → Option Key) (token : String) :
    Except Rejection Key := do
  let header ← okOr (c.decodeHeader token) forbidden
  let kid ← okOr header forbidden
  okOr (keyFor kid) forbidden

/-- The key of the JWT mode. -/
def jwtKey (c : Crates Key Validation) (keys : JwtKeys Key) (token : String) : Except Rejection Key :=
  match keys with
  | .static key => .ok key
  | .jwks keyFor => resolveJwksKey c keyFor token

/-- The session made of a token's claims: it grants this API only. -/
def ephemeralSession (st : AuthState Key Validation) (claims : Claims) (identity : String) : KeySession :=
  { orgId := st.orgId, aliasName := some identity, expiresAt := claims.getU64 "exp",
    access := [(st.apiId, {})] }

/-- `authenticate_jwt`. -/
def authenticateJwt (c : Crates Key Validation) (st : AuthState Key Validation) (key : Key)
    (validation : Validation) (identityClaim token : String) : Except Rejection SessionContext := do
  let claims ← okOr (c.decode key validation token) forbidden
  let identity ← okOr (claims.getStr identityClaim) forbidden
  return ⟨ephemeralSession st claims identity, c.hashKey ("jwt:" ++ identity)⟩

/-- The policy mapping of an OIDC token, where one is configured: the policy of the client it was
issued to replaces the session's limits, and must grant this API. -/
def mapPolicy (c : Crates Key Validation) (store : Storage) (st : AuthState Key Validation)
    (claims : Claims) (session : KeySession) : Option PolicyMapping → Except Rejection KeySession
  | none => .ok session
  | some mapping => do
    let clientId ← okOr (claims.getStr mapping.claim) forbidden
    let policyId ← okOr (mapping.map.lookup clientId) forbidden
    let policy ← fetchActivePolicy c store session.orgId policyId
    let session := session.applyPolicy policy
    ensure (session.allowsApi st.apiId) forbidden
    return session

/-- `build_oidc_session`. -/
def buildOidcSession (c : Crates Key Validation) (store : Storage) (st : AuthState Key Validation)
    (claims : Claims) (identityClaim : String) (policyMapping : Option PolicyMapping) :
    Except Rejection SessionContext := do
  let identity ← okOr (claims.getStr identityClaim) forbidden
  let session ← mapPolicy c store st claims (ephemeralSession st claims identity) policyMapping
  return ⟨session, c.hashKey ("oidc:" ++ identity)⟩

/-- `authenticate`: the configured mode. -/
def authenticate (c : Crates Key Validation) (store : Storage) (now : ℕ)
    (st : AuthState Key Validation) (req : Request) : Except Rejection SessionContext :=
  match st.mode with
  | .token header queryParam cookie => do
    let token ← okOr (extractToken header queryParam cookie req) fieldMissing
    authenticateStoredToken c store now st token
  | .jwt header keys validation identityClaim => do
    let token ← okOr (extractToken header none none req) fieldMissing
    let key ← jwtKey c keys token
    authenticateJwt c st key validation identityClaim token
  | .oidc header keyFor validation identityClaim policyMapping => do
    let token ← okOr (extractToken header none none req) fieldMissing
    let key ← resolveJwksKey c keyFor token
    let claims ← okOr (c.decode key validation token) forbidden
    buildOidcSession c store st claims identityClaim policyMapping
  | .basic challenge => authenticateBasic c store now st challenge req
  | .mtls => do
    let fingerprint ← okOr (req.extensions.connection.bind (·.clientCertFingerprint))
      ⟨401, "client certificate required", none⟩
    authenticateStoredToken c store now st ("mtls:" ++ fingerprint)
  | .hmac allowedAlgorithms allowedClockSkew =>
    authenticateHmac c store now st allowedAlgorithms allowedClockSkew req

/-- `Auth::call`: the request passed to the layers below, or the rejection. A bypassed path
is passed on without a session. -/
def call (c : Crates Key Validation) (store : Storage) (now : ℕ) (st : AuthState Key Validation)
    (req : Request) : Except Rejection Request :=
  if req.extensions.authBypass then .ok req
  else do
    let ctx ← authenticate c store now st req
    return { req with extensions := { req.extensions with session := some ctx } }

end G2way.Middleware.Auth
