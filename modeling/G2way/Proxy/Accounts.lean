import G2way.Middleware.AuthModes
import G2way.Middleware.RateLimit
import G2way.Proxy.Router

/-!
# Whose account is charged?

The limits of a session are counted under the hash of a text: the raw key of a
stored credential, or the identity an issuer vouches for behind the prefix of its
mode. "The `jwt:` prefix keeps JWT identities from ever colliding with the hash of a
real stored token in later rate-limit/quota counters"; "the `oidc:` prefix keeps OIDC
identities from colliding with stored token hashes or `jwt:` identities in
rate-limit/quota counters." The counters are those of the organization, shared by all
its APIs.

## The model

`fromConfig` builds the mode of an API from its definition, with the JWKS caches as
they are when a request arrives. A `Principal` is who a request was authenticated as:
a stored credential, or an identity together with what vouched for it. `Arrival.step`
is the auth layer followed by the rate-limit layer; a run is a list of arrivals at any
APIs of one organization.

## What is proved

* `accounts_apart_iff` — in a run, two requests share an account only as one principal,
  and requests of one leave the counters of another alone, exactly when no two limited
  requests of it are like-named: OIDC identities of one name from two issuers, or an
  OIDC identity `v` beside the plain token `oidc:v`.
* `issuers_share_account` — two issuers, each with an alice.

A session made of a JWT has neither rate nor quota, so that nothing is ever charged
for it. The spike guard is left out: its buckets are shared by design.
-/

namespace G2way.Proxy.Accounts

open G2way.Core G2way.Lib G2way.Lib.Result G2way.Middleware G2way.Middleware.Auth G2way.Middleware.Hmac
  G2way.Middleware.RateLimit

/-! ### Configuration -/

/-- `JwtSigningMethod`. -/
inductive JwtSigningMethod where
  | hs256
  | rs256
  deriving DecidableEq, Repr

/-- `AuthConfig`. -/
inductive AuthConfig where
  | keyless
  | authToken (header : String) (queryParam cookie : Option String)
  | jwt (signingMethod : JwtSigningMethod) (secret publicKeyPem jwksUrl : Option String)
      (header identityClaim : String)
  | oidc (issuerUrl : String) (audiences : List String) (jwksUrl : Option String)
      (header identityClaim policyClaim : String) (policyMap : List (String × String))
  | basicAuth (realm : String)
  | mtls
  | hmac (allowedAlgorithms : List HmacAlgorithm) (allowedClockSkewSecs : Option ℕ)

/-- What vouches for a JWT: a key, or a key set. -/
inductive JwtSource where
  | secret (secret : String)
  | publicKeyPem (pem : String)
  | jwksUrl (url : String)
  deriving DecidableEq, Repr

/-- Where a key cache fetches from: a JWKS document, or the discovery document of an issuer. -/
inductive JwksSource where
  | url (url : String)
  | discovery (issuerUrl : String)
  deriving DecidableEq, Repr

/-- What `from_config` asks of the JWT library. -/
structure KeyCrates (Key Validation : Type) where
  /-- `DecodingKey::from_secret`. -/
  fromSecret : String → Key
  /-- `DecodingKey::from_rsa_pem`. -/
  fromRsaPem : String → Except String Key
  /-- `Validation::new`. -/
  validation : JwtSigningMethod → Validation
  /-- `Validation::new(RS256)` with the issuer, the audiences and the required claims set. -/
  oidcValidation : (issuerUrl : String) → (audiences : List String) → Validation

/-- The key source of a `jwt` definition. -/
def jwtSource (signingMethod : JwtSigningMethod) (secret publicKeyPem jwksUrl : Option String) :
    Except String JwtSource :=
  match signingMethod, jwksUrl with
  | .hs256, _ => (okOr secret "hs256 requires `auth.secret`").map .secret
  | .rs256, none => (okOr publicKeyPem "rs256 requires `auth.public_key_pem`").map .publicKeyPem
  | .rs256, some url => .ok (.jwksUrl url)

section Config

variable {Key Validation : Type} (k : KeyCrates Key Validation) (jwks : JwksSource → String → Option Key)

/-- The keys of a source. -/
def jwtKeys : JwtSource → Except String (JwtKeys Key)
  | .secret secret => .ok (.static (k.fromSecret secret))
  | .publicKeyPem pem =>
    ((k.fromRsaPem pem).mapError ("`auth.public_key_pem` is not a valid RSA PEM: " ++ ·)).map .static
  | .jwksUrl url => .ok (.jwks (jwks (.url url)))

/-- The header a credential is read from. -/
def parseHeader (header : String) : Except String String :=
  okOr (headerName header) ("`auth.header` is not a valid header name: `" ++ header ++ "`")

/-- `AuthLayer::from_config`: the mode of an API, none for a keyless one. -/
def fromConfig : AuthConfig → Except String (Option (Mode Key Validation))
  | .keyless => .ok none
  | .authToken header queryParam cookie => do
    return some (.token (← parseHeader header) queryParam cookie)
  | .jwt signingMethod secret publicKeyPem jwksUrl header identityClaim => do
    let source ← jwtSource signingMethod secret publicKeyPem jwksUrl
    let keys ← jwtKeys k jwks source
    return some (.jwt (← parseHeader header) keys (k.validation signingMethod) identityClaim)
  | .oidc issuerUrl audiences jwksUrl header identityClaim policyClaim policyMap => do
    let source := jwksUrl.elim (JwksSource.discovery issuerUrl) JwksSource.url
    let mapping := if policyMap.isEmpty then none else some ⟨policyClaim, policyMap⟩
    return some (.oidc (← parseHeader header) (jwks source) (k.oidcValidation issuerUrl audiences) identityClaim
      mapping)
  | .basicAuth realm => do
    let challenge := "Basic realm=\"" ++ realm ++ "\""
    ensure (headerValueFromStr challenge).isSome
      ("`auth.realm` cannot be used in a header value: `" ++ realm ++ "`")
    return some (.basic challenge)
  | .mtls => .ok (some .mtls)
  | .hmac allowedAlgorithms allowedClockSkewSecs => .ok (some (.hmac allowedAlgorithms allowedClockSkewSecs))

end Config

/-! ### Principals -/

/-- Who a request is authenticated as. -/
inductive Principal where
  /-- The credential with this session record. -/
  | stored (storageKey : String)
  /-- An identity that a JWT key vouches for. -/
  | jwt (source : JwtSource) (identity : String)
  /-- An identity that an OIDC issuer vouches for. -/
  | oidc (issuerUrl identity : String)
  deriving DecidableEq, Repr

/-- A request that arrives at an API of the organization. -/
structure Arrival (Key ε : Type) (orgId : String) where
  cfg : AuthConfig
  apiId : String
  /-- The compiled endpoint limits of the API. -/
  limits : RateLimitState
  /-- The key caches, as they are now. -/
  jwks : JwksSource → String → Option Key
  store : Auth.Storage
  now : ℕ
  moment : Moment ε
  req : Request
  /-- No layer above the auth layer attaches a session. -/
  fresh : req.extensions.session = none
  /-- The counters of the endpoint limits. -/
  endpointKeys : ∀ rules, limits.endpointLimits = some rules → ∀ rule ∈ rules,
    ∃ scope index, rule.storageKey = endpointRateLimitStorageKey orgId scope index

section Arrival

variable {Key Validation ε : Type} {orgId : String} (k : KeyCrates Key Validation) (c : Crates Key Validation)
  (a : Arrival Key ε orgId)

namespace Arrival

/-- The auth state of the API; none for a keyless API, or for one that cannot be built. -/
def authState : Option (AuthState Key Validation) :=
  ((fromConfig k a.jwks a.cfg).toOption.bind id).map fun mode => ⟨a.apiId, orgId, mode⟩

/-- The session the auth layer attaches to the request when it accepts it. -/
def attached : Option SessionContext :=
  if a.req.extensions.authBypass then none
  else (a.authState k).bind fun st => (authenticate c a.store a.now st a.req).toOption

/-- The request the auth layer passes on. -/
def passed : Option Request :=
  match fromConfig k a.jwks a.cfg with
  | .error _ => none
  | .ok none => some a.req
  | .ok (some mode) => (Auth.call c a.store a.now ⟨a.apiId, orgId, mode⟩ a.req).toOption

/-- The claims of the token, where it verifies. -/
def claims : Option Claims :=
  (a.authState k).bind fun st =>
    match st.mode with
    | .jwt header keys validation _ => do
      let token ← extractToken header none none a.req
      let key ← (jwtKey c keys token).toOption
      c.decode key validation token
    | .oidc header keyFor validation _ _ => do
      let token ← extractToken header none none a.req
      let key ← (resolveJwksKey c keyFor token).toOption
      c.decode key validation token
    | _ => none

/-- Who the request is authenticated as, if it is accepted. -/
def principal : Option Principal :=
  (a.attached k c).bind fun ctx =>
    match a.cfg with
    | .jwt signingMethod secret publicKeyPem jwksUrl _ identityClaim => do
      let source ← (jwtSource signingMethod secret publicKeyPem jwksUrl).toOption
      let identity ← (← a.claims k c).getStr identityClaim
      return .jwt source identity
    | .oidc issuerUrl _ _ _ identityClaim _ _ => do
      let identity ← (← a.claims k c).getStr identityClaim
      return .oidc issuerUrl identity
    | _ => some (.stored (sessionStorageKey orgId ctx.keyHash))

/-- The token the request presents to an `auth_token` API. -/
def plainToken : Option String := (a.authState k).bind fun st => Auth.plainToken st a.req

end Arrival

/-! ### Accounts -/

/-- The rate counter of a session, where it has a rate. -/
def rateAccount (ctx : SessionContext) : Option String :=
  ctx.session.rate.map fun _ => rateLimitStorageKey ctx.session.orgId ctx.keyHash

/-- The quota counter of a session, where it has a quota. -/
def quotaAccount (ctx : SessionContext) : Option String :=
  ctx.session.quota.map fun _ => quotaStorageKey ctx.session.orgId ctx.keyHash

/-- Two requests are charged to one counter. -/
def Shares (a a' : Arrival Key ε orgId) : Prop :=
  ∃ ctx ctx', a.attached k c = some ctx ∧ a'.attached k c = some ctx' ∧
    ((∃ key, rateAccount ctx = some key ∧ rateAccount ctx' = some key) ∨
      ∃ key, quotaAccount ctx = some key ∧ quotaAccount ctx' = some key)

/-- An OIDC identity has the name of another issuer's, or is the rest of a plain token behind `oidc:`. -/
def Mistakable (a a' : Arrival Key ε orgId) : Prop :=
  ∃ issuer identity, a.principal k c = some (.oidc issuer identity) ∧
    ((∃ issuer', issuer' ≠ issuer ∧ a'.principal k c = some (.oidc issuer' identity)) ∨
      a'.plainToken k = some ("oidc:" ++ identity))

/-- Two accepted requests are like-named. -/
def LikeNamed (a a' : Arrival Key ε orgId) : Prop := Mistakable k c a a' ∨ Mistakable k c a' a

/-- Two sessions of one organization with limits of one kind. -/
def BothLimited (ctx ctx' : SessionContext) : Prop :=
  ctx.session.orgId = ctx'.session.orgId ∧
    (ctx.session.rate.isSome = true ∧ ctx'.session.rate.isSome = true ∨
      ctx.session.quota.isSome = true ∧ ctx'.session.quota.isSome = true)

/-- No two limited requests of a run are like-named. -/
def NoLikeNames (run : List (Arrival Key ε orgId)) : Prop :=
  ∀ a ∈ run, ∀ a' ∈ run, LikeNamed k c a a' → ∀ ctx ctx', a.attached k c = some ctx → a'.attached k c = some ctx' →
    ¬ BothLimited ctx ctx'

/-! ### Runs -/

variable {ρ κ : Type} (b : Backend ε ρ κ)

/-- The counters after a request. -/
def step (w : World ρ κ) : World ρ κ :=
  match a.passed k c with
  | none => w
  | some req => (enforce b a.limits a.moment req w).world

/-- The counters after a run. -/
def run (w : World ρ κ) (arrivals : List (Arrival Key ε orgId)) : World ρ κ :=
  arrivals.foldl (fun w a => step k c a b w) w

/-- The accounts of a run belong to one principal each. -/
structure AccountsApart (arrivals : List (Arrival Key ε orgId)) : Prop where
  /-- Requests that share an account are of one principal. -/
  onePrincipal : ∀ a ∈ arrivals, ∀ a' ∈ arrivals, Shares k c a a' → a.principal k c = a'.principal k c
  /-- A request leaves the counters of another principal alone, wherever it stands in the run. -/
  untouched : ∀ pre a post, arrivals = pre ++ a :: post → ∀ a' ∈ arrivals, a.principal k c ≠ a'.principal k c →
    ∀ ctx', a'.attached k c = some ctx' → ctx'.session.orgId = orgId → ∀ w : World ρ κ,
      (∀ key, rateAccount ctx' = some key →
        (run k c b w (pre ++ [a])).rates key = (run k c b w pre).rates key) ∧
      ∀ key, quotaAccount ctx' = some key →
        (run k c b w (pre ++ [a])).quotas key = (run k c b w pre).quotas key

/-! ### Who is accepted as what -/

variable {k c a}

theorem attached_eq_some {ctx : SessionContext} :
    a.attached k c = some ctx ↔ a.req.extensions.authBypass = false ∧
      ∃ st, a.authState k = some st ∧ authenticate c a.store a.now st a.req = .ok ctx := by
  unfold Arrival.attached
  cases a.req.extensions.authBypass with
  | true => simp
  | false => simp [Option.bind_eq_some_iff]

theorem authState_eq_some {st : AuthState Key Validation} :
    a.authState k = some st ↔ ∃ mode, fromConfig k a.jwks a.cfg = .ok (some mode) ∧ ⟨a.apiId, orgId, mode⟩ = st := by
  unfold Arrival.authState
  simp [Option.bind_eq_some_iff]

/-- The policy of a client does not move its session to another organization. -/
theorem mapPolicy_orgId {store : Auth.Storage} {st : AuthState Key Validation} {claims : Claims}
    {session session' : KeySession} {mapping : Option PolicyMapping}
    (h : mapPolicy c store st claims session mapping = .ok session') : session'.orgId = session.orgId := by
  cases mapping with
  | none =>
    obtain rfl := Except.ok.inj h
    rfl
  | some mapping =>
    simp only [mapPolicy, bind_eq_ok, pure_eq_ok] at h
    obtain ⟨_, _, _, _, _, _, _, _, rfl⟩ := h
    rfl

/-- A stored session is attached under the hash of a plain token, or of the raw key of an identity. -/
def OfStored (k : KeyCrates Key Validation) (c : Crates Key Validation) (a : Arrival Key ε orgId)
    (ctx : SessionContext) : Prop :=
  a.principal k c = some (.stored (sessionStorageKey orgId ctx.keyHash)) ∧
    ∃ raw, ctx.keyHash = c.hashKey raw ∧
      (a.plainToken k = some raw ∨ a.plainToken k = none ∧ ∃ id : Identity, raw = id.rawKey)

/-- A session made of a JWT has no limits. -/
def OfJwt (k : KeyCrates Key Validation) (c : Crates Key Validation) (a : Arrival Key ε orgId)
    (ctx : SessionContext) : Prop :=
  (∃ source identity, a.principal k c = some (.jwt source identity)) ∧ a.plainToken k = none ∧
    ctx.session.rate = none ∧ ctx.session.quota = none

/-- An OIDC session is attached under the hash of the identity behind `oidc:`. -/
def OfOidc (k : KeyCrates Key Validation) (c : Crates Key Validation) (a : Arrival Key ε orgId)
    (ctx : SessionContext) : Prop :=
  ∃ issuer identity, a.principal k c = some (.oidc issuer identity) ∧ a.plainToken k = none ∧
    ctx.keyHash = c.hashKey ("oidc:" ++ identity) ∧ ctx.session.orgId = orgId

/-- **What an accepted request is charged as**: a stored credential, nobody, or an OIDC identity. -/
theorem attached_cases {ctx : SessionContext} (h : a.attached k c = some ctx) :
    OfStored k c a ctx ∨ OfJwt k c a ctx ∨ OfOidc k c a ctx := by
  obtain ⟨-, st, hst, hauth⟩ := attached_eq_some.1 h
  have hstate := hst
  obtain ⟨mode, hmode, rfl⟩ := authState_eq_some.1 hst
  cases hcfg : a.cfg with
  | keyless =>
    rw [hcfg] at hmode
    cases hmode
  | authToken header queryParam cookie =>
    simp only [hcfg, fromConfig, bind_eq_ok, pure_eq_ok] at hmode
    obtain ⟨name, -, hmode⟩ := hmode
    obtain rfl := Option.some.inj hmode
    simp only [authenticate, bind_eq_ok, okOr_eq_ok] at hauth
    obtain ⟨token, htoken, hauth⟩ := hauth
    refine .inl ⟨?_, token, authenticateStoredToken_ok hauth, .inl ?_⟩
    · simp [Arrival.principal, h, hcfg]
    · simp [Arrival.plainToken, hstate, Auth.plainToken, htoken]
  | jwt signingMethod secret publicKeyPem jwksUrl header identityClaim =>
    simp only [hcfg, fromConfig, bind_eq_ok, pure_eq_ok] at hmode
    obtain ⟨source, hsource, keys, -, name, -, hmode⟩ := hmode
    obtain rfl := Option.some.inj hmode
    simp only [authenticate, authenticateJwt, bind_eq_ok, okOr_eq_ok, pure_eq_ok] at hauth
    obtain ⟨token, htoken, key, hkey, claims, hclaims, identity, hidentity, rfl⟩ := hauth
    have htok : a.claims k c = some claims := by
      simp [Arrival.claims, hstate, htoken, hkey, hclaims, Except.toOption]
    refine .inr (.inl ⟨⟨source, identity, ?_⟩, ?_, rfl, rfl⟩)
    · simp [Arrival.principal, h, hcfg, htok, hidentity, hsource, Except.toOption]
    · simp [Arrival.plainToken, hstate, Auth.plainToken]
  | oidc issuerUrl audiences jwksUrl header identityClaim policyClaim policyMap =>
    simp only [hcfg, fromConfig, bind_eq_ok, pure_eq_ok] at hmode
    obtain ⟨name, -, hmode⟩ := hmode
    obtain rfl := Option.some.inj hmode
    simp only [authenticate, buildOidcSession, bind_eq_ok, okOr_eq_ok, pure_eq_ok] at hauth
    obtain ⟨token, htoken, key, hkey, claims, hclaims, identity, hidentity, session, hsession, rfl⟩ := hauth
    have htok : a.claims k c = some claims := by
      simp [Arrival.claims, hstate, htoken, hkey, hclaims, Except.toOption]
    refine .inr (.inr ⟨issuerUrl, identity, ?_, ?_, rfl, mapPolicy_orgId hsession⟩)
    · simp [Arrival.principal, h, hcfg, htok, hidentity]
    · simp [Arrival.plainToken, hstate, Auth.plainToken]
  | basicAuth realm =>
    simp only [hcfg, fromConfig, bind_eq_ok, pure_eq_ok] at hmode
    obtain ⟨_, -, hmode⟩ := hmode
    obtain rfl := Option.some.inj hmode
    obtain ⟨username, hhash, -⟩ := authenticateBasic_ok hauth
    refine .inl ⟨?_, _, hhash, .inr ⟨?_, _, rfl⟩⟩
    · simp [Arrival.principal, h, hcfg]
    · simp [Arrival.plainToken, hstate, Auth.plainToken]
  | mtls =>
    simp only [hcfg, fromConfig, Except.ok.injEq] at hmode
    obtain rfl := Option.some.inj hmode
    simp only [authenticate, bind_eq_ok, okOr_eq_ok] at hauth
    obtain ⟨fingerprint, -, hauth⟩ := hauth
    refine .inl ⟨?_, _, authenticateStoredToken_ok hauth, .inr ⟨?_, .clientCert fingerprint, rfl⟩⟩
    · simp [Arrival.principal, h, hcfg]
    · simp [Arrival.plainToken, hstate, Auth.plainToken]
  | hmac allowedAlgorithms allowedClockSkewSecs =>
    simp only [hcfg, fromConfig, Except.ok.injEq] at hmode
    obtain rfl := Option.some.inj hmode
    obtain ⟨keyId, hhash, -⟩ := authenticateHmac_ok hauth
    refine .inl ⟨?_, _, hhash, .inr ⟨?_, _, rfl⟩⟩
    · simp [Arrival.principal, h, hcfg]
    · simp [Arrival.plainToken, hstate, Auth.plainToken]

/-! ### Which counters are which -/

/-- A digest has no colon, so that the key of a counter gives it back. -/
theorem counterKey_inj {mid stem o o' h h' : String} (hmid : mid = stem ++ ":") (hh : ':' ∉ h.toList)
    (hh' : ':' ∉ h'.toList) (heq : "g2:" ++ o ++ mid ++ h = "g2:" ++ o' ++ mid ++ h') : o = o' ∧ h = h' := by
  have hlist : ("g2:" ++ o ++ stem).toList ++ ':' :: h.toList = ("g2:" ++ o' ++ stem).toList ++ ':' :: h'.toList := by
    have hl := congrArg String.toList heq
    simp only [hmid, String.toList_append, List.append_assoc] at hl ⊢
    exact hl
  obtain ⟨hpre, hhash⟩ := Text.append_cons_inj_of_not_mem_right hh hh' hlist
  refine ⟨?_, String.toList_injective hhash⟩
  have hpre' := String.toList_injective hpre
  rw [String.append_left_inj, String.append_right_inj] at hpre'
  exact hpre'

theorem rateLimitStorageKey_inj {o o' h h' : String} (hh : ':' ∉ h.toList) (hh' : ':' ∉ h'.toList)
    (heq : rateLimitStorageKey o h = rateLimitStorageKey o' h') : o = o' ∧ h = h' :=
  counterKey_inj (by decide : ":ratelimit:" = ":ratelimit" ++ ":") hh hh' heq

theorem quotaStorageKey_inj {o o' h h' : String} (hh : ':' ∉ h.toList) (hh' : ':' ∉ h'.toList)
    (heq : quotaStorageKey o h = quotaStorageKey o' h') : o = o' ∧ h = h' :=
  counterKey_inj (by decide : ":quota:" = ":quota" ++ ":") hh hh' heq

/-- An account is no counter of an endpoint limit. -/
theorem endpointKey_ne_rateKey (scope : String) (index : ℕ) (h : String) :
    endpointRateLimitStorageKey orgId scope index ≠ rateLimitStorageKey orgId h := by
  intro heq
  simp only [endpointRateLimitStorageKey, rateLimitStorageKey, String.append_assoc] at heq
  rw [String.append_right_inj, String.append_right_inj] at heq
  have hl := congrArg String.toList heq
  simp only [String.toList_append] at hl
  injection hl with _ hl
  injection hl with hl _
  exact absurd hl (by decide)

/-- Two sessions that share an account have it under one digest, and are both limited. -/
theorem of_accounts {ctx ctx' : SessionContext} (hh : ':' ∉ ctx.keyHash.toList) (hh' : ':' ∉ ctx'.keyHash.toList)
    (h : (∃ key, rateAccount ctx = some key ∧ rateAccount ctx' = some key) ∨
      ∃ key, quotaAccount ctx = some key ∧ quotaAccount ctx' = some key) :
    BothLimited ctx ctx' ∧ ctx.keyHash = ctx'.keyHash := by
  rcases h with ⟨key, h₁, h₂⟩ | ⟨key, h₁, h₂⟩
  · obtain ⟨_, hrate, rfl⟩ := Option.map_eq_some_iff.1 h₁
    obtain ⟨_, hrate', heq⟩ := Option.map_eq_some_iff.1 h₂
    obtain ⟨ho, hh⟩ := rateLimitStorageKey_inj hh' hh heq
    exact ⟨⟨ho.symm, .inl ⟨by rw [hrate]; rfl, by rw [hrate']; rfl⟩⟩, hh.symm⟩
  · obtain ⟨_, hquota, rfl⟩ := Option.map_eq_some_iff.1 h₁
    obtain ⟨_, hquota', heq⟩ := Option.map_eq_some_iff.1 h₂
    obtain ⟨ho, hh⟩ := quotaStorageKey_inj hh' hh heq
    exact ⟨⟨ho.symm, .inr ⟨by rw [hquota]; rfl, by rw [hquota']; rfl⟩⟩, hh.symm⟩

/-- And conversely. -/
theorem accounts_of {ctx ctx' : SessionContext} (h : BothLimited ctx ctx') (hhash : ctx.keyHash = ctx'.keyHash) :
    (∃ key, rateAccount ctx = some key ∧ rateAccount ctx' = some key) ∨
      ∃ key, quotaAccount ctx = some key ∧ quotaAccount ctx' = some key := by
  obtain ⟨ho, ⟨hrate, hrate'⟩ | ⟨hquota, hquota'⟩⟩ := h
  · obtain ⟨r, hr⟩ := Option.isSome_iff_exists.1 hrate
    obtain ⟨r', hr'⟩ := Option.isSome_iff_exists.1 hrate'
    exact .inl ⟨_, by rw [rateAccount, hr]; rfl, by rw [rateAccount, hr', ho, hhash]; rfl⟩
  · obtain ⟨q, hq⟩ := Option.isSome_iff_exists.1 hquota
    obtain ⟨q', hq'⟩ := Option.isSome_iff_exists.1 hquota'
    exact .inr ⟨_, by rw [quotaAccount, hq]; rfl, by rw [quotaAccount, hq', ho, hhash]; rfl⟩

theorem bothLimited_symm {ctx ctx' : SessionContext} (h : BothLimited ctx ctx') : BothLimited ctx' ctx := by
  obtain ⟨ho, ⟨hr, hr'⟩ | ⟨hq, hq'⟩⟩ := h
  · exact ⟨ho.symm, .inl ⟨hr', hr⟩⟩
  · exact ⟨ho.symm, .inr ⟨hq', hq⟩⟩

/-- A session without limits shares no account. -/
theorem OfJwt.not_bothLimited {ctx ctx' : SessionContext} (h : OfJwt k c a ctx) : ¬ BothLimited ctx ctx' := by
  obtain ⟨-, -, hnoRate, hnoQuota⟩ := h
  rintro ⟨-, ⟨hrate, -⟩ | ⟨hquota, -⟩⟩
  · rw [hnoRate] at hrate
    cases hrate
  · rw [hnoQuota] at hquota
    cases hquota

/-! ### One principal -/

section Principal

variable {a' : Arrival Key ε orgId} {ctx ctx' : SessionContext}

/-- A stored credential and an OIDC identity meet only where the plain token is the identity behind
`oidc:`. -/
theorem mistakable_of_stored_oidc (hhash : Function.Injective c.hashKey) (hs : OfStored k c a ctx)
    (ho : OfOidc k c a' ctx') (heq : ctx.keyHash = ctx'.keyHash) : Mistakable k c a' a := by
  obtain ⟨-, raw, hraw, hshape⟩ := hs
  obtain ⟨issuer, identity, hp, -, hkey, -⟩ := ho
  have htext : raw = "oidc:" ++ identity := hhash (hraw.symm.trans (heq.trans hkey))
  refine ⟨issuer, identity, hp, .inr ?_⟩
  rcases hshape with htoken | ⟨-, id, hid⟩
  · rw [htoken, htext]
  · exact absurd (htext.symm.trans hid) (id.rawKey_ne_oidc identity)

/-- Requests that would share an account are of one principal, unless they are like-named. -/
theorem principal_eq_or_likeNamed (hhash : Function.Injective c.hashKey) (h : a.attached k c = some ctx)
    (h' : a'.attached k c = some ctx') (hlimited : BothLimited ctx ctx') (heq : ctx.keyHash = ctx'.keyHash) :
    a.principal k c = a'.principal k c ∨ LikeNamed k c a a' := by
  rcases attached_cases h with hs | hj | ho
  · rcases attached_cases h' with hs' | hj' | ho'
    · exact .inl (by rw [hs.1, hs'.1, heq])
    · exact absurd (bothLimited_symm hlimited) hj'.not_bothLimited
    · exact .inr (.inr (mistakable_of_stored_oidc hhash hs ho' heq))
  · exact absurd hlimited hj.not_bothLimited
  · rcases attached_cases h' with hs' | hj' | ho'
    · exact .inr (.inl (mistakable_of_stored_oidc hhash hs' ho heq.symm))
    · exact absurd (bothLimited_symm hlimited) hj'.not_bothLimited
    · obtain ⟨issuer, identity, hp, -, hkey, -⟩ := ho
      obtain ⟨issuer', identity', hp', -, hkey', -⟩ := ho'
      have hid : identity = identity' :=
        (String.append_right_inj "oidc:").1 (hhash (hkey.symm.trans (heq.trans hkey')))
      subst hid
      by_cases hissuer : issuer' = issuer
      · subst hissuer
        exact .inl (hp.trans hp'.symm)
      · exact .inr (.inl ⟨issuer, identity, hp, .inl ⟨issuer', hissuer, hp'⟩⟩)

/-- The digest of an OIDC identity. -/
theorem keyHash_of_oidc {issuer identity : String} (h : a.attached k c = some ctx)
    (hp : a.principal k c = some (.oidc issuer identity)) : ctx.keyHash = c.hashKey ("oidc:" ++ identity) := by
  rcases attached_cases h with hs | hj | ho
  · rw [hs.1] at hp
    cases hp
  · obtain ⟨⟨_, _, hjwt⟩, -⟩ := hj
    rw [hjwt] at hp
    cases hp
  · obtain ⟨issuer', identity', hp', -, hkey, -⟩ := ho
    rw [hp'] at hp
    cases hp
    exact hkey

/-- The digest of a plain token, and the stored credential it is. -/
theorem keyHash_of_plainToken {token : String} (h : a.attached k c = some ctx)
    (htoken : a.plainToken k = some token) :
    ctx.keyHash = c.hashKey token ∧ a.principal k c = some (.stored (sessionStorageKey orgId ctx.keyHash)) := by
  rcases attached_cases h with hs | hj | ho
  · obtain ⟨hp, raw, hkey, hraw | ⟨hnone, -⟩⟩ := hs
    · rw [hraw] at htoken
      cases htoken
      exact ⟨hkey, hp⟩
    · rw [hnone] at htoken
      cases htoken
  · rw [hj.2.1] at htoken
    cases htoken
  · obtain ⟨_, _, -, hnone, -⟩ := ho
    rw [hnone] at htoken
    cases htoken

/-- Like-named requests are of two principals, and are charged under one digest. -/
theorem of_mistakable (h : a.attached k c = some ctx) (h' : a'.attached k c = some ctx')
    (hm : Mistakable k c a a') : a.principal k c ≠ a'.principal k c ∧ ctx.keyHash = ctx'.keyHash := by
  obtain ⟨issuer, identity, hp, ⟨issuer', hissuer, hp'⟩ | htoken⟩ := hm
  · refine ⟨fun heq => hissuer ?_, (keyHash_of_oidc h hp).trans (keyHash_of_oidc h' hp').symm⟩
    rw [hp, hp'] at heq
    cases heq
    rfl
  · obtain ⟨hkey', hp'⟩ := keyHash_of_plainToken h' htoken
    refine ⟨fun heq => ?_, (keyHash_of_oidc h hp).trans hkey'.symm⟩
    rw [hp, hp'] at heq
    cases heq

theorem exists_keyHash (h : a.attached k c = some ctx) : ∃ raw, ctx.keyHash = c.hashKey raw := by
  obtain ⟨-, st, -, hauth⟩ := attached_eq_some.1 h
  rcases authenticate_ok hauth with ⟨id, hkey, -⟩ | ⟨token, -, hkey⟩ | ⟨raw, -, hkey⟩
  · exact ⟨_, hkey⟩
  · exact ⟨_, hkey⟩
  · exact ⟨_, hkey⟩

/-- What sharing an account comes to. -/
theorem shares_iff (hhash : KeyHash c.hashKey) (h : a.attached k c = some ctx)
    (h' : a'.attached k c = some ctx') : Shares k c a a' ↔ BothLimited ctx ctx' ∧ ctx.keyHash = ctx'.keyHash := by
  obtain ⟨raw, hraw⟩ := exists_keyHash h
  obtain ⟨raw', hraw'⟩ := exists_keyHash h'
  constructor
  · rintro ⟨ctx₁, ctx₂, h₁, h₂, haccounts⟩
    obtain rfl := Option.some.inj (h.symm.trans h₁)
    obtain rfl := Option.some.inj (h'.symm.trans h₂)
    exact of_accounts (hraw ▸ hhash.colon_not_mem raw) (hraw' ▸ hhash.colon_not_mem raw') haccounts
  · rintro ⟨hlimited, hkey⟩
    exact ⟨ctx, ctx', h, h', accounts_of hlimited hkey⟩

/-- Accounts belong to one principal exactly when no limited requests are like-named. -/
theorem onePrincipal_iff (hhash : KeyHash c.hashKey)
    (arrivals : List (Arrival Key ε orgId)) :
    (∀ a ∈ arrivals, ∀ a' ∈ arrivals, Shares k c a a' → a.principal k c = a'.principal k c) ↔
      NoLikeNames k c arrivals := by
  constructor
  · intro hone a ha a' ha' hlike ctx ctx' h h' hlimited
    rcases hlike with hm | hm
    · obtain ⟨hne, hkey⟩ := of_mistakable h h' hm
      exact hne (hone a ha a' ha' ((shares_iff hhash h h').2 ⟨hlimited, hkey⟩))
    · obtain ⟨hne, hkey⟩ := of_mistakable h' h hm
      exact hne (hone a' ha' a ha ((shares_iff hhash h' h).2 ⟨bothLimited_symm hlimited, hkey⟩))
  · intro hnone a ha a' ha' hshares
    obtain ⟨ctx, ctx', h, h', -⟩ := id hshares
    obtain ⟨hlimited, hkey⟩ := (shares_iff hhash h h').1 hshares
    rcases principal_eq_or_likeNamed hhash.injective h h' hlimited hkey with heq | hlike
    · exact heq
    · exact absurd hlimited (hnone a ha a' ha' hlike ctx ctx' h h')

end Principal

/-! ### What a request changes -/

section Step

variable {w : World ρ κ} {state : RateLimitState} {moment : Moment ε} {req : Request}

theorem mem_performed_andThen {s : Step ρ κ} {next : World ρ κ → Step ρ κ} {check : Check}
    (h : check ∈ (s.andThen next).performed) : check ∈ s.performed ∨ check ∈ (next s.world).performed := by
  unfold Step.andThen at h
  split at h
  · exact .inl h
  · exact List.mem_append.1 h

/-- The counters that the limits of a session are checked on. -/
theorem key_of_checkSession {ctx : SessionContext} {check : Check}
    (h : check ∈ (checkSession b moment ctx w).performed) :
    check.gate ≠ .endpoint ∧ (check.gate = .rate → rateAccount ctx = some check.key) ∧
      (check.gate = .quota → quotaAccount ctx = some check.key) := by
  simp only [checkSession] at h
  split_ifs at h with hnone
  · cases h
  · rcases mem_performed_andThen h with h | h
    · unfold checkSpike at h
      split at h
      · cases h
      · obtain rfl := List.mem_singleton.1 h
        refine ⟨fun hgate => ?_, fun hgate => ?_, fun hgate => ?_⟩
        · cases hgate
        · cases hgate
        · cases hgate
    · rcases mem_performed_andThen h with h | h
      · cases hrate : ctx.session.rate with
        | none =>
          rw [hrate] at h
          cases h
        | some rate =>
          rw [hrate] at h
          obtain rfl := List.mem_singleton.1 h
          refine ⟨fun hgate => ?_, fun _ => ?_, fun hgate => ?_⟩
          · cases hgate
          · rw [rateAccount, hrate]
            rfl
          · cases hgate
      · cases hquota : ctx.session.quota with
        | none =>
          rw [hquota] at h
          cases h
        | some quota =>
          rw [hquota] at h
          obtain rfl := List.mem_singleton.1 h
          refine ⟨fun hgate => ?_, fun hgate => ?_, fun _ => ?_⟩
          · cases hgate
          · cases hgate
          · rw [quotaAccount, hquota]
            rfl

/-- The counters that a request is checked on: those of the endpoint limits, and its own accounts. -/
theorem key_of_enforce {check : Check} (h : check ∈ (enforce b state moment req w).performed) :
    (check.gate = .endpoint → ∃ rules, state.endpointLimits = some rules ∧
        ∃ rule ∈ rules, check.key = rule.storageKey) ∧
      (check.gate = .rate → ∃ ctx, req.extensions.session = some ctx ∧ rateAccount ctx = some check.key) ∧
      (check.gate = .quota → ∃ ctx, req.extensions.session = some ctx ∧ quotaAccount ctx = some check.key) := by
  rcases mem_performed_andThen h with h | h
  · unfold checkEndpoint at h
    split at h
    · cases h
    · rename_i rule hrule
      obtain ⟨rules, hrules, hmatch⟩ := Option.bind_eq_some_iff.1 hrule
      obtain rfl := List.mem_singleton.1 h
      exact ⟨fun _ => ⟨rules, hrules, rule, List.mem_of_find?_eq_some hmatch, rfl⟩, nofun, nofun⟩
  · unfold laterChecks at h
    cases hsession : req.extensions.session with
    | none =>
      rw [hsession] at h
      cases h
    | some ctx =>
      rw [hsession] at h
      obtain ⟨hendpoint, hrate, hquota⟩ := key_of_checkSession b h
      exact ⟨fun hgate => absurd hgate hendpoint, fun hgate => ⟨ctx, rfl, hrate hgate⟩,
        fun hgate => ⟨ctx, rfl, hquota hgate⟩⟩

/-- What the auth layer passes on carries the session it attached, and no other. -/
theorem session_of_passed (h : a.passed k c = some req) : req.extensions.session = a.attached k c := by
  unfold Arrival.passed at h
  split at h
  · cases h
  · rename_i hcfg
    obtain rfl := Option.some.inj h
    rw [a.fresh, Arrival.attached, Arrival.authState, hcfg]
    simp [Except.toOption]
  · rename_i mode hcfg
    rw [toOption_eq_some] at h
    have hst : a.authState k = some ⟨a.apiId, orgId, mode⟩ := authState_eq_some.2 ⟨mode, hcfg, rfl⟩
    unfold Auth.call at h
    split_ifs at h with hbypass
    · obtain rfl := Except.ok.inj h
      rw [a.fresh, Arrival.attached, if_pos hbypass]
    · simp only [bind_eq_ok, pure_eq_ok] at h
      obtain ⟨ctx, hauth, rfl⟩ := h
      exact (attached_eq_some.2 ⟨by simpa using hbypass, _, hst, hauth⟩).symm

/-- **One request** leaves the accounts alone that it does not share. -/
theorem step_untouched {a' : Arrival Key ε orgId} {ctx' : SessionContext} (hapart : ¬ Shares k c a a')
    (h' : a'.attached k c = some ctx') (horg : ctx'.session.orgId = orgId) (w : World ρ κ) :
    (∀ key, rateAccount ctx' = some key → (step k c a b w).rates key = w.rates key) ∧
      ∀ key, quotaAccount ctx' = some key → (step k c a b w).quotas key = w.quotas key := by
  unfold step
  split
  · exact ⟨fun _ _ => rfl, fun _ _ => rfl⟩
  · rename_i req hpassed
    have hsession := session_of_passed hpassed
    have horderly := orderly_enforce b a.limits a.moment req w
    constructor
    · intro key hkey
      refine horderly.rates key fun check hcheck hgate heq => ?_
      obtain ⟨hendpoint, hrate, -⟩ := key_of_enforce b hcheck
      rcases hgate with hgate | hgate
      · obtain ⟨rules, hrules, rule, hrule, hstorage⟩ := hendpoint hgate
        obtain ⟨scope, index, hform⟩ := a.endpointKeys rules hrules rule hrule
        obtain ⟨_, -, haccount⟩ := Option.map_eq_some_iff.1 hkey
        rw [horg] at haccount
        exact endpointKey_ne_rateKey scope index ctx'.keyHash
          (hform.symm.trans (hstorage.symm.trans (heq.trans haccount.symm)))
      · obtain ⟨ctx, hctx, haccount⟩ := hrate hgate
        rw [heq] at haccount
        exact hapart ⟨ctx, ctx', hsession.symm.trans hctx, h', .inl ⟨key, haccount, hkey⟩⟩
    · intro key hkey
      refine horderly.spared key fun check hcheck hgate heq => ?_
      obtain ⟨-, -, hquota⟩ := key_of_enforce b hcheck
      obtain ⟨ctx, hctx, haccount⟩ := hquota hgate
      rw [heq] at haccount
      exact hapart ⟨ctx, ctx', hsession.symm.trans hctx, h', .inr ⟨key, haccount, hkey⟩⟩

end Step

/-- **Limit accounts belong to one principal**, exactly: in a run of requests at the APIs of an
organization, requests that share a rate or quota counter are of one principal, and no request
changes a counter of another principal, if and only if no two limited requests of the run are
like-named. -/
theorem accounts_apart_iff (hhash : KeyHash c.hashKey)
    (arrivals : List (Arrival Key ε orgId)) : AccountsApart k c b arrivals ↔ NoLikeNames k c arrivals := by
  constructor
  · intro h
    exact (onePrincipal_iff hhash arrivals).1 h.onePrincipal
  · intro h
    have hone := (onePrincipal_iff hhash arrivals).2 h
    refine ⟨hone, fun pre a post hrun a' ha' hne ctx' h' horg w => ?_⟩
    have ha : a ∈ arrivals := by
      rw [hrun]
      simp
    have hconcat : run k c b w (pre ++ [a]) = step k c a b (run k c b w pre) := by
      rw [run, run, List.foldl_append]
      rfl
    rw [hconcat]
    exact step_untouched b (fun hshares => hne (hone a ha a' ha' hshares)) h' horg _

end Arrival

/-! ### Two issuers -/

/-- The policy of the client `web`. -/
def webPolicy : Policy := { policyId := "gold", name := "gold", rate := some ⟨5, 60⟩ }

/-- Its record. -/
def webRecord : String :=
  "\x7b\"policy_id\":\"gold\",\"name\":\"gold\",\"org_id\":\"default\",\"active\":true," ++
    "\"rate\":\x7b\"requests\":5,\"per_seconds\":60\x7d,\"access\":\x7b\x7d\x7d"

/-- The alice of an issuer: its URL, and a token it has signed for her. -/
structure Alice where
  issuerUrl : String
  token : String

/-- The payload is `{"iss":"http://idp.internal","aud":"g2way","sub":"alice","azp":"web","exp":2000000000}`. -/
def idpToken : String :=
  "eyJhbGciOiJSUzI1NiIsInR5cCI6IkpXVCIsImtpZCI6ImsxIn0." ++
  "eyJpc3MiOiJodHRwOi8vaWRwLmludGVybmFsIiwiYXVkIjoiZzJ3YXkiLCJzdWIi" ++
  "OiJhbGljZSIsImF6cCI6IndlYiIsImV4cCI6MjAwMDAwMDAwMH0." ++
  "jj4qczEbFNkFC2WPr0m6JOVnobcWs5pfJMj5suOIHS5zysk5Yb_5nUzDZp-s3MQQ" ++
  "z0OAu51n-ojSATP83a8LW3VCEUo6H0QjzuQvu7EQCuadJexvVHPE1KFgjIuTsckD" ++
  "vrPh5ZaUmQOCEmQl4i1pyVJQeRvQRP6x5_qTlmdbfAWSXXPmqSpAqmTDaJ2ZlAcd" ++
  "AqjPEBu2Cj2ysIABAGmiD0MWGxpjYVQAVmmpZjHboY8y3I8iMvDL0FB_KOfEpvNV" ++
  "0SYIPAAeujRp58XyQ1u39___7lrbThoJNUmLmiNwx9gaBKT9S_FtQ2nIJMmwUwNR" ++
  "mFXynHJFBOV56UbM9Q5XEg"

/-- The payload is `{"iss":"https://idp.example.com","aud":"g2way","sub":"alice","azp":"web","exp":2000000000}`. -/
def exampleToken : String :=
  "eyJhbGciOiJSUzI1NiIsInR5cCI6IkpXVCIsImtpZCI6ImsxIn0." ++
  "eyJpc3MiOiJodHRwczovL2lkcC5leGFtcGxlLmNvbSIsImF1ZCI6Imcyd2F5Iiwi" ++
  "c3ViIjoiYWxpY2UiLCJhenAiOiJ3ZWIiLCJleHAiOjIwMDAwMDAwMDB9." ++
  "P3ETEfDv3vxkAM2D5TZHtnoQKA_7B0oYQe8SXiJ229EY1cXGuCCkaq6i7_Wvu7EN" ++
  "y9ZB084wU2fZVExsYxFStFgCb4pPqUdKeCRh9E8apvm0IAJ60KGF_VvCTIRHcE-" ++
  "-" ++
  "GOjlogpuylkiRoctrCX0Ml13vJ5ggtowhI6tHrKXEVo-zrrh0DoLdakiV6B4ETNU" ++
  "ooDMCwlJqVEfKKQlHdD6zykMLBekVDV7c2AiaxHCJrGSCY6bpKxK-XUJ48eLsa5j" ++
  "Tg_86L8bk89r12mPvEaKLsFXBDXL_fJRZ3YKUCTIZR3AKxblIHmUnNYnOmrlLgay" ++
  "PblXEtyeK_Pr-sSII8WNxw"

def idpAlice : Alice := ⟨"http://idp.internal", idpToken⟩

def exampleAlice : Alice := ⟨"https://idp.example.com", exampleToken⟩

/-- The digest of the text both alices have for a key. -/
def aliceDigests : List (String × String) :=
  [("oidc:alice", "edbcc36c119ba282e8b0a8ad19d348932059c463d5ee52ffdd44cb0a869c19f0")]

theorem aliceDigests_known : KnownDigests aliceDigests where
  distinct := by decide +kernel
  digests := List.forall_mem_singleton.2 (hexDigest_ofList rfl rfl)

/-- Crates that verify the two tokens, each with the key and the validation of its issuer. -/
def issuerCrates : Crates String String where
  hashKey := sampleDigest aliceDigests
  bcryptVerify _ _ := .ok false
  hmacVerify _ _ _ _ := false
  base64Decode _ := none
  parseHttpDate _ := none
  sessionFromJson _ := none
  policyFromJson text := if text = webRecord then some webPolicy else none
  decodeHeader token := if token = idpToken ∨ token = exampleToken then some (some "k1") else none
  decode key validation token :=
    if key = validation ∧ (validation = idpAlice.issuerUrl ∧ token = idpToken ∨
        validation = exampleAlice.issuerUrl ∧ token = exampleToken) then
      some [("iss", .str validation), ("aud", .str "g2way"), ("sub", .str "alice"), ("azp", .str "web"),
        ("exp", .u64 2000000000)]
    else none

/-- A key is named after its issuer. -/
def issuerKeys : KeyCrates String String where
  fromSecret := id
  fromRsaPem _ := .error "no PEM"
  validation _ := ""
  oidcValidation issuerUrl _ := issuerUrl

/-- A request at the OIDC API of an issuer, with the token of its alice. -/
def aliceOf (apiId : String) (alice : Alice) : Arrival String Unit "default" where
  cfg := .oidc alice.issuerUrl ["g2way"] none "authorization" "sub" "azp" [("web", "gold")]
  apiId := apiId
  limits := ⟨none⟩
  jwks source _ := match source with
    | .discovery issuer => some issuer
    | .url _ => none
  store key := .ok (if key = policyStorageKey "default" "gold" then some webRecord else none)
  now := 0
  moment := ⟨0, 0, ()⟩
  req := { headers := [("authorization", headerValue ("Bearer " ++ alice.token))] }
  fresh := rfl
  endpointKeys := by
    intro rules hrules
    cases hrules

/-- The session of every alice. -/
def aliceSession : SessionContext :=
  ⟨{ aliasName := some "alice", expiresAt := some 2000000000, rate := some ⟨5, 60⟩ },
    "edbcc36c119ba282e8b0a8ad19d348932059c463d5ee52ffdd44cb0a869c19f0"⟩

section Alice

variable {apiId : String} {alice : Alice}

/-- The claims of an alice's token. -/
def aliceClaims (alice : Alice) : Claims :=
  [("iss", .str alice.issuerUrl), ("aud", .str "g2way"), ("sub", .str "alice"), ("azp", .str "web"),
    ("exp", .u64 2000000000)]

theorem authState_aliceOf (apiId : String) (alice : Alice) :
    (aliceOf apiId alice).authState issuerKeys = some ⟨apiId, "default", .oidc "authorization"
      (fun _ => some alice.issuerUrl) alice.issuerUrl "sub" (some ⟨"azp", [("web", "gold")]⟩)⟩ := rfl

/-- The token is read off the request and verifies. -/
structure Presents (apiId : String) (alice : Alice) : Prop where
  extracted : extractToken "authorization" none none (aliceOf apiId alice).req = some alice.token
  header : issuerCrates.decodeHeader alice.token = some (some "k1")
  decoded : issuerCrates.decode alice.issuerUrl alice.issuerUrl alice.token = some (aliceClaims alice)

theorem claims_aliceOf (h : Presents apiId alice) :
    (aliceOf apiId alice).claims issuerKeys issuerCrates = some (aliceClaims alice) := by
  simp [Arrival.claims, authState_aliceOf, h.extracted, resolveJwksKey, h.header, h.decoded, okOr, Except.toOption,
    bind, Except.bind]

theorem attached_aliceOf (h : Presents apiId alice) :
    (aliceOf apiId alice).attached issuerKeys issuerCrates = some aliceSession := by
  have hkey : resolveJwksKey issuerCrates (fun _ => some alice.issuerUrl) alice.token = .ok alice.issuerUrl := by
    simp [resolveJwksKey, h.header, okOr, bind, Except.bind]
  refine attached_eq_some.2 ⟨rfl, _, authState_aliceOf apiId alice, ?_⟩
  simp only [authenticate, h.extracted, okOr, hkey, bind, Except.bind, h.decoded]
  rfl

theorem principal_aliceOf (h : Presents apiId alice) :
    (aliceOf apiId alice).principal issuerKeys issuerCrates = some (.oidc alice.issuerUrl "alice") := by
  rw [Arrival.principal, attached_aliceOf h]
  simp only [aliceOf, Option.bind_some]
  have hclaims := claims_aliceOf h
  simp only [aliceOf] at hclaims
  rw [hclaims]
  rfl

/-- All characters are visible ones. -/
def Visible (s : String) : Prop := ∀ ch ∈ s.toList, 33 ≤ ch.toNat ∧ ch.toNat < 127

theorem visible_append {s t : String} : Visible (s ++ t) ↔ Visible s ∧ Visible t := by
  rw [Visible, String.toList_append, List.forall_mem_append]
  rfl

theorem Visible.not_whitespace {s : String} (h : Visible s) {o : Option Char} (ho : ∀ ch ∈ o, ch ∈ s.toList) :
    o.any Text.isWhitespace = false := by
  cases o with
  | none => rfl
  | some ch =>
    obtain ⟨hlow, hhigh⟩ := h ch (ho ch rfl)
    simp [Text.isWhitespace]
    omega

/-- A bearer token of visible characters is what follows the scheme. -/
theorem stripBearer_visible {token : String} (h : Visible token) (hne : token ≠ "") :
    stripBearer (Text.trim ("Bearer " ++ token)) = token := by
  have hlist : ("Bearer " ++ token).toList = "Bearer ".toList ++ token.toList := String.toList_append ..
  have htrim : Text.trim ("Bearer " ++ token) = "Bearer " ++ token := by
    refine Text.trim_eq_self (by rw [hlist]; rfl) ?_
    rw [hlist, List.getLast?_append_of_ne_nil _ (mt String.toList_eq_nil_iff.1 hne)]
    exact h.not_whitespace fun ch hch => List.mem_of_getLast? hch
  have hsplit : Text.splitAtChecked 7 ("Bearer " ++ token) = some ("Bearer ", token) := by
    rw [Text.splitAtChecked, hlist]
    simp
  have hstart : Text.trimStart token = token := by
    rw [Text.trimStart]
    cases hchars : token.toList with
    | nil => exact absurd (String.toList_eq_nil_iff.1 hchars) hne
    | cons ch chars =>
      have hch := h.not_whitespace (o := some ch) (by simp [hchars])
      rw [List.dropWhile_cons_of_neg (by simpa using hch), ← hchars, String.ofList_toList]
  rw [stripBearer, htrim, hsplit]
  exact (if_pos (by decide)).trans hstart

/-- A token of visible characters is read off the header. -/
theorem extractToken_aliceOf (h : Visible alice.token) (hne : alice.token ≠ "") :
    extractToken "authorization" none none (aliceOf apiId alice).req = some alice.token := by
  have hvalue : (aliceOf apiId alice).req.headers.getStr "authorization" = some ("Bearer " ++ alice.token) := by
    rw [HeaderMap.getStr, show (aliceOf apiId alice).req.headers.get "authorization" =
      some (headerValue ("Bearer " ++ alice.token)) from rfl, Option.bind_some]
    refine toStr_headerValue ?_
    rw [String.toList_append, List.forall_mem_append]
    refine ⟨by simp, fun ch hch => ⟨?_, (h ch hch).2⟩⟩
    exact (Nat.lt_of_succ_le (h ch hch).1).le
  simp [extractToken, hvalue, stripBearer_visible h hne, hne]

theorem idpToken_visible : Visible idpToken := by
  unfold idpToken
  iterate 8 rw [visible_append]
  and_intros
  all_goals exact Text.forall_mem_ofList rfl

theorem exampleToken_visible : Visible exampleToken := by
  unfold exampleToken
  iterate 9 rw [visible_append]
  and_intros
  all_goals exact Text.forall_mem_ofList rfl

theorem presents_idp (apiId : String) : Presents apiId idpAlice where
  extracted := @extractToken_aliceOf apiId idpAlice idpToken_visible (by decide +kernel)
  header := by simp [issuerCrates, idpAlice]
  decoded := by simp [issuerCrates, idpAlice, aliceClaims]

theorem presents_example (apiId : String) : Presents apiId exampleAlice where
  extracted := @extractToken_aliceOf apiId exampleAlice exampleToken_visible (by decide +kernel)
  header := by simp [issuerCrates, exampleAlice]
  decoded := by simp [issuerCrates, exampleAlice, aliceClaims]

end Alice

/-- A storage that counts the checks of a key. -/
def countingBackend : Backend Unit ℕ ℕ where
  checkRate _ n limit window := (some ⟨decide (n < limit), limit - n - 1, window⟩, n + 1)
  checkQuota _ n max period := (some ⟨decide (n < max), max - n - 1, period⟩, n + 1)

/-- The alice of one issuer is charged to the account of the other's. -/
theorem issuers_share_account :
    KeyHash issuerCrates.hashKey ∧
      ¬ AccountsApart issuerKeys issuerCrates countingBackend
        [aliceOf "orders" idpAlice, aliceOf "reports" exampleAlice] := by
  refine ⟨sampleDigest_keyHash aliceDigests_known, fun h => ?_⟩
  have hshares : Shares issuerKeys issuerCrates (aliceOf "orders" idpAlice)
      (aliceOf "reports" exampleAlice) :=
    ⟨_, _, attached_aliceOf (presents_idp _), attached_aliceOf (presents_example _), .inl ⟨_, rfl, rfl⟩⟩
  have heq := h.onePrincipal _ (List.mem_cons_self ..) _ (List.mem_cons_of_mem _ (List.mem_singleton_self _)) hshares
  rw [principal_aliceOf (presents_idp _), principal_aliceOf (presents_example _)] at heq
  exact absurd heq (by decide +kernel)

/-- One issuer's alice at two APIs is one principal. -/
theorem accounts_apart_iff_oneIssuer :
    AccountsApart issuerKeys issuerCrates countingBackend
      [aliceOf "orders" idpAlice, aliceOf "reports" idpAlice] := by
  rw [accounts_apart_iff countingBackend (sampleDigest_keyHash aliceDigests_known)]
  have hprincipal : ∀ a ∈ [aliceOf "orders" idpAlice, aliceOf "reports" idpAlice],
      a.principal issuerKeys issuerCrates = some (.oidc idpAlice.issuerUrl "alice") := by
    intro a ha
    rcases List.mem_cons.1 ha with rfl | ha
    · exact principal_aliceOf (presents_idp _)
    · rw [List.mem_singleton.1 ha]
      exact principal_aliceOf (presents_idp _)
  intro a ha a' ha' hlike ctx ctx' h h' _
  rcases hlike with hm | hm
  · exact (of_mistakable h h' hm).1 ((hprincipal a ha).trans (hprincipal a' ha').symm)
  · exact (of_mistakable h' h hm).1 ((hprincipal a' ha').trans (hprincipal a ha).symm)

end G2way.Proxy.Accounts
