import G2way.Core.ApiDefinition
import G2way.Middleware.Context

/-!
# Cross-origin requests

`g2-middleware/src/cors.rs` and `CorsConfig` of `g2-core/src/security.rs`: the gateway
answers preflights itself and decorates other responses. "A request from an unlisted
origin is still forwarded, just without `Access-Control-*` headers."

## The model

A configuration is validated, compiled to `CorsState` with its prebuilt values, and a
request goes through `call`; the inner service is any function of the request. `get`
reads the first line of a name. `Uri` is read by a crate.

## What is proved

A configuration that is accepted compiles (`exists_fromConfig`), and its checks are
those of the policy (`originAllowed_iff`, `methodAllowed_iff`, `headersAllowed_iff`).
`grantsExactly_iff` says when an answer grants what the policy does: the inner
response must not bring grants of its own where the policy has none, and a preflight
must not hide names behind its first line of requested headers. Neither is seen to
(`grants_slip_in`).
-/

namespace G2way.Middleware.Cors

open G2way.Core G2way.Lib G2way.Lib.Result

/-! ### The configuration -/

/-- `CorsConfig`. -/
structure CorsConfig where
  allowedOrigins : List String
  allowedMethods : List String := ["GET", "HEAD", "POST"]
  /-- Empty mirrors whatever headers the preflight asks for. -/
  allowedHeaders : List String := []
  exposedHeaders : List String := []
  allowCredentials : Bool := false
  maxAgeSecs : Option ℕ := none
  /-- Preflights are forwarded to the upstream. -/
  optionsPassthrough : Bool := false
  deriving DecidableEq, Repr

/-- `is_valid_origin`. -/
def isValidOrigin (parseUri : String → Except String Uri) (origin : String) : Bool :=
  match parseUri origin with
  | .error _ => false
  | .ok uri =>
    match uri.scheme, uri.authority with
    | some scheme, some authority =>
      (scheme = "http" || scheme = "https") && !authority.toList.contains '@' &&
        origin = scheme ++ "://" ++ authority
    | _, _ => false

/-- `CorsConfig::validate`, with the reason of its error. -/
def CorsConfig.validate (cfg : CorsConfig) (parseUri : String → Except String Uri) : Except String Unit := do
  ensure (cfg.allowedOrigins ≠ []) "`cors.allowed_origins` must not be empty"
  let wildcard := cfg.allowedOrigins.contains "*"
  ensure (!(wildcard && 1 < cfg.allowedOrigins.length))
    "`cors.allowed_origins` must be either `[\"*\"]` or a list of explicit origins, not both"
  ensure (!(wildcard && cfg.allowCredentials))
    "`cors.allow_credentials` cannot be combined with the `*` origin (browsers reject that combination)"
  cfg.allowedOrigins.forM fun origin =>
    ensure (origin = "*" || isValidOrigin parseUri origin)
      ("`cors.allowed_origins` entry is not a valid origin (`scheme://host[:port]`, no path): `" ++ origin ++ "`")
  ensure (cfg.allowedMethods ≠ []) "`cors.allowed_methods` must not be empty"
  cfg.allowedMethods.forM fun method =>
    ensure (transformMethods.any (Text.eqIgnoreAsciiCase · method))
      ("`cors.allowed_methods` must contain only standard HTTP methods (" ++ ", ".intercalate transformMethods ++
        "), got `" ++ method ++ "`")
  [("allowed_headers", cfg.allowedHeaders), ("exposed_headers", cfg.exposedHeaders)].forM fun (field, names) =>
    names.forM fun name =>
      ensure (headerName name).isSome ("`cors." ++ field ++ "` entry is not a valid header name: `" ++ name ++ "`")

/-! ### The compiled policy -/

/-- `CorsState`. -/
structure CorsState where
  wildcard : Bool
  /-- Explicit origins, in lower case. -/
  origins : List String
  allowedMethods : List String
  allowMethodsValue : HeaderValue
  /-- `None` mirrors the preflight's requested headers instead. -/
  allowHeadersValue : Option HeaderValue
  allowedHeadersLower : List String
  exposeHeadersValue : Option HeaderValue
  credentials : Bool
  maxAge : Option HeaderValue
  optionsPassthrough : Bool
  deriving DecidableEq, Repr

/-- `Method::from_bytes`. -/
def methodFromBytes (bytes : List UInt8) : Option String :=
  let chars := HeaderValue.chars bytes
  if chars ≠ [] ∧ chars.all isTokenChar then some (String.ofList chars) else none

/-- `join`. -/
def joinValue (apiId : String) (names : List String) (what : String) : Except InvalidApiDefinition HeaderValue :=
  okOr (headerValueFromStr (", ".intercalate names)) ⟨apiId, "CORS " ++ what ++ " do not form a valid header value"⟩

/-- The value of a list of header names, where it is not empty. -/
def joinNames (apiId : String) (names : List String) (what : String) :
    Except InvalidApiDefinition (Option HeaderValue) :=
  if names.isEmpty then .ok none else some <$> joinValue apiId names what

/-- The value of `max_age_secs`. -/
def maxAgeValue (apiId : String) : Option ℕ → Except InvalidApiDefinition (Option HeaderValue)
  | none => .ok none
  | some secs =>
    some <$> okOr (headerValueFromStr (toString secs)) ⟨apiId, "CORS max_age_secs is not a valid header value"⟩

/-- `CorsLayer::from_config`. -/
def fromConfig (cfg : CorsConfig) (apiId : String) : Except InvalidApiDefinition CorsState := do
  let allowedMethods ← cfg.allowedMethods.mapM fun m =>
    okOr (methodFromBytes (Text.utf8 (Text.toAsciiUppercase m))) ⟨apiId, "invalid CORS method `" ++ m ++ "`"⟩
  let allowMethodsValue ← joinValue apiId allowedMethods "allowed_methods"
  let allowHeadersValue ← joinNames apiId cfg.allowedHeaders "allowed_headers"
  let exposeHeadersValue ← joinNames apiId cfg.exposedHeaders "exposed_headers"
  let maxAge ← maxAgeValue apiId cfg.maxAgeSecs
  return {
    wildcard := cfg.allowedOrigins.contains "*"
    origins := (cfg.allowedOrigins.filter (· ≠ "*")).map Text.toAsciiLowercase
    allowedMethods
    allowMethodsValue
    allowHeadersValue
    allowedHeadersLower := cfg.allowedHeaders.map Text.toAsciiLowercase
    exposeHeadersValue
    credentials := cfg.allowCredentials
    maxAge
    optionsPassthrough := cfg.optionsPassthrough }

/-! ### The service -/

/-- A response. -/
structure Response where
  status : ℕ
  headers : HeaderMap
  body : List UInt8
  deriving DecidableEq, Repr

/-- The header is there (`contains_key`). -/
def containsKey (headers : HeaderMap) (name : String) : Bool := (headers.get name).isSome

/-- `insert`, where there is a value. -/
def insertSome (headers : HeaderMap) (name : String) : Option HeaderValue → HeaderMap
  | some value => headers.insert name value
  | none => headers

/-- The names of a line of requested headers. -/
def requestedNames (line : String) : List String := ((Text.split ',' line).map Text.trim).filter (· ≠ "")

namespace CorsState

variable (st : CorsState)

/-- `origin_allowed`. -/
def originAllowed (origin : HeaderValue) : Bool :=
  if st.wildcard then true
  else
    match origin.toStr with
    | none => false
    | some origin => st.origins.any fun o => Text.eqIgnoreAsciiCase o origin

/-- `allow_origin_value`. -/
def allowOriginValue (origin : HeaderValue) : HeaderValue := if st.wildcard then headerValue "*" else origin

/-- `preflight_method_allowed`. -/
def preflightMethodAllowed (headers : HeaderMap) : Bool :=
  ((headers.get "access-control-request-method").bind methodFromBytes).any fun m => st.allowedMethods.contains m

/-- A line of requested headers passes. -/
def lineAllowed (line : HeaderValue) : Bool :=
  match line.toStr with
  | none => false
  | some requested =>
    (requestedNames requested).all fun name =>
      st.allowedHeadersLower.any fun allowed => Text.eqIgnoreAsciiCase allowed name

/-- `preflight_headers_allowed`. -/
def preflightHeadersAllowed (headers : HeaderMap) : Bool :=
  if st.allowedHeadersLower.isEmpty then true
  else
    match headers.get "access-control-request-headers" with
    | none => true
    | some requested => st.lineAllowed requested

/-- `preflight_response`. -/
def preflightResponse (req : Request) (origin : HeaderValue) : Response :=
  let headers := HeaderMap.insert [] "vary"
    (headerValue "origin, access-control-request-method, access-control-request-headers")
  if !st.originAllowed origin || !st.preflightMethodAllowed req.headers || !st.preflightHeadersAllowed req.headers then
    ⟨204, headers, []⟩
  else
    let headers := headers.insert "access-control-allow-origin" (st.allowOriginValue origin)
    let headers := headers.insert "access-control-allow-methods" st.allowMethodsValue
    let allowHeaders := st.allowHeadersValue.or (req.headers.get "access-control-request-headers")
    let headers := insertSome headers "access-control-allow-headers" allowHeaders
    let headers :=
      if st.credentials then headers.insert "access-control-allow-credentials" (headerValue "true") else headers
    let headers := insertSome headers "access-control-max-age" st.maxAge
    ⟨204, headers, []⟩

/-- `decorate`. -/
def decorate (headers : HeaderMap) (origin : HeaderValue) : HeaderMap :=
  let headers := headers.insert "access-control-allow-origin" (st.allowOriginValue origin)
  let headers :=
    if st.credentials then headers.insert "access-control-allow-credentials" (headerValue "true") else headers
  insertSome headers "access-control-expose-headers" st.exposeHeadersValue

end CorsState

/-- A preflight: `OPTIONS` with the method it is about. -/
def isPreflight (req : Request) : Bool :=
  req.method = "OPTIONS" && containsKey req.headers "access-control-request-method"

/-- `Cors::call`. -/
def call (st : CorsState) (inner : Request → Response) (req : Request) : Response :=
  match req.headers.get "origin" with
  | none => inner req
  | some origin =>
    if isPreflight req && !st.optionsPassthrough then st.preflightResponse req origin
    else
      let resp := inner req
      let headers := if st.originAllowed origin then st.decorate resp.headers origin else resp.headers
      let headers := if st.wildcard then headers else headers.append "vary" (headerValue "origin")
      { resp with headers }

/-! ### The policy -/

namespace CorsConfig

variable (cfg : CorsConfig)

/-- The policy allows the origin: it allows every one, or it lists it. -/
def AllowsOrigin (origin : HeaderValue) : Prop :=
  "*" ∈ cfg.allowedOrigins ∨
    ∃ text, origin.toStr = some text ∧ ∃ o ∈ cfg.allowedOrigins, Text.eqIgnoreAsciiCase o text = true

/-- The requested method is in the list. -/
def AllowsMethod (headers : HeaderMap) : Prop :=
  ∃ m ∈ cfg.allowedMethods,
    headers.get "access-control-request-method" = some (headerValue (Text.toAsciiUppercase m))

/-- Every header name of a line is allowed. -/
def AllowsLine (line : HeaderValue) : Prop :=
  cfg.allowedHeaders = [] ∨
    ∃ text, line.toStr = some text ∧
      ∀ name ∈ requestedNames text, ∃ allowed ∈ cfg.allowedHeaders, Text.eqIgnoreAsciiCase allowed name = true

end CorsConfig

theorem eqIgnoreAsciiCase_lower (s t : String) :
    Text.eqIgnoreAsciiCase (Text.toAsciiLowercase s) t = Text.eqIgnoreAsciiCase s t := by
  have hlower : (Text.toAsciiLowercase s).toList.map Char.toLower = s.toList.map Char.toLower := by
    rw [Text.toAsciiLowercase, String.toList_ofList, List.map_map]
    refine List.map_congr_left fun c _ => ?_
    exact Text.toLower_toLower c
  rw [Text.eqIgnoreAsciiCase, Text.eqIgnoreAsciiCase, hlower]

/-! ### Accepted configurations compile -/

/-- The characters of a token are visible. -/
theorem visible_of_isTokenChar {ch : Char} (h : isTokenChar ch = true) : 32 ≤ ch.toNat ∧ ch.toNat < 127 := by
  rw [isTokenChar, Bool.or_eq_true] at h
  rcases h with h | h
  · have hcode := Text.toNat_of_isAlphanum h
    omega
  · have hall : "!#$%&'*+-.^_`|~".toList.all (fun c => 32 ≤ c.toNat ∧ c.toNat < 127) = true := by decide
    simpa using List.all_eq_true.1 hall ch (List.contains_iff_mem.mp h)

/-- A list of tokens is a header value. -/
theorem headerValueFromStr_join {names : List String} (h : ∀ name ∈ names, ∀ ch ∈ name.toList, isTokenChar ch = true) :
    headerValueFromStr (", ".intercalate names) = some (headerValue (", ".intercalate names)) := by
  refine headerValueFromStr_eq fun ch hch => ?_
  rw [String.toList_intercalate] at hch
  rcases Text.mem_intercalate hch with hsep | ⟨l, hl, hmem⟩
  · have hsmall : ", ".toList.all (fun c => 32 ≤ c.toNat ∧ c.toNat < 127) = true := by decide
    simpa using List.all_eq_true.1 hsmall ch hsep
  · obtain ⟨name, hname, rfl⟩ := List.mem_map.mp hl
    exact visible_of_isTokenChar (h name hname ch hmem)

theorem isTokenChar_of_headerName {name : String} (h : (headerName name).isSome = true) :
    ∀ ch ∈ name.toList, isTokenChar ch = true := by
  unfold headerName at h
  split_ifs at h with hname
  · exact List.all_eq_true.mp hname.2.2
  · cases h

theorem methodFromBytes_standard : ∀ m ∈ transformMethods, methodFromBytes (Text.utf8 m) = some m := by decide

/-- A number is a header value. -/
theorem exists_maxAgeValue (apiId : String) (secs : Option ℕ) : ∃ value, maxAgeValue apiId secs = .ok value := by
  cases secs with
  | none => exact ⟨none, rfl⟩
  | some secs =>
    have hdigits : ∀ ch ∈ (toString secs).toList, 32 ≤ ch.toNat ∧ ch.toNat < 127 := by
      intro ch hch
      rw [Nat.toString_eq_repr, Nat.toList_repr] at hch
      have hdigit := Nat.isDigit_of_mem_toDigits (by decide) (by decide) hch
      exact visible_of_isTokenChar (by simp [isTokenChar, Char.isAlphanum, hdigit])
    exact ⟨some _, by rw [maxAgeValue, headerValueFromStr_eq hdigits]; rfl⟩

/-- The parts of a state that decide a grant, as the configuration has them. -/
structure Compiled (cfg : CorsConfig) (st : CorsState) : Prop where
  wildcard : st.wildcard = cfg.allowedOrigins.contains "*"
  origins : st.origins = (cfg.allowedOrigins.filter (· ≠ "*")).map Text.toAsciiLowercase
  methods : st.allowedMethods = cfg.allowedMethods.map Text.toAsciiUppercase
  headers : st.allowedHeadersLower = cfg.allowedHeaders.map Text.toAsciiLowercase
  credentials : st.credentials = cfg.allowCredentials
  passthrough : st.optionsPassthrough = cfg.optionsPassthrough

section

variable {cfg : CorsConfig} {parseUri : String → Except String Uri} (h : cfg.validate parseUri = .ok ())
include h

theorem methods_of_validate : ∀ m ∈ cfg.allowedMethods, Text.toAsciiUppercase m ∈ transformMethods := by
  simp only [CorsConfig.validate, bind_eq_ok, List.forM_eq_forM, forM_eq_ok, ensure_eq_ok] at h
  obtain ⟨_, -, _, -, _, -, _, -, _, -, _, hmethods, -⟩ := h
  intro m hm
  exact toAsciiUppercase_mem (hmethods m hm)

theorem names_of_validate : ∀ name ∈ cfg.allowedHeaders ++ cfg.exposedHeaders, (headerName name).isSome = true := by
  simp only [CorsConfig.validate, bind_eq_ok, List.forM_eq_forM, forM_eq_ok, ensure_eq_ok] at h
  obtain ⟨_, -, _, -, _, -, _, -, _, -, _, -, hnames⟩ := h
  intro name hname
  rcases List.mem_append.mp hname with hname | hname
  · exact hnames _ (List.mem_cons_self ..) name hname
  · exact hnames _ (List.mem_cons_of_mem _ (List.mem_singleton_self _)) name hname

theorem joinNames_of_validate (apiId what : String) {names : List String}
    (hnames : ∀ name ∈ names, name ∈ cfg.allowedHeaders ++ cfg.exposedHeaders) :
    ∃ value, joinNames apiId names what = .ok value := by
  unfold joinNames joinValue
  rw [headerValueFromStr_join fun name hname =>
    isTokenChar_of_headerName (names_of_validate h name (hnames name hname))]
  split_ifs
  · exact ⟨_, rfl⟩
  · exact ⟨_, rfl⟩

/-- **An accepted configuration compiles.** -/
theorem exists_fromConfig (apiId : String) : ∃ st, fromConfig cfg apiId = .ok st ∧ Compiled cfg st := by
  have hmethods : (cfg.allowedMethods.mapM fun m =>
      okOr (methodFromBytes (Text.utf8 (Text.toAsciiUppercase m)))
        (⟨apiId, "invalid CORS method `" ++ m ++ "`"⟩ : InvalidApiDefinition)) =
      .ok (cfg.allowedMethods.map Text.toAsciiUppercase) := by
    rw [mapM_eq_ok, List.forall₂_map_right_iff, List.forall₂_same]
    intro m hm
    exact okOr_eq_ok.mpr (methodFromBytes_standard _ (methods_of_validate h m hm))
  obtain ⟨methodsValue, hjoined⟩ : ∃ value,
      joinValue apiId (cfg.allowedMethods.map Text.toAsciiUppercase) "allowed_methods" = .ok value := by
    rw [joinValue, headerValueFromStr_join]
    · exact ⟨_, rfl⟩
    · intro name hname
      obtain ⟨m, hm, rfl⟩ := List.mem_map.mp hname
      exact isTokenChar_standard _ (methods_of_validate h m hm)
  obtain ⟨allowValue, hallow⟩ := joinNames_of_validate h apiId "allowed_headers" fun name hname =>
    List.mem_append_left cfg.exposedHeaders hname
  obtain ⟨exposeValue, hexpose⟩ := joinNames_of_validate h apiId "exposed_headers" fun name hname =>
    List.mem_append_right cfg.allowedHeaders hname
  obtain ⟨maxAge, hmaxAge⟩ := exists_maxAgeValue apiId cfg.maxAgeSecs
  refine ⟨⟨_, _, _, methodsValue, allowValue, _, exposeValue, _, maxAge, _⟩, ?_, rfl, rfl, rfl, rfl, rfl, rfl⟩
  simp only [fromConfig, hmethods, hjoined, hallow, hexpose, hmaxAge, ok_bind]
  rfl

end

/-! ### The checks are those of the policy -/

/-- A method is sent as its own bytes. -/
theorem methodFromBytes_eq_some {v : HeaderValue} {m : String} (h : methodFromBytes v = some m) : v = headerValue m := by
  simp only [methodFromBytes] at h
  split_ifs at h with htoken
  obtain rfl := Option.some.inj h
  refine HeaderValue.chars_injective ?_
  rw [chars_headerValue, String.toList_ofList]
  intro ch hch
  rw [String.toList_ofList] at hch
  have := visible_of_isTokenChar (List.all_eq_true.mp htoken.2 ch hch)
  omega

section

variable {cfg : CorsConfig} {st : CorsState} (hst : Compiled cfg st)
include hst

theorem originAllowed_iff (origin : HeaderValue) : st.originAllowed origin = true ↔ cfg.AllowsOrigin origin := by
  rw [CorsState.originAllowed, CorsConfig.AllowsOrigin, hst.wildcard, hst.origins]
  by_cases hstar : "*" ∈ cfg.allowedOrigins
  · simp [hstar]
  · have hall : cfg.allowedOrigins.filter (· ≠ "*") = cfg.allowedOrigins := by
      refine List.filter_eq_self.mpr fun o ho => decide_eq_true ?_
      rintro rfl
      exact hstar ho
    rw [hall, if_neg (by simpa using hstar)]
    cases origin.toStr with
    | none => simp [hstar]
    | some text => simp [hstar, eqIgnoreAsciiCase_lower]

theorem methodAllowed_iff (hmethods : ∀ m ∈ cfg.allowedMethods, Text.toAsciiUppercase m ∈ transformMethods)
    (headers : HeaderMap) : st.preflightMethodAllowed headers = true ↔ cfg.AllowsMethod headers := by
  rw [CorsState.preflightMethodAllowed, CorsConfig.AllowsMethod, hst.methods]
  constructor
  · intro h
    cases hget : headers.get "access-control-request-method" with
    | none => simp [hget] at h
    | some v =>
      cases hm : methodFromBytes v with
      | none => simp [hget, hm] at h
      | some method =>
        simp only [hget, hm, Option.bind_some, Option.any_some, List.contains_iff_mem, List.mem_map] at h
        obtain ⟨m, hmem, rfl⟩ := h
        exact ⟨m, hmem, congrArg some (methodFromBytes_eq_some hm)⟩
  · rintro ⟨m, hmem, hget⟩
    rw [hget, Option.bind_some, headerValue, methodFromBytes_standard _ (hmethods m hmem), Option.any_some,
      List.contains_iff_mem]
    exact List.mem_map_of_mem hmem

theorem lineAllowed_iff {line : HeaderValue} (hne : cfg.allowedHeaders ≠ []) :
    st.lineAllowed line = true ↔ cfg.AllowsLine line := by
  rw [CorsState.lineAllowed, CorsConfig.AllowsLine, hst.headers]
  cases line.toStr with
  | none => simp [hne]
  | some text => simp [hne, List.all_eq_true, eqIgnoreAsciiCase_lower]

/-- Only the first line of requested headers is checked. -/
theorem headersAllowed_iff (headers : HeaderMap) :
    st.preflightHeadersAllowed headers = true ↔
      ∀ line, headers.get "access-control-request-headers" = some line → cfg.AllowsLine line := by
  rw [CorsState.preflightHeadersAllowed]
  by_cases hne : cfg.allowedHeaders = []
  · simp [hst.headers, hne, CorsConfig.AllowsLine]
  · rw [if_neg (by simpa [hst.headers] using hne)]
    cases hget : headers.get "access-control-request-headers" with
    | none => simp
    | some line => simpa using lineAllowed_iff hst hne

end

/-! ### What an answer grants -/

/-- **The answer grants what the policy does.** -/
structure GrantsExactly (cfg : CorsConfig) (req : Request) (origin : HeaderValue) (answer : Response) : Prop where
  /-- An answer that is not to a preflight carries the origin header iff the origin is allowed, -/
  granted : isPreflight req = false →
    (answer.headers.getAll "access-control-allow-origin" ≠ [] ↔ cfg.AllowsOrigin origin)
  /-- once, with `*` for the wildcard and the origin otherwise, -/
  single : isPreflight req = false → cfg.AllowsOrigin origin →
    answer.headers.getAll "access-control-allow-origin" =
      [if "*" ∈ cfg.allowedOrigins then headerValue "*" else origin]
  /-- and the credentials header only where they are configured too. -/
  credentials : isPreflight req = false → answer.headers.getAll "access-control-allow-credentials" ≠ [] →
    cfg.AllowsOrigin origin ∧ cfg.allowCredentials = true
  /-- A preflight that the gateway answers is granted iff all that it asks for is allowed. -/
  preflight : isPreflight req = true → cfg.optionsPassthrough = false →
    (answer.headers.getAll "access-control-allow-origin" ≠ [] ↔
      cfg.AllowsOrigin origin ∧ cfg.AllowsMethod req.headers ∧
        ∀ line ∈ req.headers.getAll "access-control-request-headers", cfg.AllowsLine line)

/-- Nothing comes in from outside of the policy: the inner response has no grants where the policy has
none, and a preflight that would pass by its first line of requested headers has no other name behind it. -/
structure NothingSlipsIn (cfg : CorsConfig) (req : Request) (origin : HeaderValue) (inner : Response) : Prop where
  upstreamOrigin : isPreflight req = false → ¬ cfg.AllowsOrigin origin →
    inner.headers.getAll "access-control-allow-origin" = []
  upstreamCredentials : isPreflight req = false → ¬ (cfg.AllowsOrigin origin ∧ cfg.allowCredentials = true) →
    inner.headers.getAll "access-control-allow-credentials" = []
  lines : isPreflight req = true → cfg.optionsPassthrough = false → cfg.AllowsOrigin origin →
    cfg.AllowsMethod req.headers →
    (∀ line, req.headers.get "access-control-request-headers" = some line → cfg.AllowsLine line) →
    ∀ line ∈ req.headers.getAll "access-control-request-headers", cfg.AllowsLine line

theorem getAll_insertSome (headers : HeaderMap) {name other : String} (hne : name ≠ other) (v : Option HeaderValue) :
    (insertSome headers other v).getAll name = headers.getAll name := by
  cases v with
  | none => rfl
  | some v => rw [insertSome, HeaderMap.getAll_insert, if_neg hne]

theorem getAll_append (headers : HeaderMap) {name other : String} (hne : name ≠ other) (v : HeaderValue) :
    (headers.append other v).getAll name = headers.getAll name := by
  simp [HeaderMap.getAll, HeaderMap.append, Ne.symm hne]

/-- What a preflight's answer has of the origin header. -/
theorem getAll_preflightResponse (st : CorsState) (req : Request) (origin : HeaderValue) :
    (st.preflightResponse req origin).headers.getAll "access-control-allow-origin" ≠ [] ↔
      st.originAllowed origin = true ∧ st.preflightMethodAllowed req.headers = true ∧
        st.preflightHeadersAllowed req.headers = true := by
  unfold CorsState.preflightResponse
  simp only
  split_ifs with hfail hcred
  · simp only [Bool.or_eq_true, Bool.not_eq_true'] at hfail
    rw [HeaderMap.getAll_insert, if_neg (by decide)]
    refine iff_of_false (by simp [HeaderMap.getAll]) ?_
    rintro ⟨horigin, hmethod, hheaders⟩
    simp [horigin, hmethod, hheaders] at hfail
  · simp only [Bool.or_eq_true, Bool.not_eq_true', not_or, Bool.not_eq_false] at hfail
    simp only [getAll_insertSome _ (by decide : "access-control-allow-origin" ≠ "access-control-max-age"),
      getAll_insertSome _ (by decide : "access-control-allow-origin" ≠ "access-control-allow-headers"),
      HeaderMap.getAll_insert]
    exact iff_of_true (by simp) ⟨hfail.1.1, hfail.1.2, hfail.2⟩
  · simp only [Bool.or_eq_true, Bool.not_eq_true', not_or, Bool.not_eq_false] at hfail
    simp only [getAll_insertSome _ (by decide : "access-control-allow-origin" ≠ "access-control-max-age"),
      getAll_insertSome _ (by decide : "access-control-allow-origin" ≠ "access-control-allow-headers"),
      HeaderMap.getAll_insert]
    exact iff_of_true (by simp) ⟨hfail.1.1, hfail.1.2, hfail.2⟩

/-- What decoration makes of the two grants. -/
theorem getAll_decorate_origin (st : CorsState) (headers : HeaderMap) (origin : HeaderValue) :
    (st.decorate headers origin).getAll "access-control-allow-origin" = [st.allowOriginValue origin] := by
  unfold CorsState.decorate
  simp only
  rw [getAll_insertSome _ (by decide)]
  split_ifs
  · rw [HeaderMap.getAll_insert, if_neg (by decide), HeaderMap.getAll_insert, if_pos rfl]
  · rw [HeaderMap.getAll_insert, if_pos rfl]

theorem getAll_decorate_credentials (st : CorsState) (headers : HeaderMap) (origin : HeaderValue) :
    (st.decorate headers origin).getAll "access-control-allow-credentials" =
      if st.credentials then [headerValue "true"] else headers.getAll "access-control-allow-credentials" := by
  unfold CorsState.decorate
  simp only
  rw [getAll_insertSome _ (by decide)]
  split_ifs
  · rw [HeaderMap.getAll_insert, if_pos rfl]
  · rw [HeaderMap.getAll_insert, if_neg (by decide)]

section

variable {cfg : CorsConfig} {st : CorsState} {inner : Request → Response} {req : Request} {origin : HeaderValue}

/-- The answer to a request that is no preflight: what the inner service sent, decorated for an allowed
origin. -/
theorem getAll_call (st : CorsState) (inner : Request → Response) {name : String} (hname : name ≠ "vary") (horigin : req.headers.get "origin" = some origin)
    (hpre : isPreflight req = false) :
    (call st inner req).headers.getAll name =
      if st.originAllowed origin then (st.decorate (inner req).headers origin).getAll name
      else (inner req).headers.getAll name := by
  simp only [call, horigin, hpre, Bool.false_and, Bool.false_eq_true, if_false]
  split_ifs with hwild hallowed hallowed
  · rfl
  · rfl
  · exact getAll_append _ hname _
  · exact getAll_append _ hname _

theorem call_preflight (hst : Compiled cfg st) (horigin : req.headers.get "origin" = some origin)
    (hpre : isPreflight req = true) (hpass : cfg.optionsPassthrough = false) :
    call st inner req = st.preflightResponse req origin := by
  simp [call, horigin, hpre, hst.passthrough, hpass]

/-- A request that is no preflight is granted what the policy grants, exactly when the inner response
brings nothing in. -/
theorem grantsExactly_iff_of_not_preflight (hst : Compiled cfg st)
    (horigin : req.headers.get "origin" = some origin) (hpre : isPreflight req = false) :
    GrantsExactly cfg req origin (call st inner req) ↔ NothingSlipsIn cfg req origin (inner req) := by
  have hallowOrigin := getAll_call st inner (by decide : "access-control-allow-origin" ≠ "vary") horigin hpre
  have hallowCred := getAll_call st inner (by decide : "access-control-allow-credentials" ≠ "vary") horigin hpre
  rw [getAll_decorate_origin] at hallowOrigin
  rw [getAll_decorate_credentials] at hallowCred
  have habsurd : isPreflight req ≠ true := by simp [hpre]
  by_cases hallows : cfg.AllowsOrigin origin
  · have hcode := (originAllowed_iff hst origin).mpr hallows
    rw [if_pos hcode] at hallowOrigin hallowCred
    constructor
    · intro h
      refine ⟨fun _ hnot => absurd hallows hnot, fun _ hnot => ?_, fun h => absurd h habsurd⟩
      by_contra hne
      have hoff : ¬ st.credentials = true := fun hon => hnot ⟨hallows, hst.credentials ▸ hon⟩
      rw [if_neg hoff] at hallowCred
      exact hnot (h.credentials hpre (hallowCred ▸ hne))
    · intro h
      refine ⟨fun _ => ?_, fun _ _ => ?_, fun _ hne => ?_, fun h => absurd h habsurd⟩
      · rw [hallowOrigin]
        exact iff_of_true (List.cons_ne_nil _ _) hallows
      · rw [hallowOrigin, CorsState.allowOriginValue, hst.wildcard]
        simp
      · by_contra hnot
        have hoff : ¬ st.credentials = true := fun hon => hnot ⟨hallows, hst.credentials ▸ hon⟩
        rw [hallowCred, if_neg hoff] at hne
        exact hne (h.upstreamCredentials hpre hnot)
  · have hcode : ¬ st.originAllowed origin = true := fun h => hallows ((originAllowed_iff hst origin).mp h)
    rw [if_neg hcode] at hallowOrigin hallowCred
    constructor
    · intro h
      refine ⟨fun _ _ => ?_, fun _ hnot => ?_, fun h => absurd h habsurd⟩
      · by_contra hne
        exact hallows ((h.granted hpre).mp (hallowOrigin ▸ hne))
      · by_contra hne
        exact hnot (h.credentials hpre (hallowCred ▸ hne))
    · intro h
      refine ⟨fun _ => ?_, fun _ hyes => absurd hyes hallows, fun _ hne => ?_, fun h => absurd h habsurd⟩
      · rw [hallowOrigin, h.upstreamOrigin hpre hallows]
        exact iff_of_false (fun hne => hne rfl) hallows
      · rw [hallowCred, h.upstreamCredentials hpre fun hboth => hallows hboth.1] at hne
        exact absurd rfl hne

/-- A preflight that the gateway answers is granted exactly when no name hides behind its first line. -/
theorem grantsExactly_iff_of_preflight (hst : Compiled cfg st)
    (hmethods : ∀ m ∈ cfg.allowedMethods, Text.toAsciiUppercase m ∈ transformMethods)
    (horigin : req.headers.get "origin" = some origin) (hpre : isPreflight req = true) :
    GrantsExactly cfg req origin (call st inner req) ↔ NothingSlipsIn cfg req origin (inner req) := by
  have habsurd : isPreflight req ≠ false := by simp [hpre]
  have hgrant (hpass : cfg.optionsPassthrough = false) :
      (call st inner req).headers.getAll "access-control-allow-origin" ≠ [] ↔
        cfg.AllowsOrigin origin ∧ cfg.AllowsMethod req.headers ∧
          ∀ line, req.headers.get "access-control-request-headers" = some line → cfg.AllowsLine line := by
    rw [call_preflight hst horigin hpre hpass, getAll_preflightResponse, originAllowed_iff hst,
      methodAllowed_iff hst hmethods, headersAllowed_iff hst]
  have hfirst : (∀ line ∈ req.headers.getAll "access-control-request-headers", cfg.AllowsLine line) →
      ∀ line, req.headers.get "access-control-request-headers" = some line → cfg.AllowsLine line := by
    intro hall line hline
    rw [HeaderMap.get_eq_head?_getAll] at hline
    exact hall line (List.mem_of_mem_head? hline)
  constructor
  · intro h
    refine ⟨fun h => absurd h habsurd, fun h => absurd h habsurd, fun _ hpass horig hmethod hline => ?_⟩
    exact ((h.preflight hpre hpass).mp ((hgrant hpass).mpr ⟨horig, hmethod, hline⟩)).2.2
  · intro h
    refine ⟨fun h => absurd h habsurd, fun h => absurd h habsurd, fun h => absurd h habsurd, fun _ hpass => ?_⟩
    rw [hgrant hpass]
    constructor
    · rintro ⟨horig, hmethod, hline⟩
      exact ⟨horig, hmethod, h.lines hpre hpass horig hmethod hline⟩
    · rintro ⟨horig, hmethod, hall⟩
      exact ⟨horig, hmethod, hfirst hall⟩

end

/-- **When an answer grants what the policy does**, for every accepted configuration, request with an
origin and inner service. -/
theorem grantsExactly_iff {cfg : CorsConfig} {parseUri : String → Except String Uri}
    (h : cfg.validate parseUri = .ok ()) (apiId : String) :
    ∃ st, fromConfig cfg apiId = .ok st ∧
      ∀ (inner : Request → Response) (req : Request) (origin : HeaderValue),
        req.headers.get "origin" = some origin →
        (GrantsExactly cfg req origin (call st inner req) ↔ NothingSlipsIn cfg req origin (inner req)) := by
  obtain ⟨st, hst, hcompiled⟩ := exists_fromConfig h apiId
  refine ⟨st, hst, fun inner req origin horigin => ?_⟩
  cases hpre : isPreflight req with
  | false => exact grantsExactly_iff_of_not_preflight hcompiled horigin hpre
  | true => exact grantsExactly_iff_of_preflight hcompiled (methods_of_validate h) horigin hpre

/-- One origin, and one header of its own. -/
def appOnly : CorsConfig := { allowedOrigins := ["https://app.example.com"], allowedHeaders := ["X-Tag"] }

/-- `Uri`'s parser, on that origin. -/
def parseOrigin (s : String) : Except String Uri :=
  if s = "https://app.example.com" then .ok ⟨some "https", some "app.example.com"⟩ else .error "invalid uri character"

/-- An upstream that lets everyone in. -/
def openUpstream (_ : Request) : Response :=
  ⟨200, [("access-control-allow-origin", headerValue "*"), ("access-control-allow-credentials", headerValue "true")], []⟩

theorem grantsExactly_iff_appOnly :
    ∃ st, fromConfig appOnly "api" = .ok st ∧
      ∀ (inner : Request → Response) (req : Request) (origin : HeaderValue),
        req.headers.get "origin" = some origin →
        (GrantsExactly appOnly req origin (call st inner req) ↔ NothingSlipsIn appOnly req origin (inner req)) :=
  have hvalid : appOnly.validate parseOrigin = .ok () := by decide
  grantsExactly_iff hvalid "api"

/-- What it compiles to. -/
def appState : CorsState where
  wildcard := false
  origins := ["https://app.example.com"]
  allowedMethods := ["GET", "HEAD", "POST"]
  allowMethodsValue := headerValue "GET, HEAD, POST"
  allowHeadersValue := some (headerValue "X-Tag")
  allowedHeadersLower := ["x-tag"]
  exposeHeadersValue := none
  credentials := false
  maxAge := none
  optionsPassthrough := false

theorem not_allowsOrigin_evil : ¬ appOnly.AllowsOrigin (headerValue "https://evil.example") := by
  rintro (hstar | ⟨text, htext, o, ho, heq⟩)
  · revert hstar
    decide
  · have hevil : HeaderValue.toStr (headerValue "https://evil.example") = some "https://evil.example" := by decide
    rw [hevil] at htext
    obtain rfl := Option.some.inj htext
    obtain rfl := List.mem_singleton.mp ho
    revert heq
    decide

theorem not_allowsLine_admin : ¬ appOnly.AllowsLine (headerValue "x-admin") := by
  rintro (hnil | ⟨text, htext, hall⟩)
  · revert hnil
    decide
  · have hadmin : HeaderValue.toStr (headerValue "x-admin") = some "x-admin" := by decide
    rw [hadmin] at htext
    obtain rfl := Option.some.inj htext
    obtain ⟨allowed, hmem, heq⟩ := hall "x-admin" (by decide)
    obtain rfl := List.mem_singleton.mp hmem
    revert heq
    decide

/-- A request from an origin that is not listed. -/
def evilRequest : Request := { headers := [("origin", headerValue "https://evil.example")] }

/-- A preflight that asks for a second header in a line of its own. -/
def twoLines : Request where
  method := "OPTIONS"
  headers := [("origin", headerValue "https://app.example.com"), ("access-control-request-method", headerValue "GET"),
    ("access-control-request-headers", headerValue "x-tag"), ("access-control-request-headers", headerValue "x-admin")]

/-- **What slips in**: an origin that is not listed gets the upstream's grants, with credentials that are not
configured, and a preflight is granted a header in its second line that is not allowed. -/
theorem grants_slip_in :
    appOnly.validate parseOrigin = .ok () ∧ fromConfig appOnly "api" = .ok appState ∧
      ¬ GrantsExactly appOnly evilRequest (headerValue "https://evil.example") (call appState openUpstream evilRequest) ∧
      (call appState openUpstream evilRequest).headers.getAll "access-control-allow-credentials" =
        [headerValue "true"] ∧
      ¬ GrantsExactly appOnly twoLines (headerValue "https://app.example.com") (call appState openUpstream twoLines) := by
  refine ⟨by decide, by decide, fun h => ?_, by decide, fun h => ?_⟩
  · exact not_allowsOrigin_evil ((h.granted (by decide)).mp (by decide))
  · have hgranted := (h.preflight (by decide) rfl).mp (by decide)
    exact not_allowsLine_admin (hgranted.2.2 _ (by decide))

end G2way.Middleware.Cors
