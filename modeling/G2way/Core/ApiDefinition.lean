import G2way.Core.Session
import G2way.Lib.Result

/-!
# API definitions

The definition of an API and its validation, from `g2-core/src/api_definition.rs`,
`versioning.rs`, `endpoints.rs` and `graphql.rs`: the fields that decide what a
route is built with, and "the semantic invariants that serde cannot express".

The blocks of a definition with checks of their own that nothing here reads
(authentication, body transforms, path lists, health checks and so on, and within
`graphql` the schema, the playground and the persisted queries) are of a type
`B`, checked by `Crates.blocks` and `Crates.graphqlBlocks` in one place. What a
crate decides of a URL or a regex is a parameter too.

A version's "effective definition" is "the base definition with `version`'s
overrides applied and versioning removed" (`VersioningConfig.apply`); validation
ends with every one of them.
-/

namespace G2way.Core

open Lib Lib.Result

/-! ### The data model -/

/-- `CacheConfig`. -/
structure CacheConfig where
  ttlSecs : ℕ := 60
  maxBodyBytes : ℕ := 1048576
  deriving DecidableEq, Repr

/-- `HeaderTransform`: the rules for one direction. -/
structure HeaderTransform where
  /-- The headers to set, a map by name. -/
  add : List (String × String) := []
  /-- The headers to remove, before that. -/
  remove : List String := []
  deriving DecidableEq, Repr

/-- `HeaderTransforms`. -/
structure HeaderTransforms where
  request : HeaderTransform := {}
  response : HeaderTransform := {}
  deriving DecidableEq, Repr

/-- `EndpointRateLimit`: a limit on all clients' requests together. -/
structure EndpointRateLimit where
  pattern : String
  /-- The methods it is about; the empty list is every method. -/
  methods : List String := []
  rate : RateLimit
  deriving DecidableEq, Repr

/-- `SubscriptionsConfig`. -/
structure SubscriptionsConfig where
  enabled : Bool := true
  maxMessageBytes : Option ℕ := none
  deriving DecidableEq, Repr

/-- `GraphQlExecutionMode`. -/
inductive GraphQlExecutionMode where
  | proxy
  | udg
  | subgraph
  | supergraph
  deriving DecidableEq, Repr

/-- `GraphQlConfig`. -/
structure GraphQlConfig (B : Type) where
  enabled : Bool := true
  executionMode : GraphQlExecutionMode := .proxy
  maxQueryDepth : Option ℕ := none
  subscriptions : Option SubscriptionsConfig := none
  cache : Option CacheConfig := none
  /-- The schema and the blocks that go with it. -/
  blocks : B
  deriving DecidableEq, Repr

/-- `VersionLocation`: where a request names its version. -/
inductive VersionLocation where
  | header
  | queryParam
  deriving DecidableEq, Repr

/-- `VersionOverrides`: what a version replaces. -/
structure VersionOverrides (B : Type) where
  targetUrl : Option String := none
  targetList : Option (List String) := none
  upstreamTimeoutMs : Option ℕ := none
  transformHeaders : Option HeaderTransforms := none
  transformMethod : Option String := none
  endpointRateLimits : Option (List EndpointRateLimit) := none
  upstreamRetries : Option ℕ := none
  enableUpgrades : Option Bool := none
  upstreamHttp2 : Option Bool := none
  cache : Option CacheConfig := none
  graphql : Option (GraphQlConfig B) := none
  /-- What the version makes of the blocks of its base. -/
  blocks : B → B := id

/-- `VersioningConfig`. -/
structure VersioningConfig (B : Type) where
  location : VersionLocation
  key : String
  defaultVersion : Option String := none
  /-- The versions by name. -/
  versions : List (String × VersionOverrides B)
  /-- They are an ordered map. -/
  sorted : (versions.map Prod.fst).Pairwise (· < ·)

/-- `ApiDefinition`. -/
structure ApiDefinition (B : Type) where
  apiId : String
  name : String
  orgId : String := "default"
  listenPath : String
  targetUrl : String
  targetList : List String := []
  preserveHostHeader : Bool := false
  upstreamTimeoutMs : ℕ := 30000
  active : Bool := true
  transformHeaders : Option HeaderTransforms := none
  transformMethod : Option String := none
  endpointRateLimits : List EndpointRateLimit := []
  maxRequestBodyBytes : Option ℕ := none
  upstreamRetries : ℕ := 0
  enableUpgrades : Bool := false
  upstreamHttp2 : Bool := false
  cache : Option CacheConfig := none
  versioning : Option (VersioningConfig B) := none
  graphql : Option (GraphQlConfig B) := none
  /-- The other blocks. -/
  blocks : B

/-- `Error::InvalidApiDefinition`. -/
structure InvalidApiDefinition where
  api : String
  reason : String
  deriving DecidableEq, Repr

/-- A URL, as far as validation looks at it. -/
structure Uri where
  scheme : Option String
  authority : Option String
  deriving DecidableEq, Repr

/-- What validation asks of the crates, and of the blocks. -/
structure Crates (B : Type) where
  /-- `str::parse::<Uri>`, or the parser's message. -/
  parseUri : String → Except String Uri
  /-- `Regex::new`, or its message. -/
  compileRegex : String → Except String Unit
  /-- The checks of the blocks of a definition. -/
  blocks : B → Except String Unit
  /-- The checks of the blocks of a `graphql` block with this mode, and with or without a cache;
  whether the effective schema has a `Subscription` root type. -/
  graphqlBlocks : GraphQlExecutionMode → Bool → B → Except String Bool

/-! ### Storage keys -/

/-- `response_cache_key_prefix`. -/
def responseCacheKeyPrefix (orgId scope : String) : String := "g2:" ++ orgId ++ ":cache:" ++ scope ++ ":"

/-- `endpoint_rate_limit_storage_key`. -/
def endpointRateLimitStorageKey (orgId scope : String) (index : ℕ) : String :=
  "g2:" ++ orgId ++ ":endpointrl:" ++ scope ++ ":" ++ toString index

/-! ### Validation -/

section Validate

variable {B : Type} (c : Crates B)

/-- `check_target_url`. -/
def checkTargetUrl (url : String) : Except String Unit := do
  let uri ← (c.parseUri url).mapError ("is not a valid URL: " ++ ·)
  ensure (uri.scheme = some "http" ∨ uri.scheme = some "https")
    ("must use http or https, got `" ++ uri.scheme.getD "<none>" ++ "`")
  ensure uri.authority.isSome "must include a host"

/-- `TRANSFORM_METHODS`. -/
def transformMethods : List String := ["GET", "POST", "PUT", "PATCH", "DELETE", "HEAD", "OPTIONS", "TRACE"]

/-- A standard method in upper case is one of the table. -/
theorem toAsciiUppercase_mem {m : String} (h : transformMethods.any (Text.eqIgnoreAsciiCase · m) = true) :
    Text.toAsciiUppercase m ∈ transformMethods := by
  obtain ⟨std, hstd, heq⟩ := List.any_eq_true.mp h
  have hlower : std.toList.map Char.toLower = m.toList.map Char.toLower := eq_of_beq heq
  have hupper : m.toList.map Char.toUpper = std.toList.map Char.toUpper := by
    have hboth := congrArg (List.map Char.toUpper) hlower
    simpa [List.map_map, Function.comp_def, Text.toUpper_toLower] using hboth.symm
  have htable : ∀ s ∈ transformMethods, String.ofList (s.toList.map Char.toUpper) = s := by decide
  rw [Text.toAsciiUppercase, hupper, htable std hstd]
  exact hstd

theorem isTokenChar_standard : ∀ m ∈ transformMethods, ∀ ch ∈ m.toList, isTokenChar ch = true := by
  have hall : transformMethods.all (fun m => m.toList.all isTokenChar) = true := by decide
  simpa only [List.all_eq_true] using hall

/-- `validate_transform_method`. -/
def validateTransformMethod (method : String) : Except String Unit :=
  ensure (transformMethods.any (Text.eqIgnoreAsciiCase · method))
    ("`transform_method` must be one of " ++ ", ".intercalate transformMethods ++ " (got `" ++ method ++ "`)")

/-- `HOP_BY_HOP`. -/
def hopByHop : List String :=
  ["connection", "keep-alive", "proxy-authenticate", "proxy-authorization", "te", "trailer",
    "transfer-encoding", "upgrade"]

/-- `HeaderTransform::validate`: a hop-by-hop header may be removed, but not set. -/
def HeaderTransform.validate (t : HeaderTransform) (direction : String) : Except String Unit := do
  let field (name : String) := "`transform_headers." ++ direction ++ "." ++ name ++ "`"
  t.add.forM fun (name, value) => do
    ensure (headerName name).isSome (field "add" ++ " name is not a valid header name: `" ++ name ++ "`")
    ensure (!hopByHop.any (Text.eqIgnoreAsciiCase · name))
      (field "add" ++ " must not set hop-by-hop header `" ++ name ++ "`")
    ensure (headerValueFromStr value).isSome
      (field "add" ++ " value for `" ++ name ++ "` is not a valid header value")
  t.remove.forM fun name =>
    ensure (headerName name).isSome (field "remove" ++ " entry is not a valid header name: `" ++ name ++ "`")

/-- `HeaderTransforms::validate`. -/
def HeaderTransforms.validate (t : HeaderTransforms) : Except String Unit := do
  t.request.validate "request"
  t.response.validate "response"

/-- `validate_methods`. -/
def validateMethods (methods : List String) (list : String) (index : ℕ) : Except String Unit :=
  methods.forM fun method =>
    ensure (transformMethods.any (Text.eqIgnoreAsciiCase · method))
      ("`" ++ list ++ "[" ++ toString index ++ "].methods` must contain only standard HTTP methods (" ++
        ", ".intercalate transformMethods ++ "), got `" ++ method ++ "`")

/-- `EndpointRateLimit::validate`. -/
def EndpointRateLimit.validate (rule : EndpointRateLimit) (index : ℕ) : Except String Unit := do
  let list := "endpoint_rate_limits"
  let field (name : String) := "`" ++ list ++ "[" ++ toString index ++ "]." ++ name ++ "`"
  (c.compileRegex rule.pattern).mapError (field "pattern" ++ " is not a valid regex: " ++ ·)
  validateMethods rule.methods list index
  ensure (rule.rate.requests ≠ 0)
    (field "rate.requests" ++ " must be greater than zero (omit the rule for unlimited)")
  ensure (rule.rate.perSeconds ≠ 0)
    (field "rate.per_seconds" ++ " must be greater than zero (omit the rule for unlimited)")

/-- `CacheConfig::validate`. -/
def CacheConfig.validate (cache : CacheConfig) (fieldPrefix : String) : Except String Unit := do
  ensure (cache.ttlSecs ≠ 0) ("`" ++ fieldPrefix ++ ".ttl_secs` must be greater than zero")
  ensure (cache.maxBodyBytes ≠ 0) ("`" ++ fieldPrefix ++ ".max_body_bytes` must be greater than zero")

/-- The check of a block, where there is one. -/
def ifSome {α : Type} (o : Option α) (check : α → Except String Unit) : Except String Unit :=
  match o with
  | some a => check a
  | none => .ok ()

/-- An enabled `subscriptions` block. -/
def GraphQlConfig.subscriptionsOn (g : GraphQlConfig B) : Bool := g.subscriptions.any (·.enabled)

/-- The modes the gateway executes in itself have no subscriptions. -/
def GraphQlConfig.validateMode (g : GraphQlConfig B) : Except String Unit :=
  match g.executionMode with
  | .proxy | .subgraph => .ok ()
  | .udg => ensure (!g.subscriptionsOn)
      "`graphql.subscriptions` cannot be enabled in `udg` execution mode (ADR-0010)"
  | .supergraph => ensure (!g.subscriptionsOn)
      "`graphql.subscriptions` cannot be enabled in `supergraph` execution mode (ADR-0011)"

/-- `GraphQlConfig::validate`. -/
def GraphQlConfig.validate (g : GraphQlConfig B) : Except String Unit := do
  let hasSubscription ← c.graphqlBlocks g.executionMode g.cache.isSome g.blocks
  ensure (g.maxQueryDepth ≠ some 0)
    "`graphql.max_query_depth` must be greater than zero (omit it for unlimited)"
  ifSome g.cache fun cache => cache.validate "graphql.cache"
  g.validateMode
  ifSome g.subscriptions fun subs => do
    ensure (subs.maxMessageBytes ≠ some 0)
      ("`graphql.subscriptions.max_message_bytes` must be greater than zero (omit it to inherit the " ++
        "API's request-body cap)")
    ensure (!subs.enabled || hasSubscription)
      ("`graphql.subscriptions` is enabled but `graphql.schema` defines no `Subscription` root type")

namespace ApiDefinition

/-- `graphql_subscriptions_enabled`: "Implies upgrade capability on the forwarding path even when
`enable_upgrades` is off". -/
def graphqlSubscriptionsEnabled (def_ : ApiDefinition B) : Bool :=
  def_.graphql.any fun g => g.enabled && g.subscriptionsOn

/-- The checks of `validate` before those of the versions. -/
def validateBase (def_ : ApiDefinition B) : Except String Unit := do
  ensure (Text.trim def_.apiId ≠ "") "`api_id` must not be empty"
  ensure (Text.trim def_.name ≠ "") "`name` must not be empty"
  ensure (Text.trim def_.orgId ≠ "") "`org_id` must not be empty"
  ensure (Text.startsWith "/" def_.listenPath)
    ("`listen_path` must start with '/', got `" ++ def_.listenPath ++ "`")
  ensure (def_.upstreamTimeoutMs ≠ 0) "`upstream_timeout_ms` must be greater than zero"
  (checkTargetUrl c def_.targetUrl).mapError ("`target_url` " ++ ·)
  def_.targetList.zipIdx.forM fun (url, index) =>
    (checkTargetUrl c url).mapError ("`target_list[" ++ toString index ++ "]` " ++ ·)
  ifSome def_.transformHeaders HeaderTransforms.validate
  ifSome def_.transformMethod validateTransformMethod
  c.blocks def_.blocks
  def_.endpointRateLimits.zipIdx.forM fun (rule, index) => rule.validate c index
  ensure (def_.maxRequestBodyBytes ≠ some 0)
    "`max_request_body_bytes` must be greater than zero (omit it for no limit)"
  ensure (def_.upstreamRetries ≤ 10)
    ("`upstream_retries` must be at most 10, got " ++ toString def_.upstreamRetries)
  ensure (!(def_.upstreamHttp2 && def_.enableUpgrades))
    ("`upstream_http2` cannot be combined with `enable_upgrades`: an HTTP/1.1 `Connection: Upgrade` " ++
      "cannot cross an HTTP/2-only upstream connection")
  ensure (!(def_.upstreamHttp2 && def_.graphqlSubscriptionsEnabled))
    ("`upstream_http2` cannot be combined with `graphql.subscriptions`: the subscription WebSocket " ++
      "upgrade cannot cross an HTTP/2-only upstream connection")
  ifSome def_.cache fun cache => cache.validate "cache"
  ifSome def_.graphql fun g => g.validate c

end ApiDefinition

namespace VersioningConfig

/-- A version's overrides on the base definition. -/
def override (base : ApiDefinition B) (o : VersionOverrides B) : ApiDefinition B :=
  { base with
    versioning := none
    targetUrl := o.targetUrl.getD base.targetUrl
    targetList := o.targetList.getD base.targetList
    upstreamTimeoutMs := o.upstreamTimeoutMs.getD base.upstreamTimeoutMs
    transformHeaders := o.transformHeaders.or base.transformHeaders
    transformMethod := o.transformMethod.or base.transformMethod
    endpointRateLimits := o.endpointRateLimits.getD base.endpointRateLimits
    upstreamRetries := o.upstreamRetries.getD base.upstreamRetries
    enableUpgrades := o.enableUpgrades.getD base.enableUpgrades
    upstreamHttp2 := o.upstreamHttp2.getD base.upstreamHttp2
    cache := o.cache.or base.cache
    graphql := o.graphql.or base.graphql
    blocks := o.blocks base.blocks }

/-- `apply`: the definition a version is served with. -/
def apply (v : VersioningConfig B) (base : ApiDefinition B) (version : String) : Option (ApiDefinition B) :=
  (v.versions.lookup version).map (override base)

/-- The check of the key that names the version in a request. -/
def validateKey (v : VersioningConfig B) : Except String Unit :=
  match v.location with
  | .header => ensure (headerName v.key).isSome ("`versioning.key` is not a valid header name: `" ++ v.key ++ "`")
  | .queryParam => ensure (Text.trim v.key ≠ "") "`versioning.key` must not be empty"

/-- The check of one version: of its overrides, and of its effective definition, which has no
versions of its own. -/
def validateVersion (base : ApiDefinition B) (name : String) (o : VersionOverrides B) : Except String Unit := do
  let effective := override base o
  ensure (!(o.targetUrl.isSome && !effective.targetList.isEmpty))
    ("version `" ++ name ++ "`: the `target_url` override has no effect while the effective `target_list` " ++
      "is non-empty; override `target_list` instead")
  (effective.validateBase c).mapError ("version `" ++ name ++ "`: " ++ ·)

/-- `VersioningConfig::validate`. -/
def validate (v : VersioningConfig B) (base : ApiDefinition B) : Except String Unit := do
  v.validateKey
  ensure (!v.versions.isEmpty) "`versioning.versions` must define at least one version"
  v.versions.forM fun (name, _) =>
    ensure (name ≠ "" ∧ Text.trim name = name)
      ("version name `" ++ name ++ "` must be non-empty without surrounding whitespace")
  ifSome v.defaultVersion fun default =>
    ensure ((v.versions.lookup default).isSome)
      ("`versioning.default_version` (`" ++ default ++ "`) is not a configured version")
  v.versions.forM fun (name, o) => validateVersion c base name o

end VersioningConfig

/-- `ApiDefinition::validate`. -/
def ApiDefinition.validate (def_ : ApiDefinition B) : Except InvalidApiDefinition Unit :=
  (do def_.validateBase c
      ifSome def_.versioning fun v => v.validate c def_).mapError (⟨def_.apiId, ·⟩)

end Validate

/-! ### What validation promises -/

section Promises

variable {B : Type} {c : Crates B} {def_ : ApiDefinition B}

@[simp]
theorem ifSome_eq_ok {α : Type} {o : Option α} {check : α → Except String Unit} {u : Unit} :
    ifSome o check = .ok u ↔ ∀ a, o = some a → check a = .ok u := by
  cases o with
  | none => simp [ifSome]
  | some a => simp [ifSome]

theorem validate_eq_ok_iff : def_.validate c = .ok () ↔
    def_.validateBase c = .ok () ∧ ∀ v, def_.versioning = some v → v.validate c def_ = .ok () := by
  simp only [ApiDefinition.validate, mapError_eq_ok, bind_eq_ok, ifSome_eq_ok]
  constructor
  · rintro ⟨u, hbase, hversions⟩
    exact ⟨hbase, hversions⟩
  · rintro ⟨hbase, hversions⟩
    exact ⟨(), hbase, hversions⟩

/-- The transforms of a valid definition are valid. -/
theorem validate_transformHeaders (h : def_.validate c = .ok ()) {t : HeaderTransforms}
    (ht : def_.transformHeaders = some t) : t.validate = .ok () := by
  have hbase := (validate_eq_ok_iff.1 h).1
  simp only [ApiDefinition.validateBase, bind_eq_ok, ifSome_eq_ok] at hbase
  obtain ⟨-, -, -, -, -, -, -, -, -, -, -, -, -, -, _, htransforms, -⟩ := hbase
  exact htransforms t ht

/-- **The effective definitions of a valid definition are valid**: `expect` and the route build find
nothing left to refuse. -/
theorem validate_of_apply (h : def_.validate c = .ok ()) {v : VersioningConfig B} (hv : def_.versioning = some v)
    {name : String} {effective : ApiDefinition B} (happly : v.apply def_ name = some effective) :
    effective.validate c = .ok () := by
  obtain ⟨-, hversions⟩ := validate_eq_ok_iff.1 h
  have hv := hversions v hv
  simp only [VersioningConfig.validate, List.forM_eq_forM, bind_eq_ok, forM_eq_ok] at hv
  obtain ⟨-, -, -, -, -, -, -, -, heach⟩ := hv
  simp only [VersioningConfig.apply, Option.map_eq_some_iff] at happly
  obtain ⟨o, hlookup, rfl⟩ := happly
  obtain ⟨l₁, l₂, hsplit, -⟩ := List.lookup_eq_some_iff.1 hlookup
  have hmem : (name, o) ∈ v.versions := by rw [hsplit]; simp
  have hversion := heach _ hmem
  simp only [VersioningConfig.validateVersion, bind_eq_ok, mapError_eq_ok] at hversion
  obtain ⟨-, -, hbase⟩ := hversion
  rw [validate_eq_ok_iff]
  exact ⟨hbase, fun v' hv' => by simp [VersioningConfig.override] at hv'⟩

end Promises

end G2way.Core
