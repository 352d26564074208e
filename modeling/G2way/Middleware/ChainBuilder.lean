import G2way.Lib.Layers
import G2way.Middleware.AuthModes
import G2way.Middleware.IpFilter
import G2way.Middleware.PathRules
import G2way.Middleware.Plugin
import G2way.Middleware.SizeLimit

/-!
# The chain of an API

`ChainBuilder` of `g2-middleware/src/chain.rs`: the layers around the forwarder of an API, outermost
first. The order is the policy: "a blocked client gets nothing — no CORS headers, no path evaluation,
no credential work"; CORS above authentication, so that "401/403/429 rejections still carry CORS
headers"; path lists above it, "so blocked paths are rejected before any credential work and ignored
paths can tell auth to stand down"; post hooks "below auth/rate-limit so hooks see the authenticated
session".

## The model

Each layer is a stage of `Lib.Layers` on requests, in a world of counters; its own module says what it
does with a request. What is inside, from the GraphQL layer to the forwarder, is any handler. The layers
that only watch (tracing, metrics, statistics, analytics) are left out, and the ids that the outermost
one stamps are those of the builder. `Env` is what the layers find when a request arrives.

## What is proved

* `inside_behind_gates`: whatever is inside is called with a request that every gate let through, or not
  at all; the counters change only for requests that came as far as the limits.
* `answers_dressed`: whatever happens below, and whoever answers, a client of an allowed origin that the
  address lists admit gets the grant of the CORS policy; to an origin that is not allowed the answer goes
  with the headers it has, `vary` apart; a client the lists do not admit gets a bare rejection.
-/

namespace G2way.Middleware

open G2way.Core G2way.Lib G2way.Lib.Result G2way.Middleware.RateLimit

/-! ### Answers of the gateway -/

/-- A rejection as a response, with its challenge. -/
def Rejection.response (r : Rejection) : Cors.Response :=
  let resp := Plugin.jsonError r.status r.message
  { resp with headers := Cors.insertSome resp.headers "www-authenticate" (r.challenge.map headerValue) }

/-- `limit_response`. -/
def RateLimit.LimitResponse.response (r : LimitResponse) : Cors.Response :=
  let resp := Plugin.jsonError r.status r.message
  { resp with headers := r.headers.foldl (fun h p => h.insert p.1 (headerValue (toString p.2))) resp.headers }

/-- `FORBIDDEN_IP_MSG`. -/
def IpFilter.forbiddenIp : Rejection := ⟨403, "access from this address is forbidden", none⟩

/-! ### Layers as stages -/

/-- What the layers find when a request arrives: the crates, the stored records, the storage of the limits, and the
time. -/
structure Env (Key Validation ε ρ κ : Type) where
  crates : Auth.Crates Key Validation
  store : Auth.Storage
  now : ℕ
  backend : Backend ε ρ κ
  moment : Moment ε

variable {Key Validation ε ρ κ : Type}

/-- A layer, in a world of counters. -/
abbrev Layer (ρ κ : Type) := Stage (World ρ κ) Request Cors.Response

/-- A layer that rejects. -/
def rejecting (call : Request → Except Rejection Request) : Layer ρ κ :=
  .ofCall fun req => (call req).mapError Rejection.response

/-- The address of the peer. -/
def clientIp (req : Request) : Option IpAddr := req.extensions.clientAddr.bind IpAddr.fromStr

/-- `IpFilter::call`. "A missing address means a wiring bug — fail closed". -/
def IpFilter.FilterState.call (st : FilterState) (req : Request) : Except Rejection Request := do
  ensure ((clientIp req).any st.permits) forbiddenIp
  return req

/-- What CORS makes of an answer to this origin. -/
def Cors.CorsState.dress (st : CorsState) (origin : HeaderValue) (resp : Response) : Response :=
  let headers := if st.originAllowed origin then st.decorate resp.headers origin else resp.headers
  let headers := if st.wildcard then headers else headers.append "vary" (headerValue "origin")
  { resp with headers }

/-- `Cors::call`, around what is inside. -/
def Cors.CorsState.stage (st : CorsState) : Layer ρ κ where
  enter req w :=
    match req.headers.get "origin" with
    | none => (.ok (req, id), w)
    | some origin =>
      if isPreflight req && !st.optionsPassthrough then (.error (st.preflightResponse req origin), w)
      else (.ok (req, st.dress origin), w)

/-- `RateLimit::call`. -/
def RateLimit.RateLimitState.stage (st : RateLimitState) (env : Env Key Validation ε ρ κ) : Layer ρ κ where
  enter req w :=
    match (enforce env.backend st env.moment req w).rejection with
    | some r => (.error r.response, (enforce env.backend st env.moment req w).world)
    | none => (.ok (req, id), (enforce env.backend st env.moment req w).world)

/-- `Plugin::call`. -/
def Plugin.PluginLayer.stage (layer : PluginLayer) (apiId orgId : String) : Layer ρ κ :=
  .ofCall (runHooks layer.kind apiId orgId layer.plugins)

/-! ### The builder -/

/-- `ChainBuilder`, with the layers that decide about a request. -/
structure ChainBuilder (Key Validation : Type) where
  /-- The ids of the API, which `SetContext` stamps on requests. -/
  apiId : String
  orgId : String
  ipFilter : Option IpFilter.FilterState := none
  cors : Option Cors.CorsState := none
  pathPolicy : Option PathRules.PolicyState := none
  sizeLimit : Option ℕ := none
  pluginsPre : Option Plugin.PluginLayer := none
  auth : Option (Auth.AuthState Key Validation) := none
  rateLimit : Option RateLimitState := none
  pluginsPost : Option Plugin.PluginLayer := none

namespace ChainBuilder

variable (b : ChainBuilder Key Validation) (env : Env Key Validation ε ρ κ)

/-- The shared layers, "version-independent". -/
def outer : List (Layer ρ κ) :=
  [.optional (b.ipFilter.map fun st => rejecting st.call), .optional (b.cors.map Cors.CorsState.stage)]

/-- The layers above the limits. -/
def upper : List (Layer ρ κ) :=
  [rejecting (PathRules.callPolicy b.pathPolicy),
    .optional (b.sizeLimit.map fun limit => rejecting (SizeLimit.call limit)),
    .optional (b.pluginsPre.map fun layer => layer.stage b.apiId b.orgId),
    .optional (b.auth.map fun st => rejecting (Auth.call env.crates env.store env.now st))]

/-- The limits. -/
def limits : Layer ρ κ := .optional (b.rateLimit.map fun st => st.stage env)

/-- The post hooks. -/
def hooks : Layer ρ κ := .optional (b.pluginsPost.map fun layer => layer.stage b.apiId b.orgId)

/-- `build_outer`. -/
def buildOuter (service : Handler (World ρ κ) Request Cors.Response) : Handler (World ρ κ) Request Cors.Response :=
  (Stage.chain b.outer).layer service

/-- `build_inner`. -/
def buildInner (forward : Handler (World ρ κ) Request Cors.Response) : Handler (World ρ κ) Request Cors.Response :=
  (Stage.chain (b.upper env ++ [b.limits env, b.hooks])).layer forward

/-- `build`. -/
def build (forward : Handler (World ρ κ) Request Cors.Response) : Handler (World ρ κ) Request Cors.Response :=
  (Stage.chain (b.outer ++ (b.upper env ++ [b.limits env, b.hooks]))).layer forward

end ChainBuilder

/-! ### What the layers let through -/

/-- The request as a later layer finds it: the client's, but for the headers that hooks change and what the layers
stamp on it. -/
def SameRequest (req req' : Request) : Prop :=
  ∃ headers session bypass,
    req' = { req with headers, extensions := { req.extensions with session, authBypass := bypass } }

theorem SameRequest.refl (req : Request) : SameRequest req req := ⟨_, _, _, rfl⟩

theorem SameRequest.trans {req₁ req₂ req₃ : Request} (h : SameRequest req₁ req₂) (h' : SameRequest req₂ req₃) :
    SameRequest req₁ req₃ := by
  obtain ⟨headers, session, bypass, rfl⟩ := h
  obtain ⟨headers', session', bypass', rfl⟩ := h'
  exact ⟨headers', session', bypass', rfl⟩

/-- A request as it arrives: "extensions only ever come from gateway layers". -/
def Fresh (req : Request) : Prop := req.extensions.session = none ∧ req.extensions.authBypass = false

section Stages

variable {req req' : Request} {w w' : World ρ κ} {resp : Cors.Response}

theorem passes_rejecting {call : Request → Except Rejection Request} :
    (rejecting call : Layer ρ κ).Passes req w req' w' ↔ call req = .ok req' ∧ w' = w := by
  rw [rejecting, Stage.passes_ofCall, mapError_eq_ok]

theorem passes_ipFilter {st : IpFilter.FilterState} :
    (rejecting st.call : Layer ρ κ).Passes req w req' w' ↔
      (clientIp req).any st.permits = true ∧ req' = req ∧ w' = w := by
  simp only [passes_rejecting, IpFilter.FilterState.call, bind_eq_ok, ensure_eq_ok, pure_eq_ok, exists_and_left,
    exists_const]
  tauto

theorem passes_cors {st : Cors.CorsState} (h : (st.stage : Layer ρ κ).Passes req w req' w') : req' = req ∧ w' = w := by
  obtain ⟨dress, henter⟩ := h
  simp only [Cors.CorsState.stage] at henter
  split at henter
  · simp only [Prod.mk.injEq, Except.ok.injEq] at henter
    exact ⟨henter.1.1.symm, henter.2.symm⟩
  · split_ifs at henter
    · simp at henter
    · simp only [Prod.mk.injEq, Except.ok.injEq] at henter
      exact ⟨henter.1.1.symm, henter.2.symm⟩

theorem passes_rateLimit {st : RateLimitState} {env : Env Key Validation ε ρ κ} :
    (st.stage env).Passes req w req' w' ↔ (enforce env.backend st env.moment req w).rejection = none ∧ req' = req ∧
      w' = (enforce env.backend st env.moment req w).world := by
  cases hrejection : (enforce env.backend st env.moment req w).rejection with
  | none => simp [Stage.Passes, RateLimitState.stage, hrejection, eq_comm]
  | some r => simp [Stage.Passes, RateLimitState.stage, hrejection]

theorem answers_rateLimit {st : RateLimitState} {env : Env Key Validation ε ρ κ}
    (h : (st.stage env).Answers req w resp w') : w' = (enforce env.backend st env.moment req w).world := by
  cases hrejection : (enforce env.backend st env.moment req w).rejection with
  | none => simp [Stage.Answers, RateLimitState.stage, hrejection] at h
  | some r => exact (by simpa [Stage.Answers, RateLimitState.stage, hrejection] using h : _ ∧ _ = w').2.symm

end Stages

/-! ### What each layer asks -/

section Calls

variable {req req' : Request}

theorem call_eq_ok_of_policy {st : Option PathRules.PolicyState} (h : PathRules.callPolicy st req = .ok req') :
    req' = req ∨ req' = PathRules.bypassed req := by
  cases st with
  | none => exact .inl (Except.ok.inj h).symm
  | some st =>
    rw [PathRules.callPolicy, PathRules.PolicyState.call] at h
    split_ifs at h
    · exact .inr (Except.ok.inj h).symm
    · exact .inl (Except.ok.inj h).symm

theorem sizeLimit_eq_ok {limit : ℕ} : SizeLimit.call limit req = .ok req' ↔
    (SizeLimit.declaredLength req.headers).any (limit < ·) = false ∧ req' = req := by
  simp only [SizeLimit.call, bind_eq_ok, ensure_eq_ok, pure_eq_ok, Bool.not_eq_true', exists_const]
  exact and_congr_right fun _ => eq_comm

section Auth

variable {c : Auth.Crates Key Validation} {store : Auth.Storage} {now : ℕ} {st : Auth.AuthState Key Validation}
  {ctx : SessionContext}

theorem allowsApi_of_grantSession {session : KeySession} {keyHash : String}
    (h : Auth.grantSession c store st session keyHash = .ok ctx) : ctx.session.allowsApi st.apiId = true := by
  simp only [Auth.grantSession, bind_eq_ok, pure_eq_ok, ensure_eq_ok] at h
  obtain ⟨session, -, _, hallows, rfl⟩ := h
  exact hallows

theorem allowsApi_of_storedToken {token : String} (h : Auth.authenticateStoredToken c store now st token = .ok ctx) :
    ctx.session.allowsApi st.apiId = true := by
  simp only [Auth.authenticateStoredToken, bind_eq_ok] at h
  obtain ⟨_, -, _, -, _, -, hgrant⟩ := h
  exact allowsApi_of_grantSession hgrant

theorem allowsApi_ephemeralSession (claims : Auth.Claims) (identity : String) :
    (Auth.ephemeralSession st claims identity).allowsApi st.apiId = true := by
  simp [Auth.ephemeralSession, KeySession.allowsApi]

/-- **Whatever the mode, an authenticated session grants the API.** -/
theorem allowsApi_of_authenticate (h : Auth.authenticate c store now st req = .ok ctx) :
    ctx.session.allowsApi st.apiId = true := by
  rw [Auth.authenticate] at h
  cases hmode : st.mode with
  | token header queryParam cookie =>
    simp only [hmode, bind_eq_ok] at h
    obtain ⟨token, -, htoken⟩ := h
    exact allowsApi_of_storedToken htoken
  | jwt header keys validation identityClaim =>
    simp only [hmode, bind_eq_ok, Auth.authenticateJwt, pure_eq_ok] at h
    obtain ⟨_, -, _, -, claims, -, identity, -, rfl⟩ := h
    exact allowsApi_ephemeralSession claims identity
  | oidc header keyFor validation identityClaim policyMapping =>
    simp only [hmode, bind_eq_ok, Auth.buildOidcSession, pure_eq_ok] at h
    obtain ⟨_, -, _, -, claims, -, identity, -, session, hsession, rfl⟩ := h
    cases policyMapping with
    | none =>
      obtain rfl := Except.ok.inj hsession
      exact allowsApi_ephemeralSession claims identity
    | some mapping =>
      simp only [Auth.mapPolicy, bind_eq_ok, ensure_eq_ok, pure_eq_ok] at hsession
      obtain ⟨_, -, _, -, _, -, _, hallows, rfl⟩ := hsession
      exact hallows
  | basic challenge =>
    simp only [hmode, Auth.authenticateBasic, bind_eq_ok] at h
    obtain ⟨_, -, _, -, _, -, _, -, _, -, hgrant⟩ := h
    exact allowsApi_of_grantSession hgrant
  | mtls =>
    simp only [hmode, bind_eq_ok] at h
    obtain ⟨fingerprint, -, htoken⟩ := h
    exact allowsApi_of_storedToken htoken
  | hmac allowedAlgorithms allowedClockSkew =>
    simp only [hmode, Auth.authenticateHmac, bind_eq_ok] at h
    obtain ⟨_, -, _, -, _, -, _, -, _, -, _, -, _, -, hgrant⟩ := h
    exact allowsApi_of_grantSession hgrant

theorem auth_eq_ok : Auth.call c store now st req = .ok req' ↔
    (req.extensions.authBypass = true ∧ req' = req) ∨ (req.extensions.authBypass = false ∧
      ∃ ctx, Auth.authenticate c store now st req = .ok ctx ∧
        req' = { req with extensions := { req.extensions with session := some ctx } }) := by
  rw [Auth.call]
  split_ifs with hbypass
  · simp [hbypass, eq_comm]
  · simp only [hbypass, bind_eq_ok, pure_eq_ok, Bool.false_eq_true, false_and, false_or, true_and]
    exact exists_congr fun ctx => and_congr_right fun _ => eq_comm

end Auth

end Calls

/-! ### Which requests get inside -/

/-- A request goes on after the hooks of a slot. -/
def Hooked (layer : Option Plugin.PluginLayer) (apiId orgId : String) (req req' : Request) : Prop :=
  (layer = none ∧ req' = req) ∨ ∃ hooks ms, layer = some hooks ∧
    Plugin.Continued hooks.kind apiId orgId req hooks.plugins ms ∧
    req' = { req with headers := Plugin.mutated req.headers ms }

section Gates

variable (b : ChainBuilder Key Validation) (env : Env Key Validation ε ρ κ)

/-- Every layer above the limits let a request through: it was `judged` by the path lists, `hooked` by the pre hooks,
and is `seen` by the limits. -/
structure Gates (req judged hooked seen : Request) : Prop where
  permitted : ∀ st, b.ipFilter = some st → (clientIp req).any st.permits = true
  judges : PathRules.callPolicy b.pathPolicy req = .ok judged
  fits : ∀ limit, b.sizeLimit = some limit → (SizeLimit.declaredLength req.headers).any (limit < ·) = false
  hooks : Hooked b.pluginsPre b.apiId b.orgId judged hooked
  /-- It is the client's, but for its headers and what the layers stamp on it. -/
  same : SameRequest req seen
  headers : seen.headers = hooked.headers
  /-- It is authenticated, and for this API, -/
  authenticated : ∀ st, b.auth = some st → judged.extensions.authBypass = false → ∃ ctx,
    seen.extensions.session = some ctx ∧ Auth.authenticate env.crates env.store env.now st hooked = .ok ctx ∧
      ctx.session.allowsApi st.apiId = true
  /-- or nobody's, where nobody asks who it is. -/
  anonymous : b.auth = none ∨ judged.extensions.authBypass = true → seen.extensions.session = none

/-- The limits see a request. -/
def Reached (req seen : Request) : Prop := ∃ judged hooked, Gates b env req judged hooked seen

/-- A request gets inside: the limits see it and let it pass, and after them the post hooks. -/
def Admitted (req req' : Request) (w w' : World ρ κ) : Prop :=
  ∃ seen, Reached b env req seen ∧
    (∀ st, b.rateLimit = some st → (enforce env.backend st env.moment seen w).rejection = none ∧
      w' = (enforce env.backend st env.moment seen w).world) ∧
    (b.rateLimit = none → w' = w) ∧ Hooked b.pluginsPost b.apiId b.orgId seen req'

/-- The counters of a request that is turned away. -/
def Counted (req : Request) (w w' : World ρ κ) : Prop :=
  w' = w ∨ ∃ st seen, b.rateLimit = some st ∧ Reached b env req seen ∧
    w' = (enforce env.backend st env.moment seen w).world

end Gates

section Inside

variable {b : ChainBuilder Key Validation} {env : Env Key Validation ε ρ κ} {req req' seen : Request}
  {w w' : World ρ κ} {resp : Cors.Response}

theorem hooked_of_passes {layer : Option Plugin.PluginLayer} {apiId orgId : String}
    (h : (Stage.optional (layer.map fun hooks => hooks.stage apiId orgId) : Layer ρ κ).Passes req w req' w') :
    Hooked layer apiId orgId req req' ∧ w' = w := by
  rcases Stage.passes_optional.1 h with ⟨hnone, hreq, hw⟩ | ⟨hooks, hsome, hpasses⟩
  · exact ⟨.inl ⟨hnone, hreq⟩, hw⟩
  · obtain ⟨hrun, hw⟩ := Stage.passes_ofCall.1 hpasses
    obtain ⟨ms, hms, hreq⟩ := Plugin.passed_runHooks hrun
    exact ⟨.inr ⟨hooks, ms, hsome, hms, hreq⟩, hw⟩

theorem passes_outer (h : (Stage.chain b.outer : Layer ρ κ).Passes req w req' w') :
    (∀ st, b.ipFilter = some st → (clientIp req).any st.permits = true) ∧ req' = req ∧ w' = w := by
  simp only [ChainBuilder.outer, Stage.passes_chain_cons, Stage.chain_nil, Stage.passes_pass] at h
  obtain ⟨filtered, w₁, hfilter, _, _, hcors, rfl, rfl⟩ := h
  have hpassed : req' = filtered ∧ w' = w₁ := by
    rcases Stage.passes_optional.1 hcors with ⟨-, hreq, hw⟩ | ⟨st, -, hpasses⟩
    · exact ⟨hreq, hw⟩
    · exact passes_cors hpasses
  obtain ⟨rfl, rfl⟩ := hpassed
  rcases Stage.passes_optional.1 hfilter with ⟨hnone, hreq, hw⟩ | ⟨st, hsome, hpasses⟩
  · exact ⟨fun st hst => by simp [hnone] at hst, hreq, hw⟩
  · obtain ⟨hpermits, hreq, hw⟩ := passes_ipFilter.1 hpasses
    refine ⟨fun st' hst' => ?_, hreq, hw⟩
    obtain rfl := Option.some.inj (hsome.symm.trans hst')
    exact hpermits

/-- What authentication makes of a request that has no session yet. -/
structure Identified (b : ChainBuilder Key Validation) (env : Env Key Validation ε ρ κ) (hooked seen : Request) :
    Prop where
  same : SameRequest hooked seen
  headers : seen.headers = hooked.headers
  authenticated : ∀ st, b.auth = some st → hooked.extensions.authBypass = false → ∃ ctx,
    seen.extensions.session = some ctx ∧ Auth.authenticate env.crates env.store env.now st hooked = .ok ctx ∧
      ctx.session.allowsApi st.apiId = true
  anonymous : b.auth = none ∨ hooked.extensions.authBypass = true → seen.extensions.session = none

theorem identified_of_passes {hooked : Request} (hsession : hooked.extensions.session = none)
    (h : (Stage.optional (b.auth.map fun st => rejecting (Auth.call env.crates env.store env.now st)) :
      Layer ρ κ).Passes hooked w seen w') : Identified b env hooked seen ∧ w' = w := by
  rcases Stage.passes_optional.1 h with ⟨hnone, rfl, hw⟩ | ⟨st, hsome, hpasses⟩
  · exact ⟨⟨.refl _, rfl, fun st hst => by simp [hnone] at hst, fun _ => hsession⟩, hw⟩
  · obtain ⟨hcall, hw⟩ := passes_rejecting.1 hpasses
    rcases auth_eq_ok.1 hcall with ⟨hbypass, rfl⟩ | ⟨hbypass, ctx, hctx, rfl⟩
    · exact ⟨⟨.refl _, rfl, fun _ _ hnot => by simp [hbypass] at hnot, fun _ => hsession⟩, hw⟩
    · refine ⟨⟨⟨_, _, _, rfl⟩, rfl, fun st' hst' _ => ?_, ?_⟩, hw⟩
      · obtain rfl := Option.some.inj (hsome.symm.trans hst')
        exact ⟨ctx, rfl, hctx, allowsApi_of_authenticate hctx⟩
      · rintro (hnone | hanyone)
        · simp [hsome] at hnone
        · simp [hbypass] at hanyone

theorem fits_of_passes {limited : Request}
    (h : (Stage.optional (b.sizeLimit.map fun limit => rejecting (SizeLimit.call limit)) : Layer ρ κ).Passes
      req w limited w') : (∀ limit, b.sizeLimit = some limit →
        (SizeLimit.declaredLength req.headers).any (limit < ·) = false) ∧ limited = req ∧ w' = w := by
  rcases Stage.passes_optional.1 h with ⟨hnone, hreq, hw⟩ | ⟨limit, hsome, hpasses⟩
  · exact ⟨fun limit hlimit => by simp [hnone] at hlimit, hreq, hw⟩
  · obtain ⟨hcall, hw⟩ := passes_rejecting.1 hpasses
    obtain ⟨hfits, hreq⟩ := sizeLimit_eq_ok.1 hcall
    refine ⟨fun limit' hlimit => ?_, hreq, hw⟩
    obtain rfl := Option.some.inj (hsome.symm.trans hlimit)
    exact hfits

theorem Hooked.same {layer : Option Plugin.PluginLayer} {apiId orgId : String} (h : Hooked layer apiId orgId req req') :
    SameRequest req req' ∧ req'.extensions = req.extensions := by
  rcases h with ⟨-, rfl⟩ | ⟨_, _, -, -, rfl⟩
  · exact ⟨.refl _, rfl⟩
  · exact ⟨⟨_, _, _, rfl⟩, rfl⟩

theorem gates_of_passes (hfresh : Fresh req)
    (hfilter : ∀ st, b.ipFilter = some st → (clientIp req).any st.permits = true)
    (h : (Stage.chain (b.upper env) : Layer ρ κ).Passes req w seen w') : Reached b env req seen ∧ w' = w := by
  simp only [ChainBuilder.upper, Stage.passes_chain_cons, Stage.chain_nil, Stage.passes_pass] at h
  obtain ⟨judged, w₁, hpolicy, limited, w₂, hsize, hooked, w₃, hhooks, _, _, hauth, rfl, rfl⟩ := h
  obtain ⟨hjudges, rfl⟩ := passes_rejecting.1 hpolicy
  obtain ⟨hfits, rfl, rfl⟩ := fits_of_passes hsize
  obtain ⟨hslot, rfl⟩ := hooked_of_passes hhooks
  -- the path lists leave the headers, and the pre hooks change nothing else
  have hjudged : limited.headers = req.headers ∧ limited.extensions.session = none ∧ SameRequest req limited := by
    rcases call_eq_ok_of_policy hjudges with rfl | rfl
    · exact ⟨rfl, hfresh.1, .refl _⟩
    · exact ⟨rfl, hfresh.1, _, _, _, rfl⟩
  obtain ⟨hsame, hextensions⟩ := hslot.same
  obtain ⟨hidentified, rfl⟩ := identified_of_passes (by rw [hextensions, hjudged.2.1]) hauth
  have hauthenticated := hidentified.authenticated
  have hanonymous := hidentified.anonymous
  rw [hextensions] at hauthenticated hanonymous
  exact ⟨⟨limited, hooked, hfilter, hjudges, hjudged.1 ▸ hfits, hslot, (hjudged.2.2.trans hsame).trans hidentified.same,
    hidentified.headers, hauthenticated, hanonymous⟩, rfl⟩

theorem pure_hooks (layer : Option Plugin.PluginLayer) (apiId orgId : String) :
    (Stage.optional (layer.map fun hooks => hooks.stage apiId orgId) : Layer ρ κ).Pure :=
  Stage.pure_optional fun _ _ => Stage.pure_ofCall _

theorem pure_cors (st : Cors.CorsState) : (st.stage : Layer ρ κ).Pure := by
  intro req w
  simp only [Cors.CorsState.stage]
  split
  · rfl
  · split_ifs <;> rfl

theorem pure_outer : (Stage.chain b.outer : Layer ρ κ).Pure := by
  refine Stage.pure_chain fun g hg => ?_
  rcases List.mem_cons.1 hg with rfl | hg
  · exact Stage.pure_optional fun _ _ => Stage.pure_ofCall _
  · obtain rfl := List.mem_singleton.1 hg
    exact Stage.pure_optional fun st _ => pure_cors st

theorem pure_upper : (Stage.chain (b.upper env) : Layer ρ κ).Pure := by
  refine Stage.pure_chain fun g hg => ?_
  simp only [ChainBuilder.upper, List.mem_cons, List.not_mem_nil, or_false] at hg
  rcases hg with rfl | rfl | rfl | rfl
  · exact Stage.pure_ofCall _
  · exact Stage.pure_optional fun _ _ => Stage.pure_ofCall _
  · exact pure_hooks _ _ _
  · exact Stage.pure_optional fun _ _ => Stage.pure_ofCall _

/-- What the limits and the post hooks let through. -/
theorem admitted_of_passes (hreached : Reached b env req seen)
    (h : (Stage.chain [b.limits env, b.hooks]).Passes seen w req' w') : Admitted b env req req' w w' := by
  simp only [Stage.passes_chain_cons, Stage.chain_nil, Stage.passes_pass] at h
  obtain ⟨limited, w₁, hlimits, _, _, hhooks, rfl, rfl⟩ := h
  obtain ⟨hslot, rfl⟩ := hooked_of_passes hhooks
  rcases Stage.passes_optional.1 hlimits with ⟨hnone, rfl, hw⟩ | ⟨st, hsome, hpasses⟩
  · exact ⟨limited, hreached, fun st hst => by simp [hnone] at hst, fun _ => hw, hslot⟩
  · obtain ⟨hrejection, rfl, hw⟩ := passes_rateLimit.1 hpasses
    refine ⟨limited, hreached, fun st' hst' => ?_, fun hnone => by simp [hnone] at hsome, hslot⟩
    obtain rfl := Option.some.inj (hsome.symm.trans hst')
    exact ⟨hrejection, hw⟩

/-- What they answer, and with which counters. -/
theorem counted_of_answers (hreached : Reached b env req seen)
    (h : (Stage.chain [b.limits env, b.hooks]).Answers seen w resp w') : Counted b env req w w' := by
  rw [Stage.chain_cons, Stage.answers_around] at h
  rcases h with hlimits | ⟨limited, dress, w₁, resp', hlimits, hhooks, rfl⟩
  · obtain ⟨st, hsome, hanswers⟩ := Stage.answers_optional.1 hlimits
    exact .inr ⟨st, seen, hsome, hreached, answers_rateLimit hanswers⟩
  · have hworld : w' = w₁ := by
      refine (Stage.pure_chain fun g hg => ?_).of_answers hhooks
      obtain rfl := List.mem_singleton.1 hg
      exact pure_hooks _ _ _
    rcases Stage.passes_optional.1 ⟨dress, hlimits⟩ with ⟨-, -, hw⟩ | ⟨st, hsome, hpasses⟩
    · exact .inl (hworld.trans hw)
    · obtain ⟨-, -, hw⟩ := passes_rateLimit.1 hpasses
      exact .inr ⟨st, seen, hsome, hreached, hworld.trans hw⟩

end Inside

/-- **Nothing gets inside but through the gates.** Whatever the layers of an API are configured to do, a request is
either answered without a call of what is inside, and has changed the counters only if it came as far as the limits; or
what is inside is called once, with the request that every gate let through. -/
theorem inside_behind_gates (b : ChainBuilder Key Validation) (env : Env Key Validation ε ρ κ) (req : Request)
    (w : World ρ κ) (hfresh : Fresh req) :
    (∃ resp w', Counted b env req w w' ∧ ∀ forward, b.build env forward req w = (resp, w')) ∨
      ∃ req' w', ∃ dress : Cors.Response → Cors.Response, Admitted b env req req' w w' ∧
        ∀ forward, b.build env forward req w = (dress (forward req' w').1, (forward req' w').2) := by
  have hcut : Stage.chain (b.outer ++ (b.upper env ++ [b.limits env, b.hooks])) =
      (Stage.chain b.outer).around ((Stage.chain (b.upper env)).around (Stage.chain [b.limits env, b.hooks])) := by
    rw [Stage.chain_append, Stage.chain_append]
  rcases Stage.passes_or_answers (Stage.chain (b.outer ++ (b.upper env ++ [b.limits env, b.hooks]))) req w with
    ⟨req', w', hpasses⟩ | ⟨resp, w', hanswers⟩
  · obtain ⟨dress, henter⟩ := hpasses
    refine .inr ⟨req', w', dress, ?_, fun forward => Stage.layer_of_enter henter forward⟩
    have hpasses : (Stage.chain (b.outer ++ (b.upper env ++ [b.limits env, b.hooks]))).Passes req w req' w' :=
      ⟨dress, henter⟩
    rw [hcut, Stage.passes_around] at hpasses
    obtain ⟨_, _, houter, hinner⟩ := hpasses
    obtain ⟨hfilter, rfl, rfl⟩ := passes_outer houter
    obtain ⟨seen, _, hupper, hlower⟩ := Stage.passes_around.1 hinner
    obtain ⟨hreached, rfl⟩ := gates_of_passes hfresh hfilter hupper
    exact admitted_of_passes hreached hlower
  · refine .inl ⟨resp, w', ?_, fun forward => Stage.layer_of_answers hanswers forward⟩
    rw [hcut, Stage.answers_around] at hanswers
    rcases hanswers with houter | ⟨_, dress, _, _, houter, hinner, rfl⟩
    · exact .inl (pure_outer.of_answers houter)
    · obtain ⟨hfilter, rfl, rfl⟩ := passes_outer ⟨dress, houter⟩
      rcases Stage.answers_around.1 hinner with hupper | ⟨seen, dress', _, _, hupper, hlower, rfl⟩
      · exact .inl (pure_upper.of_answers hupper)
      · obtain ⟨hreached, rfl⟩ := gates_of_passes hfresh hfilter ⟨dress', hupper⟩
        exact counted_of_answers hreached hlower

/-- An API that grants cross-origin requests of one shop, and asks for tokens. -/
def ordersChain : ChainBuilder Unit Unit where
  apiId := "orders"
  orgId := "default"
  cors := some {
    wildcard := false
    origins := ["https://shop.example"]
    allowedMethods := ["GET"]
    allowMethodsValue := headerValue "GET"
    allowHeadersValue := none
    allowedHeadersLower := []
    exposeHeadersValue := none
    credentials := true
    maxAge := none
    optionsPassthrough := false }
  auth := some Auth.tokenApi

/-- Where it is served: nothing is counted. -/
def ordersEnv : Env Unit Unit Unit Unit Unit where
  crates := Auth.sampleCrates
  store := Auth.aliceStore
  now := 0
  backend := ⟨fun _ r limit _ => (some ⟨true, limit, 0⟩, r), fun _ q limit _ => (some ⟨true, limit, 0⟩, q)⟩
  moment := ⟨0, 0, ()⟩

def ordersWorld : World Unit Unit := ⟨fun _ => (), fun _ => (), none⟩

theorem inside_behind_gates_alice :
    (∃ resp w', Counted ordersChain ordersEnv (Auth.presenting "basic:alice") ordersWorld w' ∧
      ∀ forward, ordersChain.build ordersEnv forward (Auth.presenting "basic:alice") ordersWorld =
        (resp, w')) ∨
    ∃ req' w', ∃ dress : Cors.Response → Cors.Response,
      Admitted ordersChain ordersEnv (Auth.presenting "basic:alice") req' ordersWorld w' ∧
      ∀ forward, ordersChain.build ordersEnv forward (Auth.presenting "basic:alice") ordersWorld =
        (dress (forward req' w').1, (forward req' w').2) :=
  inside_behind_gates ordersChain ordersEnv (Auth.presenting "basic:alice") ordersWorld ⟨rfl, rfl⟩

/-! ### Answers and the CORS policy -/

/-- "The three methods must keep the ordering above consistent." -/
theorem build_eq (b : ChainBuilder Key Validation) (env : Env Key Validation ε ρ κ)
    (forward : Handler (World ρ κ) Request Cors.Response) :
    b.build env forward = b.buildOuter (b.buildInner env forward) := by
  rw [ChainBuilder.build, ChainBuilder.buildOuter, ChainBuilder.buildInner, Stage.layer_chain, Stage.layer_chain,
    Stage.layer_chain, List.foldr_append]

/-- What a client is answered when a layer below, or the upstream, answers `below`. -/
structure Dressed (st : Cors.CorsState) (origin : HeaderValue) (below answer : Cors.Response) : Prop where
  same : answer.status = below.status ∧ answer.body = below.body
  granted : st.originAllowed origin = true →
    answer.headers.getAll "access-control-allow-origin" = [st.allowOriginValue origin]
  credentials : st.originAllowed origin = true → st.credentials = true →
    answer.headers.getAll "access-control-allow-credentials" = [headerValue "true"]
  refused : st.originAllowed origin = false → ∀ name ≠ "vary", answer.headers.getAll name = below.headers.getAll name
  varies : st.wildcard = false → headerValue "origin" ∈ answer.headers.getAll "vary"

section Dressed

variable {st : Cors.CorsState} {origin : HeaderValue}

theorem dressed_dress (st : Cors.CorsState) (origin : HeaderValue) (below : Cors.Response) :
    Dressed st origin below (st.dress origin below) := by
  have hvary (headers : HeaderMap) (name : String) (hname : name ≠ "vary") :
      HeaderMap.getAll (if st.wildcard then headers else headers.append "vary" (headerValue "origin")) name =
        headers.getAll name := by
    split_ifs
    · rfl
    · exact Cors.getAll_append headers hname _
  constructor
  case same => exact ⟨rfl, rfl⟩
  case granted =>
    intro hallowed
    simp only [Cors.CorsState.dress, hallowed, if_true]
    rw [hvary _ _ (by decide), Cors.CorsState.decorate, Cors.getAll_insertSome _ (by decide)]
    split_ifs
    · rw [HeaderMap.getAll_insert, if_neg (by decide), HeaderMap.getAll_insert, if_pos rfl]
    · rw [HeaderMap.getAll_insert, if_pos rfl]
  case credentials =>
    intro hallowed hcredentials
    simp only [Cors.CorsState.dress, hallowed, if_true]
    rw [hvary _ _ (by decide), Cors.CorsState.decorate, Cors.getAll_insertSome _ (by decide), if_pos hcredentials,
      HeaderMap.getAll_insert, if_pos rfl]
  case refused =>
    intro hrefused name hname
    simp only [Cors.CorsState.dress, hrefused]
    exact hvary _ _ hname
  case varies =>
    intro hwildcard
    simp only [Cors.CorsState.dress, hwildcard]
    simp [HeaderMap.getAll, HeaderMap.append]

end Dressed

/-- **Every answer is dressed.** Whoever answers a cross-origin request that the address lists admit, a gate, a hook or
the upstream, the answer to an allowed origin has the policy's grant, that to any other has its headers as they were, and
the counters are those of the layers below; a preflight gets no further than the policy, unless it is to be passed
through, and a blocked client gets a bare rejection. -/
theorem answers_dressed (b : ChainBuilder Key Validation) (env : Env Key Validation ε ρ κ)
    (forward : Handler (World ρ κ) Request Cors.Response) (req : Request) (w : World ρ κ) {st : Cors.CorsState}
    {origin : HeaderValue} (hcors : b.cors = some st) (horigin : req.headers.get "origin" = some origin) :
    ((∃ lists, b.ipFilter = some lists ∧ (clientIp req).any lists.permits = false) →
      b.build env forward req w = (IpFilter.forbiddenIp.response, w) ∧
        ∀ name ≠ "content-type", IpFilter.forbiddenIp.response.headers.getAll name = []) ∧
    ((∀ lists, b.ipFilter = some lists → (clientIp req).any lists.permits = true) →
      ((Cors.isPreflight req && !st.optionsPassthrough) = true →
        b.build env forward req w = (st.preflightResponse req origin, w)) ∧
      ((Cors.isPreflight req && !st.optionsPassthrough) = false →
        Dressed st origin (b.buildInner env forward req w).1 (b.build env forward req w).1 ∧
          (b.build env forward req w).2 = (b.buildInner env forward req w).2)) := by
  rw [build_eq, ChainBuilder.buildOuter, ChainBuilder.outer, Stage.chain_cons, Stage.layer_around]
  constructor
  · rintro ⟨lists, hlists, hblocked⟩
    have hanswers : (Stage.optional (b.ipFilter.map fun st => rejecting st.call) : Layer ρ κ).Answers req w
        IpFilter.forbiddenIp.response w := by
      rw [Stage.answers_optional]
      refine ⟨lists, hlists, Stage.answers_ofCall.2 ⟨?_, rfl⟩⟩
      simp [IpFilter.FilterState.call, hblocked, ensure, Except.mapError]
    refine ⟨Stage.layer_of_answers hanswers _, fun name hname => ?_⟩
    simp [IpFilter.forbiddenIp, Rejection.response, Plugin.jsonError, Cors.insertSome, HeaderMap.getAll, Ne.symm hname]
  · intro hpermits
    have hpasses : (Stage.optional (b.ipFilter.map fun st => rejecting st.call) : Layer ρ κ).enter req w =
        (.ok (req, id), w) := by
      cases hlists : b.ipFilter with
      | none => rfl
      | some lists =>
        simp [Stage.optional, rejecting, Stage.ofCall, IpFilter.FilterState.call, hpermits lists hlists, ensure,
          Except.mapError, Except.map]
    have hchain (inner : Handler (World ρ κ) Request Cors.Response) :
        (Stage.chain [Stage.optional (b.cors.map Cors.CorsState.stage)]).layer inner req w =
          st.stage.layer inner req w := by
      rw [Stage.chain_cons, Stage.layer_around, Stage.chain_nil, Stage.layer_pass, hcors]
      rfl
    rw [Stage.layer_of_enter hpasses, hchain]
    refine ⟨fun hpreflight => ?_, fun hpreflight => ?_⟩
    · have hanswers : (st.stage : Layer ρ κ).Answers req w (st.preflightResponse req origin) w := by
        simp only [Stage.Answers, Cors.CorsState.stage, horigin, hpreflight, if_true]
      exact Stage.layer_of_answers hanswers _
    · have hdress : (st.stage : Layer ρ κ).enter req w = (.ok (req, st.dress origin), w) := by
        simp only [Cors.CorsState.stage, horigin, hpreflight, Bool.false_eq_true, if_false]
      rw [Stage.layer_of_enter hdress]
      exact ⟨dressed_dress st origin _, rfl⟩

/-- A request of the shop, without a token. -/
def shopRequest : Request := { headers := [("origin", headerValue "https://shop.example")] }

/-- The shop may read that it was refused. -/
theorem answers_dressed_shop : ∃ st, ordersChain.cors = some st ∧
    Dressed st (headerValue "https://shop.example")
      (ordersChain.buildInner ordersEnv (fun _ w => (⟨200, [], []⟩, w)) shopRequest ordersWorld).1
      (ordersChain.build ordersEnv (fun _ w => (⟨200, [], []⟩, w)) shopRequest ordersWorld).1 := by
  refine ⟨_, rfl, ?_⟩
  have hdressed := (answers_dressed ordersChain ordersEnv (fun _ w => (⟨200, [], []⟩, w)) shopRequest ordersWorld
    rfl rfl).2
  exact ((hdressed (by simp [ordersChain])).2 (by decide)).1

end G2way.Middleware
