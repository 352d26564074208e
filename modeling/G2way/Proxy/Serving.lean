import G2way.Lib.Assoc
import G2way.Middleware.ChainBuilder
import G2way.Middleware.Versioning
import G2way.Proxy.Accounts

/-!
# How an API is served

`Route::build` and `inner_layers` of `g2-proxy/src/router.rs`: the chain of an API, or for an API with
versions "one inner chain per version — each built from the version's effective definition, with its own
upstream target — behind a dispatcher wrapped in the shared outer stack".

## The model

The layers of `Middleware.ChainBuilder` are built from a definition. The blocks they read, what is
asked of crates, and what is inside a chain, from the GraphQL layer to the forwarder, are the fields of
`Resources`. Of several layers that cannot be built, the first one in the order written here is
reported. Tasks that are spawned are left out, and the target of the base where there are versions:
it serves no request.

## What is proved

`version_serves_effective`: a version is served as an API of its own would be that had the version's
effective definition, behind the outer layers of the base, with a scope of its own for what it counts;
a request that names no version, an unknown one or an expired one gets no further than the dispatcher,
and is answered as the CORS policy of the base has it.
-/

namespace G2way.Proxy.Serving

open G2way.Core G2way.Lib G2way.Lib.Result G2way.Middleware G2way.Proxy.Accounts
open G2way.Middleware.RateLimit (World RateLimitState)
open G2way.Middleware.PathRules (PathRule Regexes PolicyState endpointLimits)
open G2way.Middleware.Plugin (PluginsConfig PluginLoader PluginLayer)
open G2way.Middleware.Versioning (VersionDispatch)

variable {B Num Key Validation ε ρ κ : Type}

/-! ### Building the chains -/

/-- The blocks of a definition that the layers are built from. -/
structure LayerBlocks (Num : Type) where
  auth : AuthConfig := .keyless
  allowIps : List String := []
  blockIps : List String := []
  cors : Option Cors.CorsConfig := none
  allowPaths : List PathRule := []
  blockPaths : List PathRule := []
  ignoreAuthPaths : List PathRule := []
  plugins : Option (PluginsConfig Num) := none

/-- `RouteResources`, and what the layers ask of crates. -/
structure Resources (B Num Key Validation ρ κ : Type) where
  blocks : B → LayerBlocks Num
  ipnet : String → Option IpNet
  regexes : Regexes
  keys : KeyCrates Key Validation
  jwks : JwksSource → String → Option Key
  plugins : Option (PluginLoader Num)
  /-- When a version expires. -/
  expiresAt : VersioningConfig B → String → Option ℕ
  /-- What is inside the chain of a definition with a scope, if it can be built. -/
  inside : ApiDefinition B → String → Except InvalidApiDefinition (Handler (World ρ κ) Request Cors.Response)

/-- A chain around what is inside. -/
structure ServedChain (Key Validation ρ κ : Type) where
  builder : ChainBuilder Key Validation
  inside : Handler (World ρ κ) Request Cors.Response

/-- What serves the requests of a route. -/
inductive Served (Key Validation ρ κ : Type) where
  | single (chain : ServedChain Key Validation ρ κ)
  | versioned (outer : ChainBuilder Key Validation) (versions : VersionDispatch (ServedChain Key Validation ρ κ))

section Build

variable (res : Resources B Num Key Validation ρ κ)

/-- The outer layers of `Route::build`. -/
def outerLayers (def_ : ApiDefinition B) : Except InvalidApiDefinition (ChainBuilder Key Validation) := do
  let blocks := res.blocks def_.blocks
  let ipFilter ← IpFilter.fromConfig res.ipnet blocks.allowIps blocks.blockIps def_.apiId
  let cors ← blocks.cors.elim (.ok none) fun config => some <$> Cors.fromConfig config def_.apiId
  return { apiId := def_.apiId, orgId := def_.orgId, ipFilter, cors }

/-- `inner_layers`. "Every credentialed API gets the limiter [...]; a keyless API gets it only when it declares endpoint
limits, which need no session." -/
def innerLayers (builder : ChainBuilder Key Validation) (def_ : ApiDefinition B) (scope : String) :
    Except InvalidApiDefinition (ChainBuilder Key Validation) := do
  let blocks := res.blocks def_.blocks
  let mode ← (Accounts.fromConfig res.keys res.jwks blocks.auth).mapError (⟨def_.apiId, ·⟩)
  let limits ← endpointLimits res.regexes def_.endpointRateLimits def_.apiId def_.orgId scope
  let pathPolicy ← PolicyState.fromConfig res.regexes blocks.allowPaths blocks.blockPaths blocks.ignoreAuthPaths
    def_.apiId
  let plugins := blocks.plugins.getD {}
  let pluginsPre ← PluginLayer.fromConfig .pre plugins.pre res.plugins def_.apiId
  let pluginsPost ← PluginLayer.fromConfig .post plugins.post res.plugins def_.apiId
  return { builder with
    pathPolicy
    sizeLimit := def_.maxRequestBodyBytes
    pluginsPre
    auth := mode.map (⟨def_.apiId, def_.orgId, ·⟩)
    rateLimit := if mode.isSome || limits.isSome then some ⟨limits⟩ else none
    pluginsPost }

/-- The chain of a definition. -/
def innerChain (builder : ChainBuilder Key Validation) (def_ : ApiDefinition B) (scope : String) :
    Except InvalidApiDefinition (ServedChain Key Validation ρ κ) := do
  let builder ← innerLayers res builder def_ scope
  let inside ← res.inside def_ scope
  return ⟨builder, inside⟩

/-- The scope of a version. -/
def versionScope (def_ : ApiDefinition B) (name : String) : String := def_.apiId ++ ":" ++ name

/-- The chain of a version; `apply` succeeds for every key of the map. -/
def versionChain (base : ApiDefinition B) (v : VersioningConfig B) (name : String) :
    Except InvalidApiDefinition (String × ServedChain Key Validation ρ κ) := do
  let effective ← okOr (v.apply base name) ⟨base.apiId, "apply() succeeds for every key of the versions map"⟩
  let chain ← innerChain res { apiId := base.apiId, orgId := base.orgId } effective (versionScope effective name)
  return (name, chain)

/-- `Route::build`. -/
def build (def_ : ApiDefinition B) : Except InvalidApiDefinition (Served Key Validation ρ κ) := do
  let outer ← outerLayers res def_
  match def_.versioning with
  | none => return .single (← innerChain res outer def_ def_.apiId)
  | some v =>
    let chains ← (v.versions.map Prod.fst).mapM (versionChain res def_ v)
    let versions ← Versioning.fromConfig v (res.expiresAt v) (fun name => chains.lookup name) def_.apiId
    return .versioned outer versions

end Build

/-! ### Serving -/

/-- What a versioned route has inside its outer layers. -/
def dispatched (env : Env Key Validation ε ρ κ) (versions : VersionDispatch (ServedChain Key Validation ρ κ)) :
    Handler (World ρ κ) Request Cors.Response := fun req w =>
  match versions.dispatch env.now req with
  | .ok chain => chain.builder.buildInner env chain.inside req w
  | .error rejection => (rejection.response, w)

/-- The answer to a request. -/
def Served.serve (env : Env Key Validation ε ρ κ) : Served Key Validation ρ κ →
    Handler (World ρ κ) Request Cors.Response
  | .single chain => chain.builder.build env chain.inside
  | .versioned outer versions => outer.buildOuter (dispatched env versions)

/-! ### The outer layers -/

section Outer

variable {b : ChainBuilder Key Validation} {service service' : Handler (World ρ κ) Request Cors.Response}
  {req : Request} {w : World ρ κ}

/-- The outer layers hand on the request as it is. -/
theorem buildOuter_congr (h : service req w = service' req w) :
    b.buildOuter service req w = b.buildOuter service' req w := by
  rcases Stage.passes_or_answers (Stage.chain b.outer) req w with ⟨req', w', dress, henter⟩ | ⟨resp, w', hanswers⟩
  · obtain ⟨-, rfl, rfl⟩ := passes_outer ⟨dress, henter⟩
    rw [ChainBuilder.buildOuter, ChainBuilder.buildOuter, Stage.layer_of_enter henter, Stage.layer_of_enter henter, h]
  · rw [ChainBuilder.buildOuter, ChainBuilder.buildOuter, Stage.layer_of_answers hanswers,
      Stage.layer_of_answers hanswers]

theorem buildOuter_world (h : (service req w).2 = w) : (b.buildOuter service req w).2 = w := by
  rcases Stage.passes_or_answers (Stage.chain b.outer) req w with ⟨req', w', dress, henter⟩ | ⟨resp, w', hanswers⟩
  · obtain ⟨-, rfl, rfl⟩ := passes_outer ⟨dress, henter⟩
    rw [ChainBuilder.buildOuter, Stage.layer_of_enter henter]
    exact h
  · rw [ChainBuilder.buildOuter, Stage.layer_of_answers hanswers]
    exact pure_outer.of_answers hanswers

end Outer

/-! ### A version is served as its effective definition -/

section Versions

variable {res : Resources B Num Key Validation ρ κ} {def_ : ApiDefinition B} {v : VersioningConfig B}
  {outer : ChainBuilder Key Validation}

theorem outerLayers_eq_ok (h : outerLayers res def_ = .ok outer) :
    outer = { apiId := def_.apiId, orgId := def_.orgId, ipFilter := outer.ipFilter, cors := outer.cors } := by
  simp only [outerLayers, bind_eq_ok, pure_eq_ok] at h
  obtain ⟨ipFilter, -, cors, -, rfl⟩ := h
  rfl

/-- The inner layers do not depend on what is set of the outer ones. -/
theorem innerLayers_outer {effective : ApiDefinition B} {scope : String} {b : ChainBuilder Key Validation}
    (houter : outerLayers res def_ = .ok outer)
    (h : innerLayers res { apiId := def_.apiId, orgId := def_.orgId } effective scope = .ok b) :
    innerLayers res outer effective scope = .ok { b with ipFilter := outer.ipFilter, cors := outer.cors } := by
  simp only [innerLayers, bind_eq_ok, pure_eq_ok] at h
  obtain ⟨mode, hmode, limits, hlimits, pathPolicy, hpolicy, pre, hpre, post, hpost, rfl⟩ := h
  rw [outerLayers_eq_ok houter]
  simp only [innerLayers, hmode, hlimits, hpolicy, hpre, hpost, ok_bind]
  rfl

/-- A chain of a version, in the outer layers of its base, is one chain. -/
theorem innerChain_outer {effective : ApiDefinition B} {scope : String} {chain : ServedChain Key Validation ρ κ}
    (houter : outerLayers res def_ = .ok outer)
    (h : innerChain res { apiId := def_.apiId, orgId := def_.orgId } effective scope = .ok chain) :
    ∃ whole, innerChain res outer effective scope = .ok whole ∧ ∀ env : Env Key Validation ε ρ κ,
      whole.builder.build env whole.inside = outer.buildOuter (chain.builder.buildInner env chain.inside) := by
  simp only [innerChain, bind_eq_ok, pure_eq_ok] at h
  obtain ⟨b, hb, inside, hinside, rfl⟩ := h
  refine ⟨⟨{ b with ipFilter := outer.ipFilter, cors := outer.cors }, inside⟩, ?_, fun env => build_eq _ env inside⟩
  simp only [innerChain, innerLayers_outer houter hb, hinside, ok_bind]
  rfl

/-- What is built for each name is found under it. -/
theorem lookup_of_mapM {η α : Type} {f : String → Except η (String × α)} (hkey : ∀ name p, f name = .ok p → p.1 = name)
    {names : List String} {ps : List (String × α)} (h : names.mapM f = .ok ps) (name : String) :
    (ps.lookup name = none → name ∉ names) ∧ ∀ a, ps.lookup name = some a → f name = .ok (name, a) := by
  constructor
  · intro hnone hname
    obtain ⟨p, hp⟩ := exists_mapM_eq_ok.1 ⟨ps, h⟩ name hname
    have hmem : p ∈ ps := (mem_mapM h).2 ⟨name, hname, hp⟩
    obtain ⟨a, ha⟩ := Assoc.exists_lookup_of_key_mem (List.mem_map.2 ⟨p, hmem, hkey name p hp⟩)
    cases hnone.symm.trans ha
  · intro a ha
    obtain ⟨name', -, hbuilt⟩ := (mem_mapM h).1 (Assoc.mem_of_lookup ha)
    have hname : name = name' := hkey name' _ hbuilt
    rw [hname]
    exact hname ▸ hbuilt

theorem versionChain_fst {name : String} {p : String × ServedChain Key Validation ρ κ}
    (h : versionChain res def_ v name = .ok p) : p.1 = name := by
  simp only [versionChain, bind_eq_ok, pure_eq_ok] at h
  obtain ⟨_, -, _, -, rfl⟩ := h
  rfl

theorem slotOf_fst {S : Type} {expiresAt : String → Option ℕ} {chains : String → Option S} {apiId name : String}
    {p : String × Versioning.VersionSlot S} (h : Versioning.slotOf expiresAt chains apiId name = .ok p) :
    p.1 = name := by
  simp only [Versioning.slotOf, bind_eq_ok, pure_eq_ok] at h
  obtain ⟨_, -, rfl⟩ := h
  rfl

/-- Whatever the dispatcher turns away is forbidden. -/
theorem status_of_dispatch {S : Type} {versions : VersionDispatch S} {now : ℕ} {req : Request} {rejection : Rejection}
    (h : versions.dispatch now req = .error rejection) : rejection.status = 403 := by
  rw [VersionDispatch.dispatch] at h
  cases hname : versions.resolve req with
  | none =>
    rw [hname] at h
    cases h
    rfl
  | some name =>
    cases hslot : versions.versions.lookup name with
    | none =>
      simp only [hname, hslot, okOr, ok_bind, error_bind] at h
      cases h
      rfl
    | some slot =>
      simp only [hname, hslot, okOr, ok_bind, ensure] at h
      split_ifs at h
      · cases h
      · cases h
        rfl

/-- The version that a request is served by, if there is one: the request names it or it is the default, it is
configured, and it has not expired. -/
structure Resolves (res : Resources B Num Key Validation ρ κ) (def_ : ApiDefinition B) (v : VersioningConfig B)
    (selector : Versioning.VersionSelector) (now : ℕ) (req : Request) (name : String) (effective : ApiDefinition B) :
    Prop where
  named : (selector.requested req).or v.defaultVersion = some name
  effective : v.apply def_ name = some effective
  live : (res.expiresAt v name).any (· ≤ now) = false

/-- What a route with versions makes of a request: it serves the version as one chain would, of the version's effective
definition and with its scope, in the outer layers of the base; or there is none, and the dispatcher turns it away. -/
def ServesVersions (res : Resources B Num Key Validation ρ κ) (def_ : ApiDefinition B) (v : VersioningConfig B)
    (route : Served Key Validation ρ κ) (env : Env Key Validation ε ρ κ) (req : Request) (w : World ρ κ) : Prop :=
  ∃ outer selector, outerLayers res def_ = .ok outer ∧ Versioning.selectorOf v def_.apiId = .ok selector ∧
    ((∃ name effective chain, Resolves res def_ v selector env.now req name effective ∧
        innerChain res outer effective (versionScope effective name) = .ok chain ∧
        route.serve env req w = chain.builder.build env chain.inside req w) ∨
      ((∀ name effective, ¬ Resolves res def_ v selector env.now req name effective) ∧
        ∃ rejection : Rejection, rejection.status = 403 ∧
          route.serve env req w = outer.buildOuter (fun _ w => (rejection.response, w)) req w ∧
          (route.serve env req w).2 = w))

/-- **A version is served as its effective definition**, to every request and whatever the layers are configured to
do. -/
theorem version_serves_effective {route : Served Key Validation ρ κ} (h : build res def_ = .ok route)
    (hversioning : def_.versioning = some v) (env : Env Key Validation ε ρ κ) (req : Request) (w : World ρ κ) :
    ServesVersions res def_ v route env req w := by
  simp only [build, hversioning, bind_eq_ok, pure_eq_ok] at h
  obtain ⟨outer, houter, chains, hchains, versions, hversions, rfl⟩ := h
  simp only [Versioning.fromConfig, bind_eq_ok, pure_eq_ok] at hversions
  obtain ⟨selector, hselector, slots, hslots, rfl⟩ := hversions
  refine ⟨outer, selector, houter, hselector, ?_⟩
  have hslot {name : String} {slot : Versioning.VersionSlot (ServedChain Key Validation ρ κ)}
      (hlookup : slots.lookup name = some slot) :
      chains.lookup name = some slot.chain ∧ slot.expiresAt = res.expiresAt v name := by
    have hbuilt := (lookup_of_mapM (fun _ _ => slotOf_fst) hslots name).2 slot hlookup
    simp only [Versioning.slotOf, bind_eq_ok, okOr_eq_ok, pure_eq_ok, Prod.mk.injEq, true_and] at hbuilt
    obtain ⟨chain, hchain, rfl⟩ := hbuilt
    exact ⟨hchain, rfl⟩
  cases hdispatch : VersionDispatch.dispatch ⟨selector, v.defaultVersion, slots⟩ env.now req with
  | ok chain =>
    have hserved := hdispatch
    simp only [VersionDispatch.dispatch, VersionDispatch.resolve, bind_eq_ok, okOr_eq_ok, ensure_eq_ok, pure_eq_ok,
      Bool.not_eq_true'] at hdispatch
    obtain ⟨name, hname, slot, hlookup, _, hlive, rfl⟩ := hdispatch
    obtain ⟨hchain, hexpires⟩ := hslot hlookup
    have hversion := (lookup_of_mapM (fun _ _ => versionChain_fst) hchains name).2 _ hchain
    simp only [versionChain, bind_eq_ok, okOr_eq_ok, pure_eq_ok, Prod.mk.injEq, true_and] at hversion
    obtain ⟨effective, happly, chain, hinner, hchain'⟩ := hversion
    obtain ⟨whole, hwhole, hwhole'⟩ := innerChain_outer houter hinner
    refine .inl ⟨name, effective, whole, ⟨hname, happly, hexpires ▸ hlive⟩, hwhole, ?_⟩
    rw [hwhole', hchain', Served.serve]
    exact buildOuter_congr (by simp only [dispatched, hserved])
  | error rejection =>
    refine .inr ⟨fun name effective hresolves => ?_, rejection, status_of_dispatch hdispatch, ?_, ?_⟩
    · have happly := hresolves.effective
      simp only [VersioningConfig.apply, Option.map_eq_some_iff] at happly
      obtain ⟨o, hversion, -⟩ := happly
      cases hlookup : slots.lookup name with
      | none => exact (lookup_of_mapM (fun _ _ => slotOf_fst) hslots name).1 hlookup (Assoc.key_mem_of_lookup hversion)
      | some slot =>
        have hok : VersionDispatch.dispatch ⟨selector, v.defaultVersion, slots⟩ env.now req = .ok slot.chain := by
          simp only [VersionDispatch.dispatch, VersionDispatch.resolve, bind_eq_ok, okOr_eq_ok, ensure_eq_ok,
            pure_eq_ok, Bool.not_eq_true']
          exact ⟨name, hresolves.named, slot, hlookup, (), (hslot hlookup).2 ▸ hresolves.live, rfl⟩
        cases hdispatch.symm.trans hok
    · exact buildOuter_congr (by simp only [dispatched, hdispatch])
    · exact buildOuter_world (by simp only [dispatched, hdispatch])

/-- Keyless versions; what is inside a chain answers with its scope. -/
def usersResources : Resources Unit Unit Unit Unit Unit Unit where
  blocks _ := {}
  ipnet _ := none
  regexes _ := .error "no regex"
  keys := ⟨fun _ => (), fun _ => .error "no PEM", fun _ => (), fun _ _ => ()⟩
  jwks _ _ := none
  plugins := none
  expiresAt _ _ := none
  inside _ scope := .ok fun _ w => (⟨200, [], Text.utf8 scope⟩, w)

/-- An API with two versions. -/
def versionedUsers : ApiDefinition Unit := { Versioning.usersBase with versioning := some Versioning.queryVersions }

theorem version_serves_effective_users : ∃ route, build usersResources versionedUsers = .ok route ∧
    ServesVersions usersResources versionedUsers Versioning.queryVersions route ordersEnv
      { query := some "version=v1" } ordersWorld :=
  ⟨_, rfl, version_serves_effective rfl rfl ordersEnv { query := some "version=v1" } ordersWorld⟩

end Versions

end G2way.Proxy.Serving
