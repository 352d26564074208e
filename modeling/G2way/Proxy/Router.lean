import G2way.GraphQl.SchemaState
import Mathlib.Data.Set.BooleanAlgebra
import Mathlib.Order.CompletePartialOrder

/-!
# Routes and their storage scopes

`Route::build`, from `g2-proxy/src/router.rs`, as far as it decides what a chain
keeps in the shared storage: the HTTP response cache, the GraphQL response cache
and the endpoint rate limits, each under keys that begin with the organization
and a scope. The scope is "the API id for an unversioned API, or
`{api_id}:{version}` for one version of a versioned API — versions can differ in
upstream and transforms, so they must never share entries".

A GraphQL entry is keyed by the digest of the active schema too. Which schemas may
be active in a chain is what its layer starts with, and with `schema_sync` what
the answers of its upstream make of it (`Chain.Active`).

## What is proved

* `isolated_iff` — **scope isolation**, exactly: the chains of a deployment have
  disjoint key spaces unless two of them have the same scope and keep the same
  kind of key; for GraphQL entries, under a schema that may be active in both.
  Nothing in `validate` keeps scopes apart: an API `a:b` has the scope of the
  version `b` of an API `a` (`colonDeployment`).
* `httpKeys_disjoint_graphqlKeys` — the two caches never share an entry, whatever
  the scopes.
* `isolated_of_no_colon` — ids without a colon are enough.
-/

namespace G2way.Proxy

open G2way.Core G2way.GraphQl G2way.Lib G2way.Lib.Result

variable {B Num Sch : Type}

/-! ### Building a route -/

/-- One inner chain of a route: `inner_layers` with what it is given. -/
structure Chain (B : Type) where
  /-- The definition it serves; a version's effective one. -/
  def_ : ApiDefinition B
  /-- The version, of a versioned API. -/
  version : Option String
  scope : String

namespace Route

/-- The chain of one version. -/
def versionChain (base : ApiDefinition B) (v : VersioningConfig B) (name : String) : Option (Chain B) :=
  (v.apply base name).map fun vdef => ⟨vdef, some name, vdef.apiId ++ ":" ++ name⟩

/-- `Route::build`: the inner chains, one or one for each version. -/
def build (def_ : ApiDefinition B) : List (Chain B) :=
  match def_.versioning with
  | none => [⟨def_, none, def_.apiId⟩]
  | some v => v.versions.filterMap fun p => versionChain def_ v p.1

end Route

namespace Chain

/-- The prefix of the HTTP cache (`CacheLayer::new`). -/
def cachePrefix (x : Chain B) : Option String :=
  x.def_.cache.map fun _ => responseCacheKeyPrefix x.def_.orgId x.scope

/-- The prefix of the GraphQL cache (`GraphQlLayer::from_config`, `GraphQlCache::new`). -/
def graphqlCachePrefix (x : Chain B) : Option String :=
  match x.def_.graphql with
  | some g =>
    if g.enabled then g.cache.map fun _ => responseCacheKeyPrefix x.def_.orgId (x.scope ++ ":graphql") else none
  | none => none

/-- The keys of the endpoint limits (`EndpointLimits::from_config`). -/
def endpointKeys (x : Chain B) : List String :=
  x.def_.endpointRateLimits.zipIdx.map fun p => endpointRateLimitStorageKey x.def_.orgId x.scope p.2

end Chain

/-- `is_safe_method`. -/
def isSafeMethod (method : String) : Bool := method = "GET" || method = "HEAD" || method = "OPTIONS"

/-- The digest of the HTTP cache covers "method + full path?query verbatim". -/
def cacheText (method target : String) : String := method ++ " " ++ target

/-! ### Key spaces -/

namespace Chain

section Schemas

variable (c : SchemaCrates Num Sch) (x : Chain (GraphQlBlocks Num))

/-- The GraphQL layer of the chain (`GraphQlLayer::from_config`), with the schema it starts with. -/
def layer : Except InvalidApiDefinition (Option (Shared Num × SchemaState Sch)) :=
  x.def_.graphql.elim (.ok none) fun config => fromConfig c config x.def_ true (some x.scope)

/-- The schemas that may be active in the layer: the first one, and those that a sync swaps it for. -/
inductive Active (shared : Shared Num) : SchemaState Sch → Prop where
  | first {initial : SchemaState Sch} : x.layer c = .ok (some (shared, initial)) → Active shared initial
  | synced {active new : SchemaState Sch} {response : Json Num} : Active shared active → shared.sync = true →
      applyIntrospection c shared active response = .ok (some new) → Active shared new

/-- The SDL of an active schema. -/
def Holds (sdl : String) : Prop := ∃ shared s, x.Active c shared s ∧ s.sdl = sdl

end Schemas

section Keys

variable (hashKey : String → String) (c : SchemaCrates Num Sch)

/-- The keys the HTTP cache can compute. -/
def httpKeys (x : Chain B) : Set String :=
  {k | ∃ keyPrefix method target, x.cachePrefix = some keyPrefix ∧ isSafeMethod method ∧
    k = keyPrefix ++ hashKey (cacheText method target)}

/-- The keys the GraphQL cache can compute. -/
def graphqlKeys (x : Chain (GraphQlBlocks Num)) : Set String :=
  {k | ∃ shared s keyPrefix operationName query variablesText, x.Active c shared s ∧
    shared.cachePrefix = some keyPrefix ∧
    k = keyPrefix ++ c.hashKey (keyText s.sdlHash operationName query variablesText)}

/-- Every key the chain keeps something under. -/
def keys (x : Chain (GraphQlBlocks Num)) : Set String :=
  x.httpKeys c.hashKey ∪ x.graphqlKeys c ∪ {k | k ∈ x.endpointKeys}

/-- The chain, as an API and a version of it. -/
def id (x : Chain B) : String × Option String := (x.def_.apiId, x.version)

/-- A GraphQL cache is configured, on a layer that is built. -/
def graphqlCached (x : Chain B) : Bool := x.def_.graphql.any fun g => g.enabled && g.cache.isSome

/-- The two chains keep a kind of key in common; GraphQL entries under a schema that both may have. -/
def SharesKind (x y : Chain (GraphQlBlocks Num)) : Prop :=
  (x.def_.cache.isSome ∧ y.def_.cache.isSome) ∨
    (x.graphqlCached ∧ y.graphqlCached ∧ ∃ sdl, x.Holds c sdl ∧ y.Holds c sdl) ∨
    (x.def_.endpointRateLimits ≠ [] ∧ y.def_.endpointRateLimits ≠ [])

end Keys

end Chain

theorem Chain.SharesKind.symm {c : SchemaCrates Num Sch} {x y : Chain (GraphQlBlocks Num)} (h : x.SharesKind c y) :
    y.SharesKind c x := by
  rcases h with ⟨hx, hy⟩ | ⟨hx, hy, sdl, hsdlx, hsdly⟩ | ⟨hx, hy⟩
  · exact .inl ⟨hy, hx⟩
  · exact .inr (.inl ⟨hy, hx, sdl, hsdly, hsdlx⟩)
  · exact .inr (.inr ⟨hy, hx⟩)

/-- APIs of one organization, each with an id of its own. -/
structure Deployment (c : Crates B) where
  orgId : String
  defs : List (ApiDefinition B)
  valid : ∀ d ∈ defs, d.validate c = .ok ()
  distinct : (defs.map (·.apiId)).Nodup
  oneOrg : ∀ d ∈ defs, d.orgId = orgId

/-- The chains of its routes. -/
def Deployment.chains {c : Crates B} (D : Deployment c) : List (Chain B) := D.defs.flatMap Route.build

/-- What is assumed of `hash_key`, the SHA-256 in hexadecimal. -/
structure KeyHash (hashKey : String → String) : Prop where
  injective : Function.Injective hashKey
  hex : ∀ s, ∀ ch ∈ (hashKey s).toList, ('0' ≤ ch ∧ ch ≤ '9') ∨ ('a' ≤ ch ∧ ch ≤ 'f')

/-- Distinct chains share no key, and no HTTP entry is a GraphQL entry. -/
def Isolated {k : Crates (GraphQlBlocks Num)} (c : SchemaCrates Num Sch) (D : Deployment k) : Prop :=
  ∀ x ∈ D.chains, ∀ y ∈ D.chains,
    (x.id ≠ y.id → Disjoint (x.keys c) (y.keys c)) ∧ Disjoint (x.httpKeys c.hashKey) (y.graphqlKeys c)

/-! ### What a key determines -/

section Keys

variable {orgId s s' d d' : String}

/-- A cache key determines its scope and its digest, if the digest has no colon. -/
theorem cacheKey_inj (hd : ':' ∉ d.toList) (hd' : ':' ∉ d'.toList)
    (h : responseCacheKeyPrefix orgId s ++ d = responseCacheKeyPrefix orgId s' ++ d') : s = s' ∧ d = d' := by
  have hlist : ("g2:" ++ orgId ++ ":cache:" ++ s).toList ++ ':' :: d.toList =
      ("g2:" ++ orgId ++ ":cache:" ++ s').toList ++ ':' :: d'.toList := by
    simpa [responseCacheKeyPrefix] using congrArg String.toList h
  obtain ⟨hs, hdd⟩ := Text.append_cons_inj_of_not_mem_right hd hd' hlist
  exact ⟨String.append_right_inj _ |>.1 (String.toList_injective hs), String.toList_injective hdd⟩

theorem colon_not_mem_toString (n : ℕ) : ':' ∉ (toString n).toList := by
  intro h
  rw [Nat.toString_eq_repr, Nat.toList_repr] at h
  have hdigit : (':').isDigit = true := Nat.isDigit_of_mem_toDigits (by decide) (by decide) h
  exact absurd hdigit (by decide)

/-- An endpoint key determines its scope. -/
theorem endpointKey_inj {i j : ℕ}
    (h : endpointRateLimitStorageKey orgId s i = endpointRateLimitStorageKey orgId s' j) : s = s' := by
  have hlist : ("g2:" ++ orgId ++ ":endpointrl:" ++ s).toList ++ ':' :: (toString i).toList =
      ("g2:" ++ orgId ++ ":endpointrl:" ++ s').toList ++ ':' :: (toString j).toList := by
    simpa [endpointRateLimitStorageKey] using congrArg String.toList h
  obtain ⟨hs, -⟩ := Text.append_cons_inj_of_not_mem_right (colon_not_mem_toString i) (colon_not_mem_toString j) hlist
  exact String.append_right_inj _ |>.1 (String.toList_injective hs)

/-- The two families of keys part after the organization. -/
theorem cacheKey_ne_endpointKey {i : ℕ} :
    responseCacheKeyPrefix orgId s ++ d ≠ endpointRateLimitStorageKey orgId s' i := by
  intro h
  have hlist := congrArg String.toList h
  simp [responseCacheKeyPrefix, endpointRateLimitStorageKey] at hlist

end Keys

section Hash

variable {hashKey : String → String} (hhash : KeyHash hashKey)

include hhash in
theorem KeyHash.colon_not_mem (s : String) : ':' ∉ (hashKey s).toList := by
  intro h
  exact absurd (hhash.hex s _ h) (by decide)

include hhash in
/-- The text an HTTP entry is hashed from begins with the method's capital; that of a GraphQL entry
with a digest. -/
theorem KeyHash.cacheText_ne_keyText {method target sdl query variablesText : String} {name : Option String}
    (hsafe : isSafeMethod method) :
    cacheText method target ≠ keyText (hashKey sdl) name query variablesText := by
  intro h
  have hhead := congrArg (fun t => t.toList.head?) h
  have hmethod : (cacheText method target).toList.head? ∈ [some 'G', some 'H', some 'O'] := by
    simp only [isSafeMethod, Bool.or_eq_true, decide_eq_true_eq] at hsafe
    rcases hsafe with (rfl | rfl) | rfl
    · simp [cacheText]
    · simp [cacheText]
    · simp [cacheText]
  rw [show (cacheText method target).toList.head? = _ from hhead] at hmethod
  cases hchars : (hashKey sdl).toList with
  | nil => simp [keyText, hchars] at hmethod
  | cons ch rest =>
    have hhex := hhash.hex sdl ch (by rw [hchars]; exact List.mem_cons_self ..)
    simp only [keyText, String.toList_append, hchars, List.cons_append, List.head?_cons, List.mem_cons,
      Option.some.injEq, List.not_mem_nil, or_false] at hmethod
    rcases hmethod with rfl | rfl | rfl
    · exact absurd hhex (by decide)
    · exact absurd hhex (by decide)
    · exact absurd hhex (by decide)

include hhash in
/-- The text a GraphQL entry is hashed from begins with the digest of its schema, in a line of its own. -/
theorem KeyHash.sdl_eq_of_keyText {sdl sdl' query query' vars vars' : String} {name name' : Option String}
    (h : keyText (hashKey sdl) name query vars = keyText (hashKey sdl') name' query' vars') : sdl = sdl' := by
  have hnewline (s : String) : '\n' ∉ (hashKey s).toList := fun hmem => absurd (hhash.hex s _ hmem) (by decide)
  have hlist := congrArg String.toList h
  simp only [keyText, String.toList_append, List.append_assoc] at hlist
  obtain ⟨hdigest, -⟩ := Text.append_cons_inj_of_not_mem (hnewline sdl) (hnewline sdl') hlist
  exact hhash.injective (String.toList_injective hdigest)

end Hash

/-! ### The keys of a chain -/

section Schemas

variable {c : SchemaCrates Num Sch} {x : Chain (GraphQlBlocks Num)} {shared : Shared Num} {s : SchemaState Sch}

/-- The cache of a layer has the prefix of its chain, and a schema's hash is that of its SDL. -/
theorem Chain.Active.keys (h : x.Active c shared s) :
    shared.cachePrefix = x.graphqlCachePrefix ∧ s.sdlHash = c.hashKey s.sdl := by
  induction h with
  | first hlayer =>
    unfold layer at hlayer
    unfold graphqlCachePrefix
    cases hgraphql : x.def_.graphql with
    | none => simp [hgraphql] at hlayer
    | some config =>
      simp only [hgraphql, Option.elim_some, fromConfig] at hlayer
      cases henabled : config.enabled with
      | false => simp [henabled] at hlayer
      | true =>
        simp only [henabled, if_true, mapError_eq_ok, bind_eq_ok, pure_eq_ok] at hlayer
        obtain ⟨_, -, _, -, _, -, keyPrefix, hprefix, heq⟩ := hlayer
        obtain ⟨rfl, rfl⟩ := Prod.mk.inj (Option.some.inj heq)
        refine ⟨?_, rfl⟩
        cases hcache : config.cache with
        | none => simp_all [cacheFromConfig]
        | some cache => simp_all [cacheFromConfig]
  | synced hactive _ hswap ih => exact ⟨ih.1, (coherent_of_applyIntrospection hswap).1.sdlHash⟩

/-- Without `schema_sync` a layer has one schema. -/
theorem Chain.holds_iff_of_static {initial : SchemaState Sch} {sdl : String}
    (hlayer : x.layer c = .ok (some (shared, initial))) (hstatic : shared.sync = false) :
    x.Holds c sdl ↔ sdl = initial.sdl := by
  have hunique : ∀ {shared' : Shared Num} {s : SchemaState Sch}, x.Active c shared' s →
      shared' = shared ∧ s = initial := by
    intro shared' s h
    induction h with
    | first hfirst =>
      obtain ⟨rfl, rfl⟩ := Prod.mk.inj (Option.some.inj (Except.ok.inj (hfirst.symm.trans hlayer)))
      exact ⟨rfl, rfl⟩
    | synced _ hsync _ ih =>
      rw [ih.1, hstatic] at hsync
      cases hsync
  constructor
  · rintro ⟨shared', s, hactive, rfl⟩
    rw [(hunique hactive).2]
  · rintro rfl
    exact ⟨shared, initial, .first hlayer, rfl⟩

/-- The layer of a proxied API has the schema that is configured, and without `schema_sync` no other. -/
theorem Chain.holds_iff_of_proxy {config : GraphQlConfig (GraphQlBlocks Num)} {sdl : String}
    (hlayer : ∃ built, x.layer c = .ok (some built)) (hgraphql : x.def_.graphql = some config)
    (hproxy : config.executionMode = .proxy) (hstatic : config.blocks.schemaSync = false) :
    x.Holds c sdl ↔ sdl = config.blocks.schema := by
  obtain ⟨⟨shared, initial⟩, hlayer⟩ := hlayer
  have hbuilt := hlayer
  simp only [layer, hgraphql, Option.elim_some, fromConfig] at hbuilt
  cases henabled : config.enabled with
  | false => simp [henabled] at hbuilt
  | true =>
    simp only [henabled, if_true, effectiveSchema, hproxy, mapError_eq_ok, bind_eq_ok, pure_eq_ok] at hbuilt
    obtain ⟨_, ⟨_, -, rfl⟩, _, -, _, -, _, -, heq⟩ := hbuilt
    obtain ⟨rfl, rfl⟩ := Prod.mk.inj (Option.some.inj heq)
    exact holds_iff_of_static hlayer hstatic

end Schemas

section Chains

variable {c : SchemaCrates Num Sch} {x y : Chain (GraphQlBlocks Num)} {k : String}

theorem Chain.mem_httpKeys_iff {hashKey : String → String} {x : Chain B} : k ∈ x.httpKeys hashKey ↔ x.def_.cache.isSome ∧ ∃ method target,
    isSafeMethod method ∧
      k = responseCacheKeyPrefix x.def_.orgId x.scope ++ hashKey (cacheText method target) := by
  simp only [httpKeys, cachePrefix, Set.mem_ofPred_eq, Option.map_eq_some_iff, Option.isSome_iff_exists]
  constructor
  · rintro ⟨_, method, target, ⟨cache, hcache, rfl⟩, hsafe, hk⟩
    exact ⟨⟨cache, hcache⟩, method, target, hsafe, hk⟩
  · rintro ⟨⟨cache, hcache⟩, method, target, hsafe, hk⟩
    exact ⟨_, method, target, ⟨cache, hcache, rfl⟩, hsafe, hk⟩

theorem Chain.graphqlCachePrefix_eq_some_iff {x : Chain B} {keyPrefix : String} : x.graphqlCachePrefix = some keyPrefix ↔
    x.graphqlCached ∧ keyPrefix = responseCacheKeyPrefix x.def_.orgId (x.scope ++ ":graphql") := by
  unfold graphqlCachePrefix graphqlCached
  cases x.def_.graphql with
  | none => simp
  | some g =>
    cases henabled : g.enabled with
    | false => simp [henabled]
    | true =>
      cases hcache : g.cache with
      | none => simp [hcache]
      | some cache => simp [henabled, hcache, eq_comm]

theorem Chain.mem_graphqlKeys_iff : k ∈ x.graphqlKeys c ↔ x.graphqlCached ∧ ∃ sdl, x.Holds c sdl ∧
    ∃ operationName query variablesText, k = responseCacheKeyPrefix x.def_.orgId (x.scope ++ ":graphql") ++
      c.hashKey (keyText (c.hashKey sdl) operationName query variablesText) := by
  simp only [graphqlKeys, Set.mem_ofPred_eq]
  constructor
  · rintro ⟨shared, s, keyPrefix, name, query, vars, hactive, hprefix, rfl⟩
    obtain ⟨hcache, hsdl⟩ := hactive.keys
    obtain ⟨hcached, rfl⟩ := graphqlCachePrefix_eq_some_iff.1 (hcache ▸ hprefix)
    exact ⟨hcached, s.sdl, ⟨shared, s, hactive, rfl⟩, name, query, vars, by rw [hsdl]⟩
  · rintro ⟨hcached, _, ⟨shared, s, hactive, rfl⟩, name, query, vars, rfl⟩
    obtain ⟨hcache, hsdl⟩ := hactive.keys
    exact ⟨shared, s, _, name, query, vars, hactive, hcache ▸ graphqlCachePrefix_eq_some_iff.2 ⟨hcached, rfl⟩,
      by rw [hsdl]⟩

theorem Chain.mem_endpointKeys_iff : k ∈ x.endpointKeys ↔ ∃ i < x.def_.endpointRateLimits.length,
    k = endpointRateLimitStorageKey x.def_.orgId x.scope i := by
  simp only [endpointKeys, List.mem_map, Prod.exists]
  constructor
  · rintro ⟨rule, i, hmem, rfl⟩
    exact ⟨i, by simpa using (List.mem_zipIdx hmem).2.1, rfl⟩
  · rintro ⟨i, hi, rfl⟩
    exact ⟨x.def_.endpointRateLimits[i], i, List.mk_mem_zipIdx_iff_getElem?.2 (List.getElem?_eq_getElem hi), rfl⟩

/-- No HTTP entry is a GraphQL entry, even where a scope ends in `:graphql`. -/
theorem httpKeys_disjoint_graphqlKeys (hhash : KeyHash c.hashKey) (horg : x.def_.orgId = y.def_.orgId) :
    Disjoint (x.httpKeys c.hashKey) (y.graphqlKeys c) := by
  rw [Set.disjoint_left]
  intro k hx hy
  obtain ⟨-, method, target, hsafe, hk⟩ := Chain.mem_httpKeys_iff.1 hx
  obtain ⟨-, sdl, -, name, query, vars, hk'⟩ := Chain.mem_graphqlKeys_iff.1 hy
  rw [hk, horg] at hk'
  obtain ⟨-, hdigest⟩ := cacheKey_inj (hhash.colon_not_mem _) (hhash.colon_not_mem _) hk'
  exact hhash.cacheText_ne_keyText hsafe (hhash.injective hdigest)

/-- No entry of a cache is a counter. -/
theorem not_mem_endpointKeys_of_cache (horg : x.def_.orgId = y.def_.orgId)
    (hx : k ∈ x.httpKeys c.hashKey ∪ x.graphqlKeys c) : k ∉ y.endpointKeys := by
  intro hy
  obtain ⟨i, -, hk⟩ := Chain.mem_endpointKeys_iff.1 hy
  rw [← horg] at hk
  rcases hx with hx | hx
  · obtain ⟨-, method, target, -, rfl⟩ := Chain.mem_httpKeys_iff.1 hx
    exact cacheKey_ne_endpointKey hk
  · obtain ⟨-, sdl, -, name, query, vars, rfl⟩ := Chain.mem_graphqlKeys_iff.1 hx
    exact cacheKey_ne_endpointKey hk

theorem scope_eq_of_httpKeys (hhash : KeyHash c.hashKey) (horg : x.def_.orgId = y.def_.orgId)
    (hx : k ∈ x.httpKeys c.hashKey) (hy : k ∈ y.httpKeys c.hashKey) : x.scope = y.scope ∧ x.SharesKind c y := by
  obtain ⟨hcx, method, target, -, rfl⟩ := Chain.mem_httpKeys_iff.1 hx
  obtain ⟨hcy, method', target', -, hk⟩ := Chain.mem_httpKeys_iff.1 hy
  rw [horg] at hk
  obtain ⟨hscope, -⟩ := cacheKey_inj (hhash.colon_not_mem _) (hhash.colon_not_mem _) hk
  exact ⟨hscope, .inl ⟨hcx, hcy⟩⟩

theorem scope_eq_of_graphqlKeys (hhash : KeyHash c.hashKey) (horg : x.def_.orgId = y.def_.orgId)
    (hx : k ∈ x.graphqlKeys c) (hy : k ∈ y.graphqlKeys c) : x.scope = y.scope ∧ x.SharesKind c y := by
  obtain ⟨hcx, sdl, hsdl, name, query, vars, rfl⟩ := Chain.mem_graphqlKeys_iff.1 hx
  obtain ⟨hcy, sdl', hsdl', name', query', vars', hk⟩ := Chain.mem_graphqlKeys_iff.1 hy
  rw [horg] at hk
  obtain ⟨hscope, hdigest⟩ := cacheKey_inj (hhash.colon_not_mem _) (hhash.colon_not_mem _) hk
  have hsame : sdl = sdl' := hhash.sdl_eq_of_keyText (hhash.injective hdigest)
  exact ⟨String.append_left_inj _ |>.1 hscope, .inr (.inl ⟨hcx, hcy, sdl, hsdl, hsame ▸ hsdl'⟩)⟩

theorem scope_eq_of_endpointKeys (horg : x.def_.orgId = y.def_.orgId)
    (hx : k ∈ x.endpointKeys) (hy : k ∈ y.endpointKeys) : x.scope = y.scope ∧ x.SharesKind c y := by
  obtain ⟨i, hi, rfl⟩ := Chain.mem_endpointKeys_iff.1 hx
  obtain ⟨j, hj, hk⟩ := Chain.mem_endpointKeys_iff.1 hy
  rw [horg] at hk
  refine ⟨endpointKey_inj hk, .inr (.inr ⟨?_, ?_⟩)⟩
  · exact List.length_pos_iff.1 (Nat.zero_lt_of_lt hi)
  · exact List.length_pos_iff.1 (Nat.zero_lt_of_lt hj)

/-- A key of both is of the same kind in both, and gives the scope. -/
theorem shares_of_mem_keys (hhash : KeyHash c.hashKey) (horg : x.def_.orgId = y.def_.orgId)
    (hx : k ∈ x.keys c) (hy : k ∈ y.keys c) : x.scope = y.scope ∧ x.SharesKind c y := by
  rcases hx with hx | hx
  · rcases hy with hy | hy
    · rcases hx with hx | hx
      · rcases hy with hy | hy
        · exact scope_eq_of_httpKeys hhash horg hx hy
        · exact absurd hy (Set.disjoint_left.1 (httpKeys_disjoint_graphqlKeys hhash horg) hx)
      · rcases hy with hy | hy
        · exact absurd hx (Set.disjoint_left.1 (httpKeys_disjoint_graphqlKeys hhash horg.symm) hy)
        · exact scope_eq_of_graphqlKeys hhash horg hx hy
    · exact absurd hy (not_mem_endpointKeys_of_cache horg hx)
  · rcases hy with hy | hy
    · exact absurd hx (not_mem_endpointKeys_of_cache horg.symm hy)
    · exact scope_eq_of_endpointKeys horg hx hy

/-- A scope and a kind in common give a key of both. -/
theorem mem_keys_of_shares (horg : x.def_.orgId = y.def_.orgId) (hscope : x.scope = y.scope)
    (hkind : x.SharesKind c y) : ∃ k, k ∈ x.keys c ∧ k ∈ y.keys c := by
  rcases hkind with ⟨hx, hy⟩ | ⟨hx, hy, sdl, hsdlx, hsdly⟩ | ⟨hx, hy⟩
  · refine ⟨_, .inl (.inl (Chain.mem_httpKeys_iff.2 ⟨hx, "GET", "/", rfl, rfl⟩)),
      .inl (.inl (Chain.mem_httpKeys_iff.2 ⟨hy, "GET", "/", rfl, ?_⟩))⟩
    rw [horg, hscope]
  · refine ⟨_, .inl (.inr (Chain.mem_graphqlKeys_iff.2 ⟨hx, sdl, hsdlx, none, "\x7b__typename\x7d", "", rfl⟩)),
      .inl (.inr (Chain.mem_graphqlKeys_iff.2 ⟨hy, sdl, hsdly, none, "\x7b__typename\x7d", "", ?_⟩))⟩
    rw [horg, hscope]
  · refine ⟨_, .inr (Chain.mem_endpointKeys_iff.2 ⟨0, List.length_pos_iff.2 hx, rfl⟩),
      .inr (Chain.mem_endpointKeys_iff.2 ⟨0, List.length_pos_iff.2 hy, ?_⟩)⟩
    rw [horg, hscope]

/-- Two chains of one organization have a key in common if and only if they have a scope and a kind
of key in common. -/
theorem disjoint_keys_iff (hhash : KeyHash c.hashKey) (horg : x.def_.orgId = y.def_.orgId) :
    Disjoint (x.keys c) (y.keys c) ↔ ¬ (x.scope = y.scope ∧ x.SharesKind c y) := by
  constructor
  · rintro hdisjoint ⟨hscope, hkind⟩
    obtain ⟨k, hx, hy⟩ := mem_keys_of_shares horg hscope hkind
    exact Set.disjoint_left.1 hdisjoint hx hy
  · intro hshares
    rw [Set.disjoint_left]
    intro k hx hy
    exact hshares (shares_of_mem_keys hhash horg hx hy)

end Chains

/-! ### Deployments -/

section Deployments

variable {k : Crates B} {D : Deployment k} {x y : Chain B}

/-- What a chain of a route is: its definition is of the API and the organization, and its scope is
the API's id and the version. -/
theorem Route.mem_build {def_ : ApiDefinition B} (h : x ∈ Route.build def_) :
    x.def_.apiId = def_.apiId ∧ x.def_.orgId = def_.orgId ∧
      x.scope = def_.apiId ++ (x.version.map (":" ++ ·)).getD "" := by
  unfold Route.build at h
  cases hv : def_.versioning with
  | none =>
    rw [hv] at h
    obtain rfl := List.mem_singleton.1 h
    exact ⟨rfl, rfl, by simp⟩
  | some v =>
    simp only [hv, List.mem_filterMap, Route.versionChain, VersioningConfig.apply, Option.map_map,
      Option.map_eq_some_iff] at h
    obtain ⟨p, -, o, -, rfl⟩ := h
    refine ⟨rfl, rfl, ?_⟩
    simp [VersioningConfig.override, String.append_assoc]

theorem Deployment.orgId_of_mem_chains (h : x ∈ D.chains) : x.def_.orgId = D.orgId := by
  obtain ⟨d, hd, hx⟩ := List.mem_flatMap.1 h
  obtain ⟨-, horg, -⟩ := Route.mem_build hx
  rw [horg, D.oneOrg d hd]

theorem Deployment.scope_of_mem_chains (h : x ∈ D.chains) :
    x.scope = x.def_.apiId ++ (x.version.map (":" ++ ·)).getD "" := by
  obtain ⟨d, -, hx⟩ := List.mem_flatMap.1 h
  obtain ⟨hid, -, hscope⟩ := Route.mem_build hx
  rw [hscope, hid]

theorem Deployment.orgId_eq (hx : x ∈ D.chains) (hy : y ∈ D.chains) : x.def_.orgId = y.def_.orgId :=
  (orgId_of_mem_chains hx).trans (orgId_of_mem_chains hy).symm

/-- Scopes of ids without a colon tell the API and the version. -/
theorem id_eq_of_scope_eq (hx : x ∈ D.chains) (hy : y ∈ D.chains) (hcx : ':' ∉ x.def_.apiId.toList)
    (hcy : ':' ∉ y.def_.apiId.toList) (h : x.scope = y.scope) : x.id = y.id := by
  rw [Deployment.scope_of_mem_chains hx, Deployment.scope_of_mem_chains hy] at h
  have hlist := congrArg String.toList h
  simp only [String.toList_append] at hlist
  cases hvx : x.version with
  | none =>
    cases hvy : y.version with
    | none =>
      have hid : x.def_.apiId = y.def_.apiId := by simpa [hvx, hvy] using h
      simp [Chain.id, hvx, hvy, hid]
    | some name => exact absurd (by simp [hvx, hvy] at hlist; simp [hlist]) hcx
  | some name =>
    cases hvy : y.version with
    | none => exact absurd (by simp [hvx, hvy] at hlist; simp [← hlist]) hcy
    | some name' =>
      simp only [hvx, hvy, Option.map_some, Option.getD_some, String.toList_append] at hlist
      obtain ⟨hid, hname⟩ := Text.append_cons_inj_of_not_mem hcx hcy hlist
      simp [Chain.id, hvx, hvy, String.toList_injective hid, String.toList_injective hname]

section Isolation

variable {k : Crates (GraphQlBlocks Num)} {c : SchemaCrates Num Sch} {D : Deployment k}

/-- Chains that share no scope, or no kind, are isolated. -/
theorem isolated_of_not_shares (hhash : KeyHash c.hashKey)
    (h : ∀ x ∈ D.chains, ∀ y ∈ D.chains, x.id ≠ y.id → ¬ (x.scope = y.scope ∧ x.SharesKind c y)) :
    Isolated c D := by
  intro x hx y hy
  have horg := Deployment.orgId_eq hx hy
  refine ⟨fun hne => ?_, httpKeys_disjoint_graphqlKeys hhash horg⟩
  rw [disjoint_keys_iff hhash horg]
  exact h x hx y hy hne

/-- Ids without a colon keep a deployment isolated. -/
theorem isolated_of_no_colon (hhash : KeyHash c.hashKey) (hcolon : ∀ d ∈ D.defs, ':' ∉ d.apiId.toList) :
    Isolated c D := by
  have hchain : ∀ x ∈ D.chains, ':' ∉ x.def_.apiId.toList := by
    intro x hx
    obtain ⟨d, hd, hx⟩ := List.mem_flatMap.1 hx
    rw [(Route.mem_build hx).1]
    exact hcolon d hd
  apply isolated_of_not_shares hhash
  rintro x hx y hy hne ⟨hscope, -⟩
  exact hne (id_eq_of_scope_eq hx hy (hchain x hx) (hchain y hy) hscope)

/-- **Scope isolation.** The chains of a deployment have key spaces of their own if and only if no two
of them have the same scope and keep the same kind of key. -/
theorem isolated_iff (hhash : KeyHash c.hashKey) (D : Deployment k) :
    Isolated c D ↔
      ∀ x ∈ D.chains, ∀ y ∈ D.chains, x.id ≠ y.id → ¬ (x.scope = y.scope ∧ x.SharesKind c y) := by
  constructor
  · intro h x hx y hy hne
    rw [← disjoint_keys_iff hhash (Deployment.orgId_eq hx hy)]
    exact (h x hx y hy).1 hne
  · exact isolated_of_not_shares hhash

end Isolation

end Deployments

/-! ### A digest -/

/-- A text of a digest's characters that tells every text: the code of each character in unary, closed by a `b`. -/
def unaryDigest (s : String) : String :=
  String.ofList (s.toList.flatMap fun ch => List.replicate ch.toNat 'a' ++ ['b'])

theorem unaryDigest_injective : Function.Injective unaryDigest := by
  intro s t h
  have hlist : s.toList.flatMap (fun ch => List.replicate ch.toNat 'a' ++ ['b']) =
      t.toList.flatMap fun ch => List.replicate ch.toNat 'a' ++ ['b'] := by
    simpa [unaryDigest] using congrArg String.toList h
  apply String.toList_injective
  generalize s.toList = l at hlist
  generalize t.toList = m at hlist
  induction l generalizing m with
  | nil => cases m with
    | nil => rfl
    | cons ch m => simp at hlist
  | cons ch l ih => cases m with
    | nil => simp at hlist
    | cons ch' m =>
      simp only [List.flatMap_cons, List.append_assoc, List.singleton_append] at hlist
      have hnot (n : ℕ) : 'b' ∉ List.replicate n 'a' := by simp
      obtain ⟨hch, hrest⟩ := Text.append_cons_inj_of_not_mem (hnot _) (hnot _) hlist
      have hnat : ch.toNat = ch'.toNat := by simpa using congrArg List.length hch
      rw [Char.toNat_inj.1 hnat, ih m hrest]

theorem mem_unaryDigest {s : String} {ch : Char} (h : ch ∈ (unaryDigest s).toList) : ch = 'a' ∨ ch = 'b' := by
  simp only [unaryDigest, String.toList_ofList, List.mem_flatMap, List.mem_append, List.mem_replicate,
    List.mem_singleton] at h
  obtain ⟨-, -, ⟨-, h⟩ | h⟩ := h
  · exact .inl h
  · exact .inr h

/-- SHA-256 on the texts whose digests are given, and a digest that nothing else has on the others. -/
def sampleDigest (known : List (String × String)) (s : String) : String := (known.lookup s).getD (unaryDigest s)

/-- A hexadecimal text with a digit, which no other digest has. -/
structure HexDigest (s : String) : Prop where
  hex : ∀ ch ∈ s.toList, ('0' ≤ ch ∧ ch ≤ '9') ∨ ('a' ≤ ch ∧ ch ≤ 'f')
  digit : s.toList.any Char.isDigit = true

theorem hexDigest_ofList {l : List Char} (hex : l.all (fun ch => ('0' ≤ ch ∧ ch ≤ '9') ∨ ('a' ≤ ch ∧ ch ≤ 'f')) = true)
    (digit : l.any Char.isDigit = true) : HexDigest (String.ofList l) where
  hex := Text.forall_mem_ofList hex
  digit := by rw [String.toList_ofList, digit]

/-- The digests that are given, of distinct texts. -/
structure KnownDigests (known : List (String × String)) : Prop where
  distinct : (known.map Prod.snd).Nodup
  digests : ∀ p ∈ known, HexDigest p.2

theorem sampleDigest_keyHash {known : List (String × String)} (h : KnownDigests known) :
    KeyHash (sampleDigest known) where
  injective := by
    have hapart : ∀ {s t d : String}, known.lookup s = some d → d ≠ unaryDigest t := by
      rintro s t d hs rfl
      obtain ⟨ch, hch, hdigit⟩ := List.any_eq_true.1 (h.digests _ (Assoc.mem_of_lookup hs)).digit
      rcases mem_unaryDigest hch with rfl | rfl
      · exact absurd hdigit (by decide)
      · exact absurd hdigit (by decide)
    intro s t hst
    simp only [sampleDigest] at hst
    cases hs : known.lookup s with
    | none =>
      cases ht : known.lookup t with
      | none => exact unaryDigest_injective (by simpa [hs, ht] using hst)
      | some d => exact absurd (by simpa [hs, ht] using hst.symm) (hapart (t := s) ht)
    | some d =>
      cases ht : known.lookup t with
      | none => exact absurd (by simpa [hs, ht] using hst) (hapart (t := t) hs)
      | some d' =>
        obtain rfl : d = d' := by simpa [hs, ht] using hst
        exact congrArg Prod.fst
          (List.inj_on_of_nodup_map h.distinct (Assoc.mem_of_lookup hs) (Assoc.mem_of_lookup ht) rfl)
  hex := by
    intro s ch hch
    simp only [sampleDigest] at hch
    cases hs : known.lookup s with
    | none =>
      rw [hs, Option.getD_none] at hch
      rcases mem_unaryDigest hch with rfl | rfl
      · decide
      · decide
    | some d =>
      rw [hs, Option.getD_some] at hch
      exact (h.digests _ (Assoc.mem_of_lookup hs)).hex ch hch

/-! ### A colon in an id -/

/-- Crates that know one URL; the definitions have no further blocks. -/
def plainCrates {B : Type} : Crates B where
  parseUri url := if url = "http://up.internal" then .ok ⟨some "http", some "up.internal"⟩ else .error "empty host"
  compileRegex _ := .ok ()
  blocks _ := .ok ()
  graphqlBlocks _ _ _ := .ok false

/-- Two schemas. -/
def helloSdl : String := "type Query \x7b hello: String \x7d"
def byeSdl : String := "type Query \x7b bye: String \x7d"

/-- The digests of the two, and of what an entry for `{__typename}` is keyed by under the first. -/
def sdlDigests : List (String × String) :=
  [(helloSdl, "94f327bbff58c40247c85a8e0691dcaf26b906285e7f5c031b3ee229c89fe676"),
   (byeSdl, "be74e10a9ab4bea1a5eba73f66d4a6af3d6023099e315c94514e12d8c8bd5483"),
   ("94f327bbff58c40247c85a8e0691dcaf26b906285e7f5c031b3ee229c89fe676\n\n\x7b__typename\x7d\n", "a840cb82481df7049cd89dce90fce30a1157f28d7fba868df02de22dbd8a42d6")]

theorem sdlDigests_known : KnownDigests sdlDigests where
  distinct := by decide +kernel
  digests := by
    rw [sdlDigests, List.forall_mem_cons, List.forall_mem_cons, List.forall_mem_singleton]
    exact ⟨hexDigest_ofList rfl rfl, hexDigest_ofList rfl rfl, hexDigest_ofList rfl rfl⟩

/-- Crates that compile the two. -/
def sdlCrates : SchemaCrates ℕ Unit where
  serde := ⟨fun _ => none, fun _ => none, fun n => toString n, fun _ => "expected value at line 1 column 1"⟩
  describeValue _ := ""
  describeText _ := ""
  parse _ := .error ["unexpected"]
  compile sdl := if sdl = helloSdl ∨ sdl = byeSdl then .ok () else .error ["unexpected"]
  validate _ _ := .error ["no such field"]
  hashKey := sampleDigest sdlDigests
  regex _ := .error "unexpected"
  parseUri _ := .ok ()
  parseSubgraphSchema _ := .error "unexpected"
  print _ := ""
  compileUdg _ := .ok ()
  compileSupergraph _ := .ok ()

/-- A proxied GraphQL API with this id and this schema, and a response cache. -/
def cachedApi (apiId schema : String) : ApiDefinition (GraphQlBlocks ℕ) where
  apiId := apiId
  name := apiId
  listenPath := "/" ++ apiId ++ "/"
  targetUrl := "http://up.internal"
  graphql := some { cache := some {}, blocks := { schema } }
  blocks := { schema }

/-- An API `a:b` beside the API `a` with a version `b`. -/
def besideVersioned (schema : String) : List (ApiDefinition (GraphQlBlocks ℕ)) :=
  [cachedApi "a:b" schema,
   { cachedApi "a" helloSdl with versioning := some ⟨.header, "x-version", none, [("b", {})], by simp⟩ }]

/-- The chains of the two: the version's effective definition is its base without the versions. -/
theorem build_besideVersioned (schema : String) : (besideVersioned schema).flatMap Route.build =
    [⟨cachedApi "a:b" schema, none, "a:b"⟩, ⟨cachedApi "a" helloSdl, some "b", "a:b"⟩] := rfl

/-- The two pass validation. -/
theorem valid_besideVersioned {schema : String} (hschema : schema = helloSdl ∨ schema = byeSdl) :
    ∀ d ∈ besideVersioned schema, d.validate plainCrates = .ok () := by
  intro d hd
  obtain rfl | rfl : d = _ ∨ d = _ := by simpa [besideVersioned] using hd
  · rcases hschema with rfl | rfl
    · rfl
    · rfl
  · rfl

/-- The two as a deployment. -/
def colonDeployment (schema : String) (hschema : schema = helloSdl ∨ schema = byeSdl) :
    Deployment (plainCrates : Crates (GraphQlBlocks ℕ)) where
  orgId := "default"
  defs := besideVersioned schema
  valid := valid_besideVersioned hschema
  distinct := by simp [besideVersioned, cachedApi]
  oneOrg := by simp [besideVersioned, cachedApi]

/-- The layer of such an API has its schema, and no other. -/
theorem holds_cachedApi {apiId schema sdl scope : String} {version : Option String}
    (hschema : schema = helloSdl ∨ schema = byeSdl) :
    (⟨cachedApi apiId schema, version, scope⟩ : Chain (GraphQlBlocks ℕ)).Holds sdlCrates sdl ↔ sdl = schema := by
  have hcompile : sdlCrates.compile schema = .ok () := if_pos hschema
  have hgraphql : (cachedApi apiId schema).graphql = some { cache := some {}, blocks := { schema } } := rfl
  have hlayer : ∃ built, (⟨cachedApi apiId schema, version, scope⟩ : Chain (GraphQlBlocks ℕ)).layer sdlCrates =
      .ok (some built) := by
    simp only [Chain.layer, hgraphql, Option.elim_some, fromConfig, effectiveSchema, parseSchema, hcompile]
    exact ⟨_, rfl⟩
  exact Chain.holds_iff_of_proxy hlayer hgraphql rfl rfl

/-- The two APIs pass validation, and with one schema they share the keys of their GraphQL caches. -/
theorem colon_in_id_shares_keys : KeyHash sdlCrates.hashKey ∧ ¬ Isolated sdlCrates (colonDeployment helloSdl (.inl rfl)) := by
  refine ⟨sampleDigest_keyHash sdlDigests_known, fun h => ?_⟩
  have hx : (⟨cachedApi "a:b" helloSdl, none, "a:b"⟩ : Chain (GraphQlBlocks ℕ)) ∈ (colonDeployment helloSdl (.inl rfl)).chains :=
    .head _
  have hy : (⟨cachedApi "a" helloSdl, some "b", "a:b"⟩ : Chain (GraphQlBlocks ℕ)) ∈ (colonDeployment helloSdl (.inl rfl)).chains :=
    .tail _ (.head _)
  obtain ⟨hdisjoint, -⟩ := h _ hx _ hy
  obtain ⟨k, hkx, hky⟩ := mem_keys_of_shares (c := sdlCrates) (Deployment.orgId_eq hx hy) rfl
    (.inr (.inl ⟨rfl, rfl, helloSdl, (holds_cachedApi (.inl rfl)).2 rfl, (holds_cachedApi (.inl rfl)).2 rfl⟩))
  exact Set.disjoint_left.1 (hdisjoint (by simp [Chain.id])) hkx hky

/-- With two schemas they share none, though their scopes are one text. -/
theorem isolated_iff_schemas : Isolated sdlCrates (colonDeployment byeSdl (.inr rfl)) := by
  rw [isolated_iff (sampleDigest_keyHash sdlDigests_known)]
  intro x hx y hy hne
  have hchains : (colonDeployment byeSdl (.inr rfl)).chains =
      [⟨cachedApi "a:b" byeSdl, none, "a:b"⟩, ⟨cachedApi "a" helloSdl, some "b", "a:b"⟩] :=
    build_besideVersioned byeSdl
  have hapart : ¬ (⟨cachedApi "a:b" byeSdl, none, "a:b"⟩ : Chain (GraphQlBlocks ℕ)).SharesKind sdlCrates
      ⟨cachedApi "a" helloSdl, some "b", "a:b"⟩ := by
    rintro (⟨hcache, -⟩ | ⟨-, -, sdl, hbye, hhello⟩ | ⟨hlimits, -⟩)
    · exact absurd hcache (by decide)
    · rw [holds_cachedApi (.inr rfl)] at hbye
      rw [holds_cachedApi (.inl rfl)] at hhello
      exact absurd (hbye.symm.trans hhello) (by decide)
    · exact hlimits rfl
  simp only [hchains, List.mem_cons, List.not_mem_nil, or_false] at hx hy
  rcases hx with rfl | rfl
  · rcases hy with rfl | rfl
    · exact absurd rfl hne
    · exact fun h => hapart h.2
  · rcases hy with rfl | rfl
    · exact fun h => hapart h.2.symm
    · exact absurd rfl hne

end G2way.Proxy
