import G2way.Proxy.Router
import G2way.Proxy.Targets
import Mathlib.Data.String.Basic

/-!
# Routing

`RouteTable` of `g2-proxy/src/router.rs`: "Matching scans routes ordered by
listen-path length, so the most specific (longest) prefix wins"; `/users` matches
`/users` and `/users/42` but not `/users2`. The forwarder later strips the prefix
again (`upstream_path_and_query` of `rewrite.rs`): "`Route::matches()` guaranteed
the prefix is present".

## The model

A route keeps its definition and the targets it forwards to, one or one for each
version. Two of the blocks of a definition are read here, `strip_listen_path` and
`url_rewrites` (`TargetBlocks`); a compiled rewrite is what it makes of a path. What
else `Route::build` may refuse (plugins, layers) is a parameter. The length of a
prefix is in bytes, as the code compares it, and the sort is stable.

## What is proved

`most_specific_route`: of every list of definitions that builds, a path is routed to
an active definition with the longest listen prefix that ends at a segment of the
path, and to none only if there is none; the prefix does not depend on the order of
the definitions, and stripping it succeeds, on the path of the request and on the
endpoint that persisted queries are rewritten to.
-/

namespace G2way.Proxy.Routing

open G2way.Core G2way.Lib G2way.Lib.Result

variable {B : Type}

/-! ### Targets -/

/-- What a target reads of the other blocks of a definition. -/
structure TargetBlocks (B : Type) where
  stripListenPath : B → Bool
  /-- The rules of `url_rewrites`, compiled: what each makes of a path it matches. -/
  rewrites : B → Except String (List (String → Option String))

/-- `UpstreamTarget`, as far as paths are mapped by it. -/
structure UpstreamTarget where
  listenPrefix : String
  stripListenPath : Bool
  rewrites : List (String → Option String)

/-- The listen path without trailing slashes. -/
def listenPrefixOf (def_ : ApiDefinition B) : String := Text.trimEndMatches '/' def_.listenPath

/-- `graphql_uri`: where a persisted request is rewritten to. -/
def graphqlUri (def_ : ApiDefinition B) : String := if listenPrefixOf def_ = "" then "/" else listenPrefixOf def_

/-- `UpstreamTarget::build`. -/
def UpstreamTarget.build (c : Crates B) (blocks : TargetBlocks B) (def_ : ApiDefinition B) :
    Except InvalidApiDefinition UpstreamTarget := do
  def_.validate c
  let rewrites ← (blocks.rewrites def_.blocks).mapError (InvalidApiDefinition.mk def_.apiId)
  return { listenPrefix := listenPrefixOf def_, stripListenPath := blocks.stripListenPath def_.blocks, rewrites }

/-- The text without its leading slashes. -/
def trimStartSlashes (s : String) : String := String.ofList (s.toList.dropWhile (· = '/'))

/-- `join_paths`. -/
def joinPaths (base tail : String) : String :=
  let tail := trimStartSlashes tail
  if tail = "" then if base = "" then "/" else base
  else base ++ "/" ++ tail

/-- `req_path.strip_prefix(listen_prefix)`. -/
def UpstreamTarget.strip (target : UpstreamTarget) (reqPath : String) : Option String :=
  Text.stripPrefix target.listenPrefix reqPath

/-- `upstream_path_and_query`. -/
def upstreamPathAndQuery (target : UpstreamTarget) (addr : UpstreamAddr) (reqPath : String) (query : Option String) :
    String :=
  let query := query.filter (· ≠ "")
  let (tail, rewriteQuery) := match target.rewrites.findSome? (· reqPath) with
    | some expanded => match Text.splitOnce '?' expanded with
      | some (path, q) => (path, if q = "" then none else some q)
      | none => (expanded, none)
    | none =>
      if target.stripListenPath then ((target.strip reqPath).getD reqPath, none) else (reqPath, none)
  let path := joinPaths addr.basePath tail
  match rewriteQuery, query with
  | none, none => path
  | some q, none => path ++ "?" ++ q
  | none, some q => path ++ "?" ++ q
  | some q, some q' => path ++ "?" ++ q ++ "&" ++ q'

/-! ### Routes -/

/-- `Route`, as far as requests are routed by it. -/
structure Route (B : Type) where
  def_ : ApiDefinition B
  listenPrefix : String
  /-- The targets of its chains. -/
  targets : List UpstreamTarget

/-- The definitions the chains of a route are built from: the definition, or one for each version. -/
def effectiveDefs (def_ : ApiDefinition B) : List (ApiDefinition B) :=
  match def_.versioning with
  | none => [def_]
  | some v => v.versions.filterMap fun p => v.apply def_ p.1

/-- `Route::build`; `layers` is what the other layers of a chain refuse. -/
def Route.build (c : Crates B) (blocks : TargetBlocks B) (layers : ApiDefinition B → Except InvalidApiDefinition Unit)
    (def_ : ApiDefinition B) : Except InvalidApiDefinition (Route B) := do
  let target ← UpstreamTarget.build c blocks def_
  let targets ← (effectiveDefs def_).mapM fun vdef => do
    let vtarget ← UpstreamTarget.build c blocks vdef
    layers vdef
    return vtarget
  return { def_, listenPrefix := target.listenPrefix, targets }

/-- `Route::matches`. -/
def Route.matches (r : Route B) (path : String) : Bool :=
  if r.listenPrefix = "" then true
  else match Text.stripPrefix r.listenPrefix path with
    | some rest => rest = "" || Text.startsWith "/" rest
    | none => false

/-- The order of the table: longer prefixes first, then by the prefix. -/
def Route.before (a b : Route B) : Bool :=
  if a.listenPrefix.utf8ByteSize = b.listenPrefix.utf8ByteSize then decide (a.listenPrefix ≤ b.listenPrefix)
  else decide (b.listenPrefix.utf8ByteSize < a.listenPrefix.utf8ByteSize)

/-- `RouteTable`. -/
structure RouteTable (B : Type) where
  routes : List (Route B)

/-- `RouteTable::build`. -/
def RouteTable.build (c : Crates B) (blocks : TargetBlocks B)
    (layers : ApiDefinition B → Except InvalidApiDefinition Unit) (defs : List (ApiDefinition B)) :
    Except InvalidApiDefinition (RouteTable B) := do
  let routes ← defs.mapM (Route.build c blocks layers)
  return ⟨(routes.filter fun r => r.def_.active).mergeSort Route.before⟩

/-- `match_path`. -/
def RouteTable.matchPath (t : RouteTable B) (path : String) : Option (Route B) :=
  t.routes.find? fun r => r.matches path

/-! ### Whole segments -/

/-- The prefix is the whole path, or ends where a segment of the path begins. The empty prefix is one of every
path. -/
def WholeSegments (p path : String) : Prop := p = "" ∨ path = p ∨ ∃ rest, path = p ++ "/" ++ rest

theorem matches_iff {r : Route B} {path : String} : r.matches path = true ↔ WholeSegments r.listenPrefix path := by
  rw [Route.matches, WholeSegments]
  split_ifs with hempty
  · simp [hempty]
  · rw [or_iff_right hempty]
    constructor
    · intro h
      split at h
      · next rest hstrip =>
        have hpath := Text.stripPrefix_eq_some.1 hstrip
        simp only [Bool.or_eq_true, decide_eq_true_eq, Text.startsWith, List.isPrefixOf_iff_prefix] at h
        rcases h with rfl | ⟨t, ht⟩
        · left
          apply String.toList_inj.1
          simpa using hpath
        · right
          refine ⟨String.ofList t, String.toList_inj.1 ?_⟩
          rw [hpath, ← ht]
          simp [String.toList_append]
      · cases h
    · rintro (rfl | ⟨rest, rfl⟩)
      · have hstrip : Text.stripPrefix r.listenPrefix r.listenPrefix = some "" := by
          simp [Text.stripPrefix_eq_some]
        rw [hstrip]
        simp
      · have hstrip : Text.stripPrefix r.listenPrefix (r.listenPrefix ++ "/" ++ rest) = some ("/" ++ rest) := by
          simp [Text.stripPrefix_eq_some, String.toList_append]
        rw [hstrip]
        simp [Text.startsWith, String.toList_append]

/-- A prefix is one of the characters. -/
theorem WholeSegments.exists_append {p path : String} (h : WholeSegments p path) : ∃ rest, path = p ++ rest := by
  rcases h with rfl | rfl | ⟨rest, rfl⟩
  · exact ⟨path, by simp⟩
  · exact ⟨"", by simp⟩
  · exact ⟨"/" ++ rest, by rw [String.append_assoc]⟩

/-- Prefixes of one path that are equally long are equal. -/
theorem eq_of_prefixes {p q path : String} (hp : WholeSegments p path) (hq : WholeSegments q path)
    (hlen : p.utf8ByteSize = q.utf8ByteSize) : p = q := by
  obtain ⟨s, hs⟩ := hp.exists_append
  obtain ⟨t, ht⟩ := hq.exists_append
  have hlist : p.toList ++ s.toList = q.toList ++ t.toList := by
    rw [← String.toList_append, ← String.toList_append, ← hs, ← ht]
  -- one of them begins with the other, and what is left of the longer one has no bytes
  have hleft {a b : String} {l : List Char} (hab : a.toList = b.toList ++ l) (hsize : a.utf8ByteSize = b.utf8ByteSize) :
      a = b := by
    have happend : a = b ++ String.ofList l := by
      apply String.toList_inj.1
      rw [hab, String.toList_append, String.toList_ofList]
    rw [happend, String.utf8ByteSize_append] at hsize
    have hl : String.ofList l = "" := String.utf8ByteSize_eq_zero_iff.1 (by omega)
    rw [happend, hl, String.append_empty]
  rcases List.append_eq_append_iff.1 hlist with ⟨l, hl, -⟩ | ⟨l, hl, -⟩
  · exact (hleft hl hlen.symm).symm
  · exact hleft hl hlen

/-! ### The order of the table -/

theorem before_trans (a b d : Route B) (hab : a.before b = true) (hbd : b.before d = true) : a.before d = true := by
  unfold Route.before at *
  split_ifs at * with h₁ h₂ h₃ <;> simp only [decide_eq_true_eq] at * <;> first | omega | exact le_trans hab hbd

theorem before_total (a b : Route B) : (a.before b || b.before a) = true := by
  unfold Route.before
  split_ifs with h₁ h₂ h₂
  · simpa using le_total a.listenPrefix b.listenPrefix
  · omega
  · omega
  · simp only [Bool.or_eq_true, decide_eq_true_eq]
    omega

theorem size_le_of_before {a b : Route B} (h : a.before b = true) :
    b.listenPrefix.utf8ByteSize ≤ a.listenPrefix.utf8ByteSize := by
  unfold Route.before at h
  split_ifs at h with heq
  · exact heq.ge
  · exact (of_decide_eq_true h).le

/-- The first of a sorted list that has the property stands before every other that has it. -/
theorem rel_of_find? {α : Type*} {R : α → α → Prop} {p : α → Bool} {l : List α} {a b : α} (hl : l.Pairwise R)
    (hfind : l.find? p = some a) (hb : b ∈ l) (hpb : p b = true) : b = a ∨ R a b := by
  obtain ⟨-, as, bs, rfl, has⟩ := List.find?_eq_some_iff_append.1 hfind
  rcases List.mem_append.1 hb with hb | hb
  · simpa [hpb] using has b hb
  · rcases List.mem_cons.1 hb with rfl | hb
    · exact .inl rfl
    · exact .inr ((List.pairwise_cons.1 (List.pairwise_append.1 hl).2.1).1 b hb)

/-! ### What a table holds -/

section Table

variable {c : Crates B} {blocks : TargetBlocks B} {layers : ApiDefinition B → Except InvalidApiDefinition Unit}

theorem listenPrefix_of_target {def_ : ApiDefinition B} {target : UpstreamTarget}
    (h : UpstreamTarget.build c blocks def_ = .ok target) : target.listenPrefix = listenPrefixOf def_ := by
  simp only [UpstreamTarget.build, bind_eq_ok, pure_eq_ok] at h
  obtain ⟨-, -, -, -, rfl⟩ := h
  rfl

/-- A version listens where its API does. -/
theorem listenPath_of_effective {def_ vdef : ApiDefinition B} (h : vdef ∈ effectiveDefs def_) :
    vdef.listenPath = def_.listenPath := by
  unfold effectiveDefs at h
  split at h
  · rw [List.mem_singleton.1 h]
  · obtain ⟨p, -, hp⟩ := List.mem_filterMap.1 h
    obtain ⟨o, -, rfl⟩ := Option.map_eq_some_iff.1 hp
    rfl

/-- A route is of its definition, and every one of its targets strips the prefix it is routed by. -/
theorem route_of_build {def_ : ApiDefinition B} {r : Route B} (h : Route.build c blocks layers def_ = .ok r) :
    r.def_ = def_ ∧ r.listenPrefix = listenPrefixOf def_ ∧ ∀ t ∈ r.targets, t.listenPrefix = listenPrefixOf def_ := by
  simp only [Route.build, bind_eq_ok, pure_eq_ok] at h
  obtain ⟨target, htarget, targets, htargets, rfl⟩ := h
  refine ⟨rfl, listenPrefix_of_target htarget, ?_⟩
  show ∀ t ∈ targets, _
  rw [forall_mem_mapM htargets]
  intro vdef hvdef t ht
  simp only [bind_eq_ok, pure_eq_ok] at ht
  obtain ⟨vtarget, hvtarget, -, -, rfl⟩ := ht
  rw [listenPrefix_of_target hvtarget, listenPrefixOf, listenPrefixOf, listenPath_of_effective hvdef]

/-- The routes of a table are those of the active definitions. -/
theorem mem_routes {defs : List (ApiDefinition B)} {table : RouteTable B}
    (h : RouteTable.build c blocks layers defs = .ok table) {r : Route B} :
    r ∈ table.routes ↔ ∃ d ∈ defs, d.active = true ∧ Route.build c blocks layers d = .ok r := by
  simp only [RouteTable.build, bind_eq_ok, pure_eq_ok] at h
  obtain ⟨routes, hroutes, rfl⟩ := h
  rw [List.mem_mergeSort, List.mem_filter, mem_mapM hroutes]
  constructor
  · rintro ⟨⟨d, hd, hbuild⟩, hactive⟩
    rw [(route_of_build hbuild).1] at hactive
    exact ⟨d, hd, hactive, hbuild⟩
  · rintro ⟨d, hd, hactive, hbuild⟩
    rw [← (route_of_build hbuild).1] at hactive
    exact ⟨⟨d, hd, hbuild⟩, hactive⟩

/-- A table is built if each of its definitions builds. -/
theorem exists_build_iff {defs : List (ApiDefinition B)} :
    (∃ table, RouteTable.build c blocks layers defs = .ok table) ↔
      ∀ d ∈ defs, ∃ r, Route.build c blocks layers d = .ok r := by
  rw [← exists_mapM_eq_ok]
  simp only [RouteTable.build, bind_eq_ok, pure_eq_ok]
  constructor
  · rintro ⟨table, routes, hroutes, -⟩
    exact ⟨routes, hroutes⟩
  · rintro ⟨routes, hroutes⟩
    exact ⟨_, routes, hroutes, rfl⟩

theorem pairwise_routes {defs : List (ApiDefinition B)} {table : RouteTable B}
    (h : RouteTable.build c blocks layers defs = .ok table) : table.routes.Pairwise fun a b => a.before b = true := by
  simp only [RouteTable.build, bind_eq_ok, pure_eq_ok] at h
  obtain ⟨routes, -, rfl⟩ := h
  exact List.pairwise_mergeSort before_trans before_total _

/-- A path is routed to an active definition whose prefix is a whole-segment prefix of it, and no shorter than
that of any other. -/
theorem matchPath_some {defs : List (ApiDefinition B)} {table : RouteTable B} {path : String} {r : Route B}
    (h : RouteTable.build c blocks layers defs = .ok table) (hmatch : table.matchPath path = some r) :
    r.def_ ∈ defs ∧ r.def_.active = true ∧ r.listenPrefix = listenPrefixOf r.def_ ∧
      WholeSegments r.listenPrefix path ∧
      (∀ d ∈ defs, d.active = true → WholeSegments (listenPrefixOf d) path →
        (listenPrefixOf d).utf8ByteSize ≤ r.listenPrefix.utf8ByteSize) ∧
      ∀ t ∈ r.targets, t.listenPrefix = r.listenPrefix := by
  obtain ⟨d, hd, hactive, hbuild⟩ := (mem_routes h).1 (List.mem_of_find?_eq_some hmatch)
  obtain ⟨rfl, hpath, htargets⟩ := route_of_build hbuild
  have hmatches : r.matches path = true := List.find?_some (p := fun r : Route B => r.matches path) hmatch
  refine ⟨hd, hactive, hpath, matches_iff.1 hmatches, ?_, fun t ht => by rw [htargets t ht, hpath]⟩
  intro d' hd' hactive' hsegments
  obtain ⟨r', hbuild'⟩ := exists_build_iff.1 ⟨table, h⟩ d' hd'
  have hpath' := (route_of_build hbuild').2.1
  rw [← hpath'] at hsegments ⊢
  have hmem : r' ∈ table.routes := (mem_routes h).2 ⟨d', hd', hactive', hbuild'⟩
  rcases rel_of_find? (pairwise_routes h) hmatch hmem (matches_iff.2 hsegments) with rfl | hbefore
  · exact le_rfl
  · exact size_le_of_before hbefore

theorem matchPath_none {defs : List (ApiDefinition B)} {table : RouteTable B} {path : String}
    (h : RouteTable.build c blocks layers defs = .ok table) :
    table.matchPath path = none ↔ ∀ d ∈ defs, d.active = true → ¬ WholeSegments (listenPrefixOf d) path := by
  rw [RouteTable.matchPath, List.find?_eq_none]
  constructor
  · intro hnone d hd hactive hsegments
    obtain ⟨r, hbuild⟩ := exists_build_iff.1 ⟨table, h⟩ d hd
    refine hnone r ((mem_routes h).2 ⟨d, hd, hactive, hbuild⟩) (matches_iff.2 ?_)
    rwa [(route_of_build hbuild).2.1]
  · intro hnone r hr hmatches
    obtain ⟨d, hd, hactive, hbuild⟩ := (mem_routes h).1 hr
    refine hnone d hd hactive ?_
    rw [← (route_of_build hbuild).2.1]
    exact matches_iff.1 hmatches

/-- Definitions in another order are routed by the same prefix. -/
theorem matchPath_perm {defs defs' : List (ApiDefinition B)} {table table' : RouteTable B} (hperm : defs'.Perm defs)
    (h : RouteTable.build c blocks layers defs = .ok table) (h' : RouteTable.build c blocks layers defs' = .ok table')
    (path : String) : (table'.matchPath path).map (·.listenPrefix) = (table.matchPath path).map (·.listenPrefix) := by
  have hsame : table'.matchPath path = none ↔ table.matchPath path = none := by
    rw [matchPath_none h, matchPath_none h']
    simp only [hperm.mem_iff]
  cases hm : table.matchPath path with
  | none => rw [hsame.2 hm]
  | some r =>
    cases hm' : table'.matchPath path with
    | none => simp [hsame.1 hm'] at hm
    | some r' =>
      obtain ⟨hd, hactive, hpath, hsegments, hlongest, -⟩ := matchPath_some h hm
      obtain ⟨hd', hactive', hpath', hsegments', hlongest', -⟩ := matchPath_some h' hm'
      have hle := hlongest r'.def_ (hperm.mem_iff.1 hd') hactive' (hpath' ▸ hsegments')
      have hge := hlongest' r.def_ (hperm.mem_iff.2 hd) hactive (hpath ▸ hsegments)
      rw [← hpath'] at hle
      rw [← hpath] at hge
      rw [Option.map_some, Option.map_some, eq_of_prefixes hsegments' hsegments (le_antisymm hle hge)]

/-- **The most specific API answers.** -/
theorem most_specific_route {defs : List (ApiDefinition B)} {table : RouteTable B}
    (h : RouteTable.build c blocks layers defs = .ok table) (path : String) :
    (∀ r, table.matchPath path = some r →
      r.def_ ∈ defs ∧ r.def_.active = true ∧ r.listenPrefix = listenPrefixOf r.def_ ∧
      WholeSegments r.listenPrefix path ∧
      (∀ d ∈ defs, d.active = true → WholeSegments (listenPrefixOf d) path →
        (listenPrefixOf d).utf8ByteSize ≤ r.listenPrefix.utf8ByteSize) ∧
      ∀ t ∈ r.targets, (∃ tail, t.strip path = some tail ∧ path = r.listenPrefix ++ tail) ∧
        (t.strip (graphqlUri r.def_)).isSome) ∧
    (table.matchPath path = none ↔ ∀ d ∈ defs, d.active = true → ¬ WholeSegments (listenPrefixOf d) path) ∧
    ∀ defs' : List (ApiDefinition B), defs'.Perm defs →
      ∃ table', RouteTable.build c blocks layers defs' = .ok table' ∧
        (table'.matchPath path).map (·.listenPrefix) = (table.matchPath path).map (·.listenPrefix) := by
  refine ⟨fun r hmatch => ?_, matchPath_none h, fun defs' hperm => ?_⟩
  · obtain ⟨hd, hactive, hpath, hsegments, hlongest, htargets⟩ := matchPath_some h hmatch
    refine ⟨hd, hactive, hpath, hsegments, hlongest, fun t ht => ⟨?_, ?_⟩⟩
    · obtain ⟨tail, htail⟩ := hsegments.exists_append
      refine ⟨tail, Text.stripPrefix_eq_some.2 ?_, htail⟩
      rw [htargets t ht, htail, String.toList_append]
    · rw [UpstreamTarget.strip, htargets t ht, hpath, graphqlUri, Option.isSome_iff_exists]
      split_ifs with hempty
      · exact ⟨"/", Text.stripPrefix_eq_some.2 (by simp [hempty])⟩
      · exact ⟨"", Text.stripPrefix_eq_some.2 (by simp)⟩
  · obtain ⟨table', h'⟩ := exists_build_iff.2 fun d hd => exists_build_iff.1 ⟨table, h⟩ d (hperm.mem_iff.1 hd)
    exact ⟨table', h', matchPath_perm hperm h h' path⟩

end Table

/-- An API at a listen path. -/
def apiAt (listenPath : String) (active : Bool) : ApiDefinition Unit where
  apiId := "api"
  name := "api"
  listenPath := listenPath
  targetUrl := "http://up.internal"
  active := active
  blocks := ()

/-- Targets that strip the listen path and rewrite nothing. -/
def plainBlocks : TargetBlocks Unit := ⟨fun _ => true, fun _ => .ok []⟩

/-- A catch-all, an API at `/users/` and one below it that is switched off. -/
def nestedApis : List (ApiDefinition Unit) := [apiAt "/" true, apiAt "/users/admin/" false, apiAt "/users/" true]

theorem most_specific_route_users :
    ∃ table, RouteTable.build plainCrates plainBlocks (fun _ => .ok ()) nestedApis = .ok table ∧
      ∃ r, table.matchPath "/users/admin/7" = some r ∧ r.listenPrefix = "/users" ∧
        ∀ t ∈ r.targets, t.strip "/users/admin/7" = some "/admin/7" := by
  have hbuilds : ∀ d ∈ nestedApis, ∃ r, Route.build plainCrates plainBlocks (fun _ => .ok ()) d = .ok r := by
    intro d hd
    simp only [nestedApis, List.mem_cons, List.not_mem_nil, or_false] at hd
    rcases hd with rfl | rfl | rfl
    · exact ⟨_, rfl⟩
    · exact ⟨_, rfl⟩
    · exact ⟨_, rfl⟩
  have husers : listenPrefixOf (apiAt "/users/" true) = "/users" := by decide
  have hsegments : WholeSegments "/users" "/users/admin/7" := .inr (.inr ⟨"admin/7", by decide⟩)
  obtain ⟨table, h⟩ := exists_build_iff.2 hbuilds
  obtain ⟨hsome, hnone, -⟩ := most_specific_route h "/users/admin/7"
  cases hm : table.matchPath "/users/admin/7" with
  | none =>
    exact absurd (husers ▸ hsegments) (hnone.1 hm (apiAt "/users/" true) (by simp [nestedApis]) rfl)
  | some r =>
    obtain ⟨hd, hactive, hpath, -, hlongest, htargets⟩ := hsome r hm
    have hr : r.listenPrefix = "/users" := by
      have hle := hlongest (apiAt "/users/" true) (by simp [nestedApis]) rfl (husers ▸ hsegments)
      rw [husers] at hle
      simp only [nestedApis, List.mem_cons, List.not_mem_nil, or_false] at hd
      rcases hd with hdef | hdef | hdef
      · rw [hpath, hdef] at hle
        exact absurd hle (by decide)
      · rw [hdef] at hactive
        cases hactive
      · rw [hpath, hdef, husers]
    refine ⟨table, h, r, hm, hr, fun t ht => ?_⟩
    obtain ⟨tail, hstrip, htail⟩ := (htargets t ht).1
    rw [hr, show "/users/admin/7" = "/users" ++ "/admin/7" by decide] at htail
    rw [hstrip, (String.append_right_inj "/users").1 htail]

end G2way.Proxy.Routing
