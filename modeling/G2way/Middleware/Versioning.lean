import G2way.Core.ApiDefinition
import G2way.Middleware.Context

/-!
# Version dispatch

`VersionDispatch` of `g2-middleware/src/versioning.rs`: "it reads the requested version name from the
configured header or query parameter, falls back to the default version when the request names none,
and dispatches. A request that resolves to no version, an unknown version, or an expired version is
rejected with `403`."

## The model

What a version is dispatched to is of any type. When a version expires is a function of its name, next
to the overrides. The query of a request is made of the characters that a URI may have there; which
these are, the `http` crate says.

## What is proved

`version_selectable_iff`: which versions of an accepted configuration a request can ask for. Validation
asks for more than that in names ("a padded or empty name could never be selected") and for less: a
header can only name a version in visible ASCII, and a query only one without `&`, under a key without
`&` and `=`. Any other version is served as the default one, or to nobody.
-/

namespace G2way.Middleware.Versioning

open G2way.Core G2way.Lib G2way.Lib.Result

variable {B S : Type}

/-! ### The dispatcher -/

/-- `VersionSelector`. -/
inductive VersionSelector where
  /-- A header, by its parsed name. -/
  | header (name : String)
  /-- A query parameter: "matched verbatim (no percent-decoding)". -/
  | queryParam (param : String)
  deriving DecidableEq, Repr

/-- `VersionSlot`. -/
structure VersionSlot (S : Type) where
  chain : S
  expiresAt : Option ℕ

/-- `VersionDispatch`. -/
structure VersionDispatch (S : Type) where
  selector : VersionSelector
  defaultVersion : Option String
  versions : List (String × VersionSlot S)

/-- The selector of a configuration. -/
def selectorOf (config : VersioningConfig B) (apiId : String) : Except InvalidApiDefinition VersionSelector :=
  match config.location with
  | .header =>
    .header <$> okOr (headerName config.key) ⟨apiId, "`versioning.key` is not a valid header name: `" ++ config.key ++ "`"⟩
  | .queryParam => .ok (.queryParam config.key)

/-- The slot of a version, given the chains that were built. -/
def slotOf (expiresAt : String → Option ℕ) (chains : String → Option S) (apiId name : String) :
    Except InvalidApiDefinition (String × VersionSlot S) := do
  let chain ← okOr (chains name) ⟨apiId, "no chain was built for version `" ++ name ++ "`"⟩
  return (name, ⟨chain, expiresAt name⟩)

/-- `VersionDispatch::from_config`. -/
def fromConfig (config : VersioningConfig B) (expiresAt : String → Option ℕ) (chains : String → Option S)
    (apiId : String) : Except InvalidApiDefinition (VersionDispatch S) := do
  let selector ← selectorOf config apiId
  let versions ← (config.versions.map Prod.fst).mapM (slotOf expiresAt chains apiId)
  return ⟨selector, config.defaultVersion, versions⟩

/-- The value of a `key=value` pair that names the parameter. -/
def pairNames (param pair : String) : Option String :=
  match Text.splitOnce '=' pair with
  | some (k, v) => if k = param then some (Text.trim v) else none
  | none => none

/-- What a request says at the place of the version. -/
def VersionSelector.read (selector : VersionSelector) (req : Request) : Option String :=
  match selector with
  | .header name => (req.headers.getStr name).map Text.trim
  | .queryParam param => req.query.bind fun query => (Text.split '&' query).findSome? (pairNames param)

/-- `requested`: the name of the version the request asks for, if it asks for one. -/
def VersionSelector.requested (selector : VersionSelector) (req : Request) : Option String :=
  (selector.read req).filter (· ≠ "")

namespace VersionDispatch

variable (d : VersionDispatch S)

/-- The name of the version a request is served by. -/
def resolve (req : Request) : Option String := (d.selector.requested req).or d.defaultVersion

/-- `VersionDispatch::call`: the chain that the request goes to, or the rejection. -/
def dispatch (now : ℕ) (req : Request) : Except Rejection S := do
  let name ← okOr (d.resolve req) ⟨403, "version information not found", none⟩
  let slot ← okOr (d.versions.lookup name) ⟨403, "requested API version does not exist", none⟩
  ensure (!slot.expiresAt.any (· ≤ now)) ⟨403, "requested API version has expired", none⟩
  return slot.chain

end VersionDispatch

/-! ### Which versions a request can ask for -/

/-- A request that the gateway can be sent: its query is one of a URI. -/
def Wellformed (legal : Char → Bool) (req : Request) : Prop := ∀ query, req.query = some query → query.toList.all legal = true

/-- A request can name the version. -/
def Nameable (legal : Char → Bool) (selector : VersionSelector) (name : String) : Prop :=
  match selector with
  | .header _ => ∀ ch ∈ name.toList, (32 ≤ ch.toNat ∧ ch.toNat < 127) ∨ ch.toNat = 9
  | .queryParam param =>
    (param ++ "=" ++ name).toList.all legal = true ∧ '=' ∉ param.toList ∧ '&' ∉ (param ++ "=" ++ name).toList

section Nameable

variable {legal : Char → Bool} {name : String}

theorem requested_eq_some {selector : VersionSelector} {req : Request} :
    selector.requested req = some name ↔ selector.read req = some name ∧ name ≠ "" := by
  rw [VersionSelector.requested, Option.filter_eq_some_iff]
  simp

theorem pairNames_eq_some {param pair : String} :
    pairNames param pair = some name ↔ ∃ v, Text.splitOnce '=' pair = some (param, v) ∧ Text.trim v = name := by
  rw [pairNames]
  constructor
  · intro h
    cases hsplit : Text.splitOnce '=' pair with
    | none => simp [hsplit] at h
    | some kv =>
      obtain ⟨k, v⟩ := kv
      simp only [hsplit, Option.ite_none_right_eq_some, Option.some.injEq] at h
      obtain ⟨rfl, rfl⟩ := h
      exact ⟨v, rfl, rfl⟩
  · rintro ⟨v, hsplit, rfl⟩
    simp [hsplit]

/-- What a header names is visible text. -/
theorem nameable_of_header {header : String} {req : Request} (h : (VersionSelector.header header).read req = some name) :
    Nameable legal (.header header) name := by
  simp only [VersionSelector.read, HeaderMap.getStr, Option.map_eq_some_iff, Option.bind_eq_some_iff] at h
  obtain ⟨text, ⟨value, -, htext⟩, rfl⟩ := h
  intro ch hch
  have hmem := Text.mem_of_mem_trim hch
  rw [chars_of_toStr htext] at hmem
  exact visible_of_toStr htext ch hmem

/-- What a parameter names is a piece of a query. -/
theorem nameable_of_queryParam {param : String} {req : Request} (hreq : Wellformed legal req)
    (h : (VersionSelector.queryParam param).read req = some name) : Nameable legal (.queryParam param) name := by
  simp only [VersionSelector.read, Option.bind_eq_some_iff] at h
  obtain ⟨query, hquery, h⟩ := h
  obtain ⟨pair, hpair, h⟩ := List.exists_of_findSome?_eq_some h
  obtain ⟨v, hsplit, rfl⟩ := pairNames_eq_some.1 h
  obtain ⟨hkey, htext⟩ := Text.splitOnce_eq_some.1 hsplit
  obtain ⟨piece, hpiece, rfl⟩ := List.mem_map.1 hpair
  rw [String.toList_ofList] at htext
  have hpart : ∀ ch ∈ (param ++ "=" ++ Text.trim v).toList, ch ∈ piece := by
    intro ch hch
    rw [String.toList_append, String.toList_append, List.append_assoc, List.mem_append] at hch
    rw [htext, List.mem_append]
    refine hch.imp_right fun hch => ?_
    rcases List.mem_cons.1 hch with rfl | hch
    · exact List.mem_cons_self
    · exact List.mem_cons_of_mem _ (Text.mem_of_mem_trim hch)
  have hlegal := List.all_eq_true.1 (hreq query hquery)
  refine ⟨List.all_eq_true.2 fun ch hch => hlegal ch (Text.mem_of_mem_splitOn hpiece (hpart ch hch)), hkey, fun hamp => ?_⟩
  exact Text.not_mem_of_mem_splitOn hpiece (hpart '&' hamp)

/-- A name that can be, is named by some request. -/
theorem exists_read {selector : VersionSelector} (htrim : Text.trim name = name) (h : Nameable legal selector name) :
    ∃ req, Wellformed legal req ∧ selector.read req = some name := by
  cases selector with
  | header header =>
    have hchars : (headerValue name).chars = name.toList := chars_headerValue fun ch hch => by
      have hcode := h ch hch
      omega
    have hvalue : (headerValue name).toStr = some name := by
      rw [toStr_eq_some (hchars.symm ▸ h), hchars, String.ofList_toList]
    refine ⟨{ headers := [(header, headerValue name)] }, by simp [Wellformed], ?_⟩
    simp [VersionSelector.read, HeaderMap.getStr, HeaderMap.get, hvalue, htrim]
  | queryParam param =>
    obtain ⟨hlegal, hkey, hamp⟩ := h
    have hsplit : Text.splitOnce '=' (param ++ "=" ++ name) = some (param, name) := by
      refine Text.splitOnce_eq_some.2 ⟨hkey, ?_⟩
      rw [String.toList_append, String.toList_append, List.append_assoc]
      rfl
    have hpieces : Text.split '&' (param ++ "=" ++ name) = [param ++ "=" ++ name] := by
      rw [Text.split, List.splitOn_eq_singleton hamp, List.map_singleton, String.ofList_toList]
    refine ⟨{ query := some (param ++ "=" ++ name) }, fun query hquery => Option.some.inj hquery ▸ hlegal, ?_⟩
    have hpair : pairNames param (param ++ "=" ++ name) = some name := pairNames_eq_some.2 ⟨name, hsplit, htrim⟩
    simp [VersionSelector.read, hpieces, hpair]

/-- A request that names no version. -/
theorem exists_unnamed (legal : Char → Bool) (selector : VersionSelector) :
    ∃ req, Wellformed legal req ∧ selector.requested req = none := by
  refine ⟨{}, by simp [Wellformed], ?_⟩
  cases selector <;> rfl

end Nameable

/-- **Which versions a request can ask for.** A version of an accepted configuration is served to some request exactly
if it is the default one, or if its name can stand where the configuration has requests name it. -/
theorem version_selectable_iff {c : Crates B} {base : ApiDefinition B} {config : VersioningConfig B} (legal : Char → Bool)
    (h : config.validate c base = .ok ()) (expiresAt : String → Option ℕ) (chains : String → Option S) (apiId : String)
    (hchains : ∀ name ∈ config.versions.map Prod.fst, (chains name).isSome = true) :
    ∃ d, fromConfig config expiresAt chains apiId = .ok d ∧ ∀ name ∈ config.versions.map Prod.fst,
      ((∃ req, Wellformed legal req ∧ d.resolve req = some name) ↔
        config.defaultVersion = some name ∨ Nameable legal d.selector name) := by
  simp only [VersioningConfig.validate, List.forM_eq_forM, bind_eq_ok, forM_eq_ok, ensure_eq_ok] at h
  obtain ⟨_, hkey, _, -, _, hnames, -⟩ := h
  have hselector : ∃ selector, selectorOf config apiId = .ok selector := by
    rw [VersioningConfig.validateKey] at hkey
    rw [selectorOf]
    cases hlocation : config.location with
    | queryParam => exact ⟨_, rfl⟩
    | header =>
      simp only [hlocation, ensure_eq_ok] at hkey
      obtain ⟨header, hheader⟩ := Option.isSome_iff_exists.1 hkey
      exact ⟨.header header, by simp [hheader, okOr, Functor.map, Except.map]⟩
  obtain ⟨selector, hselector⟩ := hselector
  have hslots : ∀ name ∈ config.versions.map Prod.fst, ∃ slot, slotOf expiresAt chains apiId name = .ok slot := by
    intro name hname
    obtain ⟨chain, hchain⟩ := Option.isSome_iff_exists.1 (hchains name hname)
    exact ⟨(name, ⟨chain, expiresAt name⟩), by simp only [slotOf, hchain, okOr, ok_bind]; rfl⟩
  obtain ⟨versions, hversions⟩ := exists_mapM_eq_ok.2 hslots
  refine ⟨⟨selector, config.defaultVersion, versions⟩, ?_, fun name hname => ?_⟩
  · simp only [fromConfig, hselector, hversions, ok_bind]
    rfl
  obtain ⟨entry, hentry, rfl⟩ := List.mem_map.1 hname
  have hclean := hnames entry hentry
  simp only [decide_eq_true_eq] at hclean
  simp only [VersionDispatch.resolve]
  constructor
  · rintro ⟨req, hreq, hresolve⟩
    rcases Option.or_eq_some_iff.1 hresolve with hrequested | ⟨-, hdefault⟩
    · obtain ⟨hread, -⟩ := requested_eq_some.1 hrequested
      cases selector with
      | header header => exact .inr (nameable_of_header hread)
      | queryParam param => exact .inr (nameable_of_queryParam hreq hread)
    · exact .inl hdefault
  · rintro (hdefault | hnameable)
    · obtain ⟨req, hreq, hnone⟩ := exists_unnamed legal selector
      exact ⟨req, hreq, by rw [hnone, hdefault]; rfl⟩
    · obtain ⟨req, hreq, hread⟩ := exists_read hclean.2 hnameable
      exact ⟨req, hreq, Option.or_eq_some_iff.2 (.inl (requested_eq_some.2 ⟨hread, hclean.1⟩))⟩

/-! ### A version that nobody can ask for -/

/-- The characters of a query, as the `http` crate has them. -/
def isQueryChar (ch : Char) : Bool := 33 ≤ ch.toNat && ch.toNat < 127 && !(['"', '#', '<', '>'].contains ch)

/-- Crates that read one URL. -/
def usersCrates : Crates Unit where
  parseUri url := if url = "http://users.internal" then .ok ⟨some "http", some "users.internal"⟩ else .error "empty host"
  compileRegex _ := .ok ()
  blocks _ := .ok ()
  graphqlBlocks _ _ _ := .ok false

/-- An API with versions that are named in the query. -/
def usersBase : ApiDefinition Unit where
  apiId := "users"
  name := "users"
  listenPath := "/users/"
  targetUrl := "http://users.internal"
  blocks := ()

theorem sorted_queryVersions : ["r&d", "v1"].Pairwise (· < ·) := List.pairwise_pair.2 (by decide)

/-- The version `r&d`, beside `v1`. -/
def queryVersions : VersioningConfig Unit where
  location := .queryParam
  key := "version"
  versions := [("r&d", {}), ("v1", {})]
  sorted := sorted_queryVersions

theorem queryVersions_valid : queryVersions.validate usersCrates usersBase = .ok () := rfl

theorem version_selectable_iff_query :
    ∃ d, fromConfig queryVersions (fun _ => none) (fun name => some name) "users" = .ok d ∧
      ∀ name ∈ queryVersions.versions.map Prod.fst, ((∃ req, Wellformed isQueryChar req ∧ d.resolve req = some name) ↔
        queryVersions.defaultVersion = some name ∨ Nameable isQueryChar d.selector name) :=
  version_selectable_iff isQueryChar queryVersions_valid (fun _ => none) (fun name => some name)
    "users" fun _ _ => rfl

end G2way.Middleware.Versioning
