import G2way.Lib.Json
import G2way.Proxy.Targets
import Mathlib.Data.List.Forall2

/-!
# Service discovery

The polling of `g2-proxy/src/discovery.rs` and the extraction of addresses of
`ServiceDiscoveryConfig` in `g2-core/src/api_definition.rs`. "Failure policy is stale-on-error:
a fetch error, non-2xx answer, oversized/unparseable body, extraction error, invalid entry, or
an *empty* result keeps the previous set and logs a warning — stale targets beat empty
targets".

## The model

A poll is what came back from the endpoint; `pollEndpoint` makes the addresses of it, or an
error. The JSON parser and the URI parser are parameters.

Three tasks share the mounted set. The refresher alone replaces it, so a poll's comparison
with the mounted set and its store are one step. The checker loads the mounted set when it
wakes, probes, and then stores flags one by one in the set it has loaded, which may have been
replaced since. A request loads the set and draws from it, draw by draw. `Pool` has every set
there has been, and a handle (an `Arc` of the source) is the index of a set in it. A panic is
`none`; a step of a task that is elsewhere changes nothing.

## What is proved

`extractEntries_ok`: extraction is all or nothing. `inv_step`: no step panics, and each keeps
the invariant that every set there has been has an address and a flag for each address.
`discovery_keeps_pool` puts together what a run of the three tasks keeps and what a poll does.
-/

namespace G2way.Proxy

open G2way.Lib G2way.Lib.Result

variable {Num : Type}

/-! ### Crates -/

/-- The parts of a URI. -/
structure UriParts where
  scheme : Option String
  authority : Option String
  path : String
  deriving DecidableEq, Repr

/-- The crates discovery calls; `Num` is `serde_json::Number`. -/
structure DiscoveryCrates (Num : Type) where
  /-- `serde_json::from_slice`; an object has each key once. -/
  fromSlice : List UInt8 → Except String (Json Num)
  /-- `Number::as_u64`. -/
  asU64 : Num → Option ℕ
  /-- The text of a number. -/
  display : Num → String
  /-- `Uri::from_str`. -/
  parseUri : String → Except String UriParts
  /-- `Authority::from_str`, which keeps the text. -/
  parseAuthority : String → Except String String
  /-- `Authority::port_u16`. -/
  portU16 : String → Option ℕ
  /-- The text of a status. -/
  status : ℕ → String
  /-- The text of a duration in milliseconds. -/
  duration : ℕ → String

/-! ### Extraction -/

/-- `ServiceDiscoveryConfig`. -/
structure ServiceDiscoveryConfig where
  endpoint : String
  dataPath : String := ""
  portDataPath : Option String := none
  parentDataPath : Option String := none
  scheme : String := "http"
  intervalMs : ℕ := 10000
  timeoutMs : ℕ := 5000
  deriving DecidableEq, Repr

/-- `DiscoveredEntry`. -/
structure DiscoveredEntry where
  host : String
  port : Option ℕ
  deriving DecidableEq, Repr

/-- `str::parse` of an unsigned integer below `bound`: digits, with a `+` before them or not. -/
def parseUnsigned (bound : ℕ) (s : String) : Option ℕ :=
  let digits := match s.toList with
    | '+' :: rest => rest
    | cs => cs
  if digits = [] ∨ ¬ digits.all Char.isDigit then none
  else
    let n := digits.foldl (fun n c => 10 * n + (c.toNat - 48)) 0
    if n < bound then some n else none

/-- One segment of a dotted path. -/
def jsonSegment (value : Json Num) (segment : String) : Option (Json Num) :=
  match value with
  | .object members => members.lookup segment
  | .array items => (parseUnsigned (2 ^ 64) segment).bind (items[·]?)
  | _ => none

/-- `json_lookup`. -/
def jsonLookup (value : Json Num) (path : String) : Option (Json Num) :=
  if path = "" then some value else (Text.split '.' path).foldlM jsonSegment value

/-- The port a value stands for: "an integer `1`–`65535`, or a string of digits in that range". -/
def portOf (c : DiscoveryCrates Num) (value : Json Num) : Option ℕ :=
  let port := match value with
    | .number n => (c.asU64 n).filter (· < 2 ^ 16)
    | .string s => if s.toList.all Char.isDigit then parseUnsigned (2 ^ 16) s else none
    | _ => none
  port.filter (· ≠ 0)

/-- `coerce_port`. -/
def coercePort (c : DiscoveryCrates Num) (value : Json Num) (path : String) : Except String ℕ :=
  let text := Json.toText c.display value
  okOr (portOf c value) s!"`port_data_path` `{path}` must be a port between 1 and 65535, got `{text}`"

/-- A JSON string that is not blank. -/
def hostOf : Json Num → Option String
  | .string host => if Text.trim host ≠ "" then some host else none
  | _ => none

namespace ServiceDiscoveryConfig

variable (c : DiscoveryCrates Num) (cfg : ServiceDiscoveryConfig)

/-- `entry_host`. -/
def entryHost (scope : Json Num) (place : String) : Except String String := do
  let value ← okOr (jsonLookup scope cfg.dataPath) s!"`data_path` `{cfg.dataPath}` not found in {place}"
  okOr (hostOf value) s!"`data_path` `{cfg.dataPath}` in {place} is not a non-empty string"

/-- The port of an entry, looked up in `scope` when a path is configured; `place` names the scope. -/
def entryPort (scope : Json Num) (place : String) : Except String (Option ℕ) :=
  match cfg.portDataPath with
  | none => .ok none
  | some path => do
    let value ← okOr (jsonLookup scope path) s!"`port_data_path` `{path}` not found in {place}"
    let port ← coercePort c value path
    return some port

/-- The hosts of a document that is not iterated: one string, or an array of strings. -/
def rootHosts : Json Num → Except String (List String)
  | .string host => do
    let host ← okOr (hostOf (.string host : Json Num)) s!"`data_path` `{cfg.dataPath}` is not a non-empty string"
    return [host]
  | .array items => items.zipIdx.mapM fun (item, index) =>
    okOr (hostOf item) s!"`data_path` `{cfg.dataPath}` element [{index}] is not a non-empty string"
  | _ => .error s!"`data_path` `{cfg.dataPath}` must resolve to a string or array of strings"

/-- `extract_entries`. -/
def extractEntries (doc : Json Num) : Except String (List DiscoveredEntry) :=
  match cfg.parentDataPath with
  | some parentPath => do
    let parent ← okOr (jsonLookup doc parentPath) s!"`parent_data_path` `{parentPath}` not found in the response"
    match parent with
    | .array items => items.zipIdx.mapM fun (item, index) => do
      let host ← cfg.entryHost item s!"[{index}]"
      let port ← cfg.entryPort c item s!"element [{index}]"
      return ⟨host, port⟩
    | _ => .error s!"`parent_data_path` `{parentPath}` is not an array"
  | none => do
    let value ← okOr (jsonLookup doc cfg.dataPath) s!"`data_path` `{cfg.dataPath}` not found in the response"
    let hosts ← cfg.rootHosts value
    let port ← cfg.entryPort c doc "the response"
    return hosts.map fun host => ⟨host, port⟩

/-- The port that the configuration asks of a scope: none where no path is configured, and else a valid one. -/
def PortIn (scope : Json Num) (port : Option ℕ) : Prop :=
  match cfg.portDataPath with
  | none => port = none
  | some path => ∃ value p, jsonLookup scope path = some value ∧ portOf c value = some p ∧ port = some p

variable {c cfg}

theorem hostOf_eq_some {value : Json Num} {host : String} :
    hostOf value = some host ↔ value = .string host ∧ Text.trim host ≠ "" := by
  cases value with
  | string s =>
    simp only [hostOf, Json.string.injEq]
    split_ifs with h
    · simp only [Option.some.injEq]
      exact ⟨fun he => ⟨he, he ▸ h⟩, And.left⟩
    · simp only [false_iff]
      rintro ⟨rfl, hne⟩
      exact h hne
  | _ => simp [hostOf]

theorem entryPort_eq_ok {scope : Json Num} {place : String} {port : Option ℕ} :
    cfg.entryPort c scope place = .ok port ↔ PortIn c cfg scope port := by
  unfold entryPort PortIn
  cases cfg.portDataPath with
  | none => simp [eq_comm]
  | some path =>
    simp only [coercePort, bind_eq_ok, okOr_eq_ok, pure_eq_ok]
    constructor
    · rintro ⟨value, hv, p, hp, rfl⟩
      exact ⟨value, p, hv, hp, rfl⟩
    · rintro ⟨value, p, hv, hp, rfl⟩
      exact ⟨value, hv, p, hp, rfl⟩

theorem entryHost_eq_ok {scope : Json Num} {place host : String} :
    cfg.entryHost scope place = .ok host ↔
      jsonLookup scope cfg.dataPath = some (.string host) ∧ Text.trim host ≠ "" := by
  simp only [entryHost, bind_eq_ok, okOr_eq_ok, hostOf_eq_some]
  constructor
  · rintro ⟨value, hv, rfl, hne⟩
    exact ⟨hv, hne⟩
  · rintro ⟨hv, hne⟩
    exact ⟨_, hv, rfl, hne⟩

/-- A loop over the elements with their indices, whose outcome does not depend on the index. -/
theorem mapM_zipIdx_eq_ok {α β : Type} {f : α × ℕ → Except String β} {R : α → β → Prop}
    (hf : ∀ a k b, f (a, k) = .ok b ↔ R a b) {as : List α} {bs : List β} {n : ℕ} :
    (as.zipIdx n).mapM f = .ok bs ↔ List.Forall₂ R as bs := by
  induction as generalizing bs n with
  | nil =>
    rw [List.zipIdx_nil, List.mapM_nil, pure_eq_ok, List.forall₂_nil_left_iff]
    exact eq_comm
  | cons a as ih =>
    simp only [List.zipIdx_cons, List.mapM_cons, bind_eq_ok, pure_eq_ok, hf, ih]
    constructor
    · rintro ⟨b, hb, bs, hbs, rfl⟩
      exact .cons hb hbs
    · rintro (_ | ⟨hb, hbs⟩)
      exact ⟨_, hb, _, hbs, rfl⟩

/-- Elements that all are hosts are an array of strings. -/
theorem forall₂_hostOf {items : List (Json Num)} {hosts : List String} :
    List.Forall₂ (fun a b => hostOf a = some b) items hosts ↔
      (∀ host ∈ hosts, Text.trim host ≠ "") ∧ items = hosts.map .string := by
  constructor
  · intro h
    induction h with
    | nil => simp
    | cons hab _ ih =>
      obtain ⟨rfl, hne⟩ := hostOf_eq_some.mp hab
      exact ⟨List.forall_mem_cons.mpr ⟨hne, ih.1⟩, by rw [ih.2, List.map_cons]⟩
  · rintro ⟨hne, rfl⟩
    rw [List.forall₂_map_left_iff, List.forall₂_same]
    exact fun host hmem => hostOf_eq_some.mpr ⟨rfl, hne host hmem⟩

theorem rootHosts_eq_ok {value : Json Num} {hosts : List String} :
    cfg.rootHosts value = .ok hosts ↔
      (∀ host ∈ hosts, Text.trim host ≠ "") ∧
        ((∃ host, value = .string host ∧ hosts = [host]) ∨ value = .array (hosts.map .string)) := by
  cases value with
  | string s =>
    simp only [rootHosts, bind_eq_ok, okOr_eq_ok, pure_eq_ok, hostOf_eq_some, Json.string.injEq, reduceCtorEq, or_false]
    constructor
    · rintro ⟨host, ⟨rfl, hne⟩, rfl⟩
      exact ⟨by simpa using hne, s, rfl, rfl⟩
    · rintro ⟨hne, host, rfl, rfl⟩
      exact ⟨s, ⟨rfl, by simpa using hne⟩, rfl⟩
  | array items =>
    rw [rootHosts, mapM_zipIdx_eq_ok (R := fun a b => hostOf a = some b) fun _ _ _ => okOr_eq_ok, forall₂_hostOf]
    simp
  | _ => simp [rootHosts]

variable (c cfg)

/-- What an entry is read from: a host that is not blank, and the port that is asked for. -/
def Yields (item : Json Num) (entry : DiscoveredEntry) : Prop :=
  jsonLookup item cfg.dataPath = some (.string entry.host) ∧ Text.trim entry.host ≠ "" ∧ PortIn c cfg item entry.port

/-- Every element of the configured array yields its entry, or the one value that is configured does. -/
def Extracts (doc : Json Num) (entries : List DiscoveredEntry) : Prop :=
  match cfg.parentDataPath with
  | some parentPath =>
    ∃ items, jsonLookup doc parentPath = some (.array items) ∧ List.Forall₂ (Yields c cfg) items entries
  | none =>
    ∃ hosts port, (jsonLookup doc cfg.dataPath = some (.array (hosts.map .string)) ∨
        ∃ host, jsonLookup doc cfg.dataPath = some (.string host) ∧ hosts = [host]) ∧
      (∀ host ∈ hosts, Text.trim host ≠ "") ∧ PortIn c cfg doc port ∧ entries = hosts.map fun host => ⟨host, port⟩

variable {c cfg}

/-- The loop body over the elements of the configured array. -/
theorem entry_eq_ok {item : Json Num} {place place' : String} {entry : DiscoveredEntry} :
    (do
      let host ← cfg.entryHost item place
      let port ← cfg.entryPort c item place'
      return (⟨host, port⟩ : DiscoveredEntry)) = .ok entry ↔ Yields c cfg item entry := by
  simp only [bind_eq_ok, pure_eq_ok, entryHost_eq_ok, entryPort_eq_ok, Yields]
  constructor
  · rintro ⟨host, ⟨hhost, hne⟩, port, hport, rfl⟩
    exact ⟨hhost, hne, hport⟩
  · rintro ⟨hhost, hne, hport⟩
    exact ⟨_, ⟨hhost, hne⟩, _, hport, rfl⟩

/-- **Extraction is all or nothing**: it succeeds only if every element yields an entry, and then with these. -/
theorem extractEntries_ok {doc : Json Num} {entries : List DiscoveredEntry} :
    cfg.extractEntries c doc = .ok entries ↔ Extracts c cfg doc entries := by
  unfold extractEntries Extracts
  cases cfg.parentDataPath with
  | some parentPath =>
    simp only [bind_eq_ok, okOr_eq_ok]
    constructor
    · rintro ⟨parent, hparent, h⟩
      cases parent with
      | array items => exact ⟨items, hparent, (mapM_zipIdx_eq_ok fun _ _ _ => entry_eq_ok).mp h⟩
      | _ => simp at h
    · rintro ⟨items, hparent, h⟩
      exact ⟨_, hparent, (mapM_zipIdx_eq_ok fun _ _ _ => entry_eq_ok).mpr h⟩
  | none =>
    simp only [bind_eq_ok, okOr_eq_ok, pure_eq_ok, rootHosts_eq_ok, entryPort_eq_ok]
    constructor
    · rintro ⟨value, hvalue, hosts, ⟨hne, ⟨host, rfl, hhosts⟩ | rfl⟩, port, hport, rfl⟩
      · exact ⟨hosts, port, .inr ⟨host, hvalue, hhosts⟩, hne, hport, rfl⟩
      · exact ⟨hosts, port, .inl hvalue, hne, hport, rfl⟩
    · rintro ⟨hosts, port, hvalue | ⟨host, hvalue, hhosts⟩, hne, hport, rfl⟩
      · exact ⟨_, hvalue, hosts, ⟨hne, .inr rfl⟩, port, hport, rfl⟩
      · exact ⟨_, hvalue, hosts, ⟨hne, .inl ⟨host, rfl, hhosts⟩⟩, port, hport, rfl⟩

end ServiceDiscoveryConfig

/-! ### Polls -/

/-- `str::contains`. -/
def containsText (p s : String) : Bool := s.toList.tails.any p.toList.isPrefixOf

/-- `UpstreamAddr::try_from_url`. -/
def UpstreamAddr.tryFromUrl (c : DiscoveryCrates Num) (url : String) : Except String UpstreamAddr := do
  let uri ← (c.parseUri url).mapError fun e => s!"`{url}` is not a valid URL: {e}"
  let scheme ← match uri.scheme with
    | some "http" => .ok Scheme.http
    | some "https" => .ok Scheme.https
    | _ => .error s!"`{url}` must be an absolute http/https URL"
  let authority ← okOr uri.authority s!"`{url}` must include a host"
  return ⟨scheme, authority, Text.trimEndMatches '/' uri.path⟩

/-- `entry_addr`. -/
def entryAddr (c : DiscoveryCrates Num) (scheme : String) (entry : DiscoveredEntry) : Except String UpstreamAddr :=
  let host := Text.trim entry.host
  if containsText "://" host then UpstreamAddr.tryFromUrl c host
  else do
    let authority ← (c.parseAuthority host).mapError fun e => s!"`{host}` is not a valid host: {e}"
    let authority ← match entry.port, c.portU16 authority with
      | some port, none =>
        (c.parseAuthority s!"{host}:{port}").mapError fun e => s!"`{host}:{port}` is not a valid authority: {e}"
      | _, _ => .ok authority
    return ⟨if scheme = "https" then .https else .http, authority, ""⟩

/-- What came back from the endpoint. -/
inductive Fetched where
  /-- Nothing, in time. -/
  | timedOut
  /-- The exchange failed. -/
  | failed (error : String)
  /-- A response, and its body if it could be read. -/
  | response (status : ℕ) (body : Except String (List UInt8))

/-- `MAX_DISCOVERY_BYTES`. -/
def maxDiscoveryBytes : ℕ := 1024 * 1024

/-- The collected body of a response, `Limited`. -/
def collect (body : Except String (List UInt8)) : Except String (List UInt8) := do
  let bytes ← body
  ensure (bytes.length ≤ maxDiscoveryBytes) "length limit exceeded"
  return bytes

/-- `poll_endpoint`, on what came back. A `GET` of a valid URI with an empty body is a request. -/
def pollEndpoint (c : DiscoveryCrates Num) (cfg : ServiceDiscoveryConfig) (answer : Fetched) :
    Except String (List UpstreamAddr) := do
  let _ ← (c.parseUri cfg.endpoint).mapError fun e => s!"invalid discovery endpoint `{cfg.endpoint}`: {e}"
  match answer with
  | .timedOut => .error s!"poll timed out after {c.duration cfg.timeoutMs}"
  | .failed e => .error s!"poll failed: {e}"
  | .response status body => do
    ensure (200 ≤ status ∧ status < 300) s!"discovery endpoint answered {c.status status}"
    let bytes ← (collect body).mapError fun e => s!"reading discovery body failed: {e}"
    let doc ← (c.fromSlice bytes).mapError fun e => s!"discovery response is not JSON: {e}"
    let entries ← cfg.extractEntries c doc
    ensure (entries ≠ []) "discovery returned no addresses"
    entries.mapM (entryAddr c cfg.scheme)

/-- A poll that yields `addrs`: a `2xx` answer of at most one MiB of JSON, of which every configured element is
extracted and composed into an address. -/
def Resolves (c : DiscoveryCrates Num) (cfg : ServiceDiscoveryConfig) (answer : Fetched) (addrs : List UpstreamAddr) :
    Prop :=
  ∃ uri status bytes doc entries, c.parseUri cfg.endpoint = .ok uri ∧ answer = .response status (.ok bytes) ∧
    (200 ≤ status ∧ status < 300) ∧ bytes.length ≤ maxDiscoveryBytes ∧ c.fromSlice bytes = .ok doc ∧
    ServiceDiscoveryConfig.Extracts c cfg doc entries ∧ entries ≠ [] ∧
    List.Forall₂ (fun entry addr => entryAddr c cfg.scheme entry = .ok addr) entries addrs

/-- A poll succeeds only with all of it. -/
theorem pollEndpoint_ok {c : DiscoveryCrates Num} {cfg : ServiceDiscoveryConfig} {answer : Fetched}
    {addrs : List UpstreamAddr} : pollEndpoint c cfg answer = .ok addrs ↔ Resolves c cfg answer addrs := by
  unfold pollEndpoint Resolves
  simp only [bind_eq_ok, mapError_eq_ok]
  constructor
  · rintro ⟨uri, huri, h⟩
    cases answer with
    | timedOut => cases h
    | failed e => cases h
    | response status body =>
      simp only [collect, bind_eq_ok, mapError_eq_ok, ensure_eq_ok, decide_eq_true_eq, pure_eq_ok,
        ServiceDiscoveryConfig.extractEntries_ok, mapM_eq_ok] at h
      obtain ⟨-, hstatus, _, ⟨bytes, rfl, _, hlen, rfl⟩, doc, hdoc, entries, hentries, -, hne, haddrs⟩ := h
      exact ⟨uri, status, bytes, doc, entries, huri, rfl, hstatus, hlen, hdoc, hentries, hne, haddrs⟩
  · rintro ⟨uri, status, bytes, doc, entries, huri, rfl, hstatus, hlen, hdoc, hentries, hne, haddrs⟩
    refine ⟨uri, huri, ?_⟩
    simp only [collect, bind_eq_ok, mapError_eq_ok, ensure_eq_ok, decide_eq_true_eq, pure_eq_ok,
      ServiceDiscoveryConfig.extractEntries_ok, mapM_eq_ok]
    exact ⟨(), hstatus, bytes, ⟨bytes, rfl, (), hlen, rfl⟩, doc, hdoc, entries, hentries, (), hne, haddrs⟩

/-- No poll yields the empty list. -/
theorem Resolves.ne_nil {c : DiscoveryCrates Num} {cfg : ServiceDiscoveryConfig} {answer : Fetched}
    {addrs : List UpstreamAddr} (h : Resolves c cfg answer addrs) : addrs ≠ [] := by
  obtain ⟨_, _, _, _, entries, _, _, _, _, _, _, hne, haddrs⟩ := h
  rintro rfl
  exact hne (List.forall₂_nil_right_iff.mp haddrs)

/-! ### The pool and its three tasks -/

/-- `DiscoveryStatus`. -/
structure DiscoveryStatus where
  lastSuccessSecs : ℕ := 0
  lastError : Option String := none
  deriving DecidableEq, Repr

/-- Where the checker is in its loop. -/
inductive CheckerPhase where
  | sleeping
  /-- The probes of a round are under way. -/
  | probing
  /-- They have come back; the results from an index on have still to be applied. -/
  | applying (index : ℕ) (results : List Bool)
  deriving DecidableEq, Repr

/-- The target of an API, as the refresher, the checker and the requests share it. -/
structure Pool where
  /-- Every set there has been. -/
  sets : List TargetSet
  /-- The handle of the mounted set. -/
  mounted : ℕ
  cursor : ℕ := 0
  status : DiscoveryStatus := {}
  /-- The set the checker probes, and its streaks; one for each URI. -/
  probed : Option (ℕ × List Streak) := none
  phase : CheckerPhase := .sleeping
  /-- The picks of requests: the set each has loaded, and where it stands. -/
  picks : ℕ → Option (ℕ × Pick) := fun _ => none

namespace Pool

/-- The addresses a target is built with: "the definition's `target_list` when configured, else its single
`target_url`". -/
def seedAddrs (targetUrl : UpstreamAddr) (targetList : List UpstreamAddr) : List UpstreamAddr :=
  if targetList = [] then [targetUrl] else targetList

theorem seedAddrs_ne_nil (targetUrl : UpstreamAddr) (targetList : List UpstreamAddr) :
    seedAddrs targetUrl targetList ≠ [] := by
  unfold seedAddrs
  split_ifs with h
  · simp
  · exact h

/-- The target as it is built: "a set over `addrs`, all healthy, carrying health state iff `health_checked`". -/
def seeded (addrs : List UpstreamAddr) (healthChecked : Bool) : Pool :=
  { sets := [TargetSet.new addrs healthChecked], mounted := 0 }

/-- The mounted set. -/
def targetSet (s : Pool) : Option TargetSet := s.sets[s.mounted]?

/-- `apply_addrs`: "mounts `addrs` on the target unless they equal the current set". -/
def applyAddrs (s : Pool) (addrs : List UpstreamAddr) (now : ℕ) : Option Pool := do
  let current ← s.targetSet
  let s := if current.addrs.isEqv addrs UpstreamAddr.same then s
    else { s with sets := s.sets ++ [TargetSet.new addrs current.health.isSome], mounted := s.sets.length }
  return { s with status := ⟨now, none⟩ }

/-- `refresh_once`. -/
def refreshOnce (c : DiscoveryCrates Num) (cfg : ServiceDiscoveryConfig) (s : Pool) (answer : Fetched) (now : ℕ) :
    Option Pool :=
  match pollEndpoint c cfg answer with
  | .ok addrs => s.applyAddrs addrs now
  | .error error => some { s with status := { s.status with lastError := some error } }

/-- The checker wakes, loads the mounted set, and starts its streaks afresh if this is another set. -/
def tick (s : Pool) : Option Pool :=
  match s.phase with
  | .sleeping => do
    let current ← s.targetSet
    let probed := match s.probed with
      | some (set, streaks) =>
        if set = s.mounted then (set, streaks) else (s.mounted, List.replicate current.addrs.length {})
      | none => (s.mounted, List.replicate current.addrs.length {})
    return { s with probed := some probed, phase := if current.health.isSome then .probing else .sleeping }
  | _ => some s

/-- The probes come back, one outcome for each URI. -/
def answerProbes (s : Pool) (outcomes : ℕ → Bool) : Option Pool :=
  match s.phase with
  | .probing => do
    let (_, streaks) ← s.probed
    return { s with phase := .applying 0 ((List.range streaks.length).map outcomes) }
  | _ => some s

/-- One iteration of the checker's loop over the results. -/
def check (cfg : HealthCheckConfig) (s : Pool) : Option Pool :=
  match s.phase with
  | .applying _ [] => some { s with phase := .sleeping }
  | .applying index (healthy :: rest) => do
    let (handle, streaks) ← s.probed
    let set ← s.sets[handle]?
    let health ← set.health
    let (health, streaks) ← applyResult cfg (health, streaks) index healthy
    return { s with
      sets := s.sets.set handle { set with health := some health }
      probed := some (handle, streaks)
      phase := .applying (index + 1) rest }
  | _ => some s

/-- A request loads the mounted set. -/
def load (s : Pool) (i : ℕ) : Option Pool :=
  match s.picks i with
  | none => do
    let set ← s.targetSet
    return { s with picks := Function.update s.picks i (some (s.mounted, .drawing set.addrs.length)) }
  | some _ => some s

/-- The next draw of a request. -/
def draw (s : Pool) (i : ℕ) : Option Pool :=
  match s.picks i with
  | some (handle, .drawing left) => do
    let set ← s.sets[handle]?
    match set.draw left s.cursor with
    | (.panicked, _) => none
    | (pick, cursor) => some { s with cursor, picks := Function.update s.picks i (some (handle, pick)) }
  | _ => some s

/-- What the three tasks do. -/
inductive Act where
  /-- A poll has its answer, at a time in seconds. -/
  | poll (answer : Fetched) (now : ℕ)
  | tick
  | answerProbes (outcomes : ℕ → Bool)
  | check
  | load (i : ℕ)
  | draw (i : ℕ)

/-- One step; `none` is a panic. -/
def step (c : DiscoveryCrates Num) (dcfg : ServiceDiscoveryConfig) (hcfg : HealthCheckConfig) (s : Pool) :
    Act → Option Pool
  | .poll answer now => refreshOnce c dcfg s answer now
  | .tick => s.tick
  | .answerProbes outcomes => s.answerProbes outcomes
  | .check => s.check hcfg
  | .load i => s.load i
  | .draw i => s.draw i

/-- The run of some steps. -/
def run (c : DiscoveryCrates Num) (dcfg : ServiceDiscoveryConfig) (hcfg : HealthCheckConfig) (s : Pool)
    (acts : List Act) : Option Pool :=
  acts.foldlM (step c dcfg hcfg) s

/-! ### What every step keeps -/

/-- The invariant: every set there has been is well formed and has flags iff the seed had them, and each task holds
a set that there has been, with a streak for each of its addresses. -/
structure Inv (checked : Bool) (s : Pool) : Prop where
  sets : ∀ set ∈ s.sets, set.Wf ∧ set.health.isSome = checked
  mounted : s.mounted < s.sets.length
  probed : ∀ handle streaks, s.probed = some (handle, streaks) →
    ∃ set, s.sets[handle]? = some set ∧ streaks.length = set.addrs.length
  probing : s.phase = .probing → s.probed.isSome ∧ checked
  applying : ∀ index results, s.phase = .applying index results →
    checked ∧ ∃ handle streaks, s.probed = some (handle, streaks) ∧ index + results.length ≤ streaks.length
  picks : ∀ i handle pick, s.picks i = some (handle, pick) → handle < s.sets.length

variable {c : DiscoveryCrates Num} {dcfg : ServiceDiscoveryConfig} {checked : Bool} {s : Pool}

theorem inv_seeded {addrs : List UpstreamAddr} (h : addrs ≠ []) (checked : Bool) : Inv checked (seeded addrs checked) where
  sets set hset := by
    obtain rfl : set = TargetSet.new addrs checked := by simpa [seeded] using hset
    exact ⟨TargetSet.wf_new h checked, by cases checked <;> rfl⟩
  mounted := Nat.one_pos
  probed _ _ h := by cases h
  probing h := by cases h
  applying _ _ h := by cases h
  picks _ _ _ h := by cases h

/-- A handle of a set there has been leads to a well-formed set. -/
theorem Inv.get (h : Inv checked s) {handle : ℕ} (hlt : handle < s.sets.length) :
    ∃ set, s.sets[handle]? = some set ∧ set.Wf ∧ set.health.isSome = checked :=
  ⟨s.sets[handle], List.getElem?_eq_getElem hlt, h.sets _ (List.getElem_mem hlt)⟩

/-- A step that leaves the sets and the checker alone keeps the invariant. -/
theorem Inv.of_requests {s' : Pool} (h : Inv checked s) (hsets : s'.sets = s.sets) (hmounted : s'.mounted = s.mounted)
    (hprobed : s'.probed = s.probed) (hphase : s'.phase = s.phase)
    (hpicks : ∀ i handle pick, s'.picks i = some (handle, pick) → handle < s.sets.length) : Inv checked s' where
  sets := by rw [hsets]; exact h.sets
  mounted := by rw [hsets, hmounted]; exact h.mounted
  probed := by rw [hsets, hprobed]; exact h.probed
  probing := by rw [hphase, hprobed]; exact h.probing
  applying := by rw [hphase, hprobed]; exact h.applying
  picks := by rw [hsets]; exact hpicks

/-- **What a poll does**: nothing to the pool if it failed or yielded the addresses that are mounted, and else it
mounts what it yielded. -/
theorem refreshOnce_cases (c : DiscoveryCrates Num) (dcfg : ServiceDiscoveryConfig) (h : Inv checked s) (answer : Fetched) (now : ℕ) :
    ∃ set, s.targetSet = some set ∧
      ((∃ e, pollEndpoint c dcfg answer = .error e ∧
          refreshOnce c dcfg s answer now = some { s with status := { s.status with lastError := some e } }) ∨
        (∃ addrs, pollEndpoint c dcfg answer = .ok addrs ∧ set.addrs.isEqv addrs UpstreamAddr.same ∧
          refreshOnce c dcfg s answer now = some { s with status := ⟨now, none⟩ }) ∨
        (∃ addrs, pollEndpoint c dcfg answer = .ok addrs ∧ ¬ set.addrs.isEqv addrs UpstreamAddr.same ∧
          refreshOnce c dcfg s answer now = some { s with
            sets := s.sets ++ [TargetSet.new addrs checked]
            mounted := s.sets.length
            status := ⟨now, none⟩ })) := by
  obtain ⟨set, hset, -, hchecked⟩ := h.get h.mounted
  refine ⟨set, hset, ?_⟩
  unfold refreshOnce applyAddrs targetSet
  cases hpoll : pollEndpoint c dcfg answer with
  | error e => exact .inl ⟨e, rfl, rfl⟩
  | ok addrs =>
    by_cases hsame : set.addrs.isEqv addrs UpstreamAddr.same
    · exact .inr (.inl ⟨addrs, rfl, hsame, by simp [hset, hsame]⟩)
    · exact .inr (.inr ⟨addrs, rfl, hsame, by simp [hset, hsame, hchecked]⟩)

theorem inv_refreshOnce (h : Inv checked s) (answer : Fetched) (now : ℕ) :
    ∃ s', refreshOnce c dcfg s answer now = some s' ∧ Inv checked s' := by
  obtain ⟨set, -, ⟨e, -, hrun⟩ | ⟨addrs, -, -, hrun⟩ | ⟨addrs, hpoll, -, hrun⟩⟩ :=
    refreshOnce_cases c dcfg h answer now
  · exact ⟨_, hrun, h.of_requests rfl rfl rfl rfl h.picks⟩
  · exact ⟨_, hrun, h.of_requests rfl rfl rfl rfl h.picks⟩
  · have hne : addrs ≠ [] := (pollEndpoint_ok.mp hpoll).ne_nil
    refine ⟨_, hrun, ?_, ?_, ?_, h.probing, h.applying, ?_⟩
    · intro set hset
      rcases List.mem_append.mp hset with hold | hnew
      · exact h.sets set hold
      · rw [List.mem_singleton.mp hnew]
        exact ⟨TargetSet.wf_new hne checked, by cases checked <;> rfl⟩
    · simp
    · intro handle streaks hprobed
      obtain ⟨set, hset, hlen⟩ := h.probed handle streaks hprobed
      exact ⟨set, by rw [List.getElem?_append_left (List.getElem?_eq_some_iff.mp hset).1]; exact hset, hlen⟩
    · intro i handle pick hpick
      have := h.picks i handle pick hpick
      simp only [List.length_append, List.length_singleton]
      omega

theorem inv_tick (h : Inv checked s) : ∃ s', s.tick = some s' ∧ Inv checked s' := by
  unfold tick
  cases hphase : s.phase with
  | probing => exact ⟨s, rfl, h⟩
  | applying index results => exact ⟨s, rfl, h⟩
  | sleeping =>
    obtain ⟨set, hset, -, hchecked⟩ := h.get h.mounted
    refine ⟨_, by simp only [targetSet, hset, Option.bind_eq_bind, Option.bind_some]; rfl, ?_⟩
    refine ⟨h.sets, h.mounted, ?_, ?_, ?_, h.picks⟩
    · intro handle streaks hprobed
      have hfresh : (List.replicate set.addrs.length ({} : Streak)).length = set.addrs.length := by simp
      cases hold : s.probed with
      | none =>
        simp only [hold, Option.some.injEq, Prod.mk.injEq] at hprobed
        obtain ⟨rfl, rfl⟩ := hprobed
        exact ⟨set, hset, hfresh⟩
      | some p =>
        obtain ⟨handle', streaks'⟩ := p
        simp only [hold, Option.some.injEq] at hprobed
        split_ifs at hprobed with hsame
        · cases hprobed
          exact h.probed _ _ hold
        · cases hprobed
          exact ⟨set, hset, hfresh⟩
    · intro hprobing
      refine ⟨rfl, ?_⟩
      by_contra hnot
      simp [hchecked, hnot] at hprobing
    · intro index results happlying
      exfalso
      cases hh : set.health.isSome <;> simp [hh] at happlying

theorem inv_answerProbes (h : Inv checked s) (outcomes : ℕ → Bool) :
    ∃ s', s.answerProbes outcomes = some s' ∧ Inv checked s' := by
  unfold answerProbes
  cases hphase : s.phase with
  | sleeping => exact ⟨s, rfl, h⟩
  | applying index results => exact ⟨s, rfl, h⟩
  | probing =>
    obtain ⟨hsome, hchecked⟩ := h.probing hphase
    obtain ⟨⟨handle, streaks⟩, hprobed⟩ := Option.isSome_iff_exists.mp hsome
    refine ⟨{ s with phase := .applying 0 ((List.range streaks.length).map outcomes) }, by simp [hprobed],
      h.sets, h.mounted, h.probed, ?_, ?_, h.picks⟩
    · intro hprobing
      cases hprobing
    · rintro index results ⟨⟩
      exact ⟨hchecked, handle, streaks, hprobed, by simp⟩

/-- What the checker's loop changes: the flags of the set it has probed, and its own streaks. -/
theorem check_cases (hcfg : HealthCheckConfig) (h : Inv checked s) {index : ℕ} {healthy : Bool} {rest : List Bool}
    (hphase : s.phase = .applying index (healthy :: rest)) :
    ∃ handle streaks set health streaks', s.probed = some (handle, streaks) ∧ s.sets[handle]? = some set ∧
      health.flags.length = set.addrs.length ∧ streaks'.length = streaks.length ∧
      s.check hcfg = some { s with
        sets := s.sets.set handle { set with health := some health }
        probed := some (handle, streaks')
        phase := .applying (index + 1) rest } := by
  obtain ⟨hchecked, handle, streaks, hprobed, hle⟩ := h.applying index _ hphase
  obtain ⟨set, hset, hlen⟩ := h.probed handle streaks hprobed
  obtain ⟨hwf, hsome⟩ := h.sets set (List.mem_of_getElem? hset)
  obtain ⟨health, hhealth⟩ := Option.isSome_iff_exists.mp (hsome.trans hchecked)
  have hflags : health.flags.length = set.addrs.length := hwf.flags health hhealth
  have hindex : index < set.addrs.length := by
    rw [List.length_cons] at hle
    omega
  have hcell : cell (health, streaks) index = some (streaks[index], health.flags[index]) :=
    cell_eq_some.mpr ⟨List.getElem?_eq_getElem _, List.getElem?_eq_getElem _⟩
  obtain ⟨p, hrun, hflags', hstreaks', -⟩ := applyResult_of_cell hcfg hcell healthy
  exact ⟨handle, streaks, set, p.1, p.2, hprobed, hset, hflags'.trans hflags, hstreaks',
    by simp [check, hphase, hprobed, hset, hhealth, hrun]⟩

theorem inv_check (hcfg : HealthCheckConfig) (h : Inv checked s) : ∃ s', s.check hcfg = some s' ∧ Inv checked s' := by
  cases hphase : s.phase with
  | sleeping => exact ⟨s, by simp [check, hphase], h⟩
  | probing => exact ⟨s, by simp [check, hphase], h⟩
  | applying index results =>
    cases results with
    | nil =>
      refine ⟨{ s with phase := .sleeping }, by simp [check, hphase], h.sets, h.mounted, h.probed, ?_, ?_, h.picks⟩
      · intro hprobing
        cases hprobing
      · intro index results happlying
        cases happlying
    | cons healthy rest =>
      obtain ⟨handle, streaks, set, health, streaks', hprobed, hset, hflags, hstreaks', hrun⟩ :=
        check_cases hcfg h hphase
      obtain ⟨hchecked, handle', streaks'', hprobed', hle⟩ := h.applying index _ hphase
      rw [hprobed] at hprobed'
      cases hprobed'
      have hlt : handle < s.sets.length := (List.getElem?_eq_some_iff.mp hset).1
      refine ⟨_, hrun, ?_, ?_, ?_, ?_, ?_, ?_⟩
      · intro set' hset'
        rcases List.mem_or_eq_of_mem_set hset' with hold | rfl
        · exact h.sets set' hold
        · refine ⟨⟨(h.sets set (List.mem_of_getElem? hset)).1.addrs_ne_nil, ?_⟩, hchecked.symm⟩
          rintro _ ⟨⟩
          exact hflags
      · rw [List.length_set]
        exact h.mounted
      · rintro _ _ ⟨⟩
        obtain ⟨set', hset', hlen⟩ := h.probed handle streaks hprobed
        rw [hset] at hset'
        cases hset'
        exact ⟨{ set with health := some health }, List.getElem?_set_self hlt, hstreaks'.trans hlen⟩
      · intro hprobing
        cases hprobing
      · rintro _ _ ⟨⟩
        refine ⟨hchecked, handle, streaks', rfl, ?_⟩
        rw [List.length_cons] at hle
        omega
      · intro i handle' pick hpick
        rw [List.length_set]
        exact h.picks i handle' pick hpick

/-- A pick that holds a set there has been keeps the invariant. -/
theorem Inv.update_pick (h : Inv checked s) {handle : ℕ} (hlt : handle < s.sets.length) (cursor i : ℕ) (pick : Pick) :
    Inv checked { s with cursor, picks := Function.update s.picks i (some (handle, pick)) } := by
  refine h.of_requests rfl rfl rfl rfl fun k handle' pick' hk => ?_
  dsimp only at hk
  by_cases hki : k = i
  · subst hki
    rw [Function.update_self] at hk
    cases hk
    exact hlt
  · rw [Function.update_of_ne hki] at hk
    exact h.picks k handle' pick' hk

theorem inv_load (h : Inv checked s) (i : ℕ) : ∃ s', s.load i = some s' ∧ Inv checked s' := by
  unfold load
  cases hpick : s.picks i with
  | some p => exact ⟨s, rfl, h⟩
  | none =>
    obtain ⟨set, hset, -⟩ := h.get h.mounted
    exact ⟨_, by simp only [targetSet, hset, Option.bind_eq_bind, Option.bind_some]; rfl,
      h.update_pick h.mounted s.cursor i (.drawing set.addrs.length)⟩

/-- A draw from a well-formed set moves the pick on. -/
theorem draw_eq {i handle left : ℕ} {set : TargetSet} (hpick : s.picks i = some (handle, .drawing left))
    (hset : s.sets[handle]? = some set) (hwf : set.Wf) :
    s.draw i = some { s with
      cursor := (set.draw left s.cursor).2
      picks := Function.update s.picks i (some (handle, (set.draw left s.cursor).1)) } := by
  have hnot := TargetSet.draw_ne_panicked hwf left s.cursor
  cases hdraw : set.draw left s.cursor with
  | mk pick cursor =>
    rw [hdraw] at hnot
    cases pick with
    | panicked => exact absurd rfl hnot
    | drawing left => simp [draw, hpick, hset, hdraw]
    | returned index => simp [draw, hpick, hset, hdraw]

theorem inv_draw (h : Inv checked s) (i : ℕ) : ∃ s', s.draw i = some s' ∧ Inv checked s' := by
  cases hpick : s.picks i with
  | none => exact ⟨s, by simp [draw, hpick], h⟩
  | some p =>
    obtain ⟨handle, pick⟩ := p
    cases pick with
    | returned index => exact ⟨s, by simp [draw, hpick], h⟩
    | panicked => exact ⟨s, by simp [draw, hpick], h⟩
    | drawing left =>
      have hlt : handle < s.sets.length := h.picks i handle _ hpick
      obtain ⟨set, hset, hwf, -⟩ := h.get hlt
      exact ⟨_, draw_eq hpick hset hwf, h.update_pick hlt _ i _⟩

/-- **No step panics, and each keeps the invariant.** -/
theorem inv_step (c : DiscoveryCrates Num) (dcfg : ServiceDiscoveryConfig) (hcfg : HealthCheckConfig)
    (h : Inv checked s) (act : Act) : ∃ s', step c dcfg hcfg s act = some s' ∧ Inv checked s' := by
  cases act with
  | poll answer now => exact inv_refreshOnce h answer now
  | tick => exact inv_tick h
  | answerProbes outcomes => exact inv_answerProbes h outcomes
  | check => exact inv_check hcfg h
  | load i => exact inv_load h i
  | draw i => exact inv_draw h i

theorem inv_run (c : DiscoveryCrates Num) (dcfg : ServiceDiscoveryConfig) (hcfg : HealthCheckConfig)
    (h : Inv checked s) (acts : List Act) : ∃ s', run c dcfg hcfg s acts = some s' ∧ Inv checked s' := by
  induction acts generalizing s with
  | nil => exact ⟨s, rfl, h⟩
  | cons act acts ih =>
    obtain ⟨s₁, hstep, h₁⟩ := inv_step c dcfg hcfg h act
    obtain ⟨s₂, hrun, h₂⟩ := ih h₁
    exact ⟨s₂, by simp only [run, List.foldlM_cons, hstep] at hrun ⊢; exact hrun, h₂⟩

/-- "A swap racing one probe round at worst writes flags into a set that is no longer mounted". -/
theorem check_of_stale (hcfg : HealthCheckConfig) (h : Inv checked s) {handle : ℕ} {streaks : List Streak}
    (hprobed : s.probed = some (handle, streaks)) (hstale : handle ≠ s.mounted) {s' : Pool}
    (hrun : s.check hcfg = some s') : s'.targetSet = s.targetSet := by
  cases hphase : s.phase with
  | sleeping =>
    obtain rfl : s = s' := by simpa [check, hphase] using hrun
    rfl
  | probing =>
    obtain rfl : s = s' := by simpa [check, hphase] using hrun
    rfl
  | applying index results =>
    cases results with
    | nil =>
      simp only [check, hphase, Option.some.injEq] at hrun
      rw [← hrun]
      rfl
    | cons healthy rest =>
      obtain ⟨handle', _, set, health, _, hprobed', _, _, _, hrun'⟩ := check_cases hcfg h hphase
      obtain ⟨rfl, -⟩ := Prod.mk.inj (Option.some.inj (hprobed.symm.trans hprobed'))
      rw [hrun'] at hrun
      rw [← Option.some.inj hrun]
      exact List.getElem?_set_ne hstale

/-- **Discovery never harms the pool**: from seeds on, in every order of polls, checker steps and picks, nothing
panics, the mounted set has an address, flags iff the seeds had them and a flag for each address. A poll that fails
leaves every set as it is, and so does one that yields the mounted addresses; one that yields others mounts
these, in order and all healthy. A poll succeeds only if every configured element yields its entry. -/
theorem discovery_keeps_pool (c : DiscoveryCrates Num) (dcfg : ServiceDiscoveryConfig) (hcfg : HealthCheckConfig)
    (targetUrl : UpstreamAddr) (targetList : List UpstreamAddr) (checked : Bool) (acts : List Act) :
    ∃ s set, run c dcfg hcfg (seeded (seedAddrs targetUrl targetList) checked) acts = some s ∧
      s.targetSet = some set ∧ set.addrs ≠ [] ∧ set.health.isSome = checked ∧
      (∀ health ∈ set.health, health.flags.length = set.addrs.length) ∧
      (∀ answer now, ∃ s', step c dcfg hcfg s (.poll answer now) = some s' ∧
        (∀ e, pollEndpoint c dcfg answer = .error e → s'.mounted = s.mounted ∧ s'.sets = s.sets) ∧
        (∀ addrs, pollEndpoint c dcfg answer = .ok addrs → set.addrs.isEqv addrs UpstreamAddr.same →
          s'.mounted = s.mounted ∧ s'.sets = s.sets) ∧
        (∀ addrs, pollEndpoint c dcfg answer = .ok addrs → ¬ set.addrs.isEqv addrs UpstreamAddr.same →
          s'.targetSet = some ⟨addrs, if checked then some ⟨List.replicate addrs.length true⟩ else none⟩)) ∧
      (∀ answer addrs, pollEndpoint c dcfg answer = .ok addrs ↔ Resolves c dcfg answer addrs) ∧
      ∀ doc entries, dcfg.extractEntries c doc = .ok entries ↔ ServiceDiscoveryConfig.Extracts c dcfg doc entries := by
  obtain ⟨s, hrun, hinv⟩ := inv_run c dcfg hcfg (inv_seeded (seedAddrs_ne_nil targetUrl targetList) checked) acts
  obtain ⟨set, hset, hwf, hchecked⟩ := hinv.get hinv.mounted
  refine ⟨s, set, hrun, hset, hwf.addrs_ne_nil, hchecked, hwf.flags, fun answer now => ?_, fun _ _ => pollEndpoint_ok,
    fun _ _ => ServiceDiscoveryConfig.extractEntries_ok⟩
  obtain ⟨set', hset', hcases⟩ := refreshOnce_cases c dcfg hinv answer now
  obtain rfl : set = set' := Option.some.inj (hset.symm.trans hset')
  rcases hcases with ⟨e, hpoll, hstep⟩ | ⟨addrs, hpoll, hsame, hstep⟩ | ⟨addrs, hpoll, hother, hstep⟩
  · refine ⟨_, hstep, fun _ _ => ⟨rfl, rfl⟩, fun addrs h => ?_, fun addrs h => ?_⟩
    all_goals rw [hpoll] at h; cases h
  · refine ⟨_, hstep, fun e h => ?_, fun _ _ _ => ⟨rfl, rfl⟩, fun addrs' h hnot => ?_⟩
    · rw [hpoll] at h
      cases h
    · rw [hpoll] at h
      cases h
      exact absurd hsame hnot
  · refine ⟨_, hstep, fun e h => ?_, fun addrs' h hsame => ?_, fun addrs' h _ => ?_⟩
    · rw [hpoll] at h
      cases h
    · rw [hpoll] at h
      cases h
      exact absurd hsame hother
    · rw [hpoll] at h
      cases h
      exact List.getElem?_concat_length

end Pool

end G2way.Proxy
