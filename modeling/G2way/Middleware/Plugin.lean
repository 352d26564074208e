import G2way.Lib.Json
import G2way.Middleware.Cors

/-!
# Plugin hooks

The plugin layer, `g2-middleware/src/plugin.rs`, and the configuration of plugins,
`g2-core/src/plugins.rs`: "Hooks in a list run in declared order; each may mutate request headers or
short-circuit with a full response. A hook failure rejects the request with `500` — plugins fail
closed."

## The model

A loaded plugin is any function of what it may observe of a request (`PluginExec`). The ids of the API
are those that the outermost layer stamps on every request of its chain.

## What is proved

`hooks_in_order`: each plugin of a slot sees the request as the plugins before it left it; when all of
them let it go on, it is the client's request but for its headers, and each header is as the last plugin
that named it said; otherwise the first plugin that did not answers, or fails, and no other is asked.
-/

namespace G2way.Middleware.Plugin

open G2way.Core G2way.Lib G2way.Lib.Result

/-- `json_error`: `{"error": "<message>"}`. -/
def jsonError (status : ℕ) (message : String) : Cors.Response where
  status
  headers := [("content-type", headerValue "application/json")]
  body := Text.utf8 ((Json.object [("error", .string message)]).toText fun n : ℕ => toString n)

/-! ### Configuration -/

/-- `MAX_TIMEOUT_MS`. -/
def maxTimeoutMs : ℕ := 1000

/-- `MIN_MEMORY_BYTES`: a page. -/
def minMemoryBytes : ℕ := 64 * 1024

/-- `MAX_MEMORY_BYTES`. -/
def maxMemoryBytes : ℕ := 256 * 1024 * 1024

/-- `PluginRef`. -/
structure PluginRef (Num : Type) where
  name : String
  path : String
  /-- What the guest is handed. -/
  config : Json Num
  timeoutMs : Option ℕ := none
  maxMemoryBytes : Option ℕ := none

/-- `effective_timeout_ms`. -/
def PluginRef.effectiveTimeoutMs {Num : Type} (plugin : PluginRef Num) : ℕ := plugin.timeoutMs.getD 50

/-- `effective_max_memory_bytes`. -/
def PluginRef.effectiveMaxMemoryBytes {Num : Type} (plugin : PluginRef Num) : ℕ :=
  plugin.maxMemoryBytes.getD (16 * 1024 * 1024)

/-- `check_module_path`. A path that begins with a slash is absolute, and its components are what stands between the
slashes. -/
def checkModulePath (path : String) : Except String Unit := do
  ensure (Text.trim path ≠ "") "must not be empty"
  ensure (!path.toList.contains '\\') "must use `/` separators (backslash rejected)"
  ensure (!path.toList.contains '\x00') "must not contain NUL bytes"
  ensure (!Text.startsWith "/" path) "must be relative to the plugins directory"
  ensure (!(Text.split '/' path).contains "..") "must not contain `..` components"

/-- `PluginRef::validate`. -/
def PluginRef.validate {Num : Type} (plugin : PluginRef Num) (list : String) (index : ℕ) : Except String Unit := do
  let fail (reason : String) := "`plugins." ++ list ++ "[" ++ toString index ++ "]` " ++ reason
  ensure (Text.trim plugin.name ≠ "") (fail "`name` must not be empty")
  (checkModulePath plugin.path).mapError fun reason => fail ("`path` " ++ reason)
  ifSome plugin.timeoutMs fun ms =>
    ensure (ms ≠ 0 && ms ≤ maxTimeoutMs)
      (fail ("`timeout_ms` must be between 1 and " ++ toString maxTimeoutMs ++ " (got " ++ toString ms ++ ")"))
  ifSome plugin.maxMemoryBytes fun bytes =>
    ensure (minMemoryBytes ≤ bytes && bytes ≤ Plugin.maxMemoryBytes)
      (fail ("`max_memory_bytes` must be between " ++ toString minMemoryBytes ++ " and " ++
        toString Plugin.maxMemoryBytes ++ " (got " ++ toString bytes ++ ")"))

/-- `PluginsConfig`. -/
structure PluginsConfig (Num : Type) where
  /-- Run before authentication. -/
  pre : List (PluginRef Num) := []
  /-- Run after authentication and rate limiting. -/
  post : List (PluginRef Num) := []

/-- `PluginsConfig::validate`. -/
def PluginsConfig.validate {Num : Type} (plugins : PluginsConfig Num) : Except String Unit := do
  ensure (!(plugins.pre.isEmpty && plugins.post.isEmpty))
    "`plugins` must declare at least one `pre` or `post` hook (omit the block entirely for no plugins)"
  plugins.pre.zipIdx.forM fun (plugin, index) => plugin.validate "pre" index
  plugins.post.zipIdx.forM fun (plugin, index) => plugin.validate "post" index

/-! ### Hooks -/

/-- `HookKind`. -/
inductive HookKind where
  /-- Before authentication. -/
  | pre
  /-- After authentication and rate limiting. -/
  | post
  deriving DecidableEq, Repr

/-- `as_str`. -/
def HookKind.asStr : HookKind → String
  | .pre => "pre"
  | .post => "post"

/-- `HookInvocation`: "everything a plugin may observe about one request". -/
structure HookInvocation where
  kind : HookKind
  apiId : String
  orgId : String
  method : String
  path : String
  query : Option String
  headers : HeaderMap
  clientAddr : Option String
  sessionAlias : Option String
  deriving DecidableEq, Repr

/-- What a plugin changes of the headers of a request that goes on. -/
structure Mutation where
  setHeaders : HeaderMap
  removeHeaders : List String
  deriving DecidableEq, Repr

/-- `HookOutcome`. -/
inductive HookOutcome where
  /-- Let the request continue. -/
  | continue_ (mutation : Mutation)
  /-- Answer it. -/
  | respond (resp : Cors.Response)
  deriving DecidableEq, Repr

/-- `PluginExec`: a loaded plugin. -/
structure PluginExec where
  name : String
  run : HookInvocation → Except String HookOutcome

/-- `PluginLayer`. -/
structure PluginLayer where
  kind : HookKind
  plugins : List PluginExec

/-- `PluginLoader::load`. -/
abbrev PluginLoader (Num : Type) := String → HookKind → PluginRef Num → Except String PluginExec

/-- `PluginLayer::from_config`. -/
def PluginLayer.fromConfig {Num : Type} (kind : HookKind) (refs : List (PluginRef Num))
    (loader : Option (PluginLoader Num)) (apiId : String) : Except InvalidApiDefinition (Option PluginLayer) :=
  if refs.isEmpty then .ok none
  else do
    let load ← okOr loader ⟨apiId, "definition declares `plugins` but the gateway has no plugins directory configured " ++
      "(start it with `--plugins-dir`)"⟩
    let plugins ← refs.mapM fun plugin =>
      (load apiId kind plugin).mapError fun reason =>
        (⟨apiId, "plugin `" ++ plugin.name ++ "` failed to load: " ++ reason⟩ : InvalidApiDefinition)
    return some ⟨kind, plugins⟩

/-! ### The layer -/

/-- The headers after a mutation: "removals first, then insert-replace sets". -/
def Mutation.apply (m : Mutation) (headers : HeaderMap) : HeaderMap :=
  m.setHeaders.foldl (fun h p => h.insert p.1 p.2) (m.removeHeaders.foldl HeaderMap.remove headers)

section Run

variable (kind : HookKind) (apiId orgId : String)

/-- What a plugin is asked (`run_one`). -/
def invocation (req : Request) : HookInvocation where
  kind
  apiId
  orgId
  method := req.method
  path := req.path
  query := req.query
  headers := req.headers
  clientAddr := req.extensions.clientAddr
  sessionAlias :=
    match kind with
    | .pre => none
    | .post => req.extensions.session.bind fun ctx => ctx.session.aliasName

/-- `Plugin::call`: the request passed to the layers below, or the answer. -/
def runHooks : List PluginExec → Request → Except Cors.Response Request
  | [], req => .ok req
  | exec :: rest, req =>
    match exec.run (invocation kind apiId orgId req) with
    | .ok (.continue_ m) => runHooks rest { req with headers := m.apply req.headers }
    | .ok (.respond resp) => .error resp
    | .error _ => .error (jsonError 500 "plugin execution failed")

end Run

/-! ### What plugins make of a request -/

/-- The headers after some mutations. -/
def mutated (headers : HeaderMap) (ms : List Mutation) : HeaderMap := ms.foldl (fun h m => m.apply h) headers

/-- What a mutation makes of a header, if it names it: its value, or that there is none. -/
def Mutation.writes (m : Mutation) (name : String) : Option (Option HeaderValue) :=
  match (HeaderMap.getAll m.setHeaders name).getLast? with
  | some value => some (some value)
  | none => if name ∈ m.removeHeaders then some none else none

/-- What the last of some mutations that names a header makes of it. -/
def lastWritten (ms : List Mutation) (name : String) : Option (Option HeaderValue) :=
  ms.reverse.findSome? fun m => m.writes name

/-- The plugins were asked one after the other, and each let the request go on with its mutation. -/
structure Continued (kind : HookKind) (apiId orgId : String) (req : Request) (plugins : List PluginExec)
    (ms : List Mutation) : Prop where
  length : ms.length = plugins.length
  each : ∀ i (exec : PluginExec) m, plugins[i]? = some exec → ms[i]? = some m →
    exec.run (invocation kind apiId orgId { req with headers := mutated req.headers (ms.take i) }) = .ok (.continue_ m)

/-- A plugin answers with this response, or fails. -/
def Decides (exec : PluginExec) (asked : HookInvocation) (resp : Cors.Response) : Prop :=
  exec.run asked = .ok (.respond resp) ∨
    (∃ reason, exec.run asked = .error reason) ∧ resp = jsonError 500 "plugin execution failed"

/-- What the plugins of a slot make of a request. -/
structure InOrder (kind : HookKind) (apiId orgId : String) (req : Request) (plugins : List PluginExec)
    (result : Except Cors.Response Request) : Prop where
  /-- A request goes on if every plugin lets it, with the headers they leave. -/
  passed : ∀ req', result = .ok req' → ∃ ms, Continued kind apiId orgId req plugins ms ∧
    req' = { req with headers := mutated req.headers ms } ∧
    ∀ name, req'.headers.getAll name = (lastWritten ms name).elim (req.headers.getAll name) Option.toList
  /-- Otherwise the first plugin that does not decides. -/
  answered : ∀ resp, result = .error resp → ∃ before exec later ms, plugins = before ++ exec :: later ∧
    Continued kind apiId orgId req before ms ∧
    Decides exec (invocation kind apiId orgId { req with headers := mutated req.headers ms }) resp

section

variable {kind : HookKind} {apiId orgId : String} {req : Request}

theorem getAll_apply (m : Mutation) (headers : HeaderMap) (name : String) :
    (m.apply headers).getAll name = (m.writes name).elim (headers.getAll name) Option.toList := by
  rw [Mutation.apply, HeaderMap.getAll_foldl_insert, HeaderMap.getAll_foldl_remove, Mutation.writes]
  cases (HeaderMap.getAll m.setHeaders name).getLast? with
  | some value => rfl
  | none =>
    by_cases hname : name ∈ m.removeHeaders
    · simp [hname]
    · simp [hname]

/-- **The last word on a header counts.** -/
theorem getAll_mutated (headers : HeaderMap) (ms : List Mutation) (name : String) :
    (mutated headers ms).getAll name = (lastWritten ms name).elim (headers.getAll name) Option.toList := by
  induction ms using List.reverseRecOn with
  | nil => rfl
  | append_singleton ms m ih =>
    have hlast : mutated headers (ms ++ [m]) = m.apply (mutated headers ms) := by
      rw [mutated, List.foldl_append]
      rfl
    have hwritten : lastWritten (ms ++ [m]) name = (m.writes name).or (lastWritten ms name) := by
      rw [lastWritten, List.reverse_append, List.reverse_singleton, List.singleton_append, List.findSome?_cons, lastWritten]
      cases m.writes name <;> rfl
    rw [hlast, getAll_apply, ih, hwritten]
    cases m.writes name <;> rfl

theorem Continued.nil (req : Request) : Continued kind apiId orgId req [] [] where
  length := rfl
  each i exec m h := by cases h

theorem Continued.cons {exec : PluginExec} {plugins : List PluginExec} {m : Mutation} {ms : List Mutation}
    (hexec : exec.run (invocation kind apiId orgId req) = .ok (.continue_ m))
    (h : Continued kind apiId orgId { req with headers := m.apply req.headers } plugins ms) :
    Continued kind apiId orgId req (exec :: plugins) (m :: ms) where
  length := congrArg (· + 1) h.length
  each i e n he hn := by
    cases i with
    | zero =>
      obtain rfl := Option.some.inj he
      obtain rfl := Option.some.inj hn
      exact hexec
    | succ i => exact h.each i e n he hn

/-- A request goes on as the plugins leave it. -/
theorem passed_runHooks {plugins : List PluginExec} {req' : Request}
    (h : runHooks kind apiId orgId plugins req = .ok req') :
    ∃ ms, Continued kind apiId orgId req plugins ms ∧ req' = { req with headers := mutated req.headers ms } := by
  induction plugins generalizing req with
  | nil =>
    obtain rfl := Except.ok.inj h
    exact ⟨[], .nil req, rfl⟩
  | cons exec plugins ih =>
    rw [runHooks] at h
    rcases hrun : exec.run (invocation kind apiId orgId req) with reason | m | resp
    · simp only [hrun] at h
      cases h
    · simp only [hrun] at h
      obtain ⟨ms, hms, rfl⟩ := ih h
      exact ⟨m :: ms, hms.cons hrun, rfl⟩
    · simp only [hrun] at h
      cases h

/-- It is answered by the first plugin that does not let it go on. -/
theorem answered_runHooks {plugins : List PluginExec} {resp : Cors.Response}
    (h : runHooks kind apiId orgId plugins req = .error resp) :
    ∃ before exec later ms, plugins = before ++ exec :: later ∧ Continued kind apiId orgId req before ms ∧
      Decides exec (invocation kind apiId orgId { req with headers := mutated req.headers ms }) resp := by
  induction plugins generalizing req with
  | nil => cases h
  | cons exec plugins ih =>
    rw [runHooks] at h
    rcases hrun : exec.run (invocation kind apiId orgId req) with reason | m | resp'
    · simp only [hrun] at h
      obtain rfl := Except.error.inj h
      exact ⟨[], exec, plugins, [], rfl, .nil req, .inr ⟨⟨reason, hrun⟩, rfl⟩⟩
    · simp only [hrun] at h
      obtain ⟨before, e, later, ms, rfl, hms, hlast⟩ := ih h
      exact ⟨exec :: before, e, later, m :: ms, rfl, hms.cons hrun, hlast⟩
    · simp only [hrun] at h
      obtain rfl := Except.error.inj h
      exact ⟨[], exec, plugins, [], rfl, .nil req, .inl hrun⟩

end

/-- **Hooks run in order.** Whatever the plugins of a slot are, and whatever they say. -/
theorem hooks_in_order (kind : HookKind) (apiId orgId : String) (plugins : List PluginExec) (req : Request) :
    InOrder kind apiId orgId req plugins (runHooks kind apiId orgId plugins req) where
  passed req' h := by
    obtain ⟨ms, hms, rfl⟩ := passed_runHooks h
    exact ⟨ms, hms, rfl, getAll_mutated req.headers ms⟩
  answered resp h := answered_runHooks h

end G2way.Middleware.Plugin
