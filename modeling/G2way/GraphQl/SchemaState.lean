import G2way.Core.ApiDefinition
import G2way.GraphQl.Compose
import G2way.GraphQl.Introspection
import G2way.GraphQl.Layer

/-!
# The schema state of a GraphQL API

"The schema-dependent half" of the layer's shared state, "swapped wholesale by a
successful schema sync (seeded from `graphql.schema` at route build)". It is made in
two places: `GraphQlLayer::from_config` of `g2-middleware/src/graphql.rs`, which
also compiles the persisted endpoints, and `GraphQlSyncHandle::apply_introspection`
of `graphql_sync.rs`, which validates the same endpoints' operations again.

## The model

What `apollo_compiler`, `regex` and the URL parser make of a text is a parameter, and
so is whether the engine of a mode that executes compiles. The two lists that
`from_config` fills are kept apart, as the source keeps them: the endpoints in
`Shared`, their documents in `SchemaState`.

## What is proved

A state is `Coherent` with a list of endpoints if its hash is that of its SDL, its
schema is the SDL's compilation, and its documents are the endpoints' operations,
validated against that schema, one for one. `coherent_of_fromConfig` and
`coherent_of_applyIntrospection`: both places make such states only.
-/

namespace G2way.GraphQl

open G2way.Core G2way.Lib G2way.Lib.Result

variable {Num Sch : Type}

/-! ### Configuration -/

/-- `PersistedQuery`. -/
structure PersistedQuery (Num : Type) where
  method : String
  path : String
  operation : String
  operationName : Option String := none
  vars : Option (Json Num) := none

/-- The blocks of a `graphql` block: the schema, and what goes with it. -/
structure GraphQlBlocks (Num : Type) where
  schema : String
  introspectionEnabled : Bool := true
  /-- The path of the playground, relative to the listen path. -/
  playground : Option String := none
  persistedQueries : List (PersistedQuery Num) := []
  /-- There is a `schema_sync` block. -/
  schemaSync : Bool := false
  /-- The name and the SDL of each subgraph (`composition_inputs`). -/
  supergraph : Option (List (String × String)) := none

/-- A schema that was parsed and not validated, as far as it is looked at. -/
structure ParsedSchema where
  directiveDefinitions : List Name
  types : List Name
  queryRoot : Option Name
  /-- The object types with a `@key`, in order. -/
  entities : List Name
  /-- The fields of an object type. -/
  objectFields : Name → Option (List Name)

/-- What the layer asks of the crates; `Sch` is a validated schema. -/
structure SchemaCrates (Num Sch : Type) where
  serde : Serde Num
  /-- What is wrong with an answer that is no introspection result. -/
  describeValue : Json Num → String
  /-- What is wrong with a text that is not JSON. -/
  describeText : String → String
  /-- `Schema::parse`, or the diagnostics. -/
  parse : String → Except (List String) ParsedSchema
  /-- `Schema::parse_and_validate`, or the diagnostics. -/
  compile : String → Except (List String) Sch
  /-- `ExecutableDocument::parse_and_validate`, or the diagnostics. -/
  validate : Sch → String → Except (List String) ValidDocument
  /-- `hash_key`. -/
  hashKey : String → String
  /-- `Regex::new`: the named groups of a match. -/
  regex : String → Except String (String → Option (List (String × String)))
  /-- `str::parse::<Uri>`. -/
  parseUri : String → Except String Unit
  /-- `parse_subgraph_schema`. -/
  parseSubgraphSchema : String → Except String ValidSubgraph
  /-- The text of the types of a composed schema. -/
  print : List (Name × TypeDef) → String
  /-- `UdgEngine::compile`. -/
  compileUdg : GraphQlConfig (GraphQlBlocks Num) → Except String Unit
  /-- `SupergraphEngine::compile`. -/
  compileSupergraph : ComposedSupergraph → Except String Unit

/-! ### The effective schema -/

/-- `FEDERATION_DIRECTIVES`. -/
def federationDirectives : List (Name × String) :=
  [("key", "directive @key(fields: _FieldSet!, resolvable: Boolean = true) repeatable on OBJECT | INTERFACE"),
   ("external", "directive @external on OBJECT | FIELD_DEFINITION"),
   ("requires", "directive @requires(fields: _FieldSet!) on FIELD_DEFINITION"),
   ("provides", "directive @provides(fields: _FieldSet!) on FIELD_DEFINITION"),
   ("shareable", "directive @shareable repeatable on OBJECT | FIELD_DEFINITION"),
   ("extends", "directive @extends on OBJECT | INTERFACE"),
   ("override", "directive @override(from: String!) on FIELD_DEFINITION"),
   ("inaccessible", "directive @inaccessible on FIELD_DEFINITION | OBJECT | INTERFACE | UNION " ++
      "| ARGUMENT_DEFINITION | SCALAR | ENUM | ENUM_VALUE | INPUT_OBJECT | INPUT_FIELD_DEFINITION"),
   ("tag", "directive @tag(name: String!) repeatable on FIELD_DEFINITION | OBJECT | INTERFACE | UNION " ++
      "| ARGUMENT_DEFINITION | SCALAR | ENUM | ENUM_VALUE | INPUT_OBJECT | INPUT_FIELD_DEFINITION"),
   ("link", "directive @link(url: String!, as: String, for: link__Purpose, import: [link__Import]) " ++
      "repeatable on SCHEMA")]

/-- `FEDERATION_TYPES`. -/
def federationTypes : List (Name × String) :=
  [("_FieldSet", "scalar _FieldSet"), ("_Any", "scalar _Any"),
   ("_Service", "type _Service \x7b sdl: String \x7d"), ("link__Import", "scalar link__Import"),
   ("link__Purpose", "enum link__Purpose \x7b SECURITY EXECUTION \x7d")]

/-- The definitions that are not among those names, a line each. -/
def missingDefinitions (defined : List Name) (definitions : List (Name × String)) : String :=
  String.join ((definitions.filter fun d => d.1 ∉ defined).map fun d => d.2 ++ "\n")

/-- `prelude_for`. -/
def preludeFor (parsed : ParsedSchema) : String :=
  missingDefinitions parsed.directiveDefinitions federationDirectives ++
    missingDefinitions parsed.types federationTypes

/-- `diagnostic_messages(..).join("; ")`. -/
def reasons (errors : List String) : String := "; ".intercalate errors

section Modes

variable (c : SchemaCrates Num Sch)

/-- The text `augment_subgraph_sdl` compiles. -/
def augmentedSdl (sdl : String) : Except String String := do
  let parsed ← (c.parse sdl).mapError fun e => "subgraph SDL does not parse: " ++ reasons e
  let queryRoot ← okOr parsed.queryRoot "subgraph SDL must define a query root type"
  let union := if parsed.entities ≠ [] ∧ "_Entity" ∉ parsed.types then
      "union _Entity = " ++ " | ".intercalate parsed.entities ++ "\n" else ""
  let rootFields ← okOr (parsed.objectFields queryRoot) "subgraph SDL's query root type must be an object type"
  let entities := if parsed.entities ≠ [] ∧ "_entities" ∉ rootFields then
      "  _entities(representations: [_Any!]!): [_Entity]!\n" else ""
  let service := if "_service" ∉ rootFields then "  _service: _Service!\n" else ""
  let extensions := entities ++ service
  return preludeFor parsed ++ sdl ++ "\n" ++ union ++
    if extensions = "" then "" else "extend type " ++ queryRoot ++ " \x7b\n" ++ extensions ++ "\x7d\n"

/-- `augment_subgraph_sdl`. -/
def augmentSubgraphSdl (sdl : String) : Except String (String × Sch) := do
  let augmented ← augmentedSdl c sdl
  let schema ← (c.compile augmented).mapError fun e =>
    "subgraph SDL is not a valid schema after federation augmentation: " ++ reasons e
  return (augmented, schema)

/-- What composition asks of the compiler: the composed schema is compiled from its text. -/
def SchemaCrates.apollo : Apollo where
  parseSubgraphSchema := c.parseSubgraphSchema
  validate types := (fun _ => ()) <$> (c.compile (c.print types)).mapError reasons

/-- The SDL and the compiled schema of a composition. -/
def composeSdl (subgraphs : List (String × String)) : Except String (ComposedSupergraph × String × Sch) := do
  let composed ← compose c.apollo subgraphs
  let sdl := c.print composed.types
  let schema ← (c.compile sdl).mapError fun e => "composed supergraph schema is invalid: " ++ reasons e
  return (composed, sdl, schema)

/-- `parse_schema`. -/
def parseSchema (sdl : String) : Except String Sch :=
  (c.compile sdl).mapError fun e => "`graphql.schema` is not a valid GraphQL schema: " ++ reasons e

/-- A mode that executes needs a fetcher. -/
def requireFetch (fetch : Bool) (mode : String) : Except String Unit :=
  ensure fetch ("`" ++ mode ++ "` execution mode requires a data-source fetcher (not wired in this build path)")

/-- The effective schema by mode, with its SDL. -/
def effectiveSchema (fetch : Bool) (config : GraphQlConfig (GraphQlBlocks Num)) : Except String (String × Sch) :=
  match config.executionMode with
  | .proxy => do return (config.blocks.schema, ← parseSchema c config.blocks.schema)
  | .udg => do
    requireFetch fetch "udg"
    c.compileUdg config
    return (config.blocks.schema, ← parseSchema c config.blocks.schema)
  | .subgraph => (augmentSubgraphSdl c config.blocks.schema).mapError ("`graphql.schema`: " ++ ·)
  | .supergraph => do
    requireFetch fetch "supergraph"
    let subgraphs ← okOr config.blocks.supergraph "`supergraph` execution mode requires `graphql.supergraph`"
    let (composed, sdl, schema) ← (composeSdl c subgraphs).mapError ("`graphql.supergraph`: " ++ ·)
    c.compileSupergraph composed
    return (sdl, schema)

end Modes

/-! ### Endpoints and states -/

/-- `CompiledPersisted`: an endpoint without its document. -/
structure CompiledPersisted (Num : Type) where
  method : String
  /-- The named groups of its path's regex, where the path matches. -/
  captures : String → Option (List (String × String))
  query : String
  operationName : Option String
  /-- The template of the variables. -/
  vars : Option (Json Num)

/-- `GraphQlSchemaState`. -/
structure SchemaState (Sch : Type) where
  sdl : String
  sdlHash : String
  schema : Sch
  /-- The documents of the persisted endpoints, by index. -/
  persistedDocs : List ValidDocument

/-- `GraphQlSchemaState::new`. -/
def SchemaState.new (hashKey : String → String) (sdl : String) (schema : Sch) (persistedDocs : List ValidDocument) :
    SchemaState Sch :=
  ⟨sdl, hashKey sdl, schema, persistedDocs⟩

/-- `GraphQlShared` but for the schema state. -/
structure Shared (Num : Type) extends GraphQlShared where
  apiId : String
  /-- `schema_sync` is configured: there is a handle. -/
  sync : Bool := false
  /-- The path of the playground page. -/
  playground : Option String := none
  persisted : List (CompiledPersisted Num) := []
  graphqlUri : String := "/"
  maxBodyBytes : ℕ
  subscriptionsEnabled : Bool := false
  /-- There is a `udg` or a `supergraph` engine. -/
  executes : Bool := false
  /-- The key prefix of the cache. -/
  cachePrefix : Option String := none

/-! ### `from_config` -/

/-- `regex::escape`. -/
def escapeRegex (s : String) : String :=
  String.ofList (s.toList.flatMap fun ch => if ch ∈ "\\.+*?()|[]\x7b\x7d^$#&-~".toList then ['\\', ch] else [ch])

/-- The parameter a segment of a path template is. -/
def templateParameter (segment : String) : Option String :=
  (Text.stripPrefix "\x7b" segment).bind fun s =>
    if s.toList.getLast? = some '}' then some (String.ofList s.toList.dropLast) else none

/-- The pattern of a persisted endpoint's path. -/
def persistedPattern (listenPrefix path : String) : String :=
  "^" ++ escapeRegex listenPrefix ++
    String.join (((Text.split '/' path).drop 1).map fun segment =>
      "/" ++ match templateParameter segment with
        | some name => "(?P<" ++ name ++ ">[^/]+)"
        | none => escapeRegex segment) ++ "$"

/-- `str::parse::<Method>`. -/
def parseMethod (s : String) : Option String := if s ≠ "" ∧ s.toList.all isTokenChar then some s else none

/-- `DEFAULT_MAX_BODY_BYTES`. -/
def defaultMaxBodyBytes : ℕ := 1048576

/-- The cache, as far as its key prefix. -/
def cacheFromConfig (orgId : String) : Option CacheConfig → Option String → Except String (Option String)
  | some _, some scope => .ok (some (responseCacheKeyPrefix orgId (scope ++ ":graphql")))
  | some _, none => .error "`graphql.cache` requires cache storage (not wired in this build path)"
  | none, _ => .ok none

section FromConfig

variable (c : SchemaCrates Num Sch)

/-- One round of the loop over `persisted_queries`. -/
def compilePersisted (listenPrefix : String) (schema : Sch) (pq : PersistedQuery Num) (index : ℕ) :
    Except String (CompiledPersisted Num × ValidDocument) := do
  let field := fun name => "`graphql.persisted_queries[" ++ toString index ++ "]." ++ name ++ "` "
  let method ← okOr (parseMethod (Text.toAsciiUppercase pq.method)) (field "method" ++ "is not a valid method")
  let captures ← (c.regex (persistedPattern listenPrefix pq.path)).mapError (field "path" ++ "does not compile: " ++ ·)
  let doc ← (c.validate schema pq.operation).mapError fun e =>
    field "operation" ++ "is not valid against the schema: " ++ reasons e
  return (⟨method, captures, pq.operation, pq.operationName, pq.vars⟩, doc)

/-- `GraphQlLayer::from_config`: the shared state and the first schema state; `scope` is that of the
cache's storage, where it is wired. -/
def fromConfig (config : GraphQlConfig (GraphQlBlocks Num)) (def_ : ApiDefinition (GraphQlBlocks Num))
    (fetch : Bool) (scope : Option String) :
    Except InvalidApiDefinition (Option (Shared Num × SchemaState Sch)) :=
  if config.enabled then
    Except.mapError (InvalidApiDefinition.mk def_.apiId) <| do
      let (sdl, schema) ← effectiveSchema c fetch config
      let listenPrefix := Text.trimEndMatches '/' def_.listenPath
      let endpoint := if listenPrefix = "" then "/" else listenPrefix
      (c.parseUri endpoint).mapError ("`listen_path` is not a valid URI path: " ++ ·)
      let compiled ← config.blocks.persistedQueries.zipIdx.mapM fun (pq, index) =>
        compilePersisted c listenPrefix schema pq index
      let cachePrefix ← cacheFromConfig def_.orgId config.cache scope
      let shared : Shared Num :=
        { introspectionEnabled := config.blocks.introspectionEnabled
          maxQueryDepth := config.maxQueryDepth
          apiId := def_.apiId
          sync := config.blocks.schemaSync
          playground := config.blocks.playground.map (listenPrefix ++ ·)
          persisted := compiled.map Prod.fst
          graphqlUri := endpoint
          maxBodyBytes := def_.maxRequestBodyBytes.getD defaultMaxBodyBytes
          subscriptionsEnabled := config.subscriptions.any SubscriptionsConfig.enabled
          executes := config.executionMode = .udg ∨ config.executionMode = .supergraph
          cachePrefix }
      return some (shared, SchemaState.new c.hashKey sdl schema (compiled.map Prod.snd))
  else .ok none

/-! ### `apply_introspection` -/

/-- The state `apply_introspection` stores, `none` where the SDL is the active one's. -/
def applyIntrospection (shared : Shared Num) (active : SchemaState Sch) (response : Json Num) :
    Except String (Option (SchemaState Sch)) := do
  let sdl ← introspectionToSdl c.describeValue response
  if active.sdl = sdl then return none
  let schema ← (c.compile sdl).mapError fun e => "the introspected schema does not compile: " ++ reasons e
  let persistedDocs ← shared.persisted.zipIdx.mapM fun (p, index) =>
    (c.validate schema p.query).mapError fun e =>
      "persisted query [" ++ toString index ++ "] is not valid against the introspected schema: " ++ reasons e
  return some (SchemaState.new c.hashKey sdl schema persistedDocs)

end FromConfig

/-! ### Coherent states -/

/-- The parts of a state belong together, and its documents to those endpoints. -/
structure SchemaState.Coherent (c : SchemaCrates Num Sch) (persisted : List (CompiledPersisted Num))
    (s : SchemaState Sch) : Prop where
  sdlHash : s.sdlHash = c.hashKey s.sdl
  schema : c.compile s.sdl = .ok s.schema
  /-- One document for each endpoint, in order: its operation, validated against the schema. -/
  persistedDocs : List.Forall₂ (fun p doc => c.validate s.schema p.query = .ok doc) persisted s.persistedDocs

section Coherent

variable {c : SchemaCrates Num Sch}

theorem SchemaState.Coherent.length_eq {persisted : List (CompiledPersisted Num)} {s : SchemaState Sch}
    (h : s.Coherent c persisted) : persisted.length = s.persistedDocs.length :=
  h.persistedDocs.length_eq

/-- The effective schema of every mode is the compilation of its SDL. -/
theorem compile_of_effectiveSchema {fetch : Bool} {config : GraphQlConfig (GraphQlBlocks Num)} {sdl : String}
    {schema : Sch} (h : effectiveSchema c fetch config = .ok (sdl, schema)) : c.compile sdl = .ok schema := by
  unfold effectiveSchema at h
  cases hmode : config.executionMode with
  | proxy =>
    simp only [hmode, parseSchema, bind_eq_ok, mapError_eq_ok, pure_eq_ok] at h
    obtain ⟨_, hcompile, heq⟩ := h
    cases heq
    exact hcompile
  | udg =>
    simp only [hmode, parseSchema, bind_eq_ok, mapError_eq_ok, pure_eq_ok] at h
    obtain ⟨_, _, _, _, _, hcompile, heq⟩ := h
    cases heq
    exact hcompile
  | subgraph =>
    simp only [hmode, augmentSubgraphSdl, bind_eq_ok, mapError_eq_ok, pure_eq_ok] at h
    obtain ⟨_, _, _, hcompile, heq⟩ := h
    cases heq
    exact hcompile
  | supergraph =>
    simp only [hmode, composeSdl, bind_eq_ok, mapError_eq_ok, pure_eq_ok] at h
    obtain ⟨_, _, _, _, _, ⟨_, _, _, hcompile, hresult⟩, _, _, heq⟩ := h
    cases hresult
    cases heq
    exact hcompile

/-- An endpoint that compiles comes with its operation's document. -/
theorem validate_of_compilePersisted {listenPrefix : String} {schema : Sch} {pq : PersistedQuery Num} {index : ℕ}
    {compiled : CompiledPersisted Num × ValidDocument}
    (h : compilePersisted c listenPrefix schema pq index = .ok compiled) :
    c.validate schema compiled.1.query = .ok compiled.2 := by
  simp only [compilePersisted, bind_eq_ok, okOr_eq_ok, mapError_eq_ok, pure_eq_ok] at h
  obtain ⟨_, _, _, _, doc, hdoc, rfl⟩ := h
  exact hdoc

/-- The state a layer starts with is coherent. -/
theorem coherent_of_fromConfig {config : GraphQlConfig (GraphQlBlocks Num)}
    {def_ : ApiDefinition (GraphQlBlocks Num)} {fetch : Bool} {scope : Option String} {shared : Shared Num}
    {initial : SchemaState Sch} (h : fromConfig c config def_ fetch scope = .ok (some (shared, initial))) :
    initial.Coherent c shared.persisted := by
  unfold fromConfig at h
  split at h
  · simp only [bind_eq_ok, mapError_eq_ok, pure_eq_ok] at h
    obtain ⟨⟨sdl, schema⟩, hschema, _, _, compiled, hcompiled, _, _, heq⟩ := h
    cases heq
    refine ⟨rfl, compile_of_effectiveSchema hschema, ?_⟩
    simp only [SchemaState.new, List.forall₂_map_left_iff, List.forall₂_map_right_iff, List.forall₂_same]
    refine (forall_mem_mapM hcompiled).2 ?_
    rintro ⟨pq, index⟩ - a ha
    exact validate_of_compilePersisted ha
  · cases h

/-- A state that a sync stores is coherent, and its SDL is what the answer converts to. -/
theorem coherent_of_applyIntrospection {shared : Shared Num} {active new : SchemaState Sch} {response : Json Num}
    (h : applyIntrospection c shared active response = .ok (some new)) :
    new.Coherent c shared.persisted ∧ introspectionToSdl c.describeValue response = .ok new.sdl := by
  simp only [applyIntrospection, bind_eq_ok] at h
  obtain ⟨sdl, hsdl, h⟩ := h
  split at h
  · cases h
  · simp only [bind_eq_ok, mapError_eq_ok, pure_eq_ok] at h
    obtain ⟨schema, hschema, docs, hdocs, heq⟩ := h
    cases heq
    refine ⟨⟨rfl, hschema, ?_⟩, hsdl⟩
    rw [← List.zipIdx_map_fst 0 shared.persisted, List.forall₂_map_left_iff]
    refine (mapM_eq_ok.1 hdocs).imp ?_
    intro p doc hdoc
    exact mapError_eq_ok.1 hdoc

/-- An answer with the active SDL swaps nothing. -/
theorem applyIntrospection_eq_none {shared : Shared Num} {active : SchemaState Sch} {response : Json Num} :
    applyIntrospection c shared active response = .ok none ↔
      introspectionToSdl c.describeValue response = .ok active.sdl := by
  simp only [applyIntrospection, bind_eq_ok]
  constructor
  · rintro ⟨sdl, hsdl, h⟩
    split at h
    · next heq => rw [heq, hsdl]
    · simp only [bind_eq_ok, pure_eq_ok] at h
      obtain ⟨_, _, _, _, heq⟩ := h
      cases heq
  · intro hsdl
    exact ⟨_, hsdl, by rw [if_pos rfl]; rfl⟩

end Coherent

end G2way.GraphQl
