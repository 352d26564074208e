import G2way.GraphQl.Check
import G2way.GraphQl.Request

/-!
# The GraphQL layer

`GraphQl::call` of `g2-middleware/src/graphql.rs`, for each request in turn: the
playground page; "a subscription WebSocket handshake (ADR-0009): stamp the
policed-tunnel extension and let the forwarder complete the upgrade"; a persisted
GraphQL-as-REST endpoint; and "a plain GraphQL request: extract the query,
validate, police, then forward the original bytes (proxy mode) or execute against
the data sources". Its cache (`graphql_cache.rs`) is asked "only after every
policing gate has passed".

## The model

`call` ends with an answer of the layer's own, or with a request handed to the
inner service and the path it came by (`Forwarded`). Parsing and validating
against the active schema, the regexes of persisted endpoints and the cache's
storage are parameters of the layer's state.
-/

namespace G2way.GraphQl

open G2way.Core G2way.Lib G2way.Lib.Result G2way.Middleware

variable {Num : Type}

/-! ### The cache -/

/-- `canonical_variables`, and of the persisted ones `canonical_json_variables`: nothing where the
text is `null` or an empty object. -/
def orEmpty (canonical : String) : String :=
  if canonical = "null" ∨ canonical = "\x7b\x7d" then "" else canonical

/-- `serde_json::from_str::<JsonValue>`. -/
def fromStr (c : Serde Num) (text : String) : Option (Json Num) :=
  (c.parse (Text.utf8 text)).bind (Json.canonical c.number)

/-- `serde_json::from_str::<Value>`. -/
def valueFromStr (c : Serde Num) (text : String) : Option (Json Num) := (c.parse (Text.utf8 text)).bind c.value

/-- `canonical_variables`: the variables written again, or the text as it stands if it is not
JSON. -/
def canonicalVariables (c : Serde Num) : Option RawVariables → String
  | none => ""
  | some (.parsed value) => orEmpty (((value.canonical c.number).map (Json.toText c.display)).getD "")
  | some (.text text) => orEmpty (((valueFromStr c text).map (Json.toText c.display)).getD text)

/-- `canonical_json_variables`. -/
def canonicalJsonVariables (c : Serde Num) : Option (Json Num) → String
  | none => ""
  | some value => orEmpty (value.toText c.display)

/-- The text a cache key is the digest of. -/
def keyText (sdlHash : String) (operationName : Option String) (query variablesText : String) : String :=
  sdlHash ++ "\n" ++ operationName.getD "" ++ "\n" ++ query ++ "\n" ++ variablesText

/-- `GraphQlCache`: its key prefix, the hash, and what its storage answers. -/
structure GraphQlCache where
  keyPrefix : String
  hashKey : String → String
  /-- `lookup`: a stored entry that decodes. -/
  lookup : String → Option String

/-- `GraphQlCache::key`. -/
def GraphQlCache.key (cache : GraphQlCache) (sdlHash : String) (operationName : Option String)
    (query variablesText : String) : String :=
  cache.keyPrefix ++ cache.hashKey (keyText sdlHash operationName query variablesText)

/-! ### The layer's state -/

/-- A persisted endpoint, compiled (`CompiledPersisted`), with its document. -/
structure Persisted (Num : Type) where
  method : String
  /-- The named groups of its path's regex, where the path matches. -/
  captures : String → Option (List (String × String))
  query : String
  operationName : Option String
  /-- The template of the variables. -/
  vars : Option (Json Num)
  doc : ValidDocument

/-- The state of the layer: `GraphQlShared` and the active `GraphQlSchemaState`. -/
structure LayerState (Num : Type) extends GraphQlShared where
  apiId : String
  /-- The path of the playground page. -/
  playground : Option String := none
  persisted : List (Persisted Num) := []
  graphqlUri : String := "/"
  maxBodyBytes : ℕ
  subscriptionsEnabled : Bool := false
  /-- The gateway executes operations itself (udg or supergraph mode). -/
  executes : Bool := false
  cache : Option GraphQlCache := none
  /-- `ExecutableDocument::parse_and_validate` against the active schema. -/
  parseAndValidate : String → Except (List String) ValidDocument
  sdlHash : String

/-! ### WebSocket handshakes -/

/-- `has_token`: the value is a list with that token. -/
def hasToken (value : Option HeaderValue) (token : String) : Bool :=
  (value.bind HeaderValue.toStr).any fun v =>
    (Text.split ',' v).any fun t => Text.eqIgnoreAsciiCase (Text.trim t) token

/-- `is_websocket_handshake`: it reads the first `Connection` and the first `Upgrade`. -/
def isWebsocketHandshake (req : Request) : Bool :=
  req.method == "GET" && hasToken (req.headers.get "connection") "upgrade" &&
    hasToken (req.headers.get "upgrade") "websocket"

/-- `offers_known_protocol`. -/
def offersKnownProtocol (headers : HeaderMap) : Bool :=
  ((headers.getAll "sec-websocket-protocol").filterMap HeaderValue.toStr).any fun v =>
    (Text.split ',' v).any fun name =>
      Text.trim name == "graphql-transport-ws" || Text.trim name == "graphql-ws"

/-! ### Persisted endpoints -/

section Substitute

variable (caps : List (String × String)) (headers : HeaderMap)

/-- A string of the template: a path segment, a header, or itself. -/
def substituteString (s : String) : Json Num :=
  match Text.stripPrefix "$path." s with
  | some name => ((caps.lookup name).map fun m => .string (percentDecode false m)).getD .null
  | none =>
    match Text.stripPrefix "$header." s with
    | some name => ((headers.getStr (Text.toAsciiLowercase name)).map .string).getD .null
    | none => .string s

mutual

/-- `substitute_variables`. -/
def substituteVariables : Json Num → Json Num
  | .string s => substituteString caps headers s
  | .array items => .array (substituteItems items)
  | .object members => .object (substituteMembers members)
  | other => other

/-- The items of an array. -/
def substituteItems : List (Json Num) → List (Json Num)
  | [] => []
  | v :: rest => substituteVariables v :: substituteItems rest

/-- The members of an object. -/
def substituteMembers : List (String × Json Num) → List (String × Json Num)
  | [] => []
  | (k, v) :: rest => (k, substituteVariables v) :: substituteMembers rest

end

end Substitute

/-- The body of a persisted request, members in the order of their keys. -/
def persistedEnvelope (p : Persisted Num) (vars : Option (Json Num)) : Json Num :=
  .object ((p.operationName.map fun n => ("operationName", .string n)).toList ++
    [("query", .string p.query)] ++ (vars.map fun v => ("variables", v)).toList)

/-- `rewrite_persisted`: method, path and body are replaced, headers and extensions kept. -/
def rewritePersisted (c : Serde Num) (st : LayerState Num) (p : Persisted Num) (vars : Option (Json Num))
    (req : Request) : Request :=
  let bytes := Text.utf8 ((persistedEnvelope p vars).toText c.display)
  { req with
    method := "POST"
    path := st.graphqlUri
    query := none
    headers := (((req.headers.remove "transfer-encoding").insert "content-type"
      (headerValue "application/json")).insert "content-length" (headerValue (toString bytes.length)))
    body := bytes }

/-- The first endpoint that matches, with what its path captured. -/
def matchPersisted (st : LayerState Num) (req : Request) : Option (Persisted Num × List (String × String)) :=
  st.persisted.findSome? fun p =>
    if p.method = req.method then (p.captures req.path).map fun caps => (p, caps) else none

/-! ### The call -/

/-- `OperationMap::get`. -/
def Document.getOperation (doc : Document) : Option Name → Option Operation
  | some name => doc.named.lookup name
  | none =>
    match doc.anonymous, doc.named with
    | some op, [] => some op
    | none, [(_, op)] => some op
    | _, _ => none

/-- `enforce`: the check, mapped to answers. -/
def enforce (shared : GraphQlShared) (grants : Option ApiAccess) (doc : Document) : Except Answer Unit :=
  match checkDocument shared grants doc with
  | .ok () => .ok ()
  | .error (.forbiddenField ty field) => .error (.graphqlErrors 400 [(Violation.forbiddenField ty field).message])
  | .error violation => .error (.jsonError 403 violation.message)

/-- The selected operation is a query: only then is the cache asked. -/
def selectsQuery (doc : Document) (operationName : Option String) : Bool :=
  (doc.getOperation operationName).any (·.operationType == .query)

/-- The cache key of an operation, if the cache applies to it. -/
def cacheKey (st : LayerState Num) (doc : Document) (operationName : Option String)
    (query variablesText : String) : Option String :=
  if selectsQuery doc operationName then
    st.cache.map fun cache => cache.key st.sdlHash operationName query variablesText
  else none

/-- An entry of the cache ends the call. -/
def lookupCache (st : LayerState Num) (key : Option String) : Except Answer Unit :=
  match st.cache, key with
  | some cache, some key =>
    match cache.lookup key with
    | some entry => .error (.cached entry)
    | none => .ok ()
  | _, _ => .ok ()

/-- How a request came to be forwarded. -/
inductive Via where
  /-- As a handshake, with the tunnel stamped on it. -/
  | tunnel
  /-- As a persisted operation. -/
  | persisted
  /-- As a plain request, with the text that was policed. -/
  | plain (query : String)
  deriving DecidableEq, Repr

/-- A request handed to the inner service. -/
structure Forwarded where
  via : Via
  req : Request
  deriving DecidableEq, Repr

/-- The grants of the request's key on this API. -/
def grantsOf (st : LayerState Num) (req : Request) : Option ApiAccess :=
  req.extensions.session.bind fun s => s.session.access.lookup st.apiId

/-- The handshake. -/
def callHandshake (st : LayerState Num) (req : Request) : Except Answer Forwarded := do
  ensure st.subscriptionsEnabled (.jsonError 400 "GraphQL subscriptions are not enabled for this API")
  ensure (offersKnownProtocol req.headers)
    (.jsonError 400 ("GraphQL subscriptions require the graphql-transport-ws or " ++
      "graphql-ws WebSocket subprotocol"))
  return ⟨.tunnel, { req with extensions := { req.extensions with graphQlWsTunnel := some ⟨grantsOf st req⟩ } }⟩

/-- The substituted variables of a persisted request. -/
def persistedVariables (p : Persisted Num) (caps : List (String × String)) (req : Request) :
    Option (Json Num) :=
  p.vars.map (substituteVariables caps req.headers)

/-- A persisted endpoint. -/
def callPersisted (c : Serde Num) (st : LayerState Num) (p : Persisted Num) (caps : List (String × String))
    (req : Request) : Except Answer Forwarded := do
  enforce st.toGraphQlShared (grantsOf st req) p.doc.toDocument
  let vars := persistedVariables p caps req
  lookupCache st (cacheKey st p.doc.toDocument p.operationName p.query (canonicalJsonVariables c vars))
  ensure (!st.executes) .executed
  return ⟨.persisted, rewritePersisted c st p vars req⟩

/-- A plain request up to the cache: its query is read, validated and policed. -/
def police (c : Serde Num) (st : LayerState Num) (req : Request) :
    Except Answer (ExtractedQuery × ValidDocument) := do
  let extracted ← extractQuery c st.maxBodyBytes req
  let doc ← (st.parseAndValidate extracted.query).mapError (.graphqlErrors 400)
  ensure (!(doc.getOperation extracted.operationName).any (·.operationType == .subscription))
    (.graphqlErrors 400 ["GraphQL subscriptions require a WebSocket connection"])
  enforce st.toGraphQlShared (grantsOf st req) doc.toDocument
  return (extracted, doc)

/-- A plain request. -/
def callPlain (c : Serde Num) (st : LayerState Num) (req : Request) : Except Answer Forwarded := do
  let (extracted, doc) ← police c st req
  lookupCache st (cacheKey st doc.toDocument extracted.operationName extracted.query
    (canonicalVariables c extracted.vars))
  ensure (!st.executes) .executed
  return ⟨.plain extracted.query, extracted.req⟩

/-- `GraphQl::call`. -/
def call (c : Serde Num) (st : LayerState Num) (req : Request) : Except Answer Forwarded :=
  if req.method = "GET" ∧ st.playground = some req.path then .error .playground
  else if isWebsocketHandshake req then callHandshake st req
  else match matchPersisted st req with
    | some (p, caps) => callPersisted c st p caps req
    | none => callPlain c st req

/-! ### What is forwarded -/

section Forward

variable {c : Serde Num} {st : LayerState Num} {req : Request} {forwarded : Forwarded}

/-- The ways a request is forwarded. -/
theorem call_ok (h : call c st req = .ok forwarded) :
    (isWebsocketHandshake req = true ∧ callHandshake st req = .ok forwarded) ∨
      (isWebsocketHandshake req = false ∧
        ((∃ p caps, callPersisted c st p caps req = .ok forwarded) ∨ callPlain c st req = .ok forwarded)) := by
  unfold call at h
  split_ifs at h with hplayground hhandshake
  · exact .inl ⟨hhandshake, h⟩
  · refine .inr ⟨by simpa using hhandshake, ?_⟩
    split at h
    · exact .inl ⟨_, _, h⟩
    · exact .inr h

/-- A handshake gets a tunnel with its key's grants. -/
theorem callHandshake_ok (h : callHandshake st req = .ok forwarded) :
    forwarded = ⟨.tunnel, { req with extensions :=
      { req.extensions with graphQlWsTunnel := some ⟨grantsOf st req⟩ } }⟩ := by
  simp only [callHandshake, bind_eq_ok, pure_eq_ok] at h
  obtain ⟨-, -, -, -, rfl⟩ := h
  rfl

/-- A persisted request is rewritten. -/
theorem callPersisted_ok {p : Persisted Num} {caps : List (String × String)}
    (h : callPersisted c st p caps req = .ok forwarded) :
    forwarded = ⟨.persisted, rewritePersisted c st p (persistedVariables p caps req) req⟩ := by
  simp only [callPersisted, bind_eq_ok, pure_eq_ok] at h
  obtain ⟨-, -, -, -, -, -, rfl⟩ := h
  rfl

/-- A plain request is forwarded as it came. -/
theorem callPlain_ok (h : callPlain c st req = .ok forwarded) :
    ∃ x, extractQuery c st.maxBodyBytes req = .ok x ∧ forwarded = ⟨.plain x.query, req⟩ := by
  simp only [callPlain, police, bind_eq_ok, pure_eq_ok] at h
  obtain ⟨_, ⟨x, hx, _, _, _, _, _, _, rfl⟩, _, _, _, _, rfl⟩ := h
  exact ⟨x, hx, by rw [extractQuery_req hx]⟩

end Forward

end G2way.GraphQl
