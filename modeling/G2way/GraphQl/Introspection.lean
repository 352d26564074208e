import G2way.GraphQl.Document
import G2way.Lib.Json
import G2way.Lib.Result

/-!
# From introspection to SDL

`introspection_to_sdl` of `g2-middleware/src/graphql_sync.rs`, "a pure converter
from the introspection JSON response to SDL text". "The output is not validated
here: callers compile it with `Schema::parse_and_validate`, so a converter gap
fails safe (the sync keeps the previous schema) rather than producing a broken
schema."

## The model

The answer is a `serde_json::Value`, and it is read as `serde` derives it: an
object by its names, where an optional field may be missing or `null` and one with
a default may be missing, or an array by position. The text of a reading error is
a parameter.
-/

namespace G2way.GraphQl

open G2way.Lib G2way.Lib.Result

variable {Num : Type}

/-! ### Reading a struct -/

/-- `Option`, given what the value is read as if it is not `null`. -/
def orNull {α : Type} : Json Num → Option α → Option (Option α)
  | .null, _ => some none
  | _, read => read.map some

/-- The fields of a struct, as they come. -/
structure Members (Num : Type) where
  /-- They come by position, in an array. -/
  positional : Bool
  members : List (String × Json Num)

/-- A struct with those fields: an object, or an array of no more items. -/
def membersOf (names : List String) : Json Num → Option (Members Num)
  | .object members => some ⟨false, members⟩
  | .array items => if items.length ≤ names.length then some ⟨true, names.zip items⟩ else none
  | _ => none

namespace Members

variable {α : Type} (m : Members Num) (name : String) (read : Json Num → Option α)

/-- A field that must come. -/
def required : Option α := (m.members.lookup name).bind read

/-- A field of type `Option`; by position it must come too. -/
def optional : Option (Option α) :=
  match m.members.lookup name with
  | none => if m.positional then none else some none
  | some value => orNull value (read value)

/-- A field with a default. -/
def defaulted (default : α) : Option α :=
  match m.members.lookup name with
  | none => some default
  | some value => read value

end Members

/-- `String`. -/
def readString : Json Num → Option String
  | .string s => some s
  | _ => none

/-- `bool`. -/
def readBool : Json Num → Option Bool
  | .bool b => some b
  | _ => none

/-- `Vec`. -/
def readVec {α : Type} (read : Json Num → Option α) : Json Num → Option (List α)
  | .array items => items.mapM read
  | _ => none

/-! ### The introspection response -/

/-- `TypeRef`. -/
inductive IntrospectionTypeRef where
  | mk (kind : String) (name : Option String) (ofType : Option IntrospectionTypeRef)

mutual

/-- `TypeRef`, read. -/
def readTypeRef : Json Num → Option IntrospectionTypeRef
  | .object members => do
    let m : Members Num := ⟨false, members⟩
    return .mk (← m.required "kind" readString) (← m.optional "name" readString) (← readOfType members)
  | .array items => do
    let m : Members Num := ⟨true, ["kind", "name"].zip items⟩
    return .mk (← m.required "kind" readString) (← m.optional "name" readString) (← readLast 2 items)
  | _ => none

/-- The member `ofType`. -/
def readOfType : List (String × Json Num) → Option (Option IntrospectionTypeRef)
  | [] => some none
  | (k, value) :: rest => if k = "ofType" then orNull value (readTypeRef value) else readOfType rest

/-- The last of the items, behind that many others. -/
def readLast : ℕ → List (Json Num) → Option (Option IntrospectionTypeRef)
  | 0, [value] => orNull value (readTypeRef value)
  | n + 1, _ :: rest => readLast n rest
  | _, _ => none

end

/-- `IntrospectionInputValue`. -/
structure IntrospectionInputValue where
  name : String
  ty : IntrospectionTypeRef
  defaultValue : Option String

/-- `IntrospectionField`. -/
structure IntrospectionField where
  name : String
  description : Option String
  args : List IntrospectionInputValue
  ty : IntrospectionTypeRef
  isDeprecated : Bool
  deprecationReason : Option String

/-- `IntrospectionEnumValue`. -/
structure IntrospectionEnumValue where
  name : String
  description : Option String
  isDeprecated : Bool
  deprecationReason : Option String

/-- `IntrospectionDirective`. -/
structure IntrospectionDirective where
  name : String
  description : Option String
  locations : List String
  args : List IntrospectionInputValue

/-- `IntrospectionType`. -/
structure IntrospectionType where
  kind : String
  name : Option String
  description : Option String
  fields : Option (List IntrospectionField)
  interfaces : Option (List IntrospectionTypeRef)
  possibleTypes : Option (List IntrospectionTypeRef)
  enumValues : Option (List IntrospectionEnumValue)
  inputFields : Option (List IntrospectionInputValue)

/-- `IntrospectionSchema`; of a `NamedTypeRef` there is only the name. -/
structure IntrospectionSchema where
  queryType : Option String
  mutationType : Option String
  subscriptionType : Option String
  types : List IntrospectionType
  directives : List IntrospectionDirective

/-- `NamedTypeRef`, read. -/
def readNamedTypeRef (value : Json Num) : Option String := do
  let m ← membersOf ["name"] value
  m.required "name" readString

/-- `IntrospectionInputValue`, read. -/
def readInputValue (value : Json Num) : Option IntrospectionInputValue := do
  let m ← membersOf ["name", "type", "defaultValue"] value
  return { name := ← m.required "name" readString
           ty := ← m.required "type" readTypeRef
           defaultValue := ← m.optional "defaultValue" readString }

/-- `IntrospectionField`, read. -/
def readField (value : Json Num) : Option IntrospectionField := do
  let m ← membersOf ["name", "description", "args", "type", "isDeprecated", "deprecationReason"] value
  return { name := ← m.required "name" readString
           description := ← m.optional "description" readString
           args := ← m.defaulted "args" (readVec readInputValue) []
           ty := ← m.required "type" readTypeRef
           isDeprecated := ← m.defaulted "isDeprecated" readBool false
           deprecationReason := ← m.optional "deprecationReason" readString }

/-- `IntrospectionEnumValue`, read. -/
def readEnumValue (value : Json Num) : Option IntrospectionEnumValue := do
  let m ← membersOf ["name", "description", "isDeprecated", "deprecationReason"] value
  return { name := ← m.required "name" readString
           description := ← m.optional "description" readString
           isDeprecated := ← m.defaulted "isDeprecated" readBool false
           deprecationReason := ← m.optional "deprecationReason" readString }

/-- `IntrospectionDirective`, read. -/
def readDirective (value : Json Num) : Option IntrospectionDirective := do
  let m ← membersOf ["name", "description", "locations", "args"] value
  return { name := ← m.required "name" readString
           description := ← m.optional "description" readString
           locations := ← m.defaulted "locations" (readVec readString) []
           args := ← m.defaulted "args" (readVec readInputValue) [] }

/-- `IntrospectionType`, read. -/
def readType (value : Json Num) : Option IntrospectionType := do
  let m ← membersOf ["kind", "name", "description", "fields", "interfaces", "possibleTypes", "enumValues",
    "inputFields"] value
  return { kind := ← m.required "kind" readString
           name := ← m.optional "name" readString
           description := ← m.optional "description" readString
           fields := ← m.optional "fields" (readVec readField)
           interfaces := ← m.optional "interfaces" (readVec readTypeRef)
           possibleTypes := ← m.optional "possibleTypes" (readVec readTypeRef)
           enumValues := ← m.optional "enumValues" (readVec readEnumValue)
           inputFields := ← m.optional "inputFields" (readVec readInputValue) }

/-- `IntrospectionSchema`, read. -/
def readSchema (value : Json Num) : Option IntrospectionSchema := do
  let m ← membersOf ["queryType", "mutationType", "subscriptionType", "types", "directives"] value
  return { queryType := ← m.optional "queryType" readNamedTypeRef
           mutationType := ← m.optional "mutationType" readNamedTypeRef
           subscriptionType := ← m.optional "subscriptionType" readNamedTypeRef
           types := ← m.required "types" (readVec readType)
           directives := ← m.defaulted "directives" (readVec readDirective) [] }

/-! ### Rendering -/

/-- `BUILTIN_SCALARS`. -/
def introspectionScalars : List String := ["Int", "Float", "String", "Boolean", "ID"]

/-- `BUILTIN_DIRECTIVES`. -/
def builtinDirectives : List String := ["skip", "include", "deprecated", "specifiedBy"]

/-- `render_type_ref`. -/
def renderTypeRef : IntrospectionTypeRef → Except String String
  | .mk kind name ofType =>
    if kind = "NON_NULL" then
      match ofType with
      | none => .error "a NON_NULL type reference has no inner type"
      | some inner => (· ++ "!") <$> renderTypeRef inner
    else if kind = "LIST" then
      match ofType with
      | none => .error "a LIST type reference has no inner type"
      | some inner => (fun s => "[" ++ s ++ "]") <$> renderTypeRef inner
    else okOr name "a type reference has no name"

/-- `named_type`. -/
def namedType : IntrospectionTypeRef → Except String String
  | .mk _ name _ => okOr name "a type reference has no name"

/-- `quote_string`. -/
def quoteString (s : String) : String := String.ofList ('"' :: Json.writeString s)

/-- `render_deprecation`. -/
def renderDeprecation (isDeprecated : Bool) (reason : Option String) : String :=
  if isDeprecated then
    match reason with
    | some reason => " @deprecated(reason: " ++ quoteString reason ++ ")"
    | none => " @deprecated"
  else ""

/-- `line.replace("\"\"\"", "\\\"\"\"")`. -/
def escapeQuotes : List Char → List Char
  | '"' :: '"' :: '"' :: rest => '\\' :: '"' :: '"' :: '"' :: escapeQuotes rest
  | c :: rest => c :: escapeQuotes rest
  | [] => []

/-- What `push_description` appends. -/
def renderDescription (description : Option String) (indent : String) : String :=
  match description with
  | none => ""
  | some "" => ""
  | some text =>
    indent ++ "\"\"\"\n" ++
      String.join ((Text.split '\n' text).map fun line =>
        indent ++ String.ofList (escapeQuotes line.toList) ++ "\n") ++
      indent ++ "\"\"\"\n"

/-- `render_input_value`. -/
def renderInputValue (value : IntrospectionInputValue) : Except String String := do
  let ty ← renderTypeRef value.ty
  return value.name ++ ": " ++ ty ++ ((value.defaultValue.map (" = " ++ ·)).getD "")

/-- `render_args`. -/
def renderArgs (args : List IntrospectionInputValue) : Except String String :=
  if args.isEmpty then .ok ""
  else do
    let rendered ← args.mapM renderInputValue
    return "(" ++ ", ".intercalate rendered ++ ")"

/-- A directive of the loop, unless the compiler predefines it. -/
def renderDirective (directive : IntrospectionDirective) : Except String String :=
  if directive.name ∈ builtinDirectives then .ok ""
  else do
    ensure (!directive.locations.isEmpty) ("directive `@" ++ directive.name ++ "` reports no locations")
    let args ← renderArgs directive.args
    return "\n" ++ renderDescription directive.description "" ++ "directive @" ++ directive.name ++ args ++
      " on " ++ " | ".intercalate directive.locations ++ "\n"

/-- A field of an object type or an interface. -/
def renderField (field : IntrospectionField) : Except String String := do
  let args ← renderArgs field.args
  let ty ← renderTypeRef field.ty
  return renderDescription field.description "  " ++ "  " ++ field.name ++ args ++ ": " ++ ty ++
    renderDeprecation field.isDeprecated field.deprecationReason ++ "\n"

/-- An object type or an interface. -/
def renderComposite (keyword name : String) (ty : IntrospectionType) : Except String String := do
  let interfaces := ty.interfaces.getD []
  let implementing ←
    if interfaces.isEmpty then .ok ""
    else do
      let names ← interfaces.mapM namedType
      pure (" implements " ++ " & ".intercalate names)
  let fields := ty.fields.getD []
  let body ←
    if fields.isEmpty then .ok "\n"
    else do
      let rendered ← fields.mapM renderField
      pure (" \x7b\n" ++ String.join rendered ++ "\x7d\n")
  return "\n" ++ renderDescription ty.description "" ++ keyword ++ " " ++ name ++ implementing ++ body

/-- A value of an enum. -/
def renderEnumValue (value : IntrospectionEnumValue) : String :=
  renderDescription value.description "  " ++ "  " ++ value.name ++
    renderDeprecation value.isDeprecated value.deprecationReason ++ "\n"

/-- A type that has a name and is not of the introspection system, by its kind. -/
def renderNamed (name : String) (ty : IntrospectionType) : Except String String :=
  let description := renderDescription ty.description ""
  match ty.kind with
  | "SCALAR" =>
    if name ∈ introspectionScalars then .ok ""
    else .ok ("\n" ++ description ++ "scalar " ++ name ++ "\n")
  | "OBJECT" => renderComposite "type" name ty
  | "INTERFACE" => renderComposite "interface" name ty
  | "UNION" => do
    let members := ty.possibleTypes.getD []
    ensure (!members.isEmpty) ("union `" ++ name ++ "` reports no member types")
    let names ← members.mapM namedType
    return "\n" ++ description ++ "union " ++ name ++ " = " ++ " | ".intercalate names ++ "\n"
  | "ENUM" =>
    .ok ("\n" ++ description ++ "enum " ++ name ++ " \x7b\n" ++
      String.join ((ty.enumValues.getD []).map renderEnumValue) ++ "\x7d\n")
  | "INPUT_OBJECT" => do
    let fields ← (ty.inputFields.getD []).mapM renderInputValue
    return "\n" ++ description ++ "input " ++ name ++ " \x7b\n" ++
      String.join (fields.map fun f => "  " ++ f ++ "\n") ++ "\x7d\n"
  | other => .error ("type `" ++ name ++ "` has unknown kind `" ++ other ++ "`")

/-- A type of the loop. -/
def renderType (ty : IntrospectionType) : Except String String :=
  match ty.name with
  | none => .error "a schema type has no name"
  | some name => if isMeta name then .ok "" else renderNamed name ty

/-- A root operation of the `schema` block. -/
def renderRoot (operation : String) (root : Option String) : String :=
  (root.map fun name => "  " ++ operation ++ ": " ++ name ++ "\n").getD ""

/-- `render_schema`. -/
def renderSchema (schema : IntrospectionSchema) : Except String String := do
  let queryRoot ← okOr schema.queryType "introspection reports no query root type"
  let directives ← schema.directives.mapM renderDirective
  let types ← schema.types.mapM renderType
  return "schema \x7b\n" ++ renderRoot "query" (some queryRoot) ++ renderRoot "mutation" schema.mutationType ++
    renderRoot "subscription" schema.subscriptionType ++ "\x7d\n" ++ String.join directives ++ String.join types

/-! ### The converter -/

/-- `Value::get` with a key. -/
def jsonGet (value : Json Num) (key : String) : Option (Json Num) :=
  match value with
  | .object members => members.lookup key
  | _ => none

/-- `first_graphql_error`. -/
def firstGraphqlError (response : Json Num) : Option String := do
  match ← jsonGet response "errors" with
  | .array (first :: _) => (jsonGet first "message").bind readString
  | _ => none

/-- `introspection_to_sdl`; `describe` is the text of a reading error. -/
def introspectionToSdl (describe : Json Num → String) (response : Json Num) : Except String String := do
  let schemaJson ← okOr (((jsonGet response "data").bind (jsonGet · "__schema")).or (jsonGet response "__schema"))
    (match firstGraphqlError response with
      | some message => "introspection failed upstream: " ++ message
      | none => "response has no `__schema` (introspection disabled upstream?)")
  let schema ← okOr (readSchema schemaJson)
    ("response does not match the introspection shape: " ++ describe schemaJson)
  renderSchema schema

end G2way.GraphQl
