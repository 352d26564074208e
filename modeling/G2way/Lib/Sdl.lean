import G2way.Lib.GraphQlLexer

/-!
# The type system definition language

The grammar of GraphQL's type system documents over lexical tokens: a parser of
definitions, and the tokens a definition is written as.

## The model

`document` reads the definitions of a text to its end. Where the grammar has a
non-empty list in brackets that may be missing, the list is empty exactly when it
is missing. The words `true`, `false` and `null` and the values of enums are all
names, so a value has them as one kind.
-/

namespace G2way.Lib.GraphQl.Sdl

open G2way.Lib.GraphQl

/-! ### Documents -/

/-- A string of a document. -/
inductive StringValue where
  /-- A quoted string, by its value. -/
  | quoted (value : String)
  /-- A block string. -/
  | block (raw : String)
  deriving DecidableEq

/-- A constant value. -/
inductive Value where
  /-- `true`, `false`, `null`, or a value of an enum. -/
  | word (n : Name)
  /-- An int or a float, as it is written. -/
  | number (text : String)
  /-- A string. -/
  | string (s : StringValue)
  /-- A list. -/
  | list (items : List Value)
  /-- An input object. -/
  | object (fields : List (Name × Value))

/-- A reference to a type, and whether it is non-null. -/
inductive TypeRef where
  /-- A named type. -/
  | named (n : Name) (nonNull : Bool)
  /-- A list. -/
  | list (item : TypeRef) (nonNull : Bool)
  deriving DecidableEq

/-- A directive that is applied. -/
structure Directive where
  name : Name
  arguments : List (Name × Value)

/-- An argument or a field of an input object. -/
structure InputValue where
  description : Option StringValue
  name : Name
  type : TypeRef
  default : Option Value
  directives : List Directive

/-- A field of an object type or an interface. -/
structure Field where
  description : Option StringValue
  name : Name
  arguments : List InputValue
  type : TypeRef
  directives : List Directive

/-- A value of an enum. -/
structure EnumValue where
  description : Option StringValue
  name : Name
  directives : List Directive

/-- Where a directive may stand. -/
inductive Location where
  | query
  | mutation
  | subscription
  | field
  | fragmentDefinition
  | fragmentSpread
  | inlineFragment
  | variableDefinition
  | schema
  | scalar
  | object
  | fieldDefinition
  | argumentDefinition
  | interface
  | union
  | enum
  | enumValue
  | inputObject
  | inputFieldDefinition
  deriving DecidableEq

/-- A root operation. -/
inductive Operation where
  | query
  | mutation
  | subscription
  deriving DecidableEq

/-- What a type is. -/
inductive TypeBody where
  | scalar
  | object (interfaces : List Name) (fields : List Field)
  | interface (interfaces : List Name) (fields : List Field)
  | union (members : List Name)
  | enum (values : List EnumValue)
  | input (fields : List InputValue)

/-- What is defined. -/
inductive Definition where
  /-- The root operations. -/
  | schema (roots : List (Operation × Name))
  /-- A type. -/
  | type (name : Name) (body : TypeBody)
  /-- A directive. -/
  | directive (name : Name) (arguments : List InputValue) (repeatable : Bool) (locations : List Location)

/-- A definition, with its description and the directives on it. -/
structure Described where
  description : Option StringValue
  definition : Definition
  /-- The grammar has none on the definition of a directive. -/
  directives : List Directive

/-- A type system document. -/
abbrev Document := List Described

/-! ### Words -/

/-- A word of the language, or `_` for a text that is no name. -/
def word (s : String) : Name := if h : isNameText s.toList = true then ⟨s, h⟩ else ⟨"_", by decide⟩

/-- The word of a location. -/
def Location.word : Location → Name
  | .query => Sdl.word "QUERY"
  | .mutation => Sdl.word "MUTATION"
  | .subscription => Sdl.word "SUBSCRIPTION"
  | .field => Sdl.word "FIELD"
  | .fragmentDefinition => Sdl.word "FRAGMENT_DEFINITION"
  | .fragmentSpread => Sdl.word "FRAGMENT_SPREAD"
  | .inlineFragment => Sdl.word "INLINE_FRAGMENT"
  | .variableDefinition => Sdl.word "VARIABLE_DEFINITION"
  | .schema => Sdl.word "SCHEMA"
  | .scalar => Sdl.word "SCALAR"
  | .object => Sdl.word "OBJECT"
  | .fieldDefinition => Sdl.word "FIELD_DEFINITION"
  | .argumentDefinition => Sdl.word "ARGUMENT_DEFINITION"
  | .interface => Sdl.word "INTERFACE"
  | .union => Sdl.word "UNION"
  | .enum => Sdl.word "ENUM"
  | .enumValue => Sdl.word "ENUM_VALUE"
  | .inputObject => Sdl.word "INPUT_OBJECT"
  | .inputFieldDefinition => Sdl.word "INPUT_FIELD_DEFINITION"

/-- The locations. -/
def Location.all : List Location :=
  [.query, .mutation, .subscription, .field, .fragmentDefinition, .fragmentSpread, .inlineFragment,
    .variableDefinition, .schema, .scalar, .object, .fieldDefinition, .argumentDefinition, .interface, .union,
    .enum, .enumValue, .inputObject, .inputFieldDefinition]

/-- The word of a root operation. -/
def Operation.word : Operation → Name
  | .query => Sdl.word "query"
  | .mutation => Sdl.word "mutation"
  | .subscription => Sdl.word "subscription"

/-- The root operations. -/
def Operation.all : List Operation := [.query, .mutation, .subscription]

/-- The names that are no value of an enum. -/
def reserved : List Name := [word "true", word "false", word "null"]

/-! ### The parser -/

/-- Reads something from the front of the tokens. -/
abbrev Parser (α : Type) := List Token → Option (α × List Token)

section Combinators

variable {α : Type}

/-- A punctuator. -/
def expect (c : Char) : List Token → Option (List Token)
  | t :: ts => if t = .punctuator c then some ts else none
  | [] => none

/-- A name. -/
def name : Parser Name
  | .name n :: ts => some (n, ts)
  | _ => none

/-- One of the words of a list. -/
def oneOf (words : List α) (spell : α → Name) : Parser α
  | .name n :: ts => (words.find? fun w => spell w = n).map (·, ts)
  | _ => none

/-- What stands behind a punctuator, if that is there. -/
def optional (c : Char) (p : Parser α) (ts : List Token) : Option (Option α × List Token) :=
  match expect c ts with
  | none => some (none, ts)
  | some ts => (p ts).map fun r => (some r.1, r.2)

/-- A list behind a punctuator, empty if that is not there. -/
def optionalList (c : Char) (p : Parser (List α)) : Parser (List α) :=
  fun ts => (optional c p ts).map fun r => (r.1.getD [], r.2)

/-- Items until the rest is as `stop` wants it. -/
def manyTill (stop : List Token → Option (List Token)) (p : Parser α) : ℕ → Parser (List α)
  | 0, _ => none
  | fuel + 1, ts =>
    match stop ts with
    | some rest => some ([], rest)
    | none => do
      let (a, ts) ← p ts
      let (as, ts) ← manyTill stop p fuel ts
      return (a :: as, ts)

/-- Items, as many as there are tokens at most. -/
def many (stop : List Token → Option (List Token)) (p : Parser α) : Parser (List α) :=
  fun ts => manyTill stop p (ts.length + 1) ts

/-- One item or more, to a closing punctuator. -/
def items (close : Char) (p : Parser α) : Parser (List α) := fun ts => do
  let (as, ts) ← many (expect close) p ts
  if as.isEmpty then none else some (as, ts)

/-- Items with a separator between them, and perhaps one before the first. -/
def separated (sep : Char) (p : Parser α) : Parser (List α) := fun ts => do
  let (a, ts) ← p ((expect sep ts).getD ts)
  let (as, ts) ← many (fun ts => if (expect sep ts).isSome then none else some ts)
    (fun ts => (expect sep ts).bind p) ts
  return (a :: as, ts)

end Combinators

/-- A description, if there is one. -/
def description : List Token → Option StringValue × List Token
  | .string s :: ts => (some (.quoted s), ts)
  | .block s :: ts => (some (.block s), ts)
  | ts => (none, ts)

/-- A name and, behind a colon, its value. -/
def entry {α : Type} (p : Parser α) : Parser (Name × α) := fun ts => do
  let (n, ts) ← name ts
  let ts ← expect ':' ts
  let (a, ts) ← p ts
  return ((n, a), ts)

/-- A constant value. -/
def valueOf : ℕ → Parser Value
  | 0, _ => none
  | _ + 1, [] => none
  | _ + 1, .name n :: ts => some (.word n, ts)
  | _ + 1, .number s :: ts => some (.number s, ts)
  | _ + 1, .string s :: ts => some (.string (.quoted s), ts)
  | _ + 1, .block s :: ts => some (.string (.block s), ts)
  | _ + 1, .spread :: _ => none
  | fuel + 1, .punctuator c :: ts =>
    if c = '[' then (many (expect ']') (valueOf fuel) ts).map fun r => (.list r.1, r.2)
    else if c = '{' then (many (expect '}') (entry (valueOf fuel)) ts).map fun r => (.object r.1, r.2)
    else none

/-- A constant value. -/
def value : Parser Value := fun ts => valueOf ts.length ts

/-- Whether an exclamation mark stands there. -/
def bang (ts : List Token) : Bool × List Token :=
  match expect '!' ts with
  | none => (false, ts)
  | some ts => (true, ts)

/-- A type reference. -/
def typeOf : ℕ → Parser TypeRef
  | 0, _ => none
  | _ + 1, [] => none
  | fuel + 1, t :: ts =>
    match t with
    | .name n => some (.named n (bang ts).1, (bang ts).2)
    | .punctuator '[' => do
      let (item, ts) ← typeOf fuel ts
      let ts ← expect ']' ts
      return (.list item (bang ts).1, (bang ts).2)
    | _ => none

/-- A type reference. -/
def type : Parser TypeRef := fun ts => typeOf ts.length ts

/-- A directive that is applied. -/
def directive : Parser Directive := fun ts => do
  let ts ← expect '@' ts
  let (n, ts) ← name ts
  let (arguments, ts) ← optionalList '(' (items ')' (entry value)) ts
  return (⟨n, arguments⟩, ts)

/-- Directives, if there are any. -/
def directives : Parser (List Directive) :=
  many (fun ts => if (expect '@' ts).isSome then none else some ts) directive

/-- An argument or a field of an input object. -/
def inputValue : Parser InputValue := fun ts => do
  let (d, ts) := description ts
  let ((n, t), ts) ← entry type ts
  let (v, ts) ← optional '=' value ts
  let (ds, ts) ← directives ts
  return (⟨d, n, t, v, ds⟩, ts)

/-- The definitions of arguments, if there are any. -/
def argumentsDefinition : Parser (List InputValue) := optionalList '(' (items ')' inputValue)

/-- A field of an object type or an interface. -/
def fieldDefinition : Parser Field := fun ts => do
  let (d, ts) := description ts
  let (n, ts) ← name ts
  let (arguments, ts) ← argumentsDefinition ts
  let ts ← expect ':' ts
  let (t, ts) ← type ts
  let (ds, ts) ← directives ts
  return (⟨d, n, arguments, t, ds⟩, ts)

/-- A value of an enum. -/
def enumValueDefinition : Parser EnumValue := fun ts => do
  let (d, ts) := description ts
  let (n, ts) ← name ts
  let (ds, ts) ← directives ts
  if n ∈ reserved then none else some (⟨d, n, ds⟩, ts)

/-- The interfaces a type implements. -/
def implements : Parser (List Name)
  | .name n :: ts => if n = word "implements" then separated '&' name ts else some ([], .name n :: ts)
  | ts => some ([], ts)

/-- A root operation and its type. -/
def rootOperation : Parser (Operation × Name) := fun ts => do
  let (o, ts) ← oneOf Operation.all Operation.word ts
  let ts ← expect ':' ts
  let (n, ts) ← name ts
  return ((o, n), ts)

/-- An object type or an interface, from behind its name. -/
def composite (body : List Name → List Field → TypeBody) (n : Name) : Parser (Definition × List Directive) :=
  fun ts => do
    let (interfaces, ts) ← implements ts
    let (ds, ts) ← directives ts
    let (fields, ts) ← optionalList '{' (items '}' fieldDefinition) ts
    return ((.type n (body interfaces fields), ds), ts)

/-- A type with a list of something, from behind its name. -/
def listed {α : Type} (body : List α → TypeBody) (c : Char) (p : Parser (List α)) (n : Name) :
    Parser (Definition × List Directive) := fun ts => do
  let (ds, ts) ← directives ts
  let (as, ts) ← optionalList c p ts
  return ((.type n (body as), ds), ts)

/-- The root operations, from behind the word. -/
def schemaDefinition : Parser (Definition × List Directive) := fun ts => do
  let (ds, ts) ← directives ts
  let ts ← expect '{' ts
  let (roots, ts) ← items '}' rootOperation ts
  return ((.schema roots, ds), ts)

/-- Whether a word stands there. -/
def flag (w : Name) : List Token → Bool × List Token
  | .name n :: ts => if n = w then (true, ts) else (false, .name n :: ts)
  | ts => (false, ts)

/-- A directive, from behind the word. -/
def directiveDefinition : Parser (Definition × List Directive) := fun ts => do
  let ts ← expect '@' ts
  let (n, ts) ← name ts
  let (arguments, ts) ← argumentsDefinition ts
  let (repeatable, ts) := flag (word "repeatable") ts
  let (on, ts) := flag (word "on") ts
  let (locations, ts) ← if on then separated '|' (oneOf Location.all Location.word) ts else none
  return ((.directive n arguments repeatable locations, []), ts)

/-- What is defined, from behind the word that says so. -/
def definitionOf (keyword : Name) : Parser (Definition × List Directive) := fun ts =>
  if keyword = word "schema" then schemaDefinition ts
  else if keyword = word "directive" then directiveDefinition ts
  else do
    let (n, ts) ← name ts
    if keyword = word "scalar" then do
      let (ds, ts) ← directives ts
      return ((.type n .scalar, ds), ts)
    else if keyword = word "type" then composite .object n ts
    else if keyword = word "interface" then composite .interface n ts
    else if keyword = word "union" then listed .union '=' (separated '|' name) n ts
    else if keyword = word "enum" then listed .enum '{' (items '}' enumValueDefinition) n ts
    else if keyword = word "input" then listed .input '{' (items '}' inputValue) n ts
    else none

/-- A definition. -/
def definition : Parser Described := fun ts => do
  let (d, ts) := description ts
  let (keyword, ts) ← name ts
  let ((body, ds), ts) ← definitionOf keyword ts
  return (⟨d, body, ds⟩, ts)

/-- The definitions of a document, of which there must be one. -/
def document (ts : List Token) : Option Document := do
  let (definitions, _) ← many (fun ts => if ts.isEmpty then some [] else none) definition ts
  if definitions.isEmpty then none else some definitions

/-- The document a text is. -/
def parse (text : String) : Option Document := (tokenize text.toList).bind document

/-! ### The tokens of a document -/

/-- The token of a string. -/
def StringValue.token : StringValue → Token
  | .quoted value => .string value
  | .block raw => .block raw

/-- A description, if there is one. -/
def descriptionTokens (d : Option StringValue) : List Token := (d.map StringValue.token).toList

mutual

/-- The tokens of a value. -/
def Value.tokens : Value → List Token
  | .word n => [.name n]
  | .number text => [.number text]
  | .string s => [s.token]
  | .list items => .punctuator '[' :: (itemTokens items ++ [.punctuator ']'])
  | .object fields => .punctuator '{' :: (fieldTokens fields ++ [.punctuator '}'])

/-- The items of a list. -/
def itemTokens : List Value → List Token
  | [] => []
  | v :: vs => v.tokens ++ itemTokens vs

/-- The fields of an input object. -/
def fieldTokens : List (Name × Value) → List Token
  | [] => []
  | (n, v) :: fs => .name n :: .punctuator ':' :: (v.tokens ++ fieldTokens fs)

end

/-- An exclamation mark, or not. -/
def bangTokens (nonNull : Bool) : List Token := if nonNull then [.punctuator '!'] else []

/-- The tokens of a type reference. -/
def TypeRef.tokens : TypeRef → List Token
  | .named n nonNull => .name n :: bangTokens nonNull
  | .list item nonNull => .punctuator '[' :: (item.tokens ++ .punctuator ']' :: bangTokens nonNull)

section Lists

variable {α : Type} (tok : α → List Token)

/-- A name and its value. -/
def entryTokens (e : Name × α) : List Token := .name e.1 :: .punctuator ':' :: tok e.2

/-- A list in brackets; nothing if it is empty. -/
def bracketed (opening closing : Char) (l : List α) : List Token :=
  if l.isEmpty then [] else .punctuator opening :: (l.flatMap tok ++ [.punctuator closing])

/-- A list with a separator between its items. -/
def separatedTokens (sep : Char) : List α → List Token
  | [] => []
  | a :: as => tok a ++ as.flatMap fun b => .punctuator sep :: tok b

end Lists

/-- The tokens of a directive that is applied. -/
def Directive.tokens (d : Directive) : List Token :=
  .punctuator '@' :: .name d.name :: bracketed (entryTokens Value.tokens) '(' ')' d.arguments

/-- The tokens of a default. -/
def defaultTokens (v : Option Value) : List Token := (v.map fun v => .punctuator '=' :: v.tokens).getD []

/-- The tokens of an argument or a field of an input object. -/
def InputValue.tokens (v : InputValue) : List Token :=
  descriptionTokens v.description ++ entryTokens TypeRef.tokens (v.name, v.type) ++ defaultTokens v.default ++
    v.directives.flatMap Directive.tokens

/-- The tokens of a field. -/
def Field.tokens (f : Field) : List Token :=
  descriptionTokens f.description ++ .name f.name :: (bracketed InputValue.tokens '(' ')' f.arguments ++
    .punctuator ':' :: (f.type.tokens ++ f.directives.flatMap Directive.tokens))

/-- The tokens of a value of an enum. -/
def EnumValue.tokens (v : EnumValue) : List Token :=
  descriptionTokens v.description ++ .name v.name :: v.directives.flatMap Directive.tokens

/-- The tokens of an `implements`. -/
def implementsTokens (interfaces : List Name) : List Token :=
  if interfaces.isEmpty then []
  else .name (word "implements") :: separatedTokens (fun n => [.name n]) '&' interfaces

/-- The tokens of a definition, with the directives on it. -/
def Definition.tokens (ds : List Directive) : Definition → List Token
  | .schema roots =>
    .name (word "schema") :: (ds.flatMap Directive.tokens ++
      bracketed (fun r => [.name r.1.word, .punctuator ':', .name r.2]) '{' '}' roots)
  | .type n .scalar => .name (word "scalar") :: .name n :: ds.flatMap Directive.tokens
  | .type n (.object interfaces fields) =>
    .name (word "type") :: .name n :: (implementsTokens interfaces ++ ds.flatMap Directive.tokens ++
      bracketed Field.tokens '{' '}' fields)
  | .type n (.interface interfaces fields) =>
    .name (word "interface") :: .name n :: (implementsTokens interfaces ++ ds.flatMap Directive.tokens ++
      bracketed Field.tokens '{' '}' fields)
  | .type n (.union members) =>
    .name (word "union") :: .name n :: (ds.flatMap Directive.tokens ++
      if members.isEmpty then [] else .punctuator '=' :: separatedTokens (fun n => [.name n]) '|' members)
  | .type n (.enum values) =>
    .name (word "enum") :: .name n :: (ds.flatMap Directive.tokens ++ bracketed EnumValue.tokens '{' '}' values)
  | .type n (.input fields) =>
    .name (word "input") :: .name n :: (ds.flatMap Directive.tokens ++ bracketed InputValue.tokens '{' '}' fields)
  | .directive n arguments repeatable locations =>
    .name (word "directive") :: .punctuator '@' :: .name n :: (bracketed InputValue.tokens '(' ')' arguments ++
      ((if repeatable then [.name (word "repeatable")] else []) ++
        .name (word "on") :: separatedTokens (fun l => [.name l.word]) '|' locations))

/-- The tokens of a definition and its description. -/
def Described.tokens (d : Described) : List Token :=
  descriptionTokens d.description ++ d.definition.tokens d.directives

/-- What the grammar asks of a definition beyond its shape. -/
def Described.WellFormed (d : Described) : Prop :=
  match d.definition with
  | .schema roots => roots ≠ []
  | .type _ (.enum values) => ∀ v ∈ values, v.name ∉ reserved
  | .directive _ _ _ locations => locations ≠ [] ∧ d.directives = []
  | _ => True

end G2way.Lib.GraphQl.Sdl
