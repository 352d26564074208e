import G2way.GraphQl.Introspection
import G2way.Lib.Sdl

/-!
# The introspection response of a schema

What an upstream answers to `INTROSPECTION_QUERY` of
`g2-middleware/src/graphql_sync.rs`, "the canonical graphql-js query (descriptions,
deprecated members included, argument default values, directive declarations)". The
query has deprecated fields and deprecated values of enums listed
(`includeDeprecated: true`), and asks for seven levels of `ofType`.

## The model

`Schema` is what there is to introspect: the root operations, the types and the
directives, each with its description, its deprecation, and the defaults as values.
Names have the grammar of names, so that an ill-formed one cannot be built.

A server prints a default as a literal (`literal`). It may leave deprecated
arguments and input fields out of a list that does not ask for them (`hides`), as
servers do that know deprecated ones; the query does not ask for them. `listed` is
the schema as far as the server lists it.

## What is proved

`readSchema_schemaJson`: what the converter reads is the schema as listed, with each
type reference cut at the depth of the query.
-/

namespace G2way.Upstream

open G2way.Lib
open G2way.GraphQl (IntrospectionTypeRef IntrospectionInputValue IntrospectionField IntrospectionEnumValue
  IntrospectionDirective IntrospectionType IntrospectionSchema orNull readString readVec readTypeRef readNamedTypeRef
  readInputValue readField readEnumValue readType membersOf Members)
open G2way.Lib.GraphQl (Name)
open G2way.Lib.GraphQl.Sdl (Value TypeRef Location)

/-! ### Schemas -/

/-- An argument or a field of an input object. -/
structure InputValue where
  name : Name
  description : Option String
  type : TypeRef
  default : Option Value
  /-- If it is deprecated, perhaps with a reason. -/
  deprecation : Option (Option String)

/-- A field of an object type or an interface. -/
structure Field where
  name : Name
  description : Option String
  arguments : List InputValue
  type : TypeRef
  deprecation : Option (Option String)

/-- A value of an enum. -/
structure EnumValue where
  name : Name
  description : Option String
  deprecation : Option (Option String)

/-- What a type is. -/
inductive TypeBody where
  | scalar
  | object (interfaces : List Name) (fields : List Field)
  | interface (interfaces : List Name) (fields : List Field)
  | union (members : List Name)
  | enum (values : List EnumValue)
  | input (fields : List InputValue)

/-- A type. -/
structure TypeDefinition where
  name : Name
  description : Option String
  body : TypeBody

/-- A directive. -/
structure DirectiveDefinition where
  name : Name
  description : Option String
  locations : List Location
  arguments : List InputValue

/-- A schema, with what every schema predefines. -/
structure Schema where
  query : Name
  mutation : Option Name
  subscription : Option Name
  types : List TypeDefinition
  directives : List DirectiveDefinition

/-- How a server answers. -/
structure Server where
  /-- The literal a default is printed as. -/
  literal : Value → String
  /-- It leaves deprecated arguments and input fields out of a list that does not ask for them. -/
  hides : Bool

/-! ### What a server lists -/

/-- The arguments or input fields a server lists unasked. -/
def listedInputs (hides : Bool) (inputs : List InputValue) : List InputValue :=
  if hides then inputs.filter (·.deprecation.isNone) else inputs

/-- A field with the arguments that are listed. -/
def Field.listed (hides : Bool) (f : Field) : Field := { f with arguments := listedInputs hides f.arguments }

/-- What is listed of what a type is. -/
def TypeBody.listed (hides : Bool) : TypeBody → TypeBody
  | .object interfaces fields => .object interfaces (fields.map (Field.listed hides))
  | .interface interfaces fields => .interface interfaces (fields.map (Field.listed hides))
  | .input fields => .input (listedInputs hides fields)
  | body => body

/-- A type with what is listed of it. -/
def TypeDefinition.listed (hides : Bool) (t : TypeDefinition) : TypeDefinition :=
  { t with body := t.body.listed hides }

/-- A directive with the arguments that are listed. -/
def DirectiveDefinition.listed (hides : Bool) (d : DirectiveDefinition) : DirectiveDefinition :=
  { d with arguments := listedInputs hides d.arguments }

/-- The schema, as far as a server lists it. -/
def Schema.listed (hides : Bool) (s : Schema) : Schema :=
  { s with
    types := s.types.map (TypeDefinition.listed hides)
    directives := s.directives.map (DirectiveDefinition.listed hides) }

/-! ### The response -/

section Response

variable {Num : Type} (server : Server) (s : Schema)

/-- The kind of a type. -/
def TypeBody.kind : TypeBody → String
  | .scalar => "SCALAR"
  | .object .. => "OBJECT"
  | .interface .. => "INTERFACE"
  | .union .. => "UNION"
  | .enum .. => "ENUM"
  | .input .. => "INPUT_OBJECT"

/-- The kind of the type of that name. -/
def Schema.kindOf (n : Name) : String := ((s.types.find? (·.name = n)).map (·.body.kind)).getD "SCALAR"

/-- An optional member: `null` without a value. -/
def nullable {α : Type} (f : α → Json Num) : Option α → Json Num
  | none => .null
  | some a => f a

/-- A named type, under that many more levels of `ofType`. -/
def namedJson (n : Name) : ℕ → Json Num
  | 0 => .object [("kind", .string (s.kindOf n)), ("name", .string n.text)]
  | _ + 1 => .object [("kind", .string (s.kindOf n)), ("name", .string n.text), ("ofType", .null)]

/-- A wrapping type, under that many more levels of `ofType`. -/
def wrapperJson (kind : String) (inner : ℕ → Json Num) : ℕ → Json Num
  | 0 => .object [("kind", .string kind), ("name", .null)]
  | levels + 1 => .object [("kind", .string kind), ("name", .null), ("ofType", inner levels)]

/-- A type as non-null, or not. -/
def nonNullJson (nonNull : Bool) (inner : ℕ → Json Num) : ℕ → Json Num :=
  if nonNull then wrapperJson "NON_NULL" inner else inner

/-- `TypeRef`, under that many levels of `ofType`. -/
def typeRefJson : TypeRef → ℕ → Json Num
  | .named n nonNull => nonNullJson nonNull (namedJson s n)
  | .list item nonNull => nonNullJson nonNull (wrapperJson "LIST" (typeRefJson item))

/-- The levels of `ofType` the query asks for. -/
def ofTypeLevels : ℕ := 7

/-- `InputValue`. -/
def inputValueJson (v : InputValue) : Json Num :=
  .object [("name", .string v.name.text), ("description", nullable .string v.description),
    ("type", typeRefJson s v.type ofTypeLevels), ("defaultValue", nullable (.string ∘ server.literal) v.default)]

/-- The members of a deprecation. -/
def deprecationJson (deprecation : Option (Option String)) : List (String × Json Num) :=
  [("isDeprecated", .bool deprecation.isSome), ("deprecationReason", nullable .string deprecation.join)]

/-- A field. -/
def fieldJson (f : Field) : Json Num :=
  .object ([("name", .string f.name.text), ("description", nullable .string f.description),
    ("args", .array (f.arguments.map (inputValueJson server s))), ("type", typeRefJson s f.type ofTypeLevels)] ++
    deprecationJson f.deprecation)

/-- A value of an enum. -/
def enumValueJson (v : EnumValue) : Json Num :=
  .object ([("name", .string v.name.text), ("description", nullable .string v.description)] ++
    deprecationJson v.deprecation)

/-- The types that are listed by name. -/
def namesJson (names : List Name) : Json Num := .array (names.map fun n => namedJson s n ofTypeLevels)

/-- The object types that implement an interface. -/
def Schema.implementers (n : Name) : List Name :=
  (s.types.filter fun t =>
    match t.body with
    | .object interfaces _ => decide (n ∈ interfaces)
    | _ => false).map (·.name)

/-- `fields` of a type. -/
def TypeBody.fieldsJson : TypeBody → Json Num
  | .object _ fields => .array (fields.map (fieldJson server s))
  | .interface _ fields => .array (fields.map (fieldJson server s))
  | _ => .null

/-- `inputFields` of a type. -/
def TypeBody.inputFieldsJson : TypeBody → Json Num
  | .input fields => .array (fields.map (inputValueJson server s))
  | _ => .null

/-- `interfaces` of a type. -/
def TypeBody.interfacesJson : TypeBody → Json Num
  | .object interfaces _ => namesJson s interfaces
  | .interface interfaces _ => namesJson s interfaces
  | _ => .null

/-- `enumValues` of a type. -/
def TypeBody.enumValuesJson : TypeBody → Json Num
  | .enum values => .array (values.map enumValueJson)
  | _ => .null

/-- `possibleTypes` of a type. -/
def possibleTypesJson (n : Name) : TypeBody → Json Num
  | .union members => namesJson s members
  | .interface _ _ => namesJson s (s.implementers n)
  | _ => .null

/-- `FullType`. -/
def typeJson (t : TypeDefinition) : Json Num :=
  .object [("kind", .string t.body.kind), ("name", .string t.name.text),
    ("description", nullable .string t.description), ("fields", t.body.fieldsJson server s),
    ("inputFields", t.body.inputFieldsJson server s), ("interfaces", t.body.interfacesJson s),
    ("enumValues", t.body.enumValuesJson), ("possibleTypes", possibleTypesJson s t.name t.body)]

/-- A directive. -/
def directiveJson (d : DirectiveDefinition) : Json Num :=
  .object [("name", .string d.name.text), ("description", nullable .string d.description),
    ("locations", .array (d.locations.map fun l => .string l.word.text)),
    ("args", .array (d.arguments.map (inputValueJson server s)))]

/-- The name of a root type. -/
def rootJson (n : Name) : Json Num := .object [("name", .string n.text)]

/-- `__schema`, of a schema that is listed whole. -/
def schemaJson : Json Num :=
  .object [("queryType", rootJson s.query), ("mutationType", nullable rootJson s.mutation),
    ("subscriptionType", nullable rootJson s.subscription), ("types", .array (s.types.map (typeJson server s))),
    ("directives", .array (s.directives.map (directiveJson server s)))]

/-- What the server answers. -/
def response : Json Num := .object [("data", .object [("__schema", schemaJson server (s.listed server.hides))])]

/-! ### The response, read -/

/-- A named type, read. -/
def namedRef (n : Name) : IntrospectionTypeRef := .mk (s.kindOf n) (some n.text) none

/-- A wrapping type, read. -/
def wrapperRef (kind : String) (inner : ℕ → IntrospectionTypeRef) : ℕ → IntrospectionTypeRef
  | 0 => .mk kind none none
  | levels + 1 => .mk kind none (some (inner levels))

/-- A type as non-null, or not, read. -/
def nonNullRef (nonNull : Bool) (inner : ℕ → IntrospectionTypeRef) : ℕ → IntrospectionTypeRef :=
  if nonNull then wrapperRef "NON_NULL" inner else inner

/-- A type reference, read from that many levels. -/
def introspectedRef : TypeRef → ℕ → IntrospectionTypeRef
  | .named n nonNull => nonNullRef nonNull fun _ => namedRef s n
  | .list item nonNull => nonNullRef nonNull (wrapperRef "LIST" (introspectedRef item))

/-- An argument or an input field, read. -/
def introspectedInput (v : InputValue) : IntrospectionInputValue where
  name := v.name.text
  ty := introspectedRef s v.type ofTypeLevels
  defaultValue := v.default.map server.literal

/-- A field, read. -/
def introspectedField (f : Field) : IntrospectionField where
  name := f.name.text
  description := f.description
  args := f.arguments.map (introspectedInput server s)
  ty := introspectedRef s f.type ofTypeLevels
  isDeprecated := f.deprecation.isSome
  deprecationReason := f.deprecation.join

/-- A value of an enum, read. -/
def introspectedValue (v : EnumValue) : IntrospectionEnumValue where
  name := v.name.text
  description := v.description
  isDeprecated := v.deprecation.isSome
  deprecationReason := v.deprecation.join

/-- A directive, read. -/
def introspectedDirective (d : DirectiveDefinition) : IntrospectionDirective where
  name := d.name.text
  description := d.description
  locations := d.locations.map (·.word.text)
  args := d.arguments.map (introspectedInput server s)

/-- A type, read. -/
def introspectedType (t : TypeDefinition) : IntrospectionType where
  kind := t.body.kind
  name := some t.name.text
  description := t.description
  fields :=
    match t.body with
    | .object _ fields => some (fields.map (introspectedField server s))
    | .interface _ fields => some (fields.map (introspectedField server s))
    | _ => none
  interfaces :=
    match t.body with
    | .object interfaces _ => some (interfaces.map (namedRef s))
    | .interface interfaces _ => some (interfaces.map (namedRef s))
    | _ => none
  possibleTypes :=
    match t.body with
    | .union members => some (members.map (namedRef s))
    | .interface _ _ => some ((s.implementers t.name).map (namedRef s))
    | _ => none
  enumValues :=
    match t.body with
    | .enum values => some (values.map introspectedValue)
    | _ => none
  inputFields :=
    match t.body with
    | .input fields => some (fields.map (introspectedInput server s))
    | _ => none

/-- The schema, read. -/
def introspected : IntrospectionSchema where
  queryType := some s.query.text
  mutationType := s.mutation.map (·.text)
  subscriptionType := s.subscription.map (·.text)
  types := s.types.map (introspectedType server s)
  directives := s.directives.map (introspectedDirective server s)

theorem readVec_map {α β : Type} {read : Json Num → Option β} {f : α → Json Num} {g : α → β} {l : List α}
    (h : ∀ a ∈ l, read (f a) = some (g a)) : readVec read (.array (l.map f)) = some (l.map g) := by
  rw [readVec]
  induction l with
  | nil => rfl
  | cons a l ih =>
    have htail := ih fun b hb => h b (List.mem_cons_of_mem _ hb)
    simp only [List.map_cons, List.mapM_cons, h a (List.mem_cons_self ..), htail, bind, pure, Option.bind_some]

theorem readTypeRef_named (n : Name) (levels : ℕ) :
    readTypeRef (namedJson s n levels : Json Num) = some (namedRef s n) := by
  cases levels <;> rfl

theorem namedJson_object (n : Name) (levels : ℕ) : ∃ ms, (namedJson s n levels : Json Num) = .object ms := by
  cases levels <;> exact ⟨_, rfl⟩

theorem wrapperJson_object (kind : String) (inner : ℕ → Json Num) (levels : ℕ) :
    ∃ ms, wrapperJson kind inner levels = .object ms := by
  cases levels <;> exact ⟨_, rfl⟩

theorem readTypeRef_wrapper {kind : String} {inner : ℕ → Json Num} {ref : ℕ → IntrospectionTypeRef}
    (h : ∀ levels, readTypeRef (inner levels) = some (ref levels)) (hobject : ∀ levels, ∃ ms, inner levels = .object ms)
    (levels : ℕ) : readTypeRef (wrapperJson kind inner levels) = some (wrapperRef kind ref levels) := by
  cases levels with
  | zero => rfl
  | succ levels =>
    obtain ⟨ms, hms⟩ := hobject levels
    have hread : orNull (inner levels) (readTypeRef (inner levels)) = some (some (ref levels)) := by
      rw [h, hms]
      rfl
    have hunfold : ∀ value : Json Num,
        readTypeRef (.object [("kind", .string kind), ("name", .null), ("ofType", value)]) =
          (orNull value (readTypeRef value)).bind fun ofType => some (.mk kind none ofType) := fun _ => rfl
    rw [wrapperJson, hunfold, hread]
    rfl

theorem readTypeRef_nonNull {inner : ℕ → Json Num} {ref : ℕ → IntrospectionTypeRef} (nonNull : Bool)
    (h : ∀ levels, readTypeRef (inner levels) = some (ref levels)) (hobject : ∀ levels, ∃ ms, inner levels = .object ms)
    (levels : ℕ) : readTypeRef (nonNullJson nonNull inner levels) = some (nonNullRef nonNull ref levels) := by
  cases nonNull with
  | true => exact readTypeRef_wrapper h hobject levels
  | false => exact h levels

/-- A type reference is read as it was cut. -/
theorem readTypeRef_typeRefJson (t : TypeRef) (levels : ℕ) :
    readTypeRef (typeRefJson s t levels : Json Num) = some (introspectedRef s t levels) ∧
      ∃ ms, (typeRefJson s t levels : Json Num) = .object ms := by
  induction t generalizing levels with
  | named n nonNull =>
    refine ⟨readTypeRef_nonNull nonNull (readTypeRef_named s n) (namedJson_object s n) levels, ?_⟩
    cases nonNull with
    | true => exact wrapperJson_object _ _ levels
    | false => exact namedJson_object s n levels
  | list item nonNull ih =>
    have hlist : ∀ levels, readTypeRef (wrapperJson "LIST" (typeRefJson s item) levels : Json Num) =
        some (wrapperRef "LIST" (introspectedRef s item) levels) :=
      readTypeRef_wrapper (fun levels => (ih levels).1) fun levels => (ih levels).2
    refine ⟨readTypeRef_nonNull nonNull hlist (wrapperJson_object _ _) levels, ?_⟩
    cases nonNull with
    | true => exact wrapperJson_object _ _ levels
    | false => exact wrapperJson_object _ _ levels

/-- An optional member is read as it was written. -/
theorem orNull_nullable {α β : Type} {f : α → Json Num} {g : α → β} {read : Json Num → Option β}
    (h : ∀ a, orNull (f a) (read (f a)) = some (some (g a))) (o : Option α) :
    orNull (nullable f o) (read (nullable f o)) = some (o.map g) := by
  cases o with
  | none => rfl
  | some a => exact h a

theorem orNull_text (o : Option String) :
    orNull (nullable .string o : Json Num) (readString (nullable .string o : Json Num)) = some o := by
  cases o <;> rfl

theorem readInputValue_inputValueJson (v : InputValue) :
    readInputValue (inputValueJson server s v : Json Num) = some (introspectedInput server s v) := by
  have hunfold : ∀ (name : String) (description type default : Json Num),
      readInputValue (.object [("name", .string name), ("description", description), ("type", type),
        ("defaultValue", default)]) =
        (readTypeRef type).bind fun ty => (orNull default (readString default)).bind fun d => some ⟨name, ty, d⟩ :=
    fun _ _ _ _ => rfl
  rw [inputValueJson, hunfold, (readTypeRef_typeRefJson s v.type ofTypeLevels).1,
    orNull_nullable (g := server.literal) (fun _ => rfl)]
  rfl

theorem readField_fieldJson (f : Field) :
    readField (fieldJson server s f : Json Num) = some (introspectedField server s f) := by
  have hunfold : ∀ (name : String) (description args type : Json Num) (b : Bool) (reason : Json Num),
      readField (.object [("name", .string name), ("description", description), ("args", args), ("type", type),
        ("isDeprecated", .bool b), ("deprecationReason", reason)]) =
        (orNull description (readString description)).bind fun description =>
          (readVec readInputValue args).bind fun args => (readTypeRef type).bind fun ty =>
            (orNull reason (readString reason)).bind fun reason => some ⟨name, description, args, ty, b, reason⟩ :=
    fun _ _ _ _ _ _ => rfl
  rw [fieldJson, deprecationJson]
  refine (hunfold ..).trans ?_
  rw [orNull_text, readVec_map fun v _ => readInputValue_inputValueJson server s v,
    (readTypeRef_typeRefJson s f.type ofTypeLevels).1, orNull_text]
  rfl

theorem readEnumValue_enumValueJson (v : EnumValue) :
    readEnumValue (enumValueJson v : Json Num) = some (introspectedValue v) := by
  have hunfold : ∀ (name : String) (description : Json Num) (b : Bool) (reason : Json Num),
      readEnumValue (.object [("name", .string name), ("description", description), ("isDeprecated", .bool b),
        ("deprecationReason", reason)]) =
        (orNull description (readString description)).bind fun description =>
          (orNull reason (readString reason)).bind fun reason => some ⟨name, description, b, reason⟩ :=
    fun _ _ _ _ => rfl
  rw [enumValueJson, deprecationJson]
  refine (hunfold ..).trans ?_
  rw [orNull_text, orNull_text]
  rfl

theorem readDirective_directiveJson (d : DirectiveDefinition) :
    GraphQl.readDirective (directiveJson server s d : Json Num) = some (introspectedDirective server s d) := by
  have hunfold : ∀ (name : String) (description locations args : Json Num),
      GraphQl.readDirective (.object [("name", .string name), ("description", description), ("locations", locations),
        ("args", args)]) =
        (orNull description (readString description)).bind fun description =>
          (readVec readString locations).bind fun locations => (readVec readInputValue args).bind fun args =>
            some ⟨name, description, locations, args⟩ :=
    fun _ _ _ _ => rfl
  rw [directiveJson, hunfold, orNull_text, readVec_map (g := fun l : Location => l.word.text) (fun _ _ => rfl),
    readVec_map fun v _ => readInputValue_inputValueJson server s v]
  rfl

theorem readVec_namesJson (names : List Name) :
    readVec readTypeRef (namesJson s names : Json Num) = some (names.map (namedRef s)) :=
  readVec_map fun n _ => readTypeRef_named s n ofTypeLevels

theorem readType_typeJson (t : TypeDefinition) :
    readType (typeJson server s t : Json Num) = some (introspectedType server s t) := by
  have hunfold : ∀ (kind name : String) (description fields inputFields interfaces enumValues possibleTypes : Json Num),
      readType (.object [("kind", .string kind), ("name", .string name), ("description", description),
        ("fields", fields), ("inputFields", inputFields), ("interfaces", interfaces), ("enumValues", enumValues),
        ("possibleTypes", possibleTypes)]) =
        (orNull description (readString description)).bind fun description =>
          (orNull fields (readVec readField fields)).bind fun fields =>
            (orNull interfaces (readVec readTypeRef interfaces)).bind fun interfaces =>
              (orNull possibleTypes (readVec readTypeRef possibleTypes)).bind fun possibleTypes =>
                (orNull enumValues (readVec readEnumValue enumValues)).bind fun enumValues =>
                  (orNull inputFields (readVec readInputValue inputFields)).bind fun inputFields =>
                    some ⟨kind, some name, description, fields, interfaces, possibleTypes, enumValues, inputFields⟩ :=
    fun _ _ _ _ _ _ _ _ => rfl
  have hfields : ∀ fields : List Field, readVec readField (.array (fields.map (fieldJson server s) : List (Json Num))) =
      some (fields.map (introspectedField server s)) := fun fields => readVec_map fun f _ => readField_fieldJson server s f
  have hinputs : ∀ inputs : List InputValue,
      readVec readInputValue (.array (inputs.map (inputValueJson server s) : List (Json Num))) =
        some (inputs.map (introspectedInput server s)) :=
    fun inputs => readVec_map fun v _ => readInputValue_inputValueJson server s v
  have hvalues : ∀ values : List EnumValue,
      readVec readEnumValue (.array (values.map enumValueJson : List (Json Num))) = some (values.map introspectedValue) :=
    fun values => readVec_map fun v _ => readEnumValue_enumValueJson v
  have hnames : ∀ names : List Name,
      readVec readTypeRef (namesJson s names : Json Num) = some (names.map (namedRef s)) := readVec_namesJson s
  obtain ⟨name, description, body⟩ := t
  rw [typeJson, hunfold, orNull_text]
  cases body with
  | scalar => rfl
  | object interfaces fields =>
    simp only [TypeBody.fieldsJson, TypeBody.inputFieldsJson, TypeBody.interfacesJson, TypeBody.enumValuesJson,
      possibleTypesJson, hfields, hnames]
    rfl
  | interface interfaces fields =>
    simp only [TypeBody.fieldsJson, TypeBody.inputFieldsJson, TypeBody.interfacesJson, TypeBody.enumValuesJson,
      possibleTypesJson, hfields, hnames]
    rfl
  | union members =>
    simp only [TypeBody.fieldsJson, TypeBody.inputFieldsJson, TypeBody.interfacesJson, TypeBody.enumValuesJson,
      possibleTypesJson, hnames]
    rfl
  | enum values =>
    simp only [TypeBody.fieldsJson, TypeBody.inputFieldsJson, TypeBody.interfacesJson, TypeBody.enumValuesJson,
      possibleTypesJson, hvalues]
    rfl
  | input fields =>
    simp only [TypeBody.fieldsJson, TypeBody.inputFieldsJson, TypeBody.interfacesJson, TypeBody.enumValuesJson,
      possibleTypesJson, hinputs]
    rfl

/-- What the converter reads of a schema that is listed whole. -/
theorem readSchema_schemaJson :
    GraphQl.readSchema (schemaJson server s : Json Num) = some (introspected server s) := by
  have hunfold : ∀ (query : String) (mutation subscription types directives : Json Num),
      GraphQl.readSchema (.object [("queryType", .object [("name", .string query)]), ("mutationType", mutation),
        ("subscriptionType", subscription), ("types", types), ("directives", directives)]) =
        (orNull mutation (readNamedTypeRef mutation)).bind fun mutation =>
          (orNull subscription (readNamedTypeRef subscription)).bind fun subscription =>
            (readVec readType types).bind fun types => (readVec GraphQl.readDirective directives).bind fun directives =>
              some ⟨some query, mutation, subscription, types, directives⟩ :=
    fun _ _ _ _ _ => rfl
  have hroot : ∀ o : Option Name, orNull (nullable rootJson o) (readNamedTypeRef (nullable rootJson o : Json Num)) =
      some (o.map (·.text)) := fun o => orNull_nullable (fun _ => rfl) o
  rw [schemaJson, rootJson, hunfold, hroot, hroot, readVec_map fun t _ => readType_typeJson server s t,
    readVec_map fun d _ => readDirective_directiveJson server s d]
  rfl

end Response

end G2way.Upstream
