import G2way.GraphQl.Schema
import G2way.Lib.Assoc
import G2way.Lib.Result

/-!
# Composing a supergraph

`compose`, from `g2-core/src/federation.rs`: subgraph schemas are merged into the
one schema clients see, with the tables the executor plans by. "The merge is a
deliberate v1 subset — flat scalar keys, object entities, identical value types —
and every unsupported shape is a loud error".

## The model

A `SubgraphSchema` is what `apollo_compiler` makes of a subgraph's SDL: its types
by name, built-in ones apart, with the federation directives that composition
reads; other directives stay as printed. What a valid schema guarantees is in
`ValidSubgraph`. Composition goes over the subgraphs in order; where the source
keeps the first declaration of a field in an accumulator, the model looks it up
(`firstDeclaration`), so that the first error is the same. The composed types are
data (`ComposedSupergraph.types`) where the source prints and parses SDL; the
final validation of that SDL is a parameter.

## What is proved

What composition promises of each kind of type is said once: a value type is the
same wherever it is defined (`composedType_of_value`), an entity's field has one
signature (`signature_eq`) and every subgraph that has the entity has the keys of
the others (`key_available`), a root field has one owner (`rootFields_unique`).
So a field of the composed schema is one of every subgraph that owns it, with the
same type (`fieldType_of_owns`).
-/

namespace G2way.GraphQl

open Lib Lib.Result Lib.Assoc

/-! ### Subgraph schemas -/

/-- The type of a field or an argument. -/
inductive TypeRef where
  | named (name : Name)
  | list (ty : TypeRef)
  | nonNull (ty : TypeRef)
  deriving DecidableEq, Repr

/-- The name inside the lists and non-nulls. -/
def TypeRef.inner : TypeRef → Name
  | .named name => name
  | .list ty => ty.inner
  | .nonNull ty => ty.inner

/-- The reference as it is printed. -/
def TypeRef.text : TypeRef → String
  | .named name => name
  | .list ty => "[" ++ ty.text ++ "]"
  | .nonNull ty => ty.text ++ "!"

/-- An argument of a field. -/
structure ArgumentDef where
  name : Name
  ty : TypeRef
  /-- The default value, as it is printed. -/
  defaultValue : Option String := none
  description : Option String := none
  /-- The directives of the schema's own, as they are printed. -/
  directives : List String := []
  deriving DecidableEq, Repr

/-- The federation directives of a field that composition reads. -/
structure FieldFederation where
  external : Bool := false
  requires : Bool := false
  override : Bool := false
  deriving DecidableEq, Repr

/-- A field of an object type or an interface. -/
structure FieldDef where
  name : Name
  arguments : List ArgumentDef := []
  ty : TypeRef
  federation : FieldFederation := {}
  description : Option String := none
  /-- The other directives, as they are printed. -/
  directives : List String := []
  deriving DecidableEq, Repr

/-- `@key`: its `fields` if they are a string, and its `resolvable` if it is given. -/
structure KeyDirective where
  fields : Option String
  resolvable : Option Bool := none
  deriving DecidableEq, Repr

/-- An object type or an interface. -/
structure ObjectDef where
  implementing : List Name := []
  fields : List FieldDef
  keys : List KeyDirective := []
  external : Bool := false
  description : Option String := none
  directives : List String := []
  deriving DecidableEq, Repr

/-- A type definition (`ExtendedType`); what composition only compares is kept as printed. -/
inductive TypeDef where
  | scalar (text : String)
  | object (o : ObjectDef)
  | interface (o : ObjectDef)
  | union (members : List Name) (directives : List String)
  | enum (text : String)
  | inputObject (text : String)
  deriving DecidableEq, Repr

/-- `kind_name`. -/
def TypeDef.kindName : TypeDef → String
  | .scalar _ => "scalar"
  | .object _ => "object"
  | .interface _ => "interface"
  | .union .. => "union"
  | .enum _ => "enum"
  | .inputObject _ => "input object"

/-- The fields of a type that has fields. -/
def TypeDef.fields : TypeDef → List FieldDef
  | .object o | .interface o => o.fields
  | _ => []

/-- The field of a name. -/
def ObjectDef.field (o : ObjectDef) (name : Name) : Option FieldDef := o.fields.find? (·.name = name)

/-- A schema: its root types and its types. -/
structure SubgraphSchema where
  query : Option Name := some "Query"
  mutation : Option Name := none
  subscription : Option Name := none
  types : List (Name × TypeDef)

/-- The scalars every schema has. -/
def builtInScalars : List Name := ["Int", "Float", "String", "Boolean", "ID"]

/-- A schema that passed validation, as far as is needed here. -/
structure ValidSubgraph extends SubgraphSchema where
  /-- Types and the fields of a type are maps by name. -/
  typeNames : (types.map Prod.fst).Nodup
  fieldNames : ∀ p ∈ types, (p.2.fields.map FieldDef.name).Nodup
  /-- The type of a field is defined. -/
  fieldTypes : ∀ p ∈ types, ∀ f ∈ p.2.fields, f.ty.inner ∈ builtInScalars ∨ f.ty.inner ∈ types.map Prod.fst
  /-- Names that begin with `__`, and those of the built-in scalars, are reserved. -/
  reserved : ∀ p ∈ types, isMeta p.1 = false ∧ p.1 ∉ builtInScalars
  /-- So are field names that begin with `__`. -/
  reservedFields : ∀ p ∈ types, ∀ f ∈ p.2.fields, isMeta f.name = false
  /-- A root type is an object type. -/
  rootTypes : ∀ root, query = some root ∨ mutation = some root → ∃ o, types.lookup root = some (.object o)

/-- Fields by name, with the names of their types. -/
def fieldTypes (fields : List FieldDef) : List (Name × Name) := fields.map fun f => (f.name, f.ty.inner)

/-- A definition as an object type. -/
def TypeDef.objectType : TypeDef → Option ObjectType
  | .object o => some ⟨o.implementing, fieldTypes o.fields⟩
  | _ => none

/-- The fields of a definition that is an interface. -/
def TypeDef.interfaceFields : TypeDef → Option (List (Name × Name))
  | .interface o => some (fieldTypes o.fields)
  | _ => none

/-- The members of a definition that is a union. -/
def TypeDef.unionMembers : TypeDef → Option (List Name)
  | .union members _ => some members
  | _ => none

/-- The types as selection sets are checked against. -/
def schemaOf (types : List (Name × TypeDef)) : Schema where
  objects := types.filterMap fun p => p.2.objectType.map fun o => (p.1, o)
  interfaces := types.filterMap fun p => p.2.interfaceFields.map fun fields => (p.1, fields)
  unions := types.filterMap fun p => p.2.unionMembers.map fun members => (p.1, members)

/-! ### Stripping -/

/-- `strip_field`. -/
def stripField (f : FieldDef) : FieldDef := { f with federation := {} }

/-- `strip_type` of an object type or an interface. -/
def stripObject (o : ObjectDef) : ObjectDef :=
  { o with keys := [], external := false, fields := o.fields.map stripField }

/-- `strip_type`. -/
def stripType : TypeDef → TypeDef
  | .object o => .object (stripObject o)
  | .interface o => .interface (stripObject o)
  | other => other

/-! ### Entities -/

/-- The argument/return signature of a field: directives and descriptions excluded on purpose. -/
def FieldDef.signature (f : FieldDef) : List (Name × TypeRef × Option String) × TypeRef :=
  (f.arguments.map fun a => (a.name, a.ty, a.defaultValue), f.ty)

/-- `field_signature`, as it is printed. -/
def fieldSignature (f : FieldDef) : String :=
  "(" ++ ", ".intercalate (f.arguments.map fun a =>
    a.name ++ ": " ++ a.ty.text ++ (a.defaultValue.map (" = " ++ ·)).getD "") ++ "): " ++ f.ty.text

/-- The tokens of a field set. -/
def keyTokens (fields : String) : List Name :=
  ((fields.toList.splitOnP fun c => Text.isWhitespace c || c == ',').filter (· ≠ [])).map String.ofList

/-- The first `@key` of a definition, if it is resolvable. -/
def ObjectDef.resolvableKey (o : ObjectDef) : Option KeyDirective :=
  o.keys.head?.filter fun k => k.resolvable.getD true

/-- The canonical key of a definition. -/
def ObjectDef.keyFields (o : ObjectDef) : Option (List Name) :=
  (o.resolvableKey.bind (·.fields)).map keyTokens

section Entity

variable (names : List String) (tname : Name) (objects : List (ℕ × ObjectDef))

/-- The name of a subgraph. -/
def subgraphName (i : ℕ) : String := names.getD i ""

/-- `parse_key_fields`. -/
def parseKeyFields (i : ℕ) (obj : ObjectDef) (fields : String) : Except String (List Name) := do
  let entity := "subgraph `" ++ subgraphName names i ++ "`: entity `" ++ tname ++ "`"
  ensure (keyTokens fields ≠ []) (entity ++ " has an empty @key")
  (keyTokens fields).forM fun token => do
    ensure (!token.toList.any fun c => "\x7b\x7d():.".toList.contains c)
      (entity ++ " @key `" ++ fields ++ "` uses a nested or argumented selection; only flat field lists " ++
        "are supported (ADR-0011)")
    ensure (obj.field token).isSome (entity ++ " @key names unknown field `" ++ token ++ "`")
  return keyTokens fields

/-- The check of a definition's key. -/
def checkKey (i : ℕ) (obj : ObjectDef) : Except String Unit :=
  match obj.resolvableKey with
  | none => .ok ()
  | some key => do
    let spec ← okOr key.fields ("subgraph `" ++ subgraphName names i ++ "`: entity `" ++ tname ++
      "` @key `fields` must be a string")
    let _ ← parseKeyFields names tname i obj spec

/-- The first subgraph to declare a field, and its declaration. -/
def firstDeclaration (fname : Name) : Option (ℕ × FieldDef) :=
  objects.findSome? fun p => (p.2.field fname).map fun f => (p.1, f)

/-- A declaration that its subgraph does not resolve. -/
def isExternal (obj : ObjectDef) (f : FieldDef) : Bool := obj.external || f.federation.external

/-- The declaration of a field, where the subgraph resolves it. -/
def ObjectDef.resolves (obj : ObjectDef) (fname : Name) : Option FieldDef :=
  (obj.field fname).filter fun f => !isExternal obj f

/-- The subgraphs that resolve a field. -/
def ownersOf (fname : Name) : List ℕ :=
  (objects.filter fun p => (p.2.resolves fname).isSome).map Prod.fst

/-- The definition of a field in the composed type: that of the first subgraph to resolve it. -/
def resolvedField (fname : Name) : Option FieldDef :=
  (objects.findSome? fun p => p.2.resolves fname).map stripField

/-- The names of the fields, in the order they are first declared. -/
def entityFieldNames : List Name := (objects.flatMap fun p => p.2.fields.map FieldDef.name).eraseDups

/-- The subgraphs that resolve some field. -/
def ownerUnion : List ℕ :=
  (List.range names.length).filter fun s => (entityFieldNames objects).any fun f => s ∈ ownersOf objects f

/-- The per-subgraph keys. -/
def entityKeys : List (Option (List Name)) :=
  (List.range names.length).map fun i => (objects.lookup i).bind ObjectDef.keyFields

/-- The check of one declaration of a field. -/
def checkField (i : ℕ) (f : FieldDef) : Except String Unit := do
  let field := "`" ++ tname ++ "." ++ f.name ++ "`"
  let where_ := "subgraph `" ++ subgraphName names i ++ "`: " ++ field ++ " — "
  ensure (!f.federation.requires) (where_ ++ "@requires is not supported (ADR-0011)")
  ensure (!f.federation.override) (where_ ++ "@override is not supported (ADR-0011)")
  match firstDeclaration objects f.name with
  | none => .ok ()
  | some (first, g) =>
    ensure (g.signature = f.signature)
      ("entity field " ++ field ++ " is declared `" ++ fieldSignature g ++ "` in subgraph `" ++
        subgraphName names first ++ "` but `" ++ fieldSignature f ++ "` in subgraph `" ++
        subgraphName names i ++ "`")

/-- The check that a subgraph `p` that has the entity has the key of `s`. -/
def checkKeyAvailable (p : ℕ) (pobj : ObjectDef) (s : ℕ) : Except String Unit :=
  if s = p then .ok ()
  else match (objects.lookup s).bind ObjectDef.keyFields with
    | some key =>
      match key.find? fun f => (pobj.field f).isNone with
      | some missing => .error ("subgraph `" ++ subgraphName names p ++ "` returns entity `" ++ tname ++
          "` but does not declare key field `" ++ missing ++ "` needed to resolve it from subgraph `" ++
          subgraphName names s ++ "`")
      | none => .ok ()
    | none => .error ("subgraph `" ++ subgraphName names s ++ "` resolves fields of entity `" ++ tname ++
        "` but declares no resolvable @key")

/-- `compose_entity`, the checks. -/
def checkEntity : Except String Unit := do
  objects.forM fun (i, obj) => do
    checkKey names tname i obj
    obj.fields.forM fun f => checkField names tname objects i f
  (entityFieldNames objects).forM fun fname =>
    ensure (resolvedField objects fname).isSome
      ("entity field `" ++ tname ++ "." ++ fname ++ "` is only ever declared @external; some subgraph " ++
        "must resolve it")
  objects.forM fun (p, pobj) =>
    (ownerUnion names objects).forM fun s => checkKeyAvailable names tname objects p pobj s

/-- The composed definition of an entity. -/
def composedEntity : ObjectDef where
  implementing := (objects.flatMap fun p => p.2.implementing).eraseDups.mergeSort
  fields := (entityFieldNames objects).filterMap (resolvedField objects)
  directives := (objects.head?.map fun p => p.2.directives).getD []

end Entity

/-! ### Composition -/

/-- What `apollo_compiler` does for composition. -/
structure Apollo where
  /-- `parse_subgraph_schema`, or the diagnostics. -/
  parseSubgraphSchema : String → Except String ValidSubgraph
  /-- `Schema::parse_and_validate` of the composed types, or the diagnostics. -/
  validate : List (Name × TypeDef) → Except String Unit

/-- `ComposedSupergraph`. -/
structure ComposedSupergraph where
  /-- The composed types. -/
  types : List (Name × TypeDef)
  /-- The subgraphs that resolve a field, by type and field: of a root field the one that has it, of
  an entity's field every one that defines it and not `@external`. -/
  fieldOwners : List ((Name × Name) × List ℕ)
  /-- The key of each subgraph, by entity. -/
  entityKeys : List (Name × List (Option (List Name)))

/-- The client-facing schema. -/
def ComposedSupergraph.schema (composed : ComposedSupergraph) : Schema := schemaOf composed.types

/-- The root types, which every subgraph may add fields to. -/
def rootTypeNames : List Name := ["Query", "Mutation"]

/-- `RESERVED_TYPES`. -/
def reservedTypes : List Name := ["_Any", "_FieldSet", "_Service", "_Entity", "link__Import", "link__Purpose"]

/-- The checks of one subgraph's root types. -/
def checkRoots (name : String) (schema : SubgraphSchema) : Except String Unit := do
  let subgraph := "subgraph `" ++ name ++ "`"
  let query ← okOr schema.query (subgraph ++ ": no query root type")
  ensure (query = "Query") (subgraph ++ ": the query root type must be named `Query` (got `" ++ query ++ "`)")
  ensure (schema.mutation.all (· = "Mutation"))
    (subgraph ++ ": the mutation root type must be named `Mutation` (got `" ++ schema.mutation.getD "" ++ "`)")
  ensure schema.subscription.isNone
    (subgraph ++ " defines a Subscription root type; federated subscriptions are not supported (ADR-0011)")

/-- The first name that was there before. -/
def firstDuplicate (seen : List String) : List String → Option String
  | [] => none
  | n :: rest => if n ∈ seen then some n else firstDuplicate (n :: seen) rest

/-- The check that names are distinct. -/
def checkNames (names : List String) : Except String Unit :=
  match firstDuplicate [] names with
  | some n => .error ("duplicate subgraph name `" ++ n ++ "`")
  | none => .ok ()

/-- The subgraphs' schemas, checked one after the other. -/
def readSubgraphs (c : Apollo) (subgraphs : List (String × String)) : Except String (List ValidSubgraph) := do
  ensure (!subgraphs.isEmpty) "a supergraph needs at least one subgraph"
  checkNames (subgraphs.map Prod.fst)
  subgraphs.mapM fun (name, sdl) => do
    let schema ← (c.parseSubgraphSchema sdl).mapError fun e => "subgraph `" ++ name ++ "`: " ++ e
    checkRoots name schema.toSubgraphSchema
    return schema

section Compose

variable (names : List String) (schemas : List ValidSubgraph)

/-- The definitions of a type, by subgraph. -/
def definitions (tname : Name) : List (ℕ × TypeDef) :=
  schemas.zipIdx.filterMap fun p => (p.1.types.lookup tname).map fun ty => (p.2, ty)

/-- The definitions of a type that are object types. -/
def objectDefinitions (tname : Name) : List (ℕ × ObjectDef) :=
  (definitions schemas tname).filterMap fun p => match p.2 with
    | .object o => some (p.1, o)
    | _ => none

/-- The root fields a subgraph adds. -/
def rootFieldsOf (obj : ObjectDef) : List FieldDef :=
  obj.fields.filter fun f => f.name ≠ "_entities" ∧ f.name ≠ "_service"

/-- The fields of a root type, with their subgraphs. -/
def rootFields (root : Name) : List (ℕ × FieldDef) :=
  (objectDefinitions schemas root).flatMap fun p => (rootFieldsOf p.2).map fun f => (p.1, stripField f)

/-- The check that a root field is defined once. -/
def checkRootField (root : Name) (i : ℕ) (f : FieldDef) : Except String Unit :=
  match (rootFields schemas root).find? fun p => p.2.name = f.name with
  | some (other, _) =>
    ensure (other = i) ("root field `" ++ root ++ "." ++ f.name ++ "` is defined by both subgraph `" ++
      subgraphName names other ++ "` and subgraph `" ++ subgraphName names i ++
      "`; shared root fields are not supported (ADR-0011)")
  | none => .ok ()

/-- The types that are composed by name: not root types, not reserved. -/
def groupNames : List Name :=
  ((schemas.flatMap fun s => s.types.map Prod.fst).eraseDups).filter fun n =>
    n ∉ reservedTypes ∧ n ∉ rootTypeNames

/-- Some subgraph gives the type a key. -/
def isEntity (tname : Name) : Bool := (objectDefinitions schemas tname).any fun p => !p.2.keys.isEmpty

/-- The check of one definition of a type against the first. -/
def checkKind (tname : Name) (first : ℕ × TypeDef) (i : ℕ) (ty : TypeDef) : Except String Unit := do
  ensure (ty.kindName = first.2.kindName)
    ("type `" ++ tname ++ "` is a " ++ first.2.kindName ++ " in subgraph `" ++ subgraphName names first.1 ++
      "` but a " ++ ty.kindName ++ " in subgraph `" ++ subgraphName names i ++ "`")
  match ty with
  | .interface o => ensure o.keys.isEmpty ("subgraph `" ++ subgraphName names i ++ "`: interface `" ++ tname ++
      "` has @key; interface entities are not supported (ADR-0011)")
  | _ => .ok ()

/-- The check of one definition of a value type against the first. -/
def checkIdentical (tname : Name) (first : ℕ × TypeDef) (i : ℕ) (ty : TypeDef) : Except String Unit :=
  ensure (stripType ty = stripType first.2)
    ("type `" ++ tname ++ "` differs between subgraph `" ++ subgraphName names first.1 ++ "` and subgraph `" ++
      subgraphName names i ++ "`; non-entity types must be identical everywhere (ADR-0011)")

/-- The checks of one type. -/
def checkType (tname : Name) : Except String Unit :=
  match definitions schemas tname with
  | [] => .ok ()
  | first :: rest => do
    (first :: rest).forM fun (i, ty) => checkKind names tname first i ty
    if isEntity schemas tname then checkEntity names tname (objectDefinitions schemas tname)
    else rest.forM fun (i, ty) => checkIdentical names tname first i ty

/-- The composed definition of a type. -/
def composedType (tname : Name) : Option TypeDef :=
  if isEntity schemas tname then some (.object (composedEntity (objectDefinitions schemas tname)))
  else (definitions schemas tname).head?.map fun p => stripType p.2

/-- The composed root types: those with fields. -/
def composedRoots : List (Name × TypeDef) :=
  (rootTypeNames.filter fun root => !(rootFields schemas root).isEmpty).map fun root =>
    (root, .object { fields := (rootFields schemas root).map Prod.snd })

/-- The tables and types of a composition whose checks passed. -/
def composed : ComposedSupergraph where
  types := composedRoots schemas ++ (groupNames schemas).filterMap fun tname =>
    (composedType schemas tname).map fun ty => (tname, ty)
  fieldOwners :=
    (rootTypeNames.flatMap fun root => (rootFields schemas root).map fun p => ((root, p.2.name), [p.1])) ++
      ((groupNames schemas).filter (isEntity schemas)).flatMap fun tname =>
        (entityFieldNames (objectDefinitions schemas tname)).map fun fname =>
          ((tname, fname), ownersOf (objectDefinitions schemas tname) fname)
  entityKeys := ((groupNames schemas).filter (isEntity schemas)).map fun tname =>
    (tname, entityKeys names (objectDefinitions schemas tname))

/-- The checks of `compose` on schemas that were read. -/
def checkSchemas (c : Apollo) : Except String Unit := do
  schemas.zipIdx.forM fun (schema, i) => rootTypeNames.forM fun root =>
    match schema.types.lookup root with
    | some (.object obj) => (rootFieldsOf obj).forM fun f => checkRootField names schemas root i f
    | _ => .ok ()
  ensure (!(rootFields schemas "Query").isEmpty) "no subgraph defines any Query root field"
  (groupNames schemas).forM fun tname => checkType names schemas tname
  (c.validate (composed names schemas).types).mapError fun e => "composed supergraph schema is invalid: " ++ e

end Compose

/-- `compose`. -/
def compose (c : Apollo) (subgraphs : List (String × String)) : Except String ComposedSupergraph := do
  let schemas ← readSubgraphs c subgraphs
  let names := subgraphs.map Prod.fst
  checkSchemas names schemas c
  return composed names schemas

/-! ### Types and their schema -/

section SchemaOf

variable {types : List (Name × TypeDef)} {ty fname : Name}

theorem lookup_objects (hnodup : (types.map Prod.fst).Nodup) :
    (schemaOf types).objects.lookup ty = (types.lookup ty).bind TypeDef.objectType :=
  lookup_filterMap _ hnodup

theorem lookup_interfaces (hnodup : (types.map Prod.fst).Nodup) :
    (schemaOf types).interfaces.lookup ty = (types.lookup ty).bind TypeDef.interfaceFields :=
  lookup_filterMap _ hnodup

theorem lookup_introspectionTypes (h : isMeta ty = false) : introspectionTypes.lookup ty = none := by
  rw [List.lookup_eq_none_iff]
  intro p hp
  have hmeta : ∀ p ∈ introspectionTypes, isMeta p.1 = true := by decide
  simp only [bne_iff_ne, ne_eq]
  rintro rfl
  rw [hmeta p hp] at h
  cases h

theorem objectType_schemaOf (hnodup : (types.map Prod.fst).Nodup) (hmeta : isMeta ty = false) :
    (schemaOf types).objectType ty = (types.lookup ty).bind TypeDef.objectType := by
  rw [Schema.objectType, List.lookup_append, lookup_introspectionTypes hmeta, Option.or_none, lookup_objects hnodup]

theorem objectType_of_lookup_none (hnodup : (types.map Prod.fst).Nodup) (h : types.lookup ty = none) :
    (schemaOf types).objectType ty = introspectionTypes.lookup ty := by
  rw [Schema.objectType, List.lookup_append, lookup_objects hnodup, h, Option.bind_none, Option.none_or]

/-- The fields a type declares are those of its definition. -/
theorem fieldsOf_schemaOf (hnodup : (types.map Prod.fst).Nodup) (hmeta : isMeta ty = false) :
    (schemaOf types).fieldsOf ty = fieldTypes (((types.lookup ty).map TypeDef.fields).getD []) := by
  rw [Schema.fieldsOf, objectType_schemaOf hnodup hmeta, lookup_interfaces hnodup]
  cases types.lookup ty with
  | none => rfl
  | some d =>
    cases d with
    | object o => rfl
    | interface o => rfl
    | _ => rfl

theorem lookup_fieldTypes {fields : List FieldDef} :
    (fieldTypes fields).lookup fname = (fields.find? (·.name = fname)).map (·.ty.inner) := by
  induction fields with
  | nil => rfl
  | cons f fields ih =>
    by_cases hf : f.name = fname
    · subst hf
      simp [fieldTypes]
    · have hne : (fname == f.name) = false := beq_false_of_ne (Ne.symm hf)
      simpa [fieldTypes, List.lookup_cons, hne, hf] using ih

/-- A type that is not of the schema may be one of the introspection system. -/
theorem fieldsOf_of_lookup_none (hnodup : (types.map Prod.fst).Nodup) (h : types.lookup ty = none) :
    (schemaOf types).fieldsOf ty = ((introspectionTypes.lookup ty).map ObjectType.fields).getD [] := by
  rw [Schema.fieldsOf, objectType_of_lookup_none hnodup h, lookup_interfaces hnodup, h]
  cases introspectionTypes.lookup ty with
  | none => rfl
  | some o => rfl

/-- The type of a meta field. -/
def metaType (ty field : Name) : Option Name :=
  if field = "__typename" then some "String"
  else if ty = "Query" ∧ field = "__schema" then some "__Schema"
  else if ty = "Query" ∧ field = "__type" then some "__Type"
  else none

theorem metaType_eq_none (h : isMeta fname = false) : metaType ty fname = none := by
  have hne {n : Name} (hn : isMeta n = true) : fname ≠ n := by
    rintro rfl
    rw [h] at hn
    cases hn
  unfold metaType
  rw [if_neg (hne (by decide)), if_neg fun h => hne (by decide) h.2, if_neg fun h => hne (by decide) h.2]

theorem fieldType_schemaOf :
    (schemaOf types).fieldType ty fname = (metaType ty fname).or (((schemaOf types).fieldsOf ty).lookup fname) := by
  unfold Schema.fieldType metaType
  have hquery : (schemaOf types).query = "Query" := rfl
  rw [hquery]
  split_ifs with htypename hschema htype
  all_goals rfl

end SchemaOf

/-! ### Definitions -/

section Definitions

variable {names : List String} {schemas : List ValidSubgraph} {tname fname : Name} {i : ℕ}

theorem mem_definitions {ty : TypeDef} : (i, ty) ∈ definitions schemas tname ↔
    ∃ s, schemas[i]? = some s ∧ s.types.lookup tname = some ty := by
  simp only [definitions, List.mem_filterMap, Option.map_eq_some_iff, Prod.mk.injEq, Prod.exists,
    List.mk_mem_zipIdx_iff_getElem?]
  constructor
  · rintro ⟨s, j, hs, _, hty, rfl, rfl⟩
    exact ⟨s, hs, hty⟩
  · rintro ⟨s, hs, hty⟩
    exact ⟨s, i, hs, ty, hty, rfl, rfl⟩

theorem mem_objectDefinitions {o : ObjectDef} : (i, o) ∈ objectDefinitions schemas tname ↔
    ∃ s, schemas[i]? = some s ∧ s.types.lookup tname = some (.object o) := by
  rw [← mem_definitions]
  simp only [objectDefinitions, List.mem_filterMap, Prod.exists]
  constructor
  · rintro ⟨j, ty, hmem, hty⟩
    cases ty with
    | object o' =>
      obtain ⟨rfl, rfl⟩ : j = i ∧ o' = o := by simpa using hty
      exact hmem
    | _ => cases hty
  · intro hmem
    exact ⟨i, _, hmem, rfl⟩

theorem mem_groupNames : tname ∈ groupNames schemas ↔
    (∃ s ∈ schemas, tname ∈ s.types.map Prod.fst) ∧ tname ∉ reservedTypes ∧ tname ∉ rootTypeNames := by
  simp [groupNames, List.mem_eraseDups]

theorem field_name {o : ObjectDef} {f : FieldDef} (h : o.field fname = some f) : f.name = fname := by
  simpa using List.find?_some h

theorem resolves_eq_some {o : ObjectDef} {f : FieldDef} (h : o.resolves fname = some f) :
    o.field fname = some f :=
  (Option.filter_eq_some_iff.1 h).1

theorem mem_ownersOf {objects : List (ℕ × ObjectDef)} : i ∈ ownersOf objects fname ↔
    ∃ o, (i, o) ∈ objects ∧ ∃ f, o.resolves fname = some f := by
  simp only [ownersOf, List.mem_map, List.mem_filter, Prod.exists, Option.isSome_iff_exists]
  constructor
  · rintro ⟨j, o, ⟨hmem, hf⟩, rfl⟩
    exact ⟨o, hmem, hf⟩
  · rintro ⟨o, hmem, hf⟩
    exact ⟨i, o, ⟨hmem, hf⟩, rfl⟩

theorem mem_entityFieldNames {objects : List (ℕ × ObjectDef)} {o : ObjectDef} {f : FieldDef}
    (hmem : (i, o) ∈ objects) (hf : o.field fname = some f) : fname ∈ entityFieldNames objects := by
  rw [entityFieldNames, List.mem_eraseDups, List.mem_flatMap]
  exact ⟨_, hmem, List.mem_map.2 ⟨f, List.mem_of_find?_eq_some hf, field_name hf⟩⟩

end Definitions

/-! ### What composition promises -/

/-- Subgraphs that compose. -/
structure Supergraph where
  apollo : Apollo
  subgraphs : List (String × String)
  schemas : List ValidSubgraph
  read : readSubgraphs apollo subgraphs = .ok schemas
  checked : checkSchemas (subgraphs.map Prod.fst) schemas apollo = .ok ()

namespace Supergraph

/-- The names of the subgraphs. -/
def names (S : Supergraph) : List String := S.subgraphs.map Prod.fst

/-- What they compose to. -/
def composed (S : Supergraph) : ComposedSupergraph := GraphQl.composed S.names S.schemas

/-- `compose` accepts the subgraphs of a supergraph, and no others. -/
theorem compose_eq_ok_iff {c : Apollo} {subgraphs : List (String × String)} {result : ComposedSupergraph} :
    compose c subgraphs = .ok result ↔
      ∃ S : Supergraph, S.apollo = c ∧ S.subgraphs = subgraphs ∧ S.composed = result := by
  simp only [compose, bind_eq_ok, pure_eq_ok]
  constructor
  · rintro ⟨schemas, hread, _, hchecked, rfl⟩
    exact ⟨⟨c, subgraphs, schemas, hread, hchecked⟩, rfl, rfl, rfl⟩
  · rintro ⟨S, rfl, rfl, rfl⟩
    exact ⟨S.schemas, S.read, (), S.checked, rfl⟩

variable {S : Supergraph} {tname fname : Name} {i : ℕ}

theorem length_names : S.names.length = S.schemas.length := by
  have hread := S.read
  simp only [readSubgraphs, bind_eq_ok, mapM_eq_ok] at hread
  obtain ⟨-, -, -, -, hall⟩ := hread
  simpa [names] using hall.length_eq

theorem checkType_ok (h : tname ∈ groupNames S.schemas) : checkType S.names S.schemas tname = .ok () := by
  have hchecked := S.checked
  simp only [checkSchemas, bind_eq_ok, List.forM_eq_forM, forM_eq_ok] at hchecked
  obtain ⟨-, -, -, -, _, hgroups, -⟩ := hchecked
  exact hgroups tname h

/-- The definitions of a type are of one kind. -/
theorem checkKind_ok (h : tname ∈ groupNames S.schemas) : ∃ first rest,
    definitions S.schemas tname = first :: rest ∧
      (∀ p ∈ first :: rest, p.2.kindName = first.2.kindName) ∧
      (if isEntity S.schemas tname then
        checkEntity S.names tname (objectDefinitions S.schemas tname) = .ok ()
      else ∀ p ∈ rest, stripType p.2 = stripType first.2) := by
  have hok := checkType_ok h
  obtain ⟨⟨s, hs, htype⟩, -, -⟩ := mem_groupNames.1 h
  obtain ⟨i, hi⟩ := List.mem_iff_getElem?.1 hs
  obtain ⟨ty, hty⟩ := exists_lookup_of_key_mem htype
  have hmem := mem_definitions.2 ⟨s, hi, hty⟩
  unfold checkType at hok
  cases hdefs : definitions S.schemas tname with
  | nil => rw [hdefs] at hmem; cases hmem
  | cons first rest =>
    rw [hdefs] at hok
    simp only [bind_eq_ok, List.forM_eq_forM, forM_eq_ok, checkKind, ensure_eq_ok, decide_eq_true_eq] at hok
    obtain ⟨_, hkinds, htype⟩ := hok
    refine ⟨first, rest, rfl, fun p hp => ?_, ?_⟩
    · obtain ⟨-, hkind, -⟩ := hkinds p hp
      exact hkind
    · split_ifs at htype ⊢ with hentity
      · exact htype
      · simpa [checkIdentical] using htype

/-- **Value types.** A type that is no entity is the same wherever it is defined. -/
theorem composedType_of_value (h : tname ∈ groupNames S.schemas) (hvalue : isEntity S.schemas tname = false)
    {ty : TypeDef} (hty : (i, ty) ∈ definitions S.schemas tname) :
    composedType S.schemas tname = some (stripType ty) := by
  obtain ⟨first, rest, hdefs, -, hsame⟩ := checkKind_ok h
  rw [hvalue] at hsame
  simp only [composedType, hvalue, hdefs, List.head?_cons, Option.map_some]
  rw [hdefs] at hty
  rcases List.mem_cons.1 hty with rfl | hty
  · rfl
  · exact congrArg some (hsame _ hty).symm

section Entity

variable (h : tname ∈ groupNames S.schemas) (hentity : isEntity S.schemas tname = true)

include h hentity in
theorem checkEntity_ok : checkEntity S.names tname (objectDefinitions S.schemas tname) = .ok () := by
  obtain ⟨first, rest, -, -, hchecks⟩ := checkKind_ok h
  rwa [hentity] at hchecks

include h hentity in
/-- Every definition of an entity is an object type. -/
theorem object_of_entity {ty : TypeDef} (hty : (i, ty) ∈ definitions S.schemas tname) :
    ∃ o, ty = .object o := by
  obtain ⟨first, rest, hdefs, hkinds, -⟩ := checkKind_ok h
  obtain ⟨⟨j, o⟩, ho, -⟩ := List.any_eq_true.1 hentity
  obtain ⟨s, hs, ho⟩ := mem_objectDefinitions.1 ho
  have hobject := mem_definitions.2 ⟨s, hs, ho⟩
  rw [hdefs] at hobject hty
  have hkind := (hkinds _ hty).trans (hkinds _ hobject).symm
  cases ty with
  | object o' => exact ⟨o', rfl⟩
  | _ => exact absurd hkind (by simp [TypeDef.kindName])

include h hentity in
/-- The declarations of an entity's field have one signature. -/
theorem signature_eq {j : ℕ} {o o' : ObjectDef} {f f' : FieldDef}
    (ho : (i, o) ∈ objectDefinitions S.schemas tname) (hf : o.field fname = some f)
    (ho' : (j, o') ∈ objectDefinitions S.schemas tname) (hf' : o'.field fname = some f') :
    f.signature = f'.signature := by
  have hchecks := checkEntity_ok h hentity
  simp only [checkEntity, bind_eq_ok, List.forM_eq_forM, forM_eq_ok] at hchecks
  obtain ⟨_, hfields, -⟩ := hchecks
  have hfirst {k : ℕ} {p : ObjectDef} {g : FieldDef} (hp : (k, p) ∈ objectDefinitions S.schemas tname)
      (hg : p.field fname = some g) : ∃ first, firstDeclaration (objectDefinitions S.schemas tname) fname =
        some first ∧ first.2.signature = g.signature := by
    obtain ⟨-, -, hcheck⟩ := hfields _ hp
    have hcheck := hcheck g (List.mem_of_find?_eq_some hg)
    rw [checkField, field_name hg] at hcheck
    simp only [bind_eq_ok] at hcheck
    obtain ⟨-, -, -, -, hcheck⟩ := hcheck
    cases hdecl : firstDeclaration (objectDefinitions S.schemas tname) fname with
    | none =>
      have hnone := List.findSome?_eq_none_iff.1 hdecl _ hp
      simp [hg] at hnone
    | some first =>
      rw [hdecl] at hcheck
      exact ⟨first, rfl, by simpa using hcheck⟩
  obtain ⟨first, hdecl, hsig⟩ := hfirst ho hf
  obtain ⟨first', hdecl', hsig'⟩ := hfirst ho' hf'
  rw [hdecl] at hdecl'
  obtain rfl := Option.some.inj hdecl'
  exact hsig.symm.trans hsig'

include h hentity in
/-- **Keys.** A subgraph that has the entity declares the key of every other subgraph that resolves
one of its fields. -/
theorem key_available {p q : ℕ} {o : ObjectDef} (ho : (p, o) ∈ objectDefinitions S.schemas tname)
    (hq : q ∈ ownersOf (objectDefinitions S.schemas tname) fname) (hne : q ≠ p) : ∃ key,
      ((objectDefinitions S.schemas tname).lookup q).bind ObjectDef.keyFields = some key ∧
        ∀ k ∈ key, ∃ f, o.field k = some f := by
  have hchecks := checkEntity_ok h hentity
  simp only [checkEntity, bind_eq_ok, List.forM_eq_forM, forM_eq_ok] at hchecks
  obtain ⟨-, -, -, -, hkeys⟩ := hchecks
  have hunion : q ∈ ownerUnion S.names (objectDefinitions S.schemas tname) := by
    obtain ⟨o', ho', f, hf⟩ := mem_ownersOf.1 hq
    obtain ⟨s, hs, -⟩ := mem_objectDefinitions.1 ho'
    obtain ⟨hlt, -⟩ := List.getElem?_eq_some_iff.1 hs
    simp only [ownerUnion, List.mem_filter, List.mem_range, length_names, hlt, List.any_eq_true, true_and,
      decide_eq_true_eq]
    exact ⟨fname, mem_entityFieldNames ho' (resolves_eq_some hf), hq⟩
  have hcheck := hkeys _ ho q hunion
  rw [checkKeyAvailable, if_neg hne] at hcheck
  split at hcheck
  · next key hkey =>
    refine ⟨key, hkey, fun k hk => ?_⟩
    split at hcheck
    · cases hcheck
    · next hfind =>
      have hdeclared := List.find?_eq_none.1 hfind k hk
      exact Option.ne_none_iff_exists'.1 (by simpa using hdeclared)
  · cases hcheck

end Entity

/-! #### Lookups in the composed tables -/

theorem lookup_composedRoots {root : Name} (hroot : root ∈ rootTypeNames) : (composedRoots S.schemas).lookup root =
    if (rootFields S.schemas root).isEmpty then none
    else some (.object { fields := (rootFields S.schemas root).map Prod.snd }) := by
  unfold composedRoots
  obtain rfl | rfl : root = "Query" ∨ root = "Mutation" := by simpa [rootTypeNames] using hroot
  all_goals
    by_cases hq : (rootFields S.schemas "Query").isEmpty
    · by_cases hm : (rootFields S.schemas "Mutation").isEmpty
      · simp [rootTypeNames, hq, hm]
      · simp [rootTypeNames, hq, hm]
    · by_cases hm : (rootFields S.schemas "Mutation").isEmpty
      · simp [rootTypeNames, hq, hm]
      · simp [rootTypeNames, hq, hm, List.lookup_cons]

theorem root_of_mem_composedRoots {p : Name × TypeDef} (h : p ∈ composedRoots S.schemas) :
    p.1 ∈ rootTypeNames := by
  obtain ⟨root, hroot, rfl⟩ := List.mem_map.1 h
  exact (List.mem_filter.1 hroot).1

theorem nodup_composedRoots : ((composedRoots S.schemas).map Prod.fst).Nodup := by
  rw [composedRoots, List.map_map]
  exact ((by decide : rootTypeNames.Nodup).filter _).map fun _ _ h => h

theorem nodup_groups : (groupNames S.schemas).Nodup := (nodup_eraseDups _).filter _

theorem map_fst_groups : List.Sublist (((groupNames S.schemas).filterMap fun tname =>
    (composedType S.schemas tname).map fun ty => (tname, ty)).map Prod.fst) (groupNames S.schemas) := by
  induction groupNames S.schemas with
  | nil => simp
  | cons n l ih =>
    cases hn : composedType S.schemas n with
    | none => simpa [hn] using ih.trans (List.sublist_cons_self n l)
    | some ty => simpa [hn] using ih

theorem nodup_types : (S.composed.types.map Prod.fst).Nodup := by
  simp only [composed, GraphQl.composed, List.map_append]
  refine List.Nodup.append nodup_composedRoots (nodup_groups.sublist map_fst_groups) ?_
  intro n hroot hgroup
  obtain ⟨p, hp, rfl⟩ := List.mem_map.1 hroot
  obtain ⟨-, -, hnot⟩ := mem_groupNames.1 (map_fst_groups.subset hgroup)
  exact hnot (root_of_mem_composedRoots hp)

theorem lookup_types_root {root : Name} (hroot : root ∈ rootTypeNames) :
    S.composed.types.lookup root = (composedRoots S.schemas).lookup root := by
  simp only [composed, GraphQl.composed, List.lookup_append]
  cases hlookup : ((groupNames S.schemas).filterMap fun tname =>
      (composedType S.schemas tname).map fun ty => (tname, ty)).lookup root with
  | none => simp
  | some ty =>
    obtain ⟨-, -, hnot⟩ := mem_groupNames.1 (map_fst_groups.subset (key_mem_of_lookup hlookup))
    exact absurd hroot hnot

theorem lookup_types_group (h : tname ∈ groupNames S.schemas) :
    S.composed.types.lookup tname = composedType S.schemas tname := by
  obtain ⟨-, -, hnot⟩ := mem_groupNames.1 h
  have hroots : (composedRoots S.schemas).lookup tname = none := by
    cases hlookup : (composedRoots S.schemas).lookup tname with
    | none => rfl
    | some ty => exact absurd (root_of_mem_composedRoots (mem_of_lookup hlookup)) hnot
  simp only [composed, GraphQl.composed, List.lookup_append, hroots, Option.none_or]
  cases hty : composedType S.schemas tname with
  | none =>
    rw [List.lookup_eq_none_iff]
    intro p hp
    obtain ⟨n, -, hn⟩ := List.mem_filterMap.1 hp
    obtain ⟨d, hd, rfl⟩ := Option.map_eq_some_iff.1 hn
    simp only [bne_iff_ne, ne_eq]
    rintro rfl
    rw [hty] at hd
    cases hd
  | some ty =>
    rw [lookup_eq_some_iff_mem (nodup_groups.sublist map_fst_groups)]
    exact List.mem_filterMap.2 ⟨tname, h, by simp [hty]⟩

/-- A composed type is a root type or one that is composed by name. -/
theorem group_or_root_of_lookup {ty : TypeDef} (h : S.composed.types.lookup tname = some ty) :
    tname ∈ rootTypeNames ∨ tname ∈ groupNames S.schemas := by
  simp only [composed, GraphQl.composed, List.lookup_append, Option.or_eq_some_iff] at h
  rcases h with h | ⟨-, h⟩
  · exact .inl (root_of_mem_composedRoots (mem_of_lookup h))
  · exact .inr (map_fst_groups.subset (key_mem_of_lookup h))

/-! #### Owners and keys -/

theorem mem_rootFields {root : Name} {f : FieldDef} : (i, f) ∈ rootFields S.schemas root ↔ ∃ s o g,
    S.schemas[i]? = some s ∧ s.types.lookup root = some (.object o) ∧ g ∈ rootFieldsOf o ∧ f = stripField g := by
  simp only [rootFields, List.mem_flatMap, List.mem_map, Prod.mk.injEq, Prod.exists, mem_objectDefinitions]
  constructor
  · rintro ⟨j, o, ⟨s, hs, ho⟩, g, hg, rfl, rfl⟩
    exact ⟨s, o, g, hs, ho, hg, rfl⟩
  · rintro ⟨s, o, g, hs, ho, hg, rfl⟩
    exact ⟨i, o, ⟨s, hs, ho⟩, g, hg, rfl, rfl⟩

/-- **Root fields** are defined once. -/
theorem rootFields_unique {root : Name} {j : ℕ} {f g : FieldDef} (hroot : root ∈ rootTypeNames)
    (hf : (i, f) ∈ rootFields S.schemas root) (hg : (j, g) ∈ rootFields S.schemas root)
    (hname : f.name = g.name) : i = j ∧ f = g := by
  have hchecked := S.checked
  simp only [checkSchemas, bind_eq_ok, List.forM_eq_forM, forM_eq_ok] at hchecked
  obtain ⟨_, hroots, -⟩ := hchecked
  have hfirst {k : ℕ} {f : FieldDef} (hf : (k, f) ∈ rootFields S.schemas root) : ∃ first,
      (rootFields S.schemas root).find? (fun p => p.2.name = f.name) = some first ∧ first.1 = k := by
    obtain ⟨s, o, f', hs, ho, hf', rfl⟩ := mem_rootFields.1 hf
    have hcheck := hroots (s, k) (List.mk_mem_zipIdx_iff_getElem?.2 hs) root hroot
    rw [ho] at hcheck
    have hcheck := forM_eq_ok.1 hcheck f' hf'
    unfold checkRootField at hcheck
    cases hfind : (rootFields S.schemas root).find? fun p => p.2.name = f'.name with
    | none => exact absurd (List.find?_eq_none.1 hfind _ hf) (by simp [stripField])
    | some first =>
      rw [hfind] at hcheck
      exact ⟨first, hfind, by simpa using hcheck⟩
  obtain ⟨first, hfind, rfl⟩ := hfirst hf
  obtain ⟨first', hfind', rfl⟩ := hfirst hg
  rw [hname, hfind'] at hfind
  obtain rfl := Option.some.inj hfind
  refine ⟨rfl, ?_⟩
  obtain ⟨s, o, f', hs, ho, hf', rfl⟩ := mem_rootFields.1 hf
  obtain ⟨s', o', g', hs', ho', hg', rfl⟩ := mem_rootFields.1 hg
  rw [hs] at hs'
  obtain rfl := Option.some.inj hs'
  rw [ho] at ho'
  obtain rfl : o = o' := by simpa using ho'
  have hnodup := s.fieldNames _ (mem_of_lookup ho)
  obtain rfl : f' = g' := List.inj_on_of_nodup_map hnodup (List.mem_filter.1 hf').1 (List.mem_filter.1 hg').1 hname
  rfl

theorem fieldOwners_root {root : Name} {owners : List ℕ} (hroot : root ∈ rootTypeNames)
    (h : S.composed.fieldOwners.lookup (root, fname) = some owners) : ∃ i f,
      owners = [i] ∧ (i, f) ∈ rootFields S.schemas root ∧ f.name = fname := by
  have hmem := mem_of_lookup h
  simp only [composed, GraphQl.composed, List.mem_append, List.mem_flatMap, List.mem_map, Prod.mk.injEq,
    List.mem_filter] at hmem
  rcases hmem with ⟨_, -, ⟨i, f⟩, hf, ⟨rfl, rfl⟩, rfl⟩ | ⟨_, ⟨hgroup, -⟩, _, -, ⟨rfl, -⟩, -⟩
  · exact ⟨i, f, rfl, hf, rfl⟩
  · exact absurd hroot (mem_groupNames.1 hgroup).2.2

theorem exists_fieldOwners_root {root : Name} {f : FieldDef} (hroot : root ∈ rootTypeNames)
    (hf : (i, f) ∈ rootFields S.schemas root) : S.composed.fieldOwners.lookup (root, f.name) = some [i] := by
  have hkey : (root, f.name) ∈ S.composed.fieldOwners.map Prod.fst := by
    refine List.mem_map.2 ⟨((root, f.name), [i]), ?_, rfl⟩
    exact List.mem_append_left _ (List.mem_flatMap.2 ⟨root, hroot, List.mem_map.2 ⟨_, hf, rfl⟩⟩)
  obtain ⟨owners, howners⟩ := exists_lookup_of_key_mem hkey
  obtain ⟨j, g, rfl, hg, hname⟩ := fieldOwners_root hroot howners
  obtain ⟨rfl, -⟩ := rootFields_unique hroot hf hg hname.symm
  exact howners

theorem fieldOwners_entity {owners : List ℕ} (h : tname ∈ groupNames S.schemas)
    (howners : S.composed.fieldOwners.lookup (tname, fname) = some owners) :
    owners = ownersOf (objectDefinitions S.schemas tname) fname := by
  have hmem := mem_of_lookup howners
  simp only [composed, GraphQl.composed, List.mem_append, List.mem_flatMap, List.mem_map, Prod.mk.injEq,
    List.mem_filter] at hmem
  rcases hmem with ⟨_, hroot, _, -, ⟨rfl, -⟩, -⟩ | ⟨_, -, _, -, ⟨rfl, rfl⟩, rfl⟩
  · exact absurd hroot (mem_groupNames.1 h).2.2
  · rfl

theorem exists_fieldOwners (h : tname ∈ groupNames S.schemas) (hentity : isEntity S.schemas tname = true)
    (hf : fname ∈ entityFieldNames (objectDefinitions S.schemas tname)) :
    S.composed.fieldOwners.lookup (tname, fname) =
      some (ownersOf (objectDefinitions S.schemas tname) fname) := by
  have hkey : (tname, fname) ∈ S.composed.fieldOwners.map Prod.fst := by
    simp only [composed, GraphQl.composed, List.map_append, List.mem_append]
    refine .inr (List.mem_map.2 ⟨((tname, fname), ownersOf (objectDefinitions S.schemas tname) fname), ?_, rfl⟩)
    exact List.mem_flatMap.2 ⟨tname, List.mem_filter.2 ⟨h, hentity⟩, List.mem_map.2 ⟨fname, hf, rfl⟩⟩
  obtain ⟨owners, howners⟩ := exists_lookup_of_key_mem hkey
  rw [howners, fieldOwners_entity h howners]

theorem entityKeys_eq {keys : List (Option (List Name))} (h : S.composed.entityKeys.lookup tname = some keys) :
    tname ∈ groupNames S.schemas ∧ isEntity S.schemas tname = true ∧
      keys = entityKeys S.names (objectDefinitions S.schemas tname) := by
  have hmem := mem_of_lookup h
  simp only [composed, GraphQl.composed, List.mem_map, List.mem_filter, Prod.mk.injEq] at hmem
  obtain ⟨_, ⟨hgroup, hentity⟩, rfl, rfl⟩ := hmem
  exact ⟨hgroup, hentity, rfl⟩

theorem exists_entityKeys (h : tname ∈ groupNames S.schemas) (hentity : isEntity S.schemas tname = true) :
    S.composed.entityKeys.lookup tname = some (entityKeys S.names (objectDefinitions S.schemas tname)) := by
  have hkey : tname ∈ S.composed.entityKeys.map Prod.fst := by
    simp only [composed, GraphQl.composed, List.map_map]
    exact List.mem_map.2 ⟨tname, List.mem_filter.2 ⟨h, hentity⟩, rfl⟩
  obtain ⟨keys, hkeys⟩ := exists_lookup_of_key_mem hkey
  rw [hkeys, (entityKeys_eq hkeys).2.2]

/-! #### A subgraph's share of a composed type -/

/-- The types of a subgraph. -/
def subTypes (S : Supergraph) (i : ℕ) : List (Name × TypeDef) := (S.schemas[i]?.map (·.types)).getD []

/-- The schema of a subgraph. -/
def subSchema (S : Supergraph) (i : ℕ) : Schema := schemaOf (S.subTypes i)

theorem lookup_subTypes {ty : TypeDef} : (S.subTypes i).lookup tname = some ty ↔
    ∃ s, S.schemas[i]? = some s ∧ s.types.lookup tname = some ty := by
  unfold subTypes
  cases hs : S.schemas[i]? with
  | none => simp
  | some s => simp

theorem nodup_subTypes : ((S.subTypes i).map Prod.fst).Nodup := by
  unfold subTypes
  cases S.schemas[i]? with
  | none => simp
  | some s => exact s.typeNames

/-- Subgraph `i` can be asked for the field: it owns it, if the type is a root type or an entity, and
otherwise has the type. -/
def Owns (S : Supergraph) (i : ℕ) (ty fname : Name) : Prop :=
  if ty ∈ rootTypeNames then ∃ f, (i, f) ∈ rootFields S.schemas ty ∧ f.name = fname
  else if isEntity S.schemas ty then i ∈ ownersOf (objectDefinitions S.schemas ty) fname
  else ∃ d, (S.subTypes i).lookup ty = some d

/-- The fields of a composed type. -/
def composedFields (S : Supergraph) (ty : Name) : List FieldDef :=
  ((S.composed.types.lookup ty).map TypeDef.fields).getD []

/-- The field of a composed type. -/
def composedField (S : Supergraph) (ty fname : Name) : Option FieldDef :=
  (S.composedFields ty).find? (·.name = fname)

/-- The field a subgraph declares. -/
def subField (S : Supergraph) (i : ℕ) (ty fname : Name) : Option FieldDef :=
  (((S.subTypes i).lookup ty).map TypeDef.fields).getD [] |>.find? (·.name = fname)

theorem find?_stripField {fields : List FieldDef} :
    (fields.map stripField).find? (·.name = fname) = (fields.find? (·.name = fname)).map stripField := by
  rw [List.find?_map]
  rfl

theorem fields_stripType (d : TypeDef) : (stripType d).fields = d.fields.map stripField := by
  cases d with
  | object o => rfl
  | interface o => rfl
  | _ => rfl

/-- A composed type has a definition in some subgraph. -/
theorem exists_definition {d : TypeDef} (h : S.composed.types.lookup tname = some d) :
    ∃ i ty, (i, ty) ∈ definitions S.schemas tname := by
  rcases group_or_root_of_lookup h with hroot | hgroup
  · rw [lookup_types_root hroot, lookup_composedRoots hroot] at h
    split_ifs at h with hempty
    obtain ⟨⟨i, f⟩, hf⟩ := List.exists_mem_of_ne_nil _ (by simpa using hempty)
    obtain ⟨s, o, -, hs, ho, -⟩ := mem_rootFields.1 hf
    exact ⟨i, .object o, mem_definitions.2 ⟨s, hs, ho⟩⟩
  · obtain ⟨first, rest, hdefs, -⟩ := checkKind_ok hgroup
    exact ⟨first.1, first.2, by rw [hdefs]; exact List.mem_cons_self⟩

/-- So its name is not reserved. -/
theorem reserved_of_lookup {d : TypeDef} (h : S.composed.types.lookup tname = some d) :
    isMeta tname = false ∧ tname ∉ builtInScalars := by
  obtain ⟨i, ty, hdef⟩ := exists_definition h
  obtain ⟨s, -, hty⟩ := mem_definitions.1 hdef
  exact s.reserved _ (mem_of_lookup hty)

/-- A declaration of a subgraph, as composition reads it. -/
theorem subField_eq_some {f : FieldDef} : S.subField i tname fname = some f ↔
    ∃ d, (i, d) ∈ definitions S.schemas tname ∧ d.fields.find? (·.name = fname) = some f := by
  unfold subField
  cases hty : (S.subTypes i).lookup tname with
  | none =>
    refine ⟨fun h => by simp at h, ?_⟩
    rintro ⟨d, hd, -⟩
    rw [lookup_subTypes.2 (mem_definitions.1 hd)] at hty
    cases hty
  | some d =>
    have hdef : (i, d) ∈ definitions S.schemas tname := mem_definitions.2 (lookup_subTypes.1 hty)
    refine ⟨fun h => ⟨d, hdef, h⟩, ?_⟩
    rintro ⟨d', hd', hf⟩
    rw [lookup_subTypes.2 (mem_definitions.1 hd')] at hty
    obtain rfl := Option.some.inj hty
    exact hf


theorem composedField_root (hroot : tname ∈ rootTypeNames) {f : FieldDef}
    (h : S.composedField tname fname = some f) :
    ∃ i, (i, f) ∈ rootFields S.schemas tname ∧ f.name = fname := by
  unfold composedField composedFields at h
  rw [lookup_types_root hroot, lookup_composedRoots hroot] at h
  split_ifs at h
  · simp at h
  · obtain ⟨p, hp, rfl⟩ := List.mem_map.1 (List.mem_of_find?_eq_some h)
    exact ⟨p.1, hp, by simpa using List.find?_some h⟩

theorem composedField_entity (hgroup : tname ∈ groupNames S.schemas) (hentity : isEntity S.schemas tname = true)
    {f : FieldDef} (h : S.composedField tname fname = some f) :
    ∃ i o g, (i, o) ∈ objectDefinitions S.schemas tname ∧ o.resolves fname = some g ∧ f = stripField g := by
  unfold composedField composedFields at h
  rw [lookup_types_group hgroup, composedType, if_pos hentity] at h
  obtain ⟨n, -, hn⟩ := List.mem_filterMap.1 (List.mem_of_find?_eq_some h)
  obtain ⟨g, hg, rfl⟩ := Option.map_eq_some_iff.1 hn
  obtain ⟨⟨i, o⟩, ho, hres⟩ := List.exists_of_findSome?_eq_some hg
  have hname := List.find?_some h
  obtain rfl : g.name = fname := of_decide_eq_true hname
  obtain rfl : g.name = n := field_name (resolves_eq_some hres)
  exact ⟨i, o, g, ho, hres, rfl⟩

theorem composedField_value (hgroup : tname ∈ groupNames S.schemas) (hvalue : isEntity S.schemas tname = false)
    {d : TypeDef} (hd : (i, d) ∈ definitions S.schemas tname) :
    S.composedField tname fname = (S.subField i tname fname).map stripField := by
  unfold composedField composedFields subField
  rw [lookup_types_group hgroup, composedType_of_value hgroup hvalue hd, lookup_subTypes.2 (mem_definitions.1 hd)]
  simp only [Option.map_some, Option.getD_some, fields_stripType, find?_stripField]

/-- **A subgraph that owns a field declares it with the type that the composed schema gives it.** -/
theorem subField_of_owns {f : FieldDef} (h : S.composedField tname fname = some f) (hown : S.Owns i tname fname) :
    ∃ g, S.subField i tname fname = some g ∧ g.ty = f.ty := by
  unfold Owns at hown
  by_cases hroot : tname ∈ rootTypeNames
  · rw [if_pos hroot] at hown
    obtain ⟨g, hg, hname⟩ := hown
    obtain ⟨j, hf, hfname⟩ := composedField_root hroot h
    obtain ⟨rfl, rfl⟩ := rootFields_unique hroot hg hf (hname.trans hfname.symm)
    obtain ⟨s, o, g', hs, ho, hg', rfl⟩ := mem_rootFields.1 hg
    have hmem : g' ∈ o.fields := (List.mem_filter.1 hg').1
    obtain ⟨g, hfind⟩ : ∃ g, o.fields.find? (·.name = fname) = some g :=
      Option.isSome_iff_exists.1 (List.find?_isSome.2 ⟨g', hmem, by simpa [stripField] using hname⟩)
    obtain rfl : g = g' := List.inj_on_of_nodup_map (s.fieldNames _ (mem_of_lookup ho))
      (List.mem_of_find?_eq_some hfind) hmem ((field_name hfind).trans hname.symm)
    exact ⟨g, subField_eq_some.2 ⟨_, mem_definitions.2 ⟨s, hs, ho⟩, hfind⟩, rfl⟩
  · have hgroup : tname ∈ groupNames S.schemas := by
      cases hd : S.composed.types.lookup tname with
      | none => simp [composedField, composedFields, hd] at h
      | some d => exact (group_or_root_of_lookup hd).resolve_left hroot
    rw [if_neg hroot] at hown
    by_cases hentity : isEntity S.schemas tname = true
    · rw [if_pos hentity] at hown
      obtain ⟨o, ho, g, hg⟩ := mem_ownersOf.1 hown
      obtain ⟨j, o', g', ho', hg', rfl⟩ := composedField_entity hgroup hentity h
      have hsig := signature_eq hgroup hentity ho (resolves_eq_some hg) ho' (resolves_eq_some hg')
      obtain ⟨s, hs, hobject⟩ := mem_objectDefinitions.1 ho
      exact ⟨g, subField_eq_some.2 ⟨_, mem_definitions.2 ⟨s, hs, hobject⟩, resolves_eq_some hg⟩,
        (Prod.ext_iff.1 hsig).2⟩
    · rw [if_neg hentity] at hown
      obtain ⟨d, hd⟩ := hown
      rw [composedField_value hgroup (by simpa using hentity) (mem_definitions.2 (lookup_subTypes.1 hd))] at h
      obtain ⟨g, hg, rfl⟩ := Option.map_eq_some_iff.1 h
      exact ⟨g, hg, rfl⟩

/-- A field of a composed type is some subgraph's. -/
theorem exists_owner {f : FieldDef} (h : S.composedField tname fname = some f) : ∃ i, S.Owns i tname fname := by
  unfold Owns
  by_cases hroot : tname ∈ rootTypeNames
  · obtain ⟨i, hf, hname⟩ := composedField_root hroot h
    exact ⟨i, by rw [if_pos hroot]; exact ⟨f, hf, hname⟩⟩
  · cases hd : S.composed.types.lookup tname with
    | none => simp [composedField, composedFields, hd] at h
    | some d =>
      have hgroup := (group_or_root_of_lookup hd).resolve_left hroot
      by_cases hentity : isEntity S.schemas tname = true
      · obtain ⟨i, o, g, ho, hg, -⟩ := composedField_entity hgroup hentity h
        exact ⟨i, by rw [if_neg hroot, if_pos hentity]; exact mem_ownersOf.2 ⟨o, ho, g, hg⟩⟩
      · obtain ⟨i, ty, hdef⟩ := exists_definition hd
        exact ⟨i, by rw [if_neg hroot, if_neg hentity]; exact ⟨ty, lookup_subTypes.2 (mem_definitions.1 hdef)⟩⟩

/-- So its name is not reserved. -/
theorem composedField_not_meta {f : FieldDef} (h : S.composedField tname fname = some f) : isMeta fname = false := by
  obtain ⟨i, hown⟩ := exists_owner h
  obtain ⟨g, hg, -⟩ := subField_of_owns h hown
  obtain ⟨d, hd, hfind⟩ := subField_eq_some.1 hg
  obtain ⟨s, -, hs⟩ := mem_definitions.1 hd
  obtain rfl : g.name = fname := by simpa using List.find?_some hfind
  exact s.reservedFields _ (mem_of_lookup hs) g (List.mem_of_find?_eq_some hfind)

/-! #### Fields and their types -/

/-- The subgraph's schema has the type. -/
def Defines (S : Supergraph) (i : ℕ) (ty : Name) : Prop :=
  isMeta ty = true ∨ ty ∈ (S.subTypes i).map Prod.fst

/-- The type can be the type of a field of the subgraph. -/
def Knows (S : Supergraph) (i : ℕ) (ty : Name) : Prop := ty ∈ builtInScalars ∨ S.Defines i ty

theorem lookup_types_meta (hty : isMeta tname = true) : S.composed.types.lookup tname = none := by
  cases hd : S.composed.types.lookup tname with
  | none => rfl
  | some d =>
    rw [(reserved_of_lookup hd).1] at hty
    cases hty

theorem lookup_subTypes_meta (hty : isMeta tname = true) : (S.subTypes i).lookup tname = none := by
  cases hd : (S.subTypes i).lookup tname with
  | none => rfl
  | some d =>
    obtain ⟨s, -, hs⟩ := lookup_subTypes.1 hd
    rw [(s.reserved _ (mem_of_lookup hs)).1] at hty
    cases hty

/-- The type of a field in the composed schema: that of a meta field, that of the type's definition, or
that of a type of the introspection system. -/
theorem fieldType_composed : S.composed.schema.fieldType tname fname = (metaType tname fname).or
    (if isMeta tname then (((introspectionTypes.lookup tname).map ObjectType.fields).getD []).lookup fname
    else (S.composedField tname fname).map (·.ty.inner)) := by
  rw [ComposedSupergraph.schema, fieldType_schemaOf]
  split_ifs with hty
  · rw [fieldsOf_of_lookup_none nodup_types (lookup_types_meta hty)]
  · rw [fieldsOf_schemaOf nodup_types (by simpa using hty), lookup_fieldTypes]
    rfl

/-- The same of a subgraph's schema. -/
theorem fieldType_subSchema : (S.subSchema i).fieldType tname fname = (metaType tname fname).or
    (if isMeta tname then (((introspectionTypes.lookup tname).map ObjectType.fields).getD []).lookup fname
    else (S.subField i tname fname).map (·.ty.inner)) := by
  rw [subSchema, fieldType_schemaOf]
  split_ifs with hty
  · rw [fieldsOf_of_lookup_none nodup_subTypes (lookup_subTypes_meta hty)]
  · rw [fieldsOf_schemaOf nodup_subTypes (by simpa using hty), lookup_fieldTypes]
    rfl

/-- **What the composed schema declares, a subgraph that owns it declares.** -/
theorem fieldType_of_owns {fty : Name} (h : S.composed.schema.fieldType tname fname = some fty)
    (hown : isMeta tname = false → isMeta fname = false → S.Owns i tname fname) :
    (S.subSchema i).fieldType tname fname = some fty := by
  rw [fieldType_composed] at h
  rw [fieldType_subSchema]
  cases hmeta : metaType tname fname with
  | some t => simpa [hmeta] using h
  | none =>
    rw [hmeta, Option.none_or] at h
    rw [Option.none_or]
    split_ifs at h ⊢ with hty
    · exact h
    · obtain ⟨f, hf, rfl⟩ := Option.map_eq_some_iff.1 h
      obtain ⟨g, hg, hgty⟩ := subField_of_owns hf (hown (by simpa using hty) (composedField_not_meta hf))
      rw [hg, Option.map_some, hgty]

theorem introspection_fields : ∀ p ∈ introspectionTypes, ∀ f ∈ p.2.fields,
    f.2 ∈ builtInScalars ∨ isMeta f.2 = true := by
  decide

/-- The type of a subgraph's field is known to the subgraph. -/
theorem knows_of_fieldType {fty : Name} (h : (S.subSchema i).fieldType tname fname = some fty) :
    S.Knows i fty := by
  rw [fieldType_subSchema, Option.or_eq_some_iff] at h
  rcases h with h | ⟨-, h⟩
  · unfold metaType at h
    split_ifs at h
    all_goals
      obtain rfl := Option.some.inj h
      first
        | exact .inl (by decide)
        | exact .inr (.inl (by decide))
  · split_ifs at h with hty
    · cases ho : introspectionTypes.lookup tname with
      | none => simp [ho] at h
      | some o =>
        simp only [ho, Option.map_some, Option.getD_some] at h
        rcases introspection_fields _ (mem_of_lookup ho) _ (mem_of_lookup h) with hscalar | hmeta
        · exact .inl hscalar
        · exact .inr (.inl hmeta)
    · obtain ⟨g, hg, rfl⟩ := Option.map_eq_some_iff.1 h
      obtain ⟨d, hd, hfind⟩ := subField_eq_some.1 hg
      obtain ⟨s, hs, hty⟩ := mem_definitions.1 hd
      have htypes : S.subTypes i = s.types := by simp [subTypes, hs]
      rcases s.fieldTypes _ (mem_of_lookup hty) g (List.mem_of_find?_eq_some hfind) with hscalar | hdefined
      · exact .inl hscalar
      · exact .inr (.inr (htypes ▸ hdefined))

end Supergraph

end G2way.GraphQl
