import G2way.GraphQl.Document

/-!
# Schemas

What a selection set is checked against: a schema has object types, interfaces
and unions, and the object types of the introspection system, which are the same
in every schema. A `TypedDocument` is one that passed validation against a
schema.
-/

namespace G2way.GraphQl

/-! ### Schemas -/

/-- An object type: the interfaces it implements, and its fields with the name of the type of each,
its lists and non-nulls stripped. -/
structure ObjectType where
  implementing : List Name := []
  fields : List (Name × Name)
  deriving DecidableEq, Repr

/-- A schema, but for the types of the introspection system. -/
structure Schema where
  /-- The root type of queries. -/
  query : Name := "Query"
  objects : List (Name × ObjectType)
  /-- The interfaces, with their fields. -/
  interfaces : List (Name × List (Name × Name)) := []
  /-- The unions, with their members. -/
  unions : List (Name × List Name) := []
  deriving DecidableEq, Repr

/-- The object types of the introspection system. -/
def introspectionTypes : List (Name × ObjectType) :=
  [("__Schema", ⟨[], [("description", "String"), ("types", "__Type"), ("queryType", "__Type"),
      ("mutationType", "__Type"), ("subscriptionType", "__Type"), ("directives", "__Directive")]⟩),
   ("__Type", ⟨[], [("kind", "__TypeKind"), ("name", "String"), ("description", "String"),
      ("specifiedByURL", "String"), ("fields", "__Field"), ("interfaces", "__Type"),
      ("possibleTypes", "__Type"), ("enumValues", "__EnumValue"), ("inputFields", "__InputValue"),
      ("ofType", "__Type")]⟩),
   ("__Field", ⟨[], [("name", "String"), ("description", "String"), ("args", "__InputValue"),
      ("type", "__Type"), ("isDeprecated", "Boolean"), ("deprecationReason", "String")]⟩),
   ("__InputValue", ⟨[], [("name", "String"), ("description", "String"), ("type", "__Type"),
      ("defaultValue", "String"), ("isDeprecated", "Boolean"), ("deprecationReason", "String")]⟩),
   ("__EnumValue", ⟨[], [("name", "String"), ("description", "String"), ("isDeprecated", "Boolean"),
      ("deprecationReason", "String")]⟩),
   ("__Directive", ⟨[], [("name", "String"), ("description", "String"), ("isRepeatable", "Boolean"),
      ("locations", "__DirectiveLocation"), ("args", "__InputValue")]⟩)]

/-- The types with no fields that the introspection system refers to. -/
def introspectionLeaves : List Name := ["String", "Boolean", "__TypeKind", "__DirectiveLocation"]

namespace Schema

/-- The object type of a name. -/
def objectType (s : Schema) (n : Name) : Option ObjectType := (s.objects ++ introspectionTypes).lookup n

/-- The fields a type declares. -/
def fieldsOf (s : Schema) (ty : Name) : List (Name × Name) :=
  match s.objectType ty with
  | some o => o.fields
  | none => (s.interfaces.lookup ty).getD []

/-- The type of a field, meta fields included. -/
def fieldType (s : Schema) (ty field : Name) : Option Name :=
  if field = "__typename" then some "String"
  else if ty = s.query ∧ field = "__schema" then some "__Schema"
  else if ty = s.query ∧ field = "__type" then some "__Type"
  else (s.fieldsOf ty).lookup field

/-- The object type `object` is one of the possible types of `ty`. -/
def Possible (s : Schema) (ty object : Name) : Prop :=
  ∃ o, s.objectType object = some o ∧
    (ty = object ∨ ty ∈ o.implementing ∨ ∃ members, s.unions.lookup ty = some members ∧ object ∈ members)

/-- The names of the schema's own types. -/
def typeNames (s : Schema) : List Name :=
  s.objects.map Prod.fst ++ s.interfaces.map Prod.fst ++ s.unions.map Prod.fst

end Schema

/-- A schema that passed validation, as far as is needed here. -/
structure ValidSchema extends Schema where
  /-- Names that begin with `__`, and those of the built-in scalars, are reserved. -/
  reserved : ∀ n ∈ toSchema.typeNames, isMeta n = false ∧ n ∉ introspectionLeaves
  /-- So are field names that begin with `__`. -/
  objectFields : ∀ p ∈ objects, ∀ f ∈ p.2.fields, isMeta f.1 = false
  interfaceFields : ∀ p ∈ interfaces, ∀ f ∈ p.2, isMeta f.1 = false
  /-- What an object type implements is an interface. -/
  implementingInterfaces : ∀ p ∈ objects, ∀ i ∈ p.2.implementing, i ∈ interfaces.map Prod.fst
  /-- A name is a type once. -/
  distinct : toSchema.typeNames.Nodup

/-! ### Valid documents -/

/-- Each field is declared by the type it is selected on, and its own selections are on its type. -/
def Selections.WellTyped (s : Schema) : Name → Selections → Prop
  | _, .nil => True
  | ty, .field f fty sub rest =>
    s.fieldType ty f.name = some fty ∧ sub.WellTyped s fty ∧ rest.WellTyped s ty
  | ty, .inlineFragment _ fty sub rest => sub.WellTyped s fty ∧ rest.WellTyped s ty
  | ty, .fragmentSpread _ _ rest => rest.WellTyped s ty

instance Selections.decidableWellTyped (s : Schema) :
    (ty : Name) → (sel : Selections) → Decidable (sel.WellTyped s ty)
  | _, .nil => isTrue trivial
  | ty, .field _ fty sub rest =>
    have := sub.decidableWellTyped s fty
    have := rest.decidableWellTyped s ty
    inferInstanceAs (Decidable (_ ∧ _ ∧ _))
  | ty, .inlineFragment _ fty sub rest =>
    have := sub.decidableWellTyped s fty
    have := rest.decidableWellTyped s ty
    inferInstanceAs (Decidable (_ ∧ _))
  | ty, .fragmentSpread _ _ rest => rest.decidableWellTyped s ty

/-- A document valid against a schema. -/
structure TypedDocument (s : Schema) extends ValidDocument where
  /-- An operation is on a root type. -/
  rootTypes : ∀ op ∈ toDocument.operations, (s.objectType op.ty).isSome
  operationsTyped : ∀ op ∈ toDocument.operations, op.selections.WellTyped s op.ty
  fragmentsTyped : ∀ n frag, fragments.lookup n = some frag → frag.selections.WellTyped s frag.ty

end G2way.GraphQl
