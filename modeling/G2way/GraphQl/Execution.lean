import G2way.GraphQl.Check
import G2way.GraphQl.Schema
import G2way.Lib.Assoc

/-!
# The block list against execution

A key with no allow list may have a block list: "selecting a listed (type, field)
pair is rejected". The check compares the pair with the type of the selection set
the field stands in. Execution resolves the field on an object, whose type may be
another: an interface's selection set is executed on objects of any type that
implements it.

## The model

`Resolves` is the GraphQL specification's execution, as far as it says what is resolved where: a
selection set is executed on an object of some type; a fragment applies if the
object's type is one of its type's possible types (`DoesFragmentTypeApply`); the
value of a field is any object of a possible type of the field's type.

## What is proved

`through_interface_of_resolves_blocked`: in a document that was let through, a
blocked field of an object type is resolved only through a selection on an
interface the type implements, which declares the field and is not itself listed
with it. A block list that names the interfaces too is safe. The exceptions are
real (`blocked_field_resolved`).
-/

namespace G2way.GraphQl

open G2way.Core G2way.Lib.DepthFirst G2way.Lib.Assoc

/-! ### Execution -/

/-- A field resolved in an execution. -/
structure Resolution where
  /-- The type of the object it was resolved on. -/
  object : Name
  field : Name
  /-- The type of the selection set it was selected in. -/
  selectedOn : Name
  deriving DecidableEq, Repr

/-- **Execution**: the selections of a set of type `ty`, executed on an object of type `object`,
resolve a field, for some values of the fields above it. -/
inductive Resolves (s : Schema) (doc : Document) : Name → Name → Selections → Resolution → Prop
  /-- A selected field is resolved on the object. -/
  | field {object ty : Name} {f : Field} {fty : Name} {sub rest : Selections} :
      Resolves s doc object ty (.field f fty sub rest) ⟨object, f.name, ty⟩
  /-- Its own selections are executed on its value, an object of a possible type. -/
  | value {object ty : Name} {f : Field} {fty : Name} {sub rest : Selections} {r : Resolution}
      {object' : Name} : s.Possible fty object' → Resolves s doc object' fty sub r →
      Resolves s doc object ty (.field f fty sub rest) r
  /-- An inline fragment that applies. -/
  | inlineFragment {object ty : Name} {d : List String} {fty : Name} {sub rest : Selections}
      {r : Resolution} : s.Possible fty object → Resolves s doc object fty sub r →
      Resolves s doc object ty (.inlineFragment d fty sub rest) r
  /-- A named fragment that applies. -/
  | fragmentSpread {object ty : Name} {n : Name} {d : List String} {rest : Selections} {frag : Fragment}
      {r : Resolution} : doc.fragments.lookup n = some frag → s.Possible frag.ty object →
      Resolves s doc object frag.ty frag.selections r →
      Resolves s doc object ty (.fragmentSpread n d rest) r
  /-- The selections after a field. -/
  | afterField {object ty : Name} {f : Field} {fty : Name} {sub rest : Selections} {r : Resolution} :
      Resolves s doc object ty rest r → Resolves s doc object ty (.field f fty sub rest) r
  /-- The selections after an inline fragment. -/
  | afterInline {object ty : Name} {d : List String} {fty : Name} {sub rest : Selections}
      {r : Resolution} : Resolves s doc object ty rest r →
      Resolves s doc object ty (.inlineFragment d fty sub rest) r
  /-- The selections after a spread. -/
  | afterSpread {object ty : Name} {n : Name} {d : List String} {rest : Selections} {r : Resolution} :
      Resolves s doc object ty rest r → Resolves s doc object ty (.fragmentSpread n d rest) r

/-- An execution of one of the document's operations resolves a field. -/
def Document.Resolves (doc : Document) (s : Schema) (r : Resolution) : Prop :=
  ∃ op ∈ doc.operations, GraphQl.Resolves s doc op.ty op.ty op.selections r

/-! ### What a resolution tells -/

section Resolves

variable {s : Schema} {doc : Document} {object ty : Name} {sel : Selections} {r : Resolution}

/-- A field is resolved on an object of a possible type of the set it is selected in. -/
theorem Resolves.possible (h : Resolves s doc object ty sel r) (hp : s.Possible ty object) :
    s.Possible r.selectedOn r.object := by
  induction h with
  | field => exact hp
  | value hvalue _ ih => exact ih hvalue
  | inlineFragment happlies _ ih => exact ih happlies
  | fragmentSpread _ happlies _ ih => exact ih happlies
  | afterField _ ih => exact ih hp
  | afterInline _ ih => exact ih hp
  | afterSpread _ ih => exact ih hp

/-- The type of the set it is selected in declares it. -/
theorem Resolves.declared (h : Resolves s doc object ty sel r) (hty : sel.WellTyped s ty)
    (hdoc : ∀ n frag, doc.fragments.lookup n = some frag → frag.selections.WellTyped s frag.ty) :
    ∃ fty, s.fieldType r.selectedOn r.field = some fty := by
  induction h with
  | field => exact ⟨_, hty.1⟩
  | value _ _ ih => exact ih hty.2.1
  | inlineFragment _ _ ih => exact ih hty.1
  | fragmentSpread hfrag _ _ ih => exact ih (hdoc _ _ hfrag)
  | afterField _ ih => exact ih hty.2.2
  | afterInline _ ih => exact ih hty.2
  | afterSpread _ ih => exact ih hty

/-- A walk that goes below fields comes by every field an execution resolves. -/
theorem Resolves.reaches {H : Type} {w : Walk H} (hw : w.descends = true) {hit : H}
    (h : Resolves s doc object ty sel r) (hhit : w.hit r.selectedOn r.field = some hit) :
    Reaches (body w doc) (items w ty sel) hit := by
  induction h with
  | field => exact .hit (by simp [items, hhit])
  | value _ _ ih => exact (ih hhit).mono fun x hx => by simp [items, hw, hx]
  | inlineFragment _ _ ih => exact (ih hhit).mono fun x hx => by simp [items, hx]
  | @fragmentSpread _ _ n _ _ frag _ hfrag _ _ ih =>
    refine .ref (n := n) (by simp [items]) ?_
    simpa only [body, hfrag] using ih hhit
  | afterField _ ih => exact (ih hhit).mono fun x hx => by simp [items, hx]
  | afterInline _ ih => exact (ih hhit).mono fun x hx => by simp [items, hx]
  | afterSpread _ ih => exact (ih hhit).mono fun x hx => by simp [items, hx]

end Resolves

/-! ### Introspection stays in its own types -/

theorem introspectionTypes_meta : ∀ p ∈ introspectionTypes, isMeta p.1 = true ∧ p.2.implementing = [] ∧
    ∀ f ∈ p.2.fields, isMeta f.1 = false ∧ (f.2 ∈ introspectionLeaves ∨ isMeta f.2 = true) := by
  decide

section Valid

variable {s : ValidSchema} {object ty : Name}

theorem ValidSchema.mem_of_objectType {o : ObjectType} (h : s.objectType object = some o) :
    (object, o) ∈ s.objects ∨ (object, o) ∈ introspectionTypes :=
  List.mem_append.1 (mem_of_lookup h)

theorem ValidSchema.object_reserved {o : ObjectType} (h : (object, o) ∈ s.objects) :
    isMeta object = false ∧ object ∉ introspectionLeaves :=
  s.reserved object (by simp only [Schema.typeNames, List.mem_append, List.mem_map]; exact .inl (.inl ⟨_, h, rfl⟩))

theorem ValidSchema.interface_reserved (h : ty ∈ s.interfaces.map Prod.fst) :
    isMeta ty = false ∧ ty ∉ introspectionLeaves :=
  s.reserved ty (by simp only [Schema.typeNames, List.mem_append]; exact .inl (.inr h))

theorem ValidSchema.union_reserved {members : List Name} (h : s.unions.lookup ty = some members) :
    isMeta ty = false ∧ ty ∉ introspectionLeaves :=
  s.reserved ty (by
    simp only [Schema.typeNames, List.mem_append, List.mem_map]
    exact .inr ⟨_, mem_of_lookup h, rfl⟩)

/-- What an object type implements is an interface of the schema. -/
theorem ValidSchema.mem_interfaces {o : ObjectType} (ho : s.objectType object = some o)
    (h : ty ∈ o.implementing) : ty ∈ s.interfaces.map Prod.fst := by
  rcases s.mem_of_objectType ho with hmem | hmem
  · exact s.implementingInterfaces _ hmem ty h
  · have hnil : o.implementing = [] := (introspectionTypes_meta _ hmem).2.1
    rw [hnil] at h
    exact absurd h List.not_mem_nil

/-- A leaf of the introspection system is no object's type. -/
theorem ValidSchema.not_possible_leaf (h : ty ∈ introspectionLeaves) : ¬ s.Possible ty object := by
  rintro ⟨o, ho, rfl | hi | ⟨members, hm, _⟩⟩
  · rcases s.mem_of_objectType ho with hmem | hmem
    · exact (s.object_reserved hmem).2 h
    · have hdisjoint : ∀ n ∈ introspectionLeaves, ∀ p ∈ introspectionTypes, p.1 ≠ n := by decide
      exact hdisjoint _ h _ hmem rfl
  · exact (s.interface_reserved (s.mem_interfaces ho hi)).2 h
  · exact (s.union_reserved hm).2 h

/-- A type of the introspection system is an object type. -/
theorem ValidSchema.eq_of_possible_meta (h : isMeta ty = true) (hp : s.Possible ty object) : object = ty := by
  obtain ⟨o, ho, rfl | hi | ⟨members, hm, _⟩⟩ := hp
  · rfl
  · simp [(s.interface_reserved (s.mem_interfaces ho hi)).1] at h
  · simp [(s.union_reserved hm).1] at h

/-- A union declares no fields. -/
theorem ValidSchema.fieldsOf_union {members : List Name} (h : s.unions.lookup ty = some members) :
    s.fieldsOf ty = [] := by
  have hunion : ty ∈ s.unions.map Prod.fst := List.mem_map.2 ⟨_, mem_of_lookup h, rfl⟩
  have hdistinct := s.distinct
  simp only [Schema.typeNames, List.nodup_append, List.mem_append] at hdistinct
  obtain ⟨_, _, hd⟩ := hdistinct
  have hobject : s.objectType ty = none := by
    rw [Option.eq_none_iff_forall_ne_some]
    intro o ho
    rcases s.mem_of_objectType ho with hmem | hmem
    · exact hd ty (.inl (List.mem_map.2 ⟨_, hmem, rfl⟩)) ty hunion rfl
    · have hmeta : isMeta ty = true := (introspectionTypes_meta _ hmem).1
      rw [(s.union_reserved h).1] at hmeta
      exact Bool.false_ne_true hmeta
  have hinterface : s.interfaces.lookup ty = none := by
    rw [Option.eq_none_iff_forall_ne_some]
    intro fields hf
    exact hd ty (.inr (List.mem_map.2 ⟨_, mem_of_lookup hf, rfl⟩)) ty hunion rfl
  simp [Schema.fieldsOf, hobject, hinterface]

/-- No type declares a meta field. -/
theorem ValidSchema.fieldsOf_not_meta {f : Name × Name} (h : f ∈ s.fieldsOf ty) : isMeta f.1 = false := by
  unfold Schema.fieldsOf at h
  split at h
  · next o ho =>
    rcases s.mem_of_objectType ho with hmem | hmem
    · exact s.objectFields _ hmem f h
    · exact ((introspectionTypes_meta _ hmem).2.2 f h).1
  · cases hi : s.interfaces.lookup ty with
    | none => simp [hi] at h
    | some fields =>
      rw [hi, Option.getD_some] at h
      exact s.interfaceFields _ (mem_of_lookup hi) f h

/-- The value of a meta field is of the introspection system, as is that of a field of an object that
is. -/
theorem ValidSchema.isMeta_value {field fty value : Name} (hfield : s.fieldType ty field = some fty)
    (hvalue : s.Possible fty value)
    (h : isMeta field = true ∨ ∃ object, isMeta object = true ∧ s.Possible ty object) : isMeta value = true := by
  unfold Schema.fieldType at hfield
  split_ifs at hfield with htypename hschema htype
  · rw [← Option.some.inj hfield] at hvalue
    exact absurd hvalue (s.not_possible_leaf (by decide))
  · rw [← Option.some.inj hfield] at hvalue
    rw [s.eq_of_possible_meta (by decide) hvalue]
    decide
  · rw [← Option.some.inj hfield] at hvalue
    rw [s.eq_of_possible_meta (by decide) hvalue]
    decide
  · have hmem := mem_of_lookup hfield
    rcases h with hmeta | ⟨object, hmeta, o, ho, rfl | hi | ⟨members, hm, _⟩⟩
    · have hnot := s.fieldsOf_not_meta hmem
      exact absurd (hmeta.symm.trans hnot) (by decide)
    · rcases s.mem_of_objectType ho with hobject | hobject
      · have hnot := (s.object_reserved hobject).1
        exact absurd (hmeta.symm.trans hnot) (by decide)
      · simp only [Schema.fieldsOf, ho] at hmem
        rcases ((introspectionTypes_meta _ hobject).2.2 _ hmem).2 with hleaf | hmeta'
        · exact absurd hvalue (s.not_possible_leaf hleaf)
        · exact (s.eq_of_possible_meta hmeta' hvalue) ▸ hmeta'
    · rcases s.mem_of_objectType ho with hobject | hobject
      · have hnot := (s.object_reserved hobject).1
        exact absurd (hmeta.symm.trans hnot) (by decide)
      · have hnil : o.implementing = [] := (introspectionTypes_meta _ hobject).2.1
        rw [hnil] at hi
        exact absurd hi List.not_mem_nil
    · rw [s.fieldsOf_union hm] at hmem
      exact absurd hmem List.not_mem_nil

/-- Below an object of the introspection system everything is. -/
theorem Resolves.isMeta_object {doc : Document} {sel : Selections} {r : Resolution}
    (hdoc : ∀ n frag, doc.fragments.lookup n = some frag → frag.selections.WellTyped s.toSchema frag.ty)
    (h : Resolves s.toSchema doc object ty sel r) (hty : sel.WellTyped s.toSchema ty)
    (hp : s.Possible ty object) (hmeta : isMeta object = true) : isMeta r.object = true := by
  induction h with
  | field => exact hmeta
  | value hvalue _ ih => exact ih hty.2.1 hvalue (s.isMeta_value hty.1 hvalue (.inr ⟨_, hmeta, hp⟩))
  | inlineFragment happlies _ ih => exact ih hty.1 happlies hmeta
  | fragmentSpread hfrag happlies _ ih => exact ih (hdoc _ _ hfrag) happlies hmeta
  | afterField _ ih => exact ih hty.2.2 hp hmeta
  | afterInline _ ih => exact ih hty.2 hp hmeta
  | afterSpread _ ih => exact ih hty hp hmeta

/-- Where only meta fields are selected at the root, what is resolved is a meta field, or is on an
object of the introspection system. -/
theorem Resolves.isMeta_of_pure {doc : Document} {sel : Selections} {r : Resolution}
    (hdoc : ∀ n frag, doc.fragments.lookup n = some frag → frag.selections.WellTyped s.toSchema frag.ty)
    (h : Resolves s.toSchema doc object ty sel r) (hty : sel.WellTyped s.toSchema ty)
    (hpure : ¬ Reaches (body nonMetaWalk doc) (items nonMetaWalk ty sel) ()) :
    isMeta r.field = true ∨ isMeta r.object = true := by
  induction h with
  | @field _ ty f fty sub rest =>
    refine .inl ?_
    by_contra hf
    exact hpure (.hit (by simp [items, nonMetaWalk, hf]))
  | @value _ ty f fty sub rest _ _ hvalue hsub _ =>
    have hf : isMeta f.name = true := by
      by_contra hf
      exact hpure (.hit (by simp [items, nonMetaWalk, hf]))
    exact .inr (hsub.isMeta_object hdoc hty.2.1 hvalue (s.isMeta_value hty.1 hvalue (.inl hf)))
  | inlineFragment _ _ ih =>
    exact ih hty.1 fun hx => hpure (hx.mono fun x hx => by simp [items, hx])
  | @fragmentSpread _ _ n _ _ frag _ hfrag _ _ ih =>
    refine ih (hdoc _ _ hfrag) fun hx => hpure (.ref (n := n) (by simp [items]) ?_)
    simpa only [body, hfrag] using hx
  | afterField _ ih => exact ih hty.2.2 fun hx => hpure (hx.mono fun x hx => by simp [items, hx])
  | afterInline _ ih => exact ih hty.2 fun hx => hpure (hx.mono fun x hx => by simp [items, hx])
  | afterSpread _ ih => exact ih hty fun hx => hpure (hx.mono fun x hx => by simp [items, hx])

end Valid

/-! ### The block list -/

/-- A document that passes is pure introspection, or selects nothing the key's grants forbid. -/
theorem pure_or_allowed_of_check {shared : GraphQlShared} {grants : ApiAccess} {doc : Document}
    (h : checkDocument shared (some grants) doc = .ok ()) :
    isPureIntrospection doc = true ∨ firstForbiddenField doc grants = none := by
  unfold checkDocument at h
  split_ifs at h with _ hpure _
  · exact .inl hpure
  · exact .inr (checkFields_eq_ok_iff.1 h grants rfl)

/-- What a resolution is resolved through: a selection on an interface that the object's type
implements, that declares the field, and that the block list does not list with it. -/
def ThroughUnlistedInterface (s : Schema) (grants : ApiAccess) (r : Resolution) : Prop :=
  (∃ o, s.objectType r.object = some o ∧ r.selectedOn ∈ o.implementing) ∧
  (∃ fields, s.interfaces.lookup r.selectedOn = some fields ∧ (fields.lookup r.field).isSome) ∧
  listed grants.restrictedTypes r.selectedOn r.field = false

/-- An interface's fields are those it declares. -/
theorem ValidSchema.fieldsOf_interface {s : ValidSchema} {ty : Name} (h : ty ∈ s.interfaces.map Prod.fst) :
    s.interfaces.lookup ty = some (s.fieldsOf ty) := by
  have hdistinct := s.distinct
  simp only [Schema.typeNames, List.nodup_append] at hdistinct
  have hobject : s.objectType ty = none := by
    rw [Option.eq_none_iff_forall_ne_some]
    intro o ho
    rcases s.mem_of_objectType ho with hmem | hmem
    · exact hdistinct.1.2.2 ty (List.mem_map.2 ⟨_, hmem, rfl⟩) ty h rfl
    · have hmeta : isMeta ty = true := (introspectionTypes_meta _ hmem).1
      rw [(s.interface_reserved h).1] at hmeta
      exact Bool.false_ne_true hmeta
  cases hl : s.interfaces.lookup ty with
  | some fields => simp [Schema.fieldsOf, hobject, hl]
  | none =>
    obtain ⟨p, hp, rfl⟩ := List.mem_map.1 h
    have := List.lookup_eq_none_iff.1 hl p hp
    simp at this

/-- What is reached from an operation is reached from the document. -/
theorem not_reaches_operation {H : Type} {w : Walk H} {doc : Document} (h : walkDocument w doc = none)
    {op : Operation} (hop : op ∈ doc.operations) (hit : H) :
    ¬ Reaches (body w doc) (items w op.ty op.selections) hit := fun hx =>
  (walkDocument_eq_none_iff_reaches w doc).1 h hit (hx.mono fun _ hx => List.mem_flatMap.2 ⟨op, hop, hx⟩)

/-- **A blocked field is resolved only through an interface that is not listed with it.** The field is
no meta field, which grants never cover, and the object is not of the introspection system. -/
theorem through_interface_of_resolves_blocked (s : ValidSchema) (shared : GraphQlShared) (grants : ApiAccess)
    (doc : TypedDocument s.toSchema) (r : Resolution) (hallow : grants.allowedTypes = [])
    (hblocked : listed grants.restrictedTypes r.object r.field = true) (hobject : isMeta r.object = false)
    (hfield : isMeta r.field = false) (hok : checkDocument shared (some grants) doc.toDocument = .ok ())
    (hr : doc.Resolves s.toSchema r) : ThroughUnlistedInterface s.toSchema grants r := by
  obtain ⟨op, hop, hr⟩ := hr
  obtain ⟨root, hroot⟩ := Option.isSome_iff_exists.1 (doc.rootTypes op hop)
  obtain ⟨fty, hdeclared⟩ := hr.declared (doc.operationsTyped op hop) doc.fragmentsTyped
  have hdeclared : (s.fieldsOf r.selectedOn).lookup r.field = some fty := by
    have hne : ∀ n, isMeta n = true → r.field ≠ n := by
      rintro n hn rfl
      exact absurd (hn.symm.trans hfield) (by decide)
    simpa [Schema.fieldType, hne "__typename" (by decide), hne "__schema" (by decide),
      hne "__type" (by decide)] using hdeclared
  rcases pure_or_allowed_of_check hok with hpure | hallowed
  · have hnone := not_reaches_operation (Option.isNone_iff_eq_none.1 hpure) hop ()
    rcases hr.isMeta_of_pure doc.fragmentsTyped (doc.operationsTyped op hop) hnone with h | h
    · exact absurd (h.symm.trans hfield) (by decide)
    · exact absurd (h.symm.trans hobject) (by decide)
  · have hunlisted : listed grants.restrictedTypes r.selectedOn r.field = false := by
      by_contra hlisted
      rw [Bool.not_eq_false] at hlisted
      refine not_reaches_operation hallowed hop (r.selectedOn, r.field) (hr.reaches rfl ?_)
      simp [forbiddenWalk, fieldAllowed, hallow, hfield, hlisted]
    obtain ⟨o, ho, heq | hi | ⟨members, hm, _⟩⟩ := hr.possible ⟨root, hroot, .inl rfl⟩
    · rw [heq] at hunlisted
      exact absurd (hblocked.symm.trans hunlisted) (by decide)
    · exact ⟨⟨o, ho, hi⟩, ⟨_, s.fieldsOf_interface (s.mem_interfaces ho hi), by rw [hdeclared]; rfl⟩, hunlisted⟩
    · rw [s.fieldsOf_union hm] at hdeclared
      exact absurd hdeclared (by simp)

/-! ### A user behind an interface -/

/-- Users are nodes, and every node has a name. -/
def nodeSchema : ValidSchema where
  objects := [("Query", ⟨[], [("node", "Node"), ("user", "User")]⟩), ("User", ⟨["Node"], [("name", "String")]⟩)]
  interfaces := [("Node", [("name", "String")])]
  reserved := by decide
  objectFields := by decide
  interfaceFields := by decide
  implementingInterfaces := by decide
  distinct := by decide

/-- A query with no fragments. -/
def plainQuery (sel : Selections) (hspreads : sel.spreads = [])
    (htyped : sel.WellTyped nodeSchema.toSchema "Query") : TypedDocument nodeSchema.toSchema where
  toValidDocument := .single { ty := "Query", selections := sel } hspreads
  rootTypes := by
    simp [Document.operations, ValidDocument.single]
    decide
  operationsTyped := by simpa [Document.operations, ValidDocument.single] using htyped
  fragmentsTyped := by
    intro n frag h
    simp [ValidDocument.single] at h

/-- The selections of `{ <root> { <leaf> } }`. -/
def nested (root rootType leaf : Name) : Selections :=
  .field ⟨none, root, [], []⟩ rootType (.field ⟨none, leaf, [], []⟩ "String" .nil .nil) .nil

/-- `{ node { name } }`. -/
def nodeName : TypedDocument nodeSchema.toSchema :=
  plainQuery (nested "node" "Node" "name") (by decide) (by decide)

/-- `{ user { __typename } }`. -/
def userTypename : TypedDocument nodeSchema.toSchema :=
  plainQuery (nested "user" "User" "__typename") (by decide) (by decide)

/-- `{ __schema { description } }`. -/
def schemaDescription : TypedDocument nodeSchema.toSchema :=
  plainQuery (nested "__schema" "__Schema" "description") (by decide) (by decide)

/-- A key with one field of one type blocked. -/
def blocking (ty field : Name) : ApiAccess := { restrictedTypes := [⟨ty, [field]⟩] }

theorem nested_resolves {root rootType leaf object : Name} {hspreads htyped}
    (hp : nodeSchema.Possible rootType object) :
    (plainQuery (nested root rootType leaf) hspreads htyped).Resolves nodeSchema.toSchema
      ⟨object, leaf, rootType⟩ :=
  ⟨{ ty := "Query", selections := nested root rootType leaf }, by simp [plainQuery, ValidDocument.single, Document.operations],
    .value hp .field⟩

/-- A blocked field is resolved on an object of its type all the same: through an interface; if it is
a meta field; on a type of the introspection system. -/
theorem blocked_field_resolved :
    (checkDocument {} (some (blocking "User" "name")) nodeName.toDocument = .ok () ∧
      nodeName.Resolves nodeSchema.toSchema ⟨"User", "name", "Node"⟩) ∧
    (checkDocument {} (some (blocking "User" "__typename")) userTypename.toDocument = .ok () ∧
      userTypename.Resolves nodeSchema.toSchema ⟨"User", "__typename", "User"⟩) ∧
    (checkDocument {} (some (blocking "__Schema" "description")) schemaDescription.toDocument = .ok () ∧
      schemaDescription.Resolves nodeSchema.toSchema ⟨"__Schema", "description", "__Schema"⟩) := by
  refine ⟨⟨by decide, nested_resolves ?_⟩, ⟨by decide, nested_resolves ?_⟩, by decide, nested_resolves ?_⟩
  · exact ⟨_, rfl, .inr (.inl (by decide))⟩
  · exact ⟨_, rfl, .inl rfl⟩
  · exact ⟨_, rfl, .inl rfl⟩

theorem through_interface_of_resolves_blocked_node :
    ThroughUnlistedInterface nodeSchema.toSchema (blocking "User" "name") ⟨"User", "name", "Node"⟩ :=
  through_interface_of_resolves_blocked nodeSchema {} (blocking "User" "name") nodeName ⟨"User", "name", "Node"⟩
    rfl (by decide) (by decide) (by decide) (by decide) (nested_resolves ⟨_, rfl, .inr (.inl (by decide))⟩)

end G2way.GraphQl
