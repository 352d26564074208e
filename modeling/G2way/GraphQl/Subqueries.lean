import G2way.GraphQl.Merging

/-!
# The sub-queries of a plan

A plan's texts go to subgraphs that validate them. The planner takes what it
prints from a document that is valid against the composed schema; here is when
that makes it valid for the subgraph it is sent to.

## The model

A printed set is well-formed (`WellFormedSet`) if the subgraph's object type declares
its fields and the subgraph defines the types of its fragments; and a sub-query is
(`WellFormed`) if all its sets are, and no two fields that meet in them have one response
key and are not the same field (`FieldsCanMerge`). A set of the client's document is
`CleanSet` at the subgraph it is printed for if it does not run into one of the things
the planner does not look at.

## What is proved

`subqueries_wellFormed_iff`: the sub-queries planned for a root field are
well-formed if and only if what they are printed from is clean. "Collision-
proof" aliases do collide (`clientAlias_collides`).
-/

namespace G2way.GraphQl

open Lib Lib.Result Lib.Assoc

/-! ### Well-formed sub-queries -/

/-- An object type of the schema declares the field. -/
def Schema.Declares (s : Schema) (ty field : Name) : Prop :=
  ∃ o, s.objectType ty = some o ∧ field ∈ o.fields.map Prod.fst

/-- A set that is printed for a subgraph, under a type. -/
structure WellFormedSet (S : Supergraph) (sg : ℕ) (ty : Name) (sel : Selections) : Prop where
  /-- A field under an object type is declared by the subgraph for that type; meta fields are of every type. -/
  declared : (S.composed.schema.objectType ty).isSome → ∀ f ∈ sel.fields, isMeta f.name = false →
    (S.subSchema sg).Declares ty f.name
  /-- A type condition names a type the subgraph defines. -/
  defined : ∀ cond ∈ sel.typeConditions, S.Defines sg cond

/-- A printed set and the sets below it, at any depth. -/
structure WellFormed (S : Supergraph) (sg : ℕ) (ty : Name) (sel : Selections) : Prop where
  set : WellFormedSet S sg ty sel
  below : sel.EverySub (WellFormedSet S sg)
  /-- A response key is given to one field. -/
  distinct : FieldsCanMerge S.composed.schema ⟨ty, sel⟩ ⟨ty, sel⟩

/-- An `_entities` sub-query: its text stands in a fragment on the entity type. -/
structure FetchNode.WellFormed (S : Supergraph) (node : FetchNode) : Prop where
  entity : S.Defines node.subgraph node.typeName
  selections : GraphQl.WellFormed S node.subgraph node.typeName node.selections

/-- Every sub-query of a plan, the root's and the `_entities` ones at any depth. -/
structure RootPlan.WellFormed (S : Supergraph) (rootType : Name) (plan : RootPlan) : Prop where
  root : GraphQl.WellFormed S plan.subgraph rootType plan.selections
  nodes : AllNodes (FetchNode.WellFormed S) plan.children

/-! ### Clean sets -/

/-- The key fields that are injected into a set of the client's where it is printed for `sg`. -/
def SetOn.injected (S : Supergraph) (sg : ℕ) (a : SetOn) : List Name :=
  injectedKeys S.composed a.ty (cutTargets S.composed sg a.ty a.selections)

/-- Two sets of the client's that are printed for `sg` and asked of one object. -/
structure CleanPair (S : Supergraph) (sg : ℕ) (a b : SetOn) : Prop where
  /-- No other field of the first that stays has the response key `__typename`, -/
  typename : ∀ p ∈ a.parts, ∀ f ∈ p.fields, isLocal S.composed sg p.ty f.name = true → f.Merges typenameField
  /-- and none that of a key field that is injected into a part of the second it meets. -/
  keys : ∀ p ∈ a.parts, ∀ q ∈ b.parts, S.composed.schema.Meet p.ty q.ty →
    ∀ f ∈ p.fields, isLocal S.composed sg p.ty f.name = true → ∀ k ∈ q.injected S sg, f.Merges (keyField k)

/-- So are all sets they lead to, through fields that stay. -/
def CleanTogether (S : Supergraph) (sg : ℕ) (a b : SetOn) : Prop :=
  ∀ x y, Joined S.composed.schema (fun ty field => isLocal S.composed sg ty field = true) a b x y → CleanPair S sg x y

/-- The fields that a sub-query for `sg` is printed from. -/
def CleanFields (S : Supergraph) (sg : ℕ) (fields : List SelectedField) : Prop :=
  ∀ f ∈ fields, ∀ g ∈ fields, f.field.responseKey = g.field.responseKey → CleanTogether S sg f.set g.set

/-- The fields of a set that are cut to a target. -/
def cutTo (engine : ComposedSupergraph) (sg : ℕ) (ty : Name) (sel : Selections) (t : ℕ) : List SelectedField :=
  (sel.selected.filter fun f => !isLocal engine sg ty f.field.name).filter fun f =>
    targetOf engine ty f.field.name = some t

/-- A set of the client's, of type `ty`, where it is printed for `sg`. -/
structure CleanSet (S : Supergraph) (sg : ℕ) (ty : Name) (sel : Selections) : Prop where
  /-- Its fragments are on types the subgraph defines. -/
  conditions : ∀ cond ∈ sel.typeConditions, S.Defines sg cond
  /-- If it is on a root type, the subgraph owns its fields. -/
  roots : ty ∈ rootTypeNames → ∀ f ∈ sel.fields, isMeta f.name = false → sg ∈ S.composed.ownersOf ty f.name
  /-- What is cut to a target makes a clean sub-query there. -/
  cuts : ∀ t, CleanFields S t (cutTo S.composed sg ty sel t)

/-! ### What validation promises -/

/-- The set of an operation, its spreads inlined. -/
def Operation.inlinedSet (op : Operation) (doc : ValidDocument) : SetOn :=
  ⟨op.ty, op.selections.inlineSpreads doc.fragmentOf⟩

/-- A document that is valid against the composed schema. -/
structure ClientDocument (S : Supergraph) extends TypedDocument S.composed.schema where
  /-- An operation is on a root type. -/
  operationTypes : ∀ op ∈ toDocument.operations, op.ty ∈ rootTypeNames
  /-- Fields that meet merge, those of spread fragments included. -/
  operationsMerge : ∀ op ∈ toDocument.operations,
    FieldsCanMerge S.composed.schema (op.inlinedSet toValidDocument) (op.inlinedSet toValidDocument)

/-- What the engine records of an operation under one response key: selections of one field. Meta fields it
resolves itself. -/
structure Recorded {S : Supergraph} (doc : ClientDocument S) (op : Operation) (field : RecordedField) : Prop where
  operation : op ∈ doc.operations
  /-- They are selected on the root type, in the operation or in a fragment it spreads. -/
  selected : ∀ f ∈ field.selections,
    f.inlined doc.toValidDocument ∈ (op.inlinedSet doc.toValidDocument).selections.on op.ty op.ty
  responseKey : ∀ f ∈ field.selections, f.field.responseKey = field.responseKey
  fieldName : ∀ f ∈ field.selections, f.field.name = field.fieldName
  plain : isMeta field.fieldName = false

/-! ### The tables -/

section Tables

variable {S : Supergraph} {sg t : ℕ} {ty fname fty : Name}

/-- A type with keys is an entity. -/
theorem entity_of_keys (h : (S.composed.entityKeys.lookup ty).isSome) :
    ty ∈ groupNames S.schemas ∧ isEntity S.schemas ty = true := by
  obtain ⟨keys, hkeys⟩ := Option.isSome_iff_exists.1 h
  obtain ⟨hgroup, hentity, -⟩ := Supergraph.entityKeys_eq hkeys
  exact ⟨hgroup, hentity⟩

/-- A foreign field is of an entity, and other subgraphs own it. -/
theorem of_not_isLocal (h : isLocal S.composed sg ty fname = false) : ty ∈ groupNames S.schemas ∧
    isEntity S.schemas ty = true ∧ isMeta fname = false ∧
      S.composed.ownersOf ty fname = ownersOf (objectDefinitions S.schemas ty) fname ∧
      sg ∉ S.composed.ownersOf ty fname := by
  simp only [isLocal, Bool.or_eq_false_iff, Option.isNone_eq_false_iff] at h
  obtain ⟨⟨hmeta, hkeys⟩, howners⟩ := h
  obtain ⟨hgroup, hentity⟩ := entity_of_keys hkeys
  cases hlookup : S.composed.fieldOwners.lookup (ty, fname) with
  | none => simp [hlookup] at howners
  | some owners =>
    simp only [hlookup, List.contains_eq_mem, decide_eq_false_iff_not] at howners
    simp only [ComposedSupergraph.ownersOf, hlookup, Option.getD_some]
    exact ⟨hgroup, hentity, hmeta, Supergraph.fieldOwners_entity hgroup hlookup, howners⟩

theorem not_mem_rootTypeNames (h : ty ∈ groupNames S.schemas) : ty ∉ rootTypeNames := (mem_groupNames.1 h).2.2

/-- The names of the types that are composed by name are not reserved. -/
theorem reserved_of_group (h : ty ∈ groupNames S.schemas) : isMeta ty = false ∧ ty ∉ builtInScalars := by
  obtain ⟨⟨s, -, hty⟩, -, -⟩ := mem_groupNames.1 h
  obtain ⟨p, hp, rfl⟩ := List.mem_map.1 hty
  exact s.reserved p hp

/-- A subgraph owns the fields that are cut to it. -/
theorem owns_of_targetOf (hlocal : isLocal S.composed sg ty fname = false)
    (ht : targetOf S.composed ty fname = some t) : S.Owns t ty fname := by
  obtain ⟨hgroup, hentity, -, howners, -⟩ := of_not_isLocal hlocal
  have hmem := List.mem_of_find?_eq_some ht
  rw [howners] at hmem
  unfold Supergraph.Owns
  rwa [if_neg (not_mem_rootTypeNames hgroup), if_pos hentity]

/-- A subgraph owns the fields it prints itself, if it has their type. -/
theorem owns_of_isLocal (hlocal : isLocal S.composed sg ty fname = true) (hknows : S.Knows sg ty)
    (htype : S.composed.schema.fieldType ty fname = some fty) (hty : isMeta ty = false)
    (hf : isMeta fname = false) (hroot : ty ∈ rootTypeNames → sg ∈ S.composed.ownersOf ty fname) :
    S.Owns sg ty fname := by
  rw [Supergraph.fieldType_composed, metaType_eq_none hf, Option.none_or, hty] at htype
  obtain ⟨f, hfield, -⟩ := Option.map_eq_some_iff.1 htype
  obtain ⟨d, hd⟩ : ∃ d, S.composed.types.lookup ty = some d := by
    cases hd : S.composed.types.lookup ty with
    | none => simp [Supergraph.composedField, Supergraph.composedFields, hd] at hfield
    | some d => exact ⟨d, rfl⟩
  unfold Supergraph.Owns
  by_cases hr : ty ∈ rootTypeNames
  · rw [if_pos hr]
    have howner := hroot hr
    unfold ComposedSupergraph.ownersOf at howner
    cases hlookup : S.composed.fieldOwners.lookup (ty, fname) with
    | none => simp [hlookup] at howner
    | some owners =>
      obtain ⟨i, g, rfl, hg, hname⟩ := Supergraph.fieldOwners_root hr hlookup
      obtain rfl : sg = i := by simpa [hlookup] using howner
      exact ⟨g, hg, hname⟩
  · rw [if_neg hr]
    have hgroup := (Supergraph.group_or_root_of_lookup hd).resolve_left hr
    by_cases hentity : isEntity S.schemas ty = true
    · rw [if_pos hentity]
      obtain ⟨i, o, g, ho, hg, -⟩ := Supergraph.composedField_entity hgroup hentity hfield
      have howners := Supergraph.exists_fieldOwners hgroup hentity (mem_entityFieldNames ho (resolves_eq_some hg))
      simpa [isLocal, hf, Supergraph.exists_entityKeys hgroup hentity, howners] using hlocal
    · rw [if_neg hentity]
      rcases hknows with hscalar | hmeta | hdefined
      · exact absurd hscalar (reserved_of_group hgroup).2
      · rw [hty] at hmeta
        cases hmeta
      · exact exists_lookup_of_key_mem hdefined

/-- The key of a type in a subgraph is that of its definition there. -/
theorem keyOf_eq (hgroup : ty ∈ groupNames S.schemas) (hentity : isEntity S.schemas ty = true)
    (ht : t < S.schemas.length) :
    S.composed.keyOf ty t = ((objectDefinitions S.schemas ty).lookup t).bind ObjectDef.keyFields := by
  rw [ComposedSupergraph.keyOf, Supergraph.exists_entityKeys hgroup hentity]
  simp [entityKeys, Supergraph.length_names, ht]

/-! #### Declared fields -/

theorem declares_subSchema (hty : isMeta ty = false) : (S.subSchema sg).Declares ty fname ↔
    ∃ o, (S.subTypes sg).lookup ty = some (.object o) ∧ ∃ f, o.field fname = some f := by
  have hfield {o : ObjectDef} : fname ∈ (fieldTypes o.fields).map Prod.fst ↔ ∃ f, o.field fname = some f := by
    rw [← Option.isSome_iff_exists, ObjectDef.field, List.find?_isSome]
    simp [fieldTypes]
  unfold Schema.Declares
  rw [Supergraph.subSchema, objectType_schemaOf Supergraph.nodup_subTypes hty]
  cases hlookup : (S.subTypes sg).lookup ty with
  | none => simp
  | some d =>
    cases d with
    | object o =>
      simp only [Option.bind_some, TypeDef.objectType, Option.some.injEq, exists_eq_left', hfield,
        TypeDef.object.injEq]
    | _ => simp [TypeDef.objectType]

/-- What is an object type in the composed schema is one wherever a field of it is owned. -/
theorem object_of_owns {o : ObjectDef} (hty : S.composed.types.lookup ty = some (.object o))
    (hown : S.Owns sg ty fname) : ∃ o', (S.subTypes sg).lookup ty = some (.object o') := by
  unfold Supergraph.Owns at hown
  by_cases hr : ty ∈ rootTypeNames
  · rw [if_pos hr] at hown
    obtain ⟨f, hf, -⟩ := hown
    obtain ⟨s, o', -, hs, ho', -⟩ := Supergraph.mem_rootFields.1 hf
    exact ⟨o', Supergraph.lookup_subTypes.2 ⟨s, hs, ho'⟩⟩
  · have hgroup := (Supergraph.group_or_root_of_lookup hty).resolve_left hr
    rw [if_neg hr] at hown
    by_cases hentity : isEntity S.schemas ty = true
    · rw [if_pos hentity] at hown
      obtain ⟨o', ho', -⟩ := mem_ownersOf.1 hown
      exact ⟨o', Supergraph.lookup_subTypes.2 (mem_objectDefinitions.1 ho')⟩
    · rw [if_neg hentity] at hown
      obtain ⟨d, hd⟩ := hown
      rw [Supergraph.lookup_types_group hgroup, Supergraph.composedType_of_value hgroup (by simpa using hentity)
        (mem_definitions.2 (Supergraph.lookup_subTypes.1 hd))] at hty
      cases d with
      | object o' => exact ⟨o', hd⟩
      | _ => simp [stripType] at hty

/-- **A field of an object type is declared by a subgraph that owns it.** -/
theorem declares_of_owns (hobject : (S.composed.schema.objectType ty).isSome) (hf : isMeta fname = false)
    (htype : S.composed.schema.fieldType ty fname = some fty) (hown : isMeta ty = false → S.Owns sg ty fname) :
    (S.subSchema sg).Declares ty fname := by
  rw [Supergraph.fieldType_composed, metaType_eq_none hf, Option.none_or] at htype
  cases hty : isMeta ty with
  | true =>
    rw [hty, if_pos rfl] at htype
    cases ho : introspectionTypes.lookup ty with
    | none => simp [ho] at htype
    | some o =>
      refine ⟨o, ?_, key_mem_of_lookup (by simpa [ho] using htype)⟩
      rw [Supergraph.subSchema, objectType_of_lookup_none Supergraph.nodup_subTypes
        (Supergraph.lookup_subTypes_meta hty), ho]
  | false =>
    rw [hty] at htype
    obtain ⟨f, hfield, -⟩ := Option.map_eq_some_iff.1 htype
    rw [ComposedSupergraph.schema, objectType_schemaOf Supergraph.nodup_types hty] at hobject
    cases hd : S.composed.types.lookup ty with
    | none => simp [hd] at hobject
    | some d =>
      rw [hd] at hobject
      cases d with
      | object o =>
        obtain ⟨o', ho'⟩ := object_of_owns hd (hown hty)
        obtain ⟨g, hg, -⟩ := Supergraph.subField_of_owns hfield (hown hty)
        unfold Supergraph.subField at hg
        rw [ho'] at hg
        exact (declares_subSchema hty).2 ⟨o', ho', g, hg⟩
      | _ => cases hobject

theorem isMeta_root (hr : ty ∈ rootTypeNames) : isMeta ty = false := by
  rcases List.mem_pair.1 hr with rfl | rfl
  all_goals decide

/-- The fields of a root type stay. -/
theorem isLocal_root (hr : ty ∈ rootTypeNames) : isLocal S.composed sg ty fname = true := by
  cases hlocal : isLocal S.composed sg ty fname with
  | true => rfl
  | false => exact absurd hr (not_mem_rootTypeNames (of_not_isLocal hlocal).1)

theorem objectType_root (hr : ty ∈ rootTypeNames) (hf : isMeta fname = false)
    (htype : S.composed.schema.fieldType ty fname = some fty) : (S.composed.schema.objectType ty).isSome := by
  have hty := isMeta_root hr
  rw [Supergraph.fieldType_composed, metaType_eq_none hf, Option.none_or, hty] at htype
  obtain ⟨f, hfield, -⟩ := Option.map_eq_some_iff.1 htype
  unfold Supergraph.composedField Supergraph.composedFields at hfield
  rw [ComposedSupergraph.schema, objectType_schemaOf Supergraph.nodup_types hty]
  rw [Supergraph.lookup_types_root hr, Supergraph.lookup_composedRoots hr] at hfield ⊢
  split_ifs at hfield ⊢
  · simp at hfield
  · rfl

/-- A subgraph whose root type declares a field of the composed one owns it. -/
theorem mem_ownersOf_root (hr : ty ∈ rootTypeNames) (hf : isMeta fname = false)
    (htype : S.composed.schema.fieldType ty fname = some fty) (hdeclares : (S.subSchema sg).Declares ty fname) :
    sg ∈ S.composed.ownersOf ty fname := by
  have hty := isMeta_root hr
  rw [Supergraph.fieldType_composed, metaType_eq_none hf, Option.none_or, hty] at htype
  obtain ⟨f, hfield, -⟩ := Option.map_eq_some_iff.1 htype
  obtain ⟨j, hj, rfl⟩ := Supergraph.composedField_root hr hfield
  obtain ⟨s, o, f', hs, ho, hf', rfl⟩ := Supergraph.mem_rootFields.1 hj
  obtain ⟨o', ho', g, hg⟩ := (declares_subSchema hty).1 hdeclares
  obtain ⟨s', hs', hlookup⟩ := Supergraph.lookup_subTypes.1 ho'
  have hname := field_name hg
  have hmine : (sg, stripField g) ∈ rootFields S.schemas ty := by
    refine Supergraph.mem_rootFields.2 ⟨s', o', g, hs', hlookup, List.mem_filter.2 ⟨?_, ?_⟩, rfl⟩
    · exact List.mem_of_find?_eq_some hg
    · rw [hname]
      exact (List.mem_filter.1 hf').2
  obtain ⟨rfl, -⟩ := Supergraph.rootFields_unique hr hmine hj hname
  simp [ComposedSupergraph.ownersOf, Supergraph.exists_fieldOwners_root hr hj]

end Tables

/-! ### One set -/

section Set

variable {S : Supergraph} {sg t : ℕ} {ty fty : Name} {path : List PathSeg} {sel printed : Selections}
  {nodes : List FetchNode}

theorem keyField_merges (j k : Name) : (keyField j).Merges (keyField k) := by
  intro hkey
  have hjk : j = k := by simpa [Field.responseKey, keyField, String.append_right_inj] using hkey
  exact ⟨hjk, rfl⟩

theorem keyField_merges_typename (k : Name) : (keyField k).Merges typenameField := by
  intro hkey
  have hchars := congrArg String.toList hkey
  simp [Field.responseKey, keyField, typenameField, String.toList_append] at hchars

theorem Selections.WellTyped.fields {s : Schema} (h : sel.WellTyped s ty) {f : Field} (hf : f ∈ sel.fields) :
    ∃ fty, s.fieldType ty f.name = some fty := by
  induction sel with
  | nil => cases hf
  | field g gty sub rest _ ih =>
    obtain ⟨htype, -, hrest⟩ := h
    rcases List.mem_cons.1 hf with rfl | hf
    · exact ⟨gty, htype⟩
    · exact ih hrest hf
  | inlineFragment d cond sub rest _ ih => exact ih h.2 hf
  | fragmentSpread n d rest ih => exact ih h hf

/-- What a set is printed as. -/
theorem fields_printSet (h : printSet S.composed sg ty path sel = .ok (printed, nodes)) :
    printed.fields = typenameField :: (sel.fields.filter (fun f => isLocal S.composed sg ty f.name) ++
      (SetOn.injected S sg ⟨ty, sel⟩).map keyField) ∧
    printed.typeConditions = sel.typeConditions := by
  obtain ⟨slice, fetches, hslice, -, -, rfl⟩ := printSet_eq_ok.1 h
  obtain ⟨hfields, hconds, -⟩ := printSlice_fields hslice
  simp [Selections.fields, Selections.typeConditions, SetOn.injected, hfields, hconds, Function.comp_def]

/-! #### What joined sets are printed as -/

/-- A set, and what it is printed as for `sg`: nothing, or a set. -/
structure PrintedAs (S : Supergraph) (sg : ℕ) (a b : SetOn) : Prop where
  ty : a.ty = b.ty
  selections : (a.selections = .nil ∧ b.selections = .nil) ∨
    ∃ path nodes, printSet S.composed sg a.ty path a.selections = .ok (b.selections, nodes)

/-- A field, and what it is printed as. -/
def PrintedField (S : Supergraph) (sg : ℕ) (f g : SelectedField) : Prop :=
  ∃ path nodes, printField S.composed sg path f = .ok (g, nodes)

theorem PrintedField.field {f g : SelectedField} (h : PrintedField S sg f g) : g.field = f.field := by
  obtain ⟨path, nodes, hfield⟩ := h
  exact (printField_same hfield).1

theorem PrintedField.set {f g : SelectedField} (h : PrintedField S sg f g) : PrintedAs S sg f.set g.set := by
  obtain ⟨path, nodes, hfield⟩ := h
  refine ⟨(printField_same hfield).2.symm, ?_⟩
  have heq := printField_eq_ok.1 hfield
  split_ifs at heq with hempty
  · have hnil : f.selections = .nil := by
      cases hsel : f.selections with
      | nil => rfl
      | _ => simp [hsel, Selections.isEmpty] at hempty
    rw [heq.1]
    exact .inl ⟨hnil, hnil⟩
  · obtain ⟨printed, hset, rfl⟩ := heq
    exact .inr ⟨_, _, hset⟩

/-- The inline fragments of a set are printed in their places. -/
theorem fragmentParts_printSlice {slice : Slice} (h : printSlice S.composed sg ty path sel = .ok slice) :
    List.Forall₂ (PrintedAs S sg) sel.fragmentParts slice.printed.fragmentParts := by
  induction sel generalizing ty path slice with
  | nil =>
    obtain rfl : _ = slice := by simpa [printSlice] using h
    exact .nil
  | field f fty sub rest _ ih =>
    cases hlocal : isLocal S.composed sg ty f.name with
    | true =>
      obtain ⟨printed, children, rest', -, hrest, rfl⟩ := (printSlice_local hlocal).1 h
      have hparts := ih hrest
      exact hparts
    | false =>
      obtain ⟨target, rest', -, hrest, rfl⟩ := (printSlice_cut hlocal).1 h
      have hparts := ih hrest
      exact hparts
  | inlineFragment d cond sub rest ihsub ihrest =>
    obtain ⟨printed, children, rest', hset, hrest, rfl⟩ := printSlice_inlineFragment.1 h
    obtain ⟨subSlice, fetches, hsub, -, -, hprinted⟩ := printSet_eq_ok.1 hset
    have hparts : printed.fragmentParts = subSlice.printed.fragmentParts := by
      simp [hprinted, Selections.fragmentParts]
    simp only [Selections.fragmentParts, hparts]
    exact .cons ⟨rfl, .inr ⟨_, _, hset⟩⟩ (List.rel_append (ihsub hsub) (ihrest hrest))
  | fragmentSpread n d rest ih => cases h

namespace PrintedAs

variable {a b : SetOn}

/-- The parts of a set are printed in their places. -/
theorem parts (h : PrintedAs S sg a b) : List.Forall₂ (PrintedAs S sg) a.parts b.parts := by
  refine .cons h ?_
  rcases h.selections with ⟨ha, hb⟩ | ⟨path, nodes, hset⟩
  · rw [ha, hb]
    exact .nil
  · obtain ⟨slice, fetches, hslice, -, -, hprinted⟩ := printSet_eq_ok.1 hset
    have hparts : b.selections.fragmentParts = slice.printed.fragmentParts := by
      simp [hprinted, Selections.fragmentParts]
    rw [hparts]
    exact fragmentParts_printSlice hslice

/-- A printed field is `__typename`, one that stays, or an injected key. -/
theorem mem_fields (h : PrintedAs S sg a b) {f : Field} (hf : f ∈ b.fields) : f = typenameField ∨
    (f ∈ a.fields ∧ isLocal S.composed sg a.ty f.name = true) ∨ ∃ k ∈ a.injected S sg, f = keyField k := by
  rcases h.selections with ⟨-, hb⟩ | ⟨path, nodes, hset⟩
  · rw [SetOn.fields, hb] at hf
    cases hf
  · rw [SetOn.fields, (fields_printSet hset).1, List.mem_cons, List.mem_append, List.mem_filter, List.mem_map] at hf
    simpa only [SetOn.fields, eq_comm (b := f)] using hf

/-- A field that stays is printed, -/
theorem mem_of_stays (h : PrintedAs S sg a b) {f : Field} (hf : f ∈ a.fields)
    (hlocal : isLocal S.composed sg a.ty f.name = true) : f ∈ b.fields := by
  rcases h.selections with ⟨ha, -⟩ | ⟨path, nodes, hset⟩
  · rw [SetOn.fields, ha] at hf
    cases hf
  · rw [SetOn.fields, (fields_printSet hset).1]
    exact List.mem_cons_of_mem _ (List.mem_append_left _ (List.mem_filter.2 ⟨hf, hlocal⟩))

/-- with `__typename`, -/
theorem typename_mem (h : PrintedAs S sg a b) {f : Field} (hf : f ∈ a.fields) : typenameField ∈ b.fields := by
  rcases h.selections with ⟨ha, -⟩ | ⟨path, nodes, hset⟩
  · rw [SetOn.fields, ha] at hf
    cases hf
  · rw [SetOn.fields, (fields_printSet hset).1]
    exact List.mem_cons_self

/-- and so are the injected keys. -/
theorem key_mem (h : PrintedAs S sg a b) {k : Name} (hk : k ∈ a.injected S sg) : keyField k ∈ b.fields := by
  rcases h.selections with ⟨ha, -⟩ | ⟨path, nodes, hset⟩
  · simp [SetOn.injected, ha, cutTargets, Selections.fields, injectedKeys] at hk
  · rw [SetOn.fields, (fields_printSet hset).1]
    exact List.mem_cons_of_mem _ (List.mem_append_right _ (List.mem_map_of_mem hk))

/-- A printed field has nothing below it, or is printed from one that stays, -/
theorem mem_selected (h : PrintedAs S sg a b) {g : SelectedField} (hg : g ∈ b.selected) : g.selections = .nil ∨
    ∃ f ∈ a.selected, isLocal S.composed sg a.ty f.field.name = true ∧ PrintedField S sg f g := by
  rcases h.selections with ⟨-, hb⟩ | ⟨path, nodes, hset⟩
  · rw [SetOn.selected, hb] at hg
    cases hg
  · obtain ⟨slice, fetches, hslice, -, -, hprinted⟩ := printSet_eq_ok.1 hset
    simp only [SetOn.selected, hprinted, Selections.selected, Selections.selected_append, Selections.selected_ofFields,
      List.mem_cons, List.mem_append, List.mem_map] at hg
    rcases hg with rfl | hg | ⟨k, -, rfl⟩
    · exact .inl rfl
    · obtain ⟨f, hf, nodes, hfield⟩ := exists_of_mem_right (printSlice_selected hslice) hg
      obtain ⟨hf, hlocal⟩ := List.mem_filter.1 hf
      exact .inr ⟨f, hf, hlocal, path, nodes, hfield⟩
    · exact .inl rfl

/-- and each that stays is printed with what is below it. -/
theorem exists_selected (h : PrintedAs S sg a b) {f : SelectedField} (hf : f ∈ a.selected)
    (hlocal : isLocal S.composed sg a.ty f.field.name = true) : ∃ g ∈ b.selected, PrintedField S sg f g := by
  rcases h.selections with ⟨ha, -⟩ | ⟨path, nodes, hset⟩
  · rw [SetOn.selected, ha] at hf
    cases hf
  · obtain ⟨slice, fetches, hslice, -, -, hprinted⟩ := printSet_eq_ok.1 hset
    obtain ⟨g, hg, nodes, hfield⟩ := exists_of_mem_left (printSlice_selected hslice) (List.mem_filter.2 ⟨hf, hlocal⟩)
    refine ⟨g, ?_, path, nodes, hfield⟩
    simp only [SetOn.selected, hprinted, Selections.selected, Selections.selected_append, List.mem_cons,
      List.mem_append]
    exact .inr (.inl hg)

end PrintedAs

section Pairs

variable {a b a' b' : SetOn}

/-- What two sets that merge are printed as merges if no field that stays collides with one that is injected. -/
theorem MergePair.of_clean (h : MergePair S.composed.schema a b) (ha : PrintedAs S sg a a') (hb : PrintedAs S sg b b')
    (hab : CleanPair S sg a b) (hba : CleanPair S sg b a) : MergePair S.composed.schema a' b' := by
  intro p' hp' q' hq' hmeet f hf g hg
  obtain ⟨p, hp, hprinted⟩ := exists_of_mem_right ha.parts hp'
  obtain ⟨q, hq, hprinted'⟩ := exists_of_mem_right hb.parts hq'
  rw [← hprinted.ty, ← hprinted'.ty] at hmeet
  rcases hprinted.mem_fields hf with rfl | ⟨hf, hlocal⟩ | ⟨k, hk, rfl⟩
  · rcases hprinted'.mem_fields hg with rfl | ⟨hg, hlocal⟩ | ⟨k, hk, rfl⟩
    · exact .refl _
    · exact (hba.typename q hq g hg hlocal).symm
    · exact (keyField_merges_typename k).symm
  · rcases hprinted'.mem_fields hg with rfl | ⟨hg, -⟩ | ⟨k, hk, rfl⟩
    · exact hab.typename p hp f hf hlocal
    · exact h p hp q hq hmeet f hf g hg
    · exact hab.keys p hp q hq hmeet f hf hlocal k hk
  · rcases hprinted'.mem_fields hg with rfl | ⟨hg, hlocal⟩ | ⟨j, -, rfl⟩
    · exact keyField_merges_typename k
    · exact (hba.keys q hq p hp hmeet.symm g hg hlocal k hk).symm
    · exact keyField_merges k j

/-- And only then. -/
theorem CleanPair.of_printed (ha : PrintedAs S sg a a') (hb : PrintedAs S sg b b')
    (h : MergePair S.composed.schema a' b') (hself : MergePair S.composed.schema a' a') : CleanPair S sg a b where
  typename p hp f hf hlocal := by
    obtain ⟨p', hp', hprinted⟩ := exists_of_mem_left ha.parts hp
    exact hself p' hp' p' hp' (.refl _ _) f (hprinted.mem_of_stays hf hlocal) _ (hprinted.typename_mem hf)
  keys p hp q hq hmeet f hf hlocal k hk := by
    obtain ⟨p', hp', hprinted⟩ := exists_of_mem_left ha.parts hp
    obtain ⟨q', hq', hprinted'⟩ := exists_of_mem_left hb.parts hq
    rw [hprinted.ty, hprinted'.ty] at hmeet
    exact h p' hp' q' hq' hmeet f (hprinted.mem_of_stays hf hlocal) _ (hprinted'.key_mem hk)

theorem CleanTogether.below {p q : SetOn} {f g : SelectedField} (h : CleanTogether S sg a b)
    (hp : p ∈ a.parts) (hq : q ∈ b.parts) (hmeet : S.composed.schema.Meet p.ty q.ty) (hf : f ∈ p.selected)
    (hg : g ∈ q.selected) (hlocal : isLocal S.composed sg p.ty f.field.name = true)
    (hlocal' : isLocal S.composed sg q.ty g.field.name = true) (hkey : f.field.responseKey = g.field.responseKey) :
    CleanTogether S sg f.set g.set :=
  fun x y hjoined => h x y (.down hp hq hmeet hf hg hlocal hlocal' hkey hjoined)

/-- **What sets that merge are printed as merges, however deep**, if all they lead to is clean, -/
theorem FieldsCanMerge.of_clean (h : FieldsCanMerge S.composed.schema a b) (ha : PrintedAs S sg a a')
    (hb : PrintedAs S sg b b') (hab : CleanTogether S sg a b) (hba : CleanTogether S sg b a) :
    FieldsCanMerge S.composed.schema a' b' := by
  intro x y hjoined
  induction hjoined generalizing a b with
  | here => exact (h _ _ .here).of_clean ha hb (hab _ _ .here) (hba _ _ .here)
  | @down a' b' p' q' x y f' g' hp' hq' hmeet hf' hg' _ _ hkey hjoined ih =>
    obtain ⟨p, hp, hprinted⟩ := exists_of_mem_right ha.parts hp'
    obtain ⟨q, hq, hprinted'⟩ := exists_of_mem_right hb.parts hq'
    rw [← hprinted.ty, ← hprinted'.ty] at hmeet
    rcases hprinted.mem_selected hf' with hnil | ⟨f, hf, hlocal, hfield⟩
    · exact fieldsCanMerge_of_nil (.inl hnil) x y hjoined
    rcases hprinted'.mem_selected hg' with hnil | ⟨g, hg, hlocal', hfield'⟩
    · exact fieldsCanMerge_of_nil (.inr hnil) x y hjoined
    rw [hfield.field, hfield'.field] at hkey
    exact ih (h.below hp hq hmeet hf hg hkey) hfield.set hfield'.set
      (hab.below hp hq hmeet hf hg hlocal hlocal' hkey) (hba.below hq hp hmeet.symm hg hf hlocal' hlocal hkey.symm)

/-- and only then. -/
theorem CleanTogether.of_printed (ha : PrintedAs S sg a a') (hb : PrintedAs S sg b b')
    (h : FieldsCanMerge S.composed.schema a' b') (hself : FieldsCanMerge S.composed.schema a' a') :
    CleanTogether S sg a b := by
  intro x y hjoined
  induction hjoined generalizing a' b' with
  | here => exact .of_printed ha hb (h _ _ .here) (hself _ _ .here)
  | @down a b p q x y f g hp hq hmeet hf hg hlocal hlocal' hkey _ ih =>
    obtain ⟨p', hp', hprinted⟩ := exists_of_mem_left ha.parts hp
    obtain ⟨q', hq', hprinted'⟩ := exists_of_mem_left hb.parts hq
    obtain ⟨f', hf', hfield⟩ := hprinted.exists_selected hf hlocal
    obtain ⟨g', hg', hfield'⟩ := hprinted'.exists_selected hg hlocal'
    rw [hprinted.ty, hprinted'.ty] at hmeet
    rw [← hfield.field, ← hfield'.field] at hkey
    exact ih hfield.set hfield'.set (h.below hp' hq' hmeet hf' hg' hkey)
      (hself.below hp' hp' (.refl _ _) hf' hf' rfl)

/-- **The fields of a sub-query merge just if those it is printed from are clean.** -/
theorem fieldsCanMerge_ofFields_iff {fs gs : List SelectedField} (hprinted : List.Forall₂ (PrintedField S sg) fs gs)
    (hmerge : ∀ f ∈ fs, ∀ g ∈ fs, f.field.Merges g.field ∧
      (f.field.responseKey = g.field.responseKey → FieldsCanMerge S.composed.schema f.set g.set)) :
    FieldsCanMerge S.composed.schema ⟨ty, .ofFields gs⟩ ⟨ty, .ofFields gs⟩ ↔ CleanFields S sg fs := by
  have hparts : SetOn.parts ⟨ty, .ofFields gs⟩ = [⟨ty, .ofFields gs⟩] := by simp [SetOn.parts]
  have hselected : SetOn.selected ⟨ty, .ofFields gs⟩ = gs := Selections.selected_ofFields gs
  constructor
  · intro h f hf g hg hkey
    obtain ⟨f', hf', hfield⟩ := exists_of_mem_left hprinted hf
    obtain ⟨g', hg', hfield'⟩ := exists_of_mem_left hprinted hg
    rw [← hfield.field, ← hfield'.field] at hkey
    rw [← hselected] at hf' hg'
    exact .of_printed hfield.set hfield'.set (h.below List.mem_cons_self List.mem_cons_self (.refl _ _) hf' hg' hkey)
      (h.below List.mem_cons_self List.mem_cons_self (.refl _ _) hf' hf' rfl)
  · intro h x y hjoined
    cases hjoined with
    | here =>
      intro p hp q hq _ f hf g hg
      rw [hparts] at hp hq
      obtain rfl := List.mem_singleton.1 hp
      obtain rfl := List.mem_singleton.1 hq
      obtain ⟨f', hf', rfl⟩ := SetOn.mem_fields.1 hf
      obtain ⟨g', hg', rfl⟩ := SetOn.mem_fields.1 hg
      rw [hselected] at hf' hg'
      obtain ⟨f, hf, hfield⟩ := exists_of_mem_right hprinted hf'
      obtain ⟨g, hg, hfield'⟩ := exists_of_mem_right hprinted hg'
      rw [hfield.field, hfield'.field]
      exact (hmerge f hf g hg).1
    | down hp hq _ hf' hg' _ _ hkey hjoined =>
      rw [hparts] at hp hq
      obtain rfl := List.mem_singleton.1 hp
      obtain rfl := List.mem_singleton.1 hq
      rw [hselected] at hf' hg'
      obtain ⟨f, hf, hfield⟩ := exists_of_mem_right hprinted hf'
      obtain ⟨g, hg, hfield'⟩ := exists_of_mem_right hprinted hg'
      rw [hfield.field, hfield'.field] at hkey
      have hsets := ((hmerge f hf g hg).2 hkey).of_clean hfield.set hfield'.set (h f hf g hg hkey)
        (h g hg f hf hkey.symm)
      exact hsets x y hjoined

end Pairs

/-! #### One set for its subgraph -/

theorem mem_cutTo {f : SelectedField} : f ∈ cutTo S.composed sg ty sel t ↔ f ∈ sel.selected ∧
    isLocal S.composed sg ty f.field.name = false ∧ targetOf S.composed ty f.field.name = some t := by
  simp only [cutTo, List.mem_filter, Bool.not_eq_true', decide_eq_true_eq, and_assoc]

/-- A set whose fields all stay has none to cut. -/
theorem cutTo_eq_nil (h : ∀ f ∈ sel.fields, isLocal S.composed sg ty f.name = true) :
    cutTo S.composed sg ty sel t = [] := by
  refine List.eq_nil_iff_forall_not_mem.2 fun f hf => ?_
  obtain ⟨hf, hlocal, -⟩ := mem_cutTo.1 hf
  rw [h f.field (Selections.mem_fields.2 ⟨f, hf, rfl⟩)] at hlocal
  cases hlocal

/-- A target of a set owns a foreign field of it. -/
theorem mem_cutTargets : t ∈ cutTargets S.composed sg ty sel ↔ ∃ f, f ∈ cutTo S.composed sg ty sel t := by
  rw [cutTargets, List.mem_eraseDups, List.mem_filterMap]
  constructor
  · rintro ⟨f, hf, ht⟩
    obtain ⟨hf, hlocal⟩ := List.mem_filter.1 hf
    obtain ⟨g, hg, rfl⟩ := Selections.mem_fields.1 hf
    exact ⟨g, mem_cutTo.2 ⟨hg, by simpa using hlocal, ht⟩⟩
  · rintro ⟨f, hf⟩
    obtain ⟨hf, hlocal, ht⟩ := mem_cutTo.1 hf
    have hmem : f.field ∈ sel.fields := Selections.mem_fields.2 ⟨f, hf, rfl⟩
    exact ⟨f.field, List.mem_filter.2 ⟨hmem, by simpa using hlocal⟩, ht⟩

/-- **An injected key field is declared by the subgraph it is asked from.** -/
theorem declares_injected (hknows : S.Knows sg ty) {k : Name} (hk : k ∈ SetOn.injected S sg ⟨ty, sel⟩) :
    (S.subSchema sg).Declares ty k := by
  rw [SetOn.injected, injectedKeys, List.mem_eraseDups, List.mem_flatMap] at hk
  obtain ⟨t, ht, hk⟩ := hk
  obtain ⟨f, hf⟩ := mem_cutTargets.1 ht
  obtain ⟨-, hlocal, htarget⟩ := mem_cutTo.1 hf
  obtain ⟨hgroup, hentity, -, howners, hsg⟩ := of_not_isLocal hlocal
  have htowns := List.mem_of_find?_eq_some htarget
  obtain ⟨hty, hscalar⟩ := reserved_of_group hgroup
  obtain ⟨o, ho⟩ : ∃ o, (sg, o) ∈ objectDefinitions S.schemas ty := by
    rcases hknows with h | h | h
    · exact absurd h hscalar
    · rw [hty] at h
      cases h
    · obtain ⟨d, hd⟩ := exists_lookup_of_key_mem h
      have hdef := Supergraph.lookup_subTypes.1 hd
      obtain ⟨o, rfl⟩ := Supergraph.object_of_entity hgroup hentity (mem_definitions.2 hdef)
      exact ⟨o, mem_objectDefinitions.2 hdef⟩
  have hne : t ≠ sg := by
    rintro rfl
    exact hsg htowns
  rw [howners] at htowns
  obtain ⟨key, hkey, hdeclared⟩ := Supergraph.key_available hgroup hentity ho htowns hne
  have hlt : t < S.schemas.length := by
    obtain ⟨o', ho', -⟩ := mem_ownersOf.1 htowns
    obtain ⟨s, hs, -⟩ := mem_objectDefinitions.1 ho'
    exact (List.getElem?_eq_some_iff.1 hs).1
  rw [keyOf_eq hgroup hentity hlt, hkey] at hk
  exact (declares_subSchema hty).2 ⟨o, Supergraph.lookup_subTypes.2 (mem_objectDefinitions.1 ho), hdeclared k hk⟩

/-- **A set is printed of what the subgraph has just if the types of its fragments are the subgraph's, and its
fields are where it is on a root type.** -/
theorem wellFormedSet_iff (h : printSet S.composed sg ty path sel = .ok (printed, nodes))
    (hknows : S.Knows sg ty) (htyped : sel.WellTyped S.composed.schema ty) : WellFormedSet S sg ty printed ↔
      (∀ cond ∈ sel.typeConditions, S.Defines sg cond) ∧
        (ty ∈ rootTypeNames → ∀ f ∈ sel.fields, isMeta f.name = false → sg ∈ S.composed.ownersOf ty f.name) := by
  have hconds := (fields_printSet h).2
  have hhere : PrintedAs S sg ⟨ty, sel⟩ ⟨ty, printed⟩ := ⟨rfl, .inr ⟨_, _, h⟩⟩
  constructor
  · intro hwf
    refine ⟨hconds ▸ hwf.defined, fun hr f hf hmeta => ?_⟩
    obtain ⟨fty, htype⟩ := htyped.fields hf
    exact mem_ownersOf_root hr hmeta htype (hwf.declared (objectType_root hr hmeta htype) f
      (hhere.mem_of_stays hf (isLocal_root hr)) hmeta)
  · rintro ⟨hconditions, hroots⟩
    refine ⟨fun hobject f hf hmeta => ?_, hconds ▸ hconditions⟩
    rcases hhere.mem_fields hf with rfl | ⟨hf, hlocal⟩ | ⟨k, hk, rfl⟩
    · cases hmeta
    · obtain ⟨fty, htype⟩ := htyped.fields hf
      exact declares_of_owns hobject hmeta htype fun hty =>
        owns_of_isLocal hlocal hknows htype hty hmeta fun hr => hroots hr f hf hmeta
    · exact declares_injected hknows hk

/-- A fetch prints the fields that are cut to its target. -/
theorem printed_fetchNode {slice : Slice} (hslice : printSlice S.composed sg ty path sel = .ok slice)
    {fields : List (SelectedField × List FetchNode)}
    (hfields : (slice.cuts.filter (·.target = t)).mapM Cut.printed = .ok fields) :
    List.Forall₂ (PrintedField S t) (cutTo S.composed sg ty sel t) (fields.map Prod.fst) := by
  have hcuts := List.rel_filter (p := fun f : SelectedField => targetOf S.composed ty f.field.name = some t)
    (q := fun cut : Cut => cut.target = t) ?_ (printSlice_cuts hslice)
  · have htargets : ∀ f ∈ cutTo S.composed sg ty sel t, targetOf S.composed ty f.field.name = some t :=
      fun f hf => (mem_cutTo.1 hf).2.2
    rw [List.forall₂_map_right_iff]
    refine (forall₂_comp ((List.forall₂_and_left _ _).2 ⟨htargets, hcuts⟩) (mapM_eq_ok.1 hfields)).imp ?_
    rintro f ⟨g, children⟩ ⟨cut, ⟨ht, htarget, hprinted⟩, hok⟩
    obtain rfl := Option.some.inj (ht.symm.trans htarget)
    exact ⟨[], children, hprinted.symm.trans hok⟩
  · rintro f cut ⟨htarget, -⟩
    simp [htarget]

/-- It is of what its target has. -/
theorem wellFormedSet_fetchNode {fs : List SelectedField}
    (hprinted : List.Forall₂ (PrintedField S t) (cutTo S.composed sg ty sel t) fs)
    (htyped : sel.WellTyped S.composed.schema ty) : WellFormedSet S t ty (.ofFields fs) where
  declared hobject f hf hmeta := by
    obtain ⟨g, hg, rfl⟩ : ∃ g ∈ fs, g.field = f := by simpa using hf
    obtain ⟨f, hf, hfield⟩ := exists_of_mem_right hprinted hg
    obtain ⟨hf, hlocal, htarget⟩ := mem_cutTo.1 hf
    rw [hfield.field] at hmeta ⊢
    obtain ⟨fty, htype⟩ := htyped.fields (Selections.mem_fields.2 ⟨f, hf, rfl⟩)
    exact declares_of_owns hobject hmeta htype fun _ => owns_of_targetOf hlocal htarget
  defined := by simp

/-- The target of a set defines its type. -/
theorem defines_of_mem_cutTargets (ht : t ∈ cutTargets S.composed sg ty sel) : S.Defines t ty := by
  obtain ⟨f, hf⟩ := mem_cutTargets.1 ht
  obtain ⟨-, hlocal, htarget⟩ := mem_cutTo.1 hf
  obtain ⟨-, -, -, howners, -⟩ := of_not_isLocal hlocal
  have hmem := List.mem_of_find?_eq_some htarget
  rw [howners] at hmem
  obtain ⟨o, ho, -⟩ := mem_ownersOf.1 hmem
  exact .inr (key_mem_of_lookup (Supergraph.lookup_subTypes.2 (mem_objectDefinitions.1 ho)))

end Set

/-! ### Whole plans -/

section Plan

variable {S : Supergraph} {sg t : ℕ} {ty fty : Name} {path : List PathSeg} {sel printed : Selections}
  {nodes : List FetchNode}

/-- What a printed field or set brings: its own sets and the sub-queries below it. -/
structure WellPrinted (S : Supergraph) (sg : ℕ) (ty : Name) (printed : Selections) (nodes : List FetchNode) : Prop where
  set : WellFormedSet S sg ty printed
  below : printed.EverySub (WellFormedSet S sg)
  nodes : AllNodes (FetchNode.WellFormed S) nodes

/-- What the walk over a set leaves, the set itself apart. -/
structure Slice.WellFormed (S : Supergraph) (sg : ℕ) (slice : Slice) : Prop where
  printed : slice.printed.EverySub (WellFormedSet S sg)
  children : AllNodes (FetchNode.WellFormed S) slice.children
  cuts : ∀ cut ∈ slice.cuts, ∀ p, cut.printed = .ok p → WellPrinted S cut.target p.1.ty p.1.selections p.2

/-- The selections a set has besides its sub-sets are valid. -/
structure ValidSet (S : Supergraph) (ty : Name) (sel : Selections) : Prop where
  typed : sel.WellTyped S.composed.schema ty
  merges : FieldsCanMerge S.composed.schema ⟨ty, sel⟩ ⟨ty, sel⟩

theorem wellFormedSet_nil : WellFormedSet S sg ty .nil where
  declared := by simp [Selections.fields]
  defined := by simp [Selections.typeConditions]

theorem wellPrinted_nil : WellPrinted S sg ty .nil [] := ⟨wellFormedSet_nil, trivial, allNodes_nil⟩

theorem cleanSet_nil : CleanSet S sg ty .nil where
  conditions := by simp [Selections.typeConditions]
  roots := by simp [Selections.fields]
  cuts t := by
    rw [cutTo_eq_nil (by simp [Selections.fields])]
    simp [CleanFields]

/-- The fields of a sub-query are well printed just if the sets below them are, with the sub-queries below these. -/
theorem wellPrinted_fields_iff {fields : List (SelectedField × List FetchNode)} :
    (∀ p ∈ fields, WellPrinted S sg p.1.ty p.1.selections p.2) ↔
      (Selections.ofFields (fields.map Prod.fst)).EverySub (WellFormedSet S sg) ∧
        AllNodes (FetchNode.WellFormed S) (fields.flatMap Prod.snd) := by
  rw [Selections.everySub_ofFields, List.forall_mem_map, allNodes_flatMap]
  constructor
  · intro h
    exact ⟨fun p hp => ⟨(h p hp).set, (h p hp).below⟩, fun p hp => (h p hp).nodes⟩
  · rintro ⟨hsets, hnodes⟩ p hp
    exact ⟨(hsets p hp).1, (hsets p hp).2, hnodes p hp⟩

/-- The fields that are cut to a target merge. -/
theorem ValidSet.merges_cutTo (hvalid : ValidSet S ty sel) : ∀ f ∈ cutTo S.composed sg ty sel t,
    ∀ g ∈ cutTo S.composed sg ty sel t, f.field.Merges g.field ∧
      (f.field.responseKey = g.field.responseKey → FieldsCanMerge S.composed.schema f.set g.set) := by
  have hmem {f : SelectedField} (hf : f ∈ cutTo S.composed sg ty sel t) : f ∈ SetOn.selected ⟨ty, sel⟩ :=
    (mem_cutTo.1 hf).1
  intro f hf g hg
  constructor
  · exact hvalid.merges _ _ .here _ List.mem_cons_self _ List.mem_cons_self (.refl _ _) _
      (SetOn.mem_fields.2 ⟨f, hmem hf, rfl⟩) _ (SetOn.mem_fields.2 ⟨g, hmem hg, rfl⟩)
  · exact hvalid.merges.below List.mem_cons_self List.mem_cons_self (.refl _ _) (hmem hf) (hmem hg)

/-- A fetch is well-formed with those below it if what is printed for it is, of clean fields. -/
theorem wellFormed_fetchNode_iff {slice : Slice} {node : FetchNode}
    (hslice : printSlice S.composed sg ty path sel = .ok slice)
    (hnode : fetchNode S.composed ty path slice.cuts t = .ok node)
    (hvalid : ValidSet S ty sel) (hdefines : S.Defines t ty) :
    (node.WellFormed S ∧ AllNodes (FetchNode.WellFormed S) node.children) ↔
      CleanFields S t (cutTo S.composed sg ty sel t) ∧
        ∀ cut ∈ slice.cuts, cut.target = t → ∀ p, cut.printed = .ok p → WellPrinted S t p.1.ty p.1.selections p.2 := by
  simp only [fetchNode, bind_eq_ok, pure_eq_ok] at hnode
  obtain ⟨fields, hfields, rfl⟩ := hnode
  have hprinted := printed_fetchNode hslice hfields
  have hall : (∀ p ∈ fields, WellPrinted S t p.1.ty p.1.selections p.2) ↔ ∀ cut ∈ slice.cuts, cut.target = t →
      ∀ p, cut.printed = .ok p → WellPrinted S t p.1.ty p.1.selections p.2 := by
    rw [forall_mem_mapM hfields]
    simp only [List.mem_filter, decide_eq_true_eq, and_imp]
  have hmerge : FieldsCanMerge S.composed.schema ⟨ty, .ofFields (fields.map Prod.fst)⟩
      ⟨ty, .ofFields (fields.map Prod.fst)⟩ ↔ CleanFields S t (cutTo S.composed sg ty sel t) :=
    fieldsCanMerge_ofFields_iff hprinted hvalid.merges_cutTo
  rw [← hall, ← hmerge, wellPrinted_fields_iff]
  constructor
  · rintro ⟨hwf, hnodes⟩
    exact ⟨hwf.selections.distinct, hwf.selections.below, hnodes⟩
  · rintro ⟨hdistinct, hbelow, hnodes⟩
    exact ⟨⟨hdefines, wellFormedSet_fetchNode hprinted hvalid.typed, hbelow, hdistinct⟩, hnodes⟩

/-- A printed set is well-formed with all that is below it if it is clean and what the walk leaves is
well-formed. -/
theorem wellPrinted_printSet_iff {slice : Slice} (h : printSet S.composed sg ty path sel = .ok (printed, nodes))
    (hslice : printSlice S.composed sg ty path sel = .ok slice)
    (hknows : S.Knows sg ty) (hvalid : ValidSet S ty sel) :
    WellPrinted S sg ty printed nodes ↔ CleanSet S sg ty sel ∧ slice.WellFormed S sg := by
  have hset := wellFormedSet_iff h hknows hvalid.typed
  obtain ⟨slice', fetches, hslice', hfetches, rfl, rfl⟩ := printSet_eq_ok.1 h
  rw [hslice] at hslice'
  obtain rfl := Except.ok.inj hslice'
  have hnodes : AllNodes (FetchNode.WellFormed S) fetches ↔ (∀ t, CleanFields S t (cutTo S.composed sg ty sel t)) ∧
      ∀ cut ∈ slice.cuts, ∀ p, cut.printed = .ok p → WellPrinted S cut.target p.1.ty p.1.selections p.2 := by
    rw [allNodes_iff, forall_mem_mapM (mapM_eq_ok.2 hfetches)]
    constructor
    · intro hall
      have hfetch {t : ℕ} (ht : t ∈ cutTargets S.composed sg ty sel) : CleanFields S t (cutTo S.composed sg ty sel t) ∧
          ∀ cut ∈ slice.cuts, cut.target = t →
            ∀ p, cut.printed = .ok p → WellPrinted S t p.1.ty p.1.selections p.2 := by
        obtain ⟨node, hnode⟩ := exists_mapM_eq_ok.1 ⟨fetches, mapM_eq_ok.2 hfetches⟩ t ht
        exact (wellFormed_fetchNode_iff hslice hnode hvalid (defines_of_mem_cutTargets ht)).1 (hall t ht node hnode)
      refine ⟨fun t f hf => (hfetch (mem_cutTargets.2 ⟨f, hf⟩)).1 f hf, fun cut hcut => ?_⟩
      have ht : cut.target ∈ cutTargets S.composed sg ty sel := by
        rw [← printSlice_targets hslice, List.mem_eraseDups]
        exact List.mem_map_of_mem hcut
      exact (hfetch ht).2 cut hcut rfl
    · rintro ⟨hclean, hall⟩ t ht node hnode
      refine (wellFormed_fetchNode_iff hslice hnode hvalid (defines_of_mem_cutTargets ht)).2 ⟨hclean t, ?_⟩
      rintro cut hcut rfl
      exact hall cut hcut
  have hbelow : (Selections.field typenameField "" .nil (slice.printed.append (.ofFields ((injectedKeys S.composed ty
      (cutTargets S.composed sg ty sel)).map fun k => { field := keyField k })))).EverySub (WellFormedSet S sg) ↔
        slice.printed.EverySub (WellFormedSet S sg) := by
    simp [Selections.EverySub, wellFormedSet_nil]
  constructor
  · rintro ⟨hprinted, hsub, hall⟩
    obtain ⟨hchildren, hfetches⟩ := allNodes_append.1 hall
    obtain ⟨hcuts, hcutsPrinted⟩ := hnodes.1 hfetches
    obtain ⟨hconditions, hroots⟩ := hset.1 hprinted
    exact ⟨⟨hconditions, hroots, hcuts⟩, hbelow.1 hsub, hchildren, hcutsPrinted⟩
  · rintro ⟨⟨hconditions, hroots, hcuts⟩, hsub, hchildren, hcutsPrinted⟩
    exact ⟨hset.2 ⟨hconditions, hroots⟩, hbelow.2 hsub, allNodes_append.2 ⟨hchildren, hnodes.2 ⟨hcuts, hcutsPrinted⟩⟩⟩

/-- The type of a field is known where the field is printed. -/
theorem knows_of_placeOf {fname : Name} (hknows : S.Knows sg ty)
    (htype : S.composed.schema.fieldType ty fname = some fty)
    (hroot : ty ∈ rootTypeNames → isMeta fname = false → sg ∈ S.composed.ownersOf ty fname)
    (hplace : placeOf S.composed sg ty fname = some t) : S.Knows t fty := by
  refine Supergraph.knows_of_fieldType (Supergraph.fieldType_of_owns htype fun hty hf => ?_)
  unfold placeOf at hplace
  split_ifs at hplace with hlocal
  · obtain rfl := Option.some.inj hplace
    exact owns_of_isLocal hlocal hknows htype hty hf fun hr => hroot hr hf
  · exact owns_of_targetOf (by simpa using hlocal) hplace

theorem ValidSet.field {f : Field} {sub rest : Selections} (h : ValidSet S ty (.field f fty sub rest)) :
    S.composed.schema.fieldType ty f.name = some fty ∧ ValidSet S fty sub ∧ ValidSet S ty rest := by
  obtain ⟨⟨htype, hsub, hrest⟩, hmerges⟩ := h
  have hbelow := hmerges.below List.mem_cons_self List.mem_cons_self (.refl _ _) (f := ⟨f, fty, sub⟩)
    List.mem_cons_self List.mem_cons_self rfl
  exact ⟨htype, ⟨hsub, hbelow⟩, hrest, hmerges.within SetOn.within_field⟩

theorem ValidSet.inlineFragment {d : List String} {cond : Name} {sub rest : Selections}
    (h : ValidSet S ty (.inlineFragment d cond sub rest)) : ValidSet S cond sub ∧ ValidSet S ty rest := by
  obtain ⟨⟨hsub, hrest⟩, hmerges⟩ := h
  exact ⟨⟨hsub, hmerges.within SetOn.within_inlineFragment.1⟩, hrest, hmerges.within SetOn.within_inlineFragment.2⟩

/-- The walk over the set, where it is printed for `sg`: what it leaves is well-formed just if every set below it
is clean. -/
def WalkIff (S : Supergraph) (sg : ℕ) (ty : Name) (sel : Selections) : Prop :=
  ∀ path slice, printSlice S.composed sg ty path sel = .ok slice →
    (∀ cut ∈ slice.cuts, ∃ p, cut.printed = .ok p) →
    (ty ∈ rootTypeNames → ∀ f ∈ sel.fields, isMeta f.name = false → sg ∈ S.composed.ownersOf ty f.name) →
    (∀ cond ∈ sel.typeConditions, S.Defines sg cond) →
    (slice.WellFormed S sg ↔ EachSub S.composed (CleanSet S) sg ty sel)

theorem WalkIff.printSet (hwalk : WalkIff S sg ty sel) (hknows : S.Knows sg ty) (hvalid : ValidSet S ty sel)
    (h : printSet S.composed sg ty path sel = .ok (printed, nodes)) :
    WellPrinted S sg ty printed nodes ↔ EverySet S.composed (CleanSet S) sg ty sel := by
  obtain ⟨slice, hslice, hcuts⟩ := exists_printSet_iff.1 ⟨_, h⟩
  rw [wellPrinted_printSet_iff h hslice hknows hvalid]
  exact and_congr_right fun hclean => hwalk path slice hslice hcuts hclean.roots hclean.conditions

theorem WalkIff.printField {f g : SelectedField} (hwalk : WalkIff S sg f.ty f.selections)
    (hknows : S.Knows sg f.ty) (hvalid : ValidSet S f.ty f.selections)
    (h : printField S.composed sg path f = .ok (g, nodes)) :
    WellPrinted S sg f.ty g.selections nodes ↔ EverySet S.composed (CleanSet S) sg f.ty f.selections := by
  have hfield := printField_eq_ok.1 h
  split_ifs at hfield with hempty
  · obtain ⟨rfl, rfl⟩ := hfield
    have hnil : g.selections = .nil := by
      cases hsel : g.selections with
      | nil => rfl
      | _ => simp [hsel, Selections.isEmpty] at hempty
    rw [hnil]
    exact ⟨fun _ => ⟨cleanSet_nil, trivial⟩, fun _ => wellPrinted_nil⟩
  · obtain ⟨printed, hset, rfl⟩ := hfield
    exact hwalk.printSet hknows hvalid hset

section Walk

variable {f : Field} {sub rest : Selections}

theorem roots_cons (hroots : ty ∈ rootTypeNames → ∀ g ∈ (Selections.field f fty sub rest).fields,
      isMeta g.name = false → sg ∈ S.composed.ownersOf ty g.name) :
    (ty ∈ rootTypeNames → isMeta f.name = false → sg ∈ S.composed.ownersOf ty f.name) ∧
      (ty ∈ rootTypeNames → ∀ g ∈ rest.fields, isMeta g.name = false → sg ∈ S.composed.ownersOf ty g.name) :=
  ⟨fun hr => hroots hr f List.mem_cons_self, fun hr g hg => hroots hr g (List.mem_cons_of_mem _ hg)⟩

theorem walkIff_local (hlocal : isLocal S.composed sg ty f.name = true) (hknows : S.Knows sg ty)
    (hvalid : ValidSet S ty (.field f fty sub rest)) (ihsub : S.Knows sg fty → WalkIff S sg fty sub)
    (ihrest : WalkIff S sg ty rest) : WalkIff S sg ty (.field f fty sub rest) := by
  intro path slice h hprinted hroots hconds
  obtain ⟨htype, hvsub, -⟩ := hvalid.field
  obtain ⟨hrootf, hrootrest⟩ := roots_cons hroots
  have hplace : placeOf S.composed sg ty f.name = some sg := by simp [placeOf, hlocal]
  have hsub := knows_of_placeOf hknows htype hrootf hplace
  obtain ⟨printed, children, rest', hfield, hrest, rfl⟩ := (printSlice_local hlocal).1 h
  have hfieldIff := (ihsub hsub).printField hsub hvsub hfield
  simp only [EachSub, hplace, Option.some.injEq, forall_eq']
  rw [← ihrest path rest' hrest hprinted hrootrest hconds]
  refine Iff.trans ?_ (and_congr_left fun _ => hfieldIff)
  constructor
  · rintro ⟨⟨hset, hbelow, hsubrest⟩, hchildren, hcuts⟩
    obtain ⟨hchildren, hchildrenrest⟩ := allNodes_append.1 hchildren
    exact ⟨⟨hset, hbelow, hchildren⟩, hsubrest, hchildrenrest, hcuts⟩
  · rintro ⟨⟨hset, hbelow, hchildren⟩, hsubrest, hchildrenrest, hcuts⟩
    exact ⟨⟨hset, hbelow, hsubrest⟩, allNodes_append.2 ⟨hchildren, hchildrenrest⟩, hcuts⟩

theorem walkIff_cut (hlocal : isLocal S.composed sg ty f.name = false) (hknows : S.Knows sg ty)
    (hvalid : ValidSet S ty (.field f fty sub rest)) (ihsub : ∀ t, S.Knows t fty → WalkIff S t fty sub)
    (ihrest : WalkIff S sg ty rest) : WalkIff S sg ty (.field f fty sub rest) := by
  intro path slice h hprinted hroots hconds
  obtain ⟨htype, hvsub, -⟩ := hvalid.field
  obtain ⟨hrootf, hrootrest⟩ := roots_cons hroots
  obtain ⟨target, rest', htarget, hrest, rfl⟩ := (printSlice_cut hlocal).1 h
  have hplace : placeOf S.composed sg ty f.name = some target := by simp [placeOf, hlocal, htarget]
  have hsub := knows_of_placeOf hknows htype hrootf hplace
  obtain ⟨⟨⟨g, children⟩, hfield⟩, hprinted⟩ := List.forall_mem_cons.1 hprinted
  have hfieldIff := (ihsub target hsub).printField hsub hvsub hfield
  simp only [EachSub, hplace, Option.some.injEq, forall_eq']
  rw [← ihrest path rest' hrest hprinted hrootrest hconds]
  refine Iff.trans ?_ (and_congr_left fun _ => hfieldIff)
  have hty : g.ty = fty := (printField_same hfield).2
  constructor
  · rintro ⟨hsubs, hchildren, hcuts⟩
    obtain ⟨hcut, hcuts⟩ := List.forall_mem_cons.1 hcuts
    exact ⟨hty ▸ hcut _ hfield, hsubs, hchildren, hcuts⟩
  · rintro ⟨hcut, hsubs, hchildren, hcuts⟩
    refine ⟨hsubs, hchildren, List.forall_mem_cons.2 ⟨fun p hp => ?_, hcuts⟩⟩
    obtain rfl := Except.ok.inj (hfield.symm.trans hp)
    rw [hty]
    exact hcut

theorem walkIff_inlineFragment {d : List String} {cond : Name}
    (hvalid : ValidSet S ty (.inlineFragment d cond sub rest)) (ihsub : S.Knows sg cond → WalkIff S sg cond sub)
    (ihrest : WalkIff S sg ty rest) : WalkIff S sg ty (.inlineFragment d cond sub rest) := by
  intro path slice h hprinted hroots hconds
  obtain ⟨hdefines, hconds⟩ := List.forall_mem_cons.1 hconds
  obtain ⟨printed, children, rest', hset, hrest, rfl⟩ := printSlice_inlineFragment.1 h
  have hsetIff := (ihsub (.inr hdefines)).printSet (.inr hdefines) hvalid.inlineFragment.1 hset
  have hrestIff := ihrest path rest' hrest hprinted hroots hconds
  rw [EachSub, ← hrestIff]
  refine Iff.trans ?_ (and_congr_left fun _ => hsetIff)
  constructor
  · rintro ⟨⟨hset, hbelow, hsubrest⟩, hchildren, hcuts⟩
    obtain ⟨hchildren, hchildrenrest⟩ := allNodes_append.1 hchildren
    exact ⟨⟨hset, hbelow, hchildren⟩, hsubrest, hchildrenrest, hcuts⟩
  · rintro ⟨⟨hset, hbelow, hchildren⟩, hsubrest, hchildrenrest, hcuts⟩
    exact ⟨⟨hset, hbelow, hsubrest⟩, allNodes_append.2 ⟨hchildren, hchildrenrest⟩, hcuts⟩

end Walk

/-- **What the walk over a valid set leaves is well-formed just if every set below it is clean.** -/
theorem walkIff (hknows : S.Knows sg ty) (hvalid : ValidSet S ty sel) : WalkIff S sg ty sel := by
  induction sel generalizing sg ty with
  | nil =>
    intro path slice h _ _ _
    obtain rfl : _ = slice := by simpa [printSlice] using h
    exact ⟨fun _ => trivial, fun _ => ⟨trivial, allNodes_nil, by simp⟩⟩
  | field f fty sub rest ihsub ihrest =>
    obtain ⟨-, hvsub, hvrest⟩ := hvalid.field
    cases hlocal : isLocal S.composed sg ty f.name with
    | true => exact walkIff_local hlocal hknows hvalid (fun hk => ihsub hk hvsub) (ihrest hknows hvrest)
    | false => exact walkIff_cut hlocal hknows hvalid (fun t hk => ihsub hk hvsub) (ihrest hknows hvrest)
  | inlineFragment d cond sub rest ihsub ihrest =>
    obtain ⟨hvsub, hvrest⟩ := hvalid.inlineFragment
    exact walkIff_inlineFragment hvalid (fun hk => ihsub hk hvsub) (ihrest hknows hvrest)
  | fragmentSpread n d rest ih =>
    intro path slice h _ _ _
    cases h

end Plan

/-! ### Recorded fields -/

section Recorded

variable {S : Supergraph} {ty : Name} {sel : Selections} {fragment : Name → Option Fragment}

/-- Inlining keeps a set typed, if the fragments are. -/
theorem Selections.WellTyped.inlineSpreads {s : Schema} (h : sel.WellTyped s ty)
    (hfragment : ∀ n frag, fragment n = some frag → frag.selections.WellTyped s frag.ty) :
    (sel.inlineSpreads fragment).WellTyped s ty := by
  induction sel generalizing ty with
  | nil => exact trivial
  | field f fty sub rest ihsub ihrest =>
    obtain ⟨htype, hsub, hrest⟩ := h
    exact ⟨htype, ihsub hsub, ihrest hrest⟩
  | inlineFragment d cond sub rest ihsub ihrest =>
    obtain ⟨hsub, hrest⟩ := h
    exact ⟨ihsub hsub, ihrest hrest⟩
  | fragmentSpread n d rest ih =>
    unfold Selections.inlineSpreads
    cases hn : fragment n with
    | none => exact ih h
    | some frag => exact ⟨hfragment n frag hn, ih h⟩

theorem wellTyped_inlinedFragment (doc : ClientDocument S) (fuel : ℕ) :
    ∀ n frag, doc.inlinedFragment fuel n = some frag → frag.selections.WellTyped S.composed.schema frag.ty := by
  induction fuel with
  | zero => simp [Document.inlinedFragment]
  | succ fuel ih =>
    intro n frag' hn
    obtain ⟨frag, hfrag, rfl⟩ := Option.map_eq_some_iff.1 hn
    have htyped := doc.fragmentsTyped n frag hfrag
    exact htyped.inlineSpreads ih

/-- What is selected in a valid set is of the type's field, and is valid. -/
theorem ValidSet.on {root : Name} (h : ValidSet S ty sel) {f : SelectedField} (hf : f ∈ sel.on root ty) :
    S.composed.schema.fieldType root f.field.name = some f.ty ∧ ValidSet S f.ty f.selections := by
  induction sel generalizing ty with
  | nil => cases hf
  | field g gty sub rest _ ih =>
    obtain ⟨htype, hsub, hrest⟩ := h.field
    have hcases : (ty = root ∧ f = ⟨g, gty, sub⟩) ∨ f ∈ rest.on root ty := by
      unfold Selections.on at hf
      split_ifs at hf with hty
      · exact (List.mem_cons.1 hf).imp_left fun heq => ⟨hty, heq⟩
      · exact .inr hf
    rcases hcases with ⟨rfl, rfl⟩ | hf
    · exact ⟨htype, hsub⟩
    · exact ih hrest hf
  | inlineFragment d cond sub rest ihsub ihrest =>
    obtain ⟨hsub, hrest⟩ := h.inlineFragment
    rcases List.mem_append.1 hf with hf | hf
    · exact ihsub hsub hf
    · exact ihrest hrest hf
  | fragmentSpread n d rest ih => exact ih ⟨h.typed, h.merges.within SetOn.within_fragmentSpread⟩ hf

/-- What the engine records is of a field of the root type, and valid once its spreads are inlined. -/
theorem Recorded.validSet {doc : ClientDocument S} {op : Operation} {field : RecordedField}
    (h : Recorded doc op field) {f : SelectedField} (hf : f ∈ field.selections) :
    S.composed.schema.fieldType op.ty f.field.name = some f.ty ∧
      ValidSet S f.ty (f.inlined doc.toValidDocument).selections ∧
      (f.inlined doc.toValidDocument).selections.spreads = [] := by
  have hon := h.selected f hf
  have hvalid : ValidSet S op.ty (op.inlinedSet doc.toValidDocument).selections :=
    ⟨(doc.operationsTyped op h.operation).inlineSpreads (wellTyped_inlinedFragment doc _),
      doc.operationsMerge op h.operation⟩
  have hspreads : (op.inlinedSet doc.toValidDocument).selections.spreads = [] :=
    op.selections.spreads_inlineSpreads fun n hn =>
      Document.spreads_inlinedFragment (doc.bounded (doc.operationSpreads op h.operation n hn))
  obtain ⟨htype, hset⟩ := hvalid.on hon
  exact ⟨htype, hset, List.subset_nil.1 (hspreads ▸ Selections.spreads_on hon)⟩

/-- The recorded selections merge, and so do the sets below them. -/
theorem Recorded.merges {doc : ClientDocument S} {op : Operation} {field : RecordedField}
    (h : Recorded doc op field) {f g : SelectedField} (hf : f ∈ field.selections) (hg : g ∈ field.selections) :
    f.field.Merges g.field ∧ FieldsCanMerge S.composed.schema (f.inlined doc.toValidDocument).set
      (g.inlined doc.toValidDocument).set := by
  have hmerges := doc.operationsMerge op h.operation
  obtain ⟨p, hp, hty, hfp⟩ := Selections.exists_part_of_on (h.selected f hf)
  obtain ⟨q, hq, hty', hgq⟩ := Selections.exists_part_of_on (h.selected g hg)
  have hmeet : S.composed.schema.Meet p.ty q.ty := .inl (hty.trans hty'.symm)
  refine ⟨?_, hmerges.below hp hq hmeet hfp hgq ((h.responseKey f hf).trans (h.responseKey g hg).symm)⟩
  exact hmerges _ _ .here p hp q hq hmeet _ (SetOn.mem_fields.2 ⟨_, hfp, rfl⟩) _ (SetOn.mem_fields.2 ⟨_, hgq, rfl⟩)

/-- The owner of a recorded field knows its type. -/
theorem Recorded.owns {doc : ClientDocument S} {op : Operation} {field : RecordedField} (h : Recorded doc op field)
    {owner : ℕ} (howner : rootOwner S.composed op.ty field.fieldName = some owner) {f : SelectedField}
    (hf : f ∈ field.selections) : S.Owns owner op.ty f.field.name ∧ S.Knows owner f.ty := by
  have hroot := doc.operationTypes op h.operation
  obtain ⟨htype, -, -⟩ := h.validSet hf
  have hown : S.Owns owner op.ty f.field.name := by
    rw [h.fieldName f hf]
    have hmem := List.mem_of_mem_head? howner
    unfold ComposedSupergraph.ownersOf at hmem
    cases hlookup : S.composed.fieldOwners.lookup (op.ty, field.fieldName) with
    | none => simp [hlookup] at hmem
    | some owners =>
      obtain ⟨i, g, rfl, hg, hname⟩ := Supergraph.fieldOwners_root hroot hlookup
      obtain rfl : owner = i := by simpa [hlookup] using hmem
      unfold Supergraph.Owns
      rw [if_pos hroot]
      exact ⟨g, hg, hname⟩
  exact ⟨hown, Supergraph.knows_of_fieldType (Supergraph.fieldType_of_owns htype fun _ _ => hown)⟩

/-- A property of the sets a root field's plan is printed from, each with the subgraph it is printed for. -/
def EveryPlanned (S : Supergraph) (P : ℕ → Name → Selections → Prop) (doc : ValidDocument) (rootType : Name)
    (field : RecordedField) : Prop :=
  ∀ owner, rootOwner S.composed rootType field.fieldName = some owner → ∀ f ∈ field.selections,
    EverySet S.composed P owner f.ty (f.inlined doc).selections

/-- What a root field is planned from is clean. -/
structure CleanPlan (S : Supergraph) (doc : ValidDocument) (rootType : Name) (field : RecordedField) : Prop where
  /-- The fields of the root's sub-query are, -/
  root : ∀ owner, rootOwner S.composed rootType field.fieldName = some owner →
    CleanFields S owner (field.selections.map fun f => f.inlined doc)
  /-- and every set below them. -/
  sets : EveryPlanned S (CleanSet S) doc rootType field

/-- The root's own set is of what its owner has. -/
theorem Recorded.wellFormedSet_root {doc : ClientDocument S} {op : Operation} {field : RecordedField}
    (h : Recorded doc op field) {owner : ℕ} (howner : rootOwner S.composed op.ty field.fieldName = some owner)
    {fs : List SelectedField}
    (hprinted : List.Forall₂ (PrintedField S owner) (field.selections.map fun f => f.inlined doc.toValidDocument) fs) :
    WellFormedSet S owner op.ty (.ofFields fs) where
  declared hobject g hg hmeta := by
    obtain ⟨g', hg', rfl⟩ : ∃ s ∈ fs, s.field = g := by simpa using hg
    obtain ⟨f', hf', hfield⟩ := exists_of_mem_right hprinted hg'
    obtain ⟨f, hf, rfl⟩ := List.mem_map.1 hf'
    rw [hfield.field] at hmeta ⊢
    exact declares_of_owns hobject hmeta (h.validSet hf).1 fun _ => (h.owns howner hf).1
  defined := by simp

/-- The fields of the root's sub-query are well printed just if the sets below them are clean. -/
theorem Recorded.wellPrinted_iff {doc : ClientDocument S} {op : Operation} {field : RecordedField}
    (h : Recorded doc op field) {owner : ℕ} (howner : rootOwner S.composed op.ty field.fieldName = some owner)
    {fields : List (SelectedField × List FetchNode)} (hfields : (field.selections.mapM fun f =>
      printField S.composed owner [] (f.inlined doc.toValidDocument)) = .ok fields) :
    (∀ p ∈ fields, WellPrinted S owner p.1.ty p.1.selections p.2) ↔
      EveryPlanned S (CleanSet S) doc.toValidDocument op.ty field := by
  rw [forall_mem_mapM hfields]
  have hiff : ∀ f ∈ field.selections, ∀ p,
      printField S.composed owner [] (f.inlined doc.toValidDocument) = .ok p →
        (WellPrinted S owner p.1.ty p.1.selections p.2 ↔
          EverySet S.composed (CleanSet S) owner f.ty (f.inlined doc.toValidDocument).selections) := by
    intro f hf p hp
    obtain ⟨-, hvalid, -⟩ := h.validSet hf
    obtain ⟨-, hknows⟩ := h.owns howner hf
    rw [(printField_same hp).2]
    exact (walkIff hknows hvalid).printField hknows hvalid hp
  constructor
  · intro hall owner' howner' f hf
    obtain rfl := Option.some.inj (howner.symm.trans howner')
    obtain ⟨p, hp⟩ := exists_mapM_eq_ok.1 ⟨fields, hfields⟩ f hf
    exact (hiff f hf p hp).1 (hall f hf p hp)
  · intro hall f hf p hp
    exact (hiff f hf p hp).2 (hall owner howner f hf)

/-- The plan of a root field, where planning succeeds, is well-formed just if what it is printed from is clean. -/
theorem Recorded.wellFormed_iff {doc : ClientDocument S} {op : Operation} {field : RecordedField}
    (h : Recorded doc op field) {plan : RootPlan}
    (hplan : planRoot S.composed doc.toValidDocument op.ty field = .ok plan) :
    plan.WellFormed S op.ty ↔ CleanPlan S doc.toValidDocument op.ty field := by
  simp only [planRoot, bind_eq_ok, pure_eq_ok, okOr_eq_ok] at hplan
  obtain ⟨owner, howner, fields, hfields, rfl⟩ := hplan
  have hprinted : List.Forall₂ (PrintedField S owner) (field.selections.map fun f => f.inlined doc.toValidDocument)
      (fields.map Prod.fst) := by
    rw [List.forall₂_map_left_iff, List.forall₂_map_right_iff]
    refine (mapM_eq_ok.1 hfields).imp ?_
    rintro f ⟨g, children⟩ hfield
    exact ⟨[], children, hfield⟩
  have hroot : FieldsCanMerge S.composed.schema ⟨op.ty, .ofFields (fields.map Prod.fst)⟩
      ⟨op.ty, .ofFields (fields.map Prod.fst)⟩ ↔
        CleanFields S owner (field.selections.map fun f => f.inlined doc.toValidDocument) := by
    refine fieldsCanMerge_ofFields_iff hprinted ?_
    rw [List.forall_mem_map]
    intro f hf
    rw [List.forall_mem_map]
    intro g hg
    obtain ⟨hfields, hsets⟩ := h.merges hf hg
    exact ⟨hfields, fun _ => hsets⟩
  have hsets := h.wellPrinted_iff howner hfields
  rw [wellPrinted_fields_iff] at hsets
  constructor
  · rintro ⟨hwf, hnodes⟩
    refine ⟨fun owner' howner' => ?_, hsets.1 ⟨hwf.below, hnodes⟩⟩
    obtain rfl := Option.some.inj (howner.symm.trans howner')
    exact hroot.1 hwf.distinct
  · rintro ⟨hclean, hall⟩
    obtain ⟨hbelow, hnodes⟩ := hsets.2 hall
    exact ⟨⟨h.wellFormedSet_root howner hprinted, hbelow, hroot.2 (hclean owner howner)⟩, hnodes⟩

/-- Planning succeeds if there is a target for every foreign field. -/
theorem Recorded.exists_planRoot {doc : ClientDocument S} {op : Operation} {field : RecordedField}
    (h : Recorded doc op field) {owner : ℕ} (howner : rootOwner S.composed op.ty field.fieldName = some owner) :
    (∃ plan, planRoot S.composed doc.toValidDocument op.ty field = .ok plan) ↔
      EveryPlanned S (HasTargets S.composed) doc.toValidDocument op.ty field := by
  have hfields : (∃ fields, (field.selections.mapM fun f =>
      printField S.composed owner [] (f.inlined doc.toValidDocument)) = .ok fields) ↔
        EveryPlanned S (HasTargets S.composed) doc.toValidDocument op.ty field := by
    rw [exists_mapM_eq_ok]
    have hiff : ∀ f ∈ field.selections,
        ((∃ p, printField S.composed owner [] (f.inlined doc.toValidDocument) = .ok p) ↔
          EverySet S.composed (HasTargets S.composed) owner f.ty (f.inlined doc.toValidDocument).selections) :=
      fun f hf => exists_printField_iff fun _ => sliceOk_iff (h.validSet hf).2.2
    constructor
    · intro hall owner' howner' f hf
      obtain rfl := Option.some.inj (howner.symm.trans howner')
      exact (hiff f hf).1 (hall f hf)
    · exact fun hall f hf => (hiff f hf).2 (hall owner howner f hf)
  rw [← hfields]
  simp only [planRoot, bind_eq_ok, pure_eq_ok, okOr_eq_ok, howner, Option.some.injEq, exists_eq_left']
  constructor
  · rintro ⟨-, fields, hfields, rfl⟩
    exact ⟨fields, hfields⟩
  · rintro ⟨fields, hfields⟩
    exact ⟨_, fields, hfields, rfl⟩

/-- **The sub-queries planned for a root field are well-formed for their subgraphs if and only if what they are
printed from is clean.** Where some foreign field has no target, nothing is planned. -/
theorem subqueries_wellFormed_iff (S : Supergraph) (doc : ClientDocument S) (op : Operation) (field : RecordedField)
    (h : Recorded doc op field) :
    (∀ plan, planRoot S.composed doc.toValidDocument op.ty field = .ok plan → plan.WellFormed S op.ty) ↔
      (EveryPlanned S (HasTargets S.composed) doc.toValidDocument op.ty field →
        CleanPlan S doc.toValidDocument op.ty field) := by
  constructor
  · intro hplans htargets
    have hclean {owner : ℕ} (howner : rootOwner S.composed op.ty field.fieldName = some owner) :
        CleanPlan S doc.toValidDocument op.ty field := by
      obtain ⟨plan, hplan⟩ := (h.exists_planRoot howner).2 htargets
      exact (h.wellFormed_iff hplan).1 (hplans plan hplan)
    exact ⟨fun owner howner => (hclean howner).root owner howner, fun owner howner => (hclean howner).sets owner howner⟩
  · intro hclean plan hplan
    obtain ⟨owner, howner⟩ : ∃ owner, rootOwner S.composed op.ty field.fieldName = some owner := by
      simp only [planRoot, bind_eq_ok, okOr_eq_ok] at hplan
      obtain ⟨owner, howner, -⟩ := hplan
      exact ⟨owner, howner⟩
    exact (h.wellFormed_iff hplan).2 (hclean ((h.exists_planRoot howner).1 ⟨plan, hplan⟩))

end Recorded

/-! ### Plain sets -/

section Plain

variable {S : Supergraph} {sg : ℕ} {sel : Selections}

/-- A plain set is of clean ones if each is clean beside itself. -/
theorem cleanTogether_of_plain {a : SetOn} (hset : a.selections.Plain ∧ CleanPair S sg a a)
    (hbelow : a.selections.EverySub fun ty sel => sel.Plain ∧ CleanPair S sg ⟨ty, sel⟩ ⟨ty, sel⟩) :
    CleanTogether S sg a a := by
  intro x y hjoined
  obtain ⟨rfl, -, hclean⟩ := hjoined.of_plain (P := fun ty sel => sel.Plain ∧ CleanPair S sg ⟨ty, sel⟩ ⟨ty, sel⟩)
    (fun _ _ h => h.1) rfl hset hbelow
  exact hclean

theorem cleanPair_nil {ty : Name} : CleanPair S sg ⟨ty, .nil⟩ ⟨ty, .nil⟩ where
  typename := by simp [SetOn.parts, SetOn.fields, Selections.fragmentParts, Selections.fields]
  keys := by simp [SetOn.parts, SetOn.fields, Selections.fragmentParts, Selections.fields]

end Plain

/-! ### Users and reviews -/

/-- Users by key, with their names. -/
def usersSdl : String := "type Query \x7b user: User \x7d " ++
  "type User @key(fields: \"id\") \x7b id: ID! name: String \x7d"

/-- The reviews of users. -/
def reviewsSdl : String := "type Query \x7b topReviews: [Review] \x7d type Review \x7b body: String \x7d " ++
  "type User @key(fields: \"id\") \x7b id: ID! @external reviews: [Review] \x7d"

def usersSchema : ValidSubgraph where
  types := [("Query", .object { fields := [{ name := "user", ty := .named "User" }] }),
    ("User", .object { keys := [⟨some "id", none⟩],
                       fields := [{ name := "id", ty := .nonNull (.named "ID") },
                                  { name := "name", ty := .named "String" }] })]
  typeNames := by decide
  fieldNames := by decide
  fieldTypes := by decide
  reserved := by decide
  reservedFields := by decide
  rootTypes := by
    rintro root (h | h)
    · obtain rfl := Option.some.inj h
      exact ⟨_, rfl⟩
    · cases h

def reviewsSchema : ValidSubgraph where
  types := [("Query", .object { fields := [{ name := "topReviews", ty := .list (.named "Review") }] }),
    ("Review", .object { fields := [{ name := "body", ty := .named "String" }] }),
    ("User", .object { keys := [⟨some "id", none⟩],
                       fields := [{ name := "id", ty := .nonNull (.named "ID"), federation := { external := true } },
                                  { name := "reviews", ty := .list (.named "Review") }] })]
  typeNames := by decide
  fieldNames := by decide
  fieldTypes := by decide
  reserved := by decide
  reservedFields := by decide
  rootTypes := by
    rintro root (h | h)
    · obtain rfl := Option.some.inj h
      exact ⟨_, rfl⟩
    · cases h

/-- The two subgraphs, composed. -/
def usersReviews : Supergraph where
  apollo :=
    { parseSubgraphSchema := fun sdl =>
        if sdl = usersSdl then .ok usersSchema
        else if sdl = reviewsSdl then .ok reviewsSchema
        else .error "subgraph SDL is not a valid schema"
      validate := fun _ => .ok () }
  subgraphs := [("users", usersSdl), ("reviews", reviewsSdl)]
  schemas := [usersSchema, reviewsSchema]
  read := rfl
  checked := rfl

/-- The selections of `user` in `{ user { <alias>: name reviews { body } } }`. -/
def userSelections (aliasName : Option Name) : Selections :=
  .field { aliasName, name := "name" } "String" .nil
    (.field { name := "reviews" } "Review" (.field { name := "body" } "String" .nil .nil) .nil)

/-- That query. -/
def userQuery (aliasName : Option Name) : Operation where
  ty := "Query"
  selections := .field { name := "user" } "User" (userSelections aliasName) .nil

/-- The query is valid if its two fields have two response keys. -/
def userDocument (aliasName : Option Name) (hkey : aliasName ≠ some "reviews") : ClientDocument usersReviews where
  toValidDocument := .single (userQuery aliasName) rfl
  rootTypes := by
    intro op hop
    obtain rfl : op = userQuery aliasName := by simpa [ValidDocument.single, Document.operations] using hop
    rfl
  operationsTyped := by
    intro op hop
    obtain rfl : op = userQuery aliasName := by simpa [ValidDocument.single, Document.operations] using hop
    exact ⟨rfl, ⟨rfl, trivial, rfl, ⟨rfl, trivial, trivial⟩, trivial⟩, trivial⟩
  fragmentsTyped := by
    intro n frag hfrag
    simp [ValidDocument.single] at hfrag
  operationTypes := by
    intro op hop
    obtain rfl : op = userQuery aliasName := by simpa [ValidDocument.single, Document.operations] using hop
    exact List.mem_cons_self
  operationsMerge := by
    intro op hop
    obtain rfl : op = userQuery aliasName := by simpa [ValidDocument.single, Document.operations] using hop
    have hone {f : Field} {ty : Name} {sub : Selections} : (Selections.field f ty sub .nil).Plain :=
      ⟨rfl, List.nodup_singleton _⟩
    have hset : (userSelections aliasName).Plain := by
      refine ⟨rfl, ?_⟩
      cases aliasName with
      | none => decide
      | some a =>
        have hne : a ≠ "reviews" := fun h => hkey (congrArg some h)
        simp [userSelections, Selections.fields, Field.responseKey, hne]
    exact fieldsCanMerge_of_plain hone
      ⟨hset, ⟨Selections.plain_nil, trivial, hone, ⟨Selections.plain_nil, trivial, trivial⟩, trivial⟩, trivial⟩

/-- What is recorded for `user`. -/
def userField (aliasName : Option Name) : RecordedField where
  responseKey := "user"
  fieldName := "user"
  selections := [⟨{ name := "user" }, "User", userSelections aliasName⟩]

theorem userField_recorded (aliasName : Option Name) (hkey : aliasName ≠ some "reviews") :
    Recorded (userDocument aliasName hkey) (userQuery aliasName) (userField aliasName) where
  operation := by simp [userDocument, ValidDocument.single, Document.operations]
  selected := by
    intro f hf
    obtain rfl : f = _ := List.mem_singleton.1 hf
    exact List.mem_cons_self
  responseKey := by simp [userField, Field.responseKey]
  fieldName := by simp [userField]
  plain := show isMeta "user" = false by decide

/-- The client asks for `{ user { g2__id: name reviews { body } } }`; the users' subgraph is asked for
`{ user { __typename g2__id: name g2__id: id } }`. -/
theorem clientAlias_collides : ¬ ∀ (S : Supergraph) (doc : ClientDocument S) (op : Operation)
    (field : RecordedField), Recorded doc op field →
      ∀ plan, planRoot S.composed doc.toValidDocument op.ty field = .ok plan → plan.WellFormed S op.ty := by
  intro hall
  have hwf := hall usersReviews (userDocument (some "g2__id") (by decide)) _ _ (userField_recorded _ _) _ rfl
  have huser := hwf.root.distinct.below List.mem_cons_self List.mem_cons_self (.refl _ _) List.mem_cons_self
    List.mem_cons_self rfl
  have hsame : Field.Merges { aliasName := some "g2__id", name := "name" } (keyField "id") :=
    huser _ _ .here _ List.mem_cons_self _ List.mem_cons_self (.refl _ _) _ (by decide) _ (by decide)
  exact absurd (hsame rfl).1 (by decide)

/-- Without the alias everything is clean: `{ user { name reviews { body } } }`. -/
theorem userField_clean : CleanPlan usersReviews (userDocument none (by decide)).toValidDocument "Query"
    (userField none) := by
  have hbody : (Selections.field { name := "body" } "String" .nil .nil).Plain := ⟨rfl, by decide⟩
  have howner {owner : ℕ} (h : rootOwner usersReviews.composed "Query" (userField none).fieldName = some owner) :
      0 = owner := by
    have howner' : rootOwner usersReviews.composed "Query" (userField none).fieldName = some 0 := rfl
    exact Option.some.inj (howner'.symm.trans h)
  constructor
  · intro owner h
    obtain rfl := howner h
    intro f hf g hg _
    obtain rfl := List.mem_singleton.1 hf
    obtain rfl := List.mem_singleton.1 hg
    refine cleanTogether_of_plain ⟨⟨rfl, by decide⟩, by decide, by decide⟩
      ⟨⟨Selections.plain_nil, cleanPair_nil⟩, trivial, ?_⟩
    exact ⟨⟨hbody, by decide, by decide⟩, ⟨⟨Selections.plain_nil, cleanPair_nil⟩, trivial, trivial⟩, trivial⟩
  · intro owner h f hf
    obtain rfl := howner h
    obtain rfl : f = _ := List.mem_singleton.1 hf
    change EverySet usersReviews.composed (CleanSet usersReviews) 0 "User" (userSelections none)
    have hplace : placeOf usersReviews.composed 0 "User" "reviews" = some 1 := rfl
    have hcut {t : ℕ} {f : SelectedField} (hf : f ∈ cutTo usersReviews.composed 0 "User" (userSelections none) t) :
        f = ⟨{ name := "reviews" }, "Review", .field { name := "body" } "String" .nil .nil⟩ ∧ 1 = t := by
      obtain ⟨hmem, hlocal, ht⟩ := mem_cutTo.1 hf
      have htarget : targetOf usersReviews.composed "User" "reviews" = some 1 := rfl
      rcases List.mem_pair.1 hmem with rfl | rfl
      · cases hlocal
      · exact ⟨rfl, Option.some.inj (htarget.symm.trans ht)⟩
    refine ⟨⟨by simp [userSelections, Selections.typeConditions], by decide, fun t f hf g hg _ => ?_⟩, ?_⟩
    · obtain ⟨rfl, rfl⟩ := hcut hf
      obtain ⟨rfl, -⟩ := hcut hg
      exact cleanTogether_of_plain ⟨hbody, by decide, by decide⟩
        ⟨⟨Selections.plain_nil, cleanPair_nil⟩, trivial, trivial⟩
    · refine ⟨fun t _ => ⟨cleanSet_nil, trivial⟩, fun t ht => ?_, trivial⟩
      obtain rfl := Option.some.inj (hplace.symm.trans ht)
      refine ⟨⟨by simp [Selections.typeConditions], by decide, fun t => ?_⟩, fun t _ => ⟨cleanSet_nil, trivial⟩,
        trivial⟩
      rw [cutTo_eq_nil (by decide)]
      simp [CleanFields]

-- the alias collides in an inline fragment beside the cut field, too,
example : ¬ ∀ a, CleanPair usersReviews 0 a a := by
  intro hall
  have hclean := hall ⟨"User", .inlineFragment [] "User"
    (.field { aliasName := some "g2__id", name := "name" } "String" .nil .nil)
    (.field { name := "reviews" } "Review" (.field { name := "body" } "String" .nil .nil) .nil)⟩
  have hsame := hclean.keys _ (List.mem_cons_of_mem _ List.mem_cons_self) _ List.mem_cons_self (.refl _ _)
    { aliasName := some "g2__id", name := "name" } (by decide) rfl "id" (by decide)
  exact absurd (hsame rfl).1 (by decide)

-- and in another selection of `user`
example : ¬ CleanPair usersReviews 0 ⟨"User", .field { aliasName := some "g2__id", name := "name" } "String" .nil .nil⟩
    ⟨"User", .field { name := "reviews" } "Review" (.field { name := "body" } "String" .nil .nil) .nil⟩ := by
  intro hclean
  have hsame := hclean.keys _ List.mem_cons_self _ List.mem_cons_self (.refl _ _)
    { aliasName := some "g2__id", name := "name" } (by decide) rfl "id" (by decide)
  exact absurd (hsame rfl).1 (by decide)

theorem subqueries_wellFormed_iff_user : ∃ plan, planRoot usersReviews.composed
    (userDocument none (by decide)).toValidDocument "Query" (userField none) = .ok plan ∧
      plan.WellFormed usersReviews "Query" :=
  ⟨_, rfl, (subqueries_wellFormed_iff usersReviews (userDocument none (by decide)) (userQuery none)
    (userField none) (userField_recorded none _)).2 (fun _ => userField_clean) _ rfl⟩

end G2way.GraphQl
