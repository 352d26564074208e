import G2way.GraphQl.Plans
import Mathlib.Data.List.Sort

/-!
# The order of subgraphs

`compose` of `g2-core/src/federation.rs` goes over the subgraphs in the order they
are configured, and what comes first is kept in several places: the kind of a type,
the signature of an entity's field, "non-federation type directives from the first
definition, the union of implemented interfaces, and each field from its first
resolving subgraph".

## The model

A definition is read by the name of its subgraph, not by its place
(`Definitions`). `Accepted` is what the checks of composition come to in these
terms, so it cannot depend on the order. The final validation of the composed text
is `apollo_compiler`'s; that it does not depend on the order in which types and
fields are printed is a hypothesis (`OrderFree`).

## What is proved

`Supergraph.accepted` and `checkSchemas_of_accepted`: composition makes exactly
those checks. What it composes is then compared type by type, owner by owner and
key by key (`SameComposition`). Which directives an entity has does depend on the
order, and whether the final validation lets them pass.
-/

namespace G2way.GraphQl

open Lib Lib.Result Lib.Assoc

/-! ### Definitions by the name of the subgraph -/

/-- Which subgraph defines a type, and how. -/
abbrev Definitions := Name → String → TypeDef → Prop

/-- The definitions of named schemas. -/
def definedBy (subs : List (String × ValidSubgraph)) : Definitions :=
  fun tname n ty => ∃ s, (n, s) ∈ subs ∧ s.types.lookup tname = some ty

/-- The schemas of the subgraphs whose SDL is one. -/
def parsed (c : Apollo) (subgraphs : List (String × String)) : List (String × ValidSubgraph) :=
  subgraphs.filterMap fun p => (c.parseSubgraphSchema p.2).toOption.map fun s => (p.1, s)

namespace Definitions

variable (D : Definitions)

/-- A subgraph adds the field to a root type. -/
def RootField (root : Name) (n : String) (f : FieldDef) : Prop := ∃ o, D root n (.object o) ∧ f ∈ rootFieldsOf o

/-- The type is composed by name. -/
def Grouped (tname : Name) : Prop := (∃ n ty, D tname n ty) ∧ tname ∉ reservedTypes ∧ tname ∉ rootTypeNames

/-- Some subgraph gives the type a key. -/
def Entity (tname : Name) : Prop := ∃ n o, D tname n (.object o) ∧ o.keys ≠ []

end Definitions

/-- What `parse_key_fields` accepts. -/
def KeyAccepted (o : ObjectDef) : Prop :=
  ∀ key, o.resolvableKey = some key → ∃ fields, key.fields = some fields ∧ keyTokens fields ≠ [] ∧
    ∀ token ∈ keyTokens fields, (∀ c ∈ token.toList, c ∉ "\x7b\x7d():.".toList) ∧ (o.field token).isSome

/-- What `compose_entity` accepts. -/
structure EntityAccepted (D : Definitions) (tname : Name) : Prop where
  keys : ∀ n o, D tname n (.object o) → KeyAccepted o
  directives : ∀ n o, D tname n (.object o) → ∀ f ∈ o.fields,
    f.federation.requires = false ∧ f.federation.override = false
  signatures : ∀ n o n' o', D tname n (.object o) → D tname n' (.object o') → ∀ fname f f',
    o.field fname = some f → o'.field fname = some f' → f.signature = f'.signature
  resolved : ∀ n o, D tname n (.object o) → ∀ f ∈ o.fields,
    ∃ n' o', D tname n' (.object o') ∧ (o'.resolves f.name).isSome
  available : ∀ p o s o', D tname p (.object o) → D tname s (.object o') → s ≠ p →
    (∃ fname, (o'.resolves fname).isSome) → ∃ key, o'.keyFields = some key ∧ ∀ k ∈ key, (o.field k).isSome

/-- What the checks of composition accept. -/
structure Accepted (D : Definitions) : Prop where
  roots : ∀ root ∈ rootTypeNames, ∀ n f n' f', D.RootField root n f → D.RootField root n' f' →
    f.name = f'.name → n = n'
  query : ∃ n f, D.RootField "Query" n f
  kinds : ∀ tname, D.Grouped tname → ∀ n ty n' ty', D tname n ty → D tname n' ty' → ty.kindName = ty'.kindName
  interfaces : ∀ tname, D.Grouped tname → ∀ n o, D tname n (.interface o) → o.keys = []
  entities : ∀ tname, D.Grouped tname → D.Entity tname → EntityAccepted D tname
  values : ∀ tname, D.Grouped tname → ¬ D.Entity tname →
    ∀ n ty n' ty', D tname n ty → D tname n' ty' → stripType ty = stripType ty'

/-! ### The checks -/

section Checks

variable {names : List String} {schemas : List ValidSubgraph} {tname : Name} {i : ℕ} {o : ObjectDef}

theorem checkKey_eq_ok : checkKey names tname i o = .ok () ↔ KeyAccepted o := by
  unfold checkKey KeyAccepted
  cases o.resolvableKey with
  | none => simp
  | some key =>
    simp only [bind_eq_ok, okOr_eq_ok, parseKeyFields, ensure_eq_ok, List.forM_eq_forM, forM_eq_ok, pure_eq_ok,
      Option.some.injEq, forall_eq', decide_eq_true_eq]
    constructor
    · rintro ⟨fields, hfields, tokens, ⟨_, hne, _, htokens, rfl⟩, -⟩
      refine ⟨fields, hfields, hne, fun token htoken => ?_⟩
      obtain ⟨_, hflat, hfield⟩ := htokens token htoken
      exact ⟨by simpa using hflat, hfield⟩
    · rintro ⟨fields, hfields, hne, htokens⟩
      refine ⟨fields, hfields, _, ⟨(), hne, (), fun token htoken => ?_, rfl⟩, trivial⟩
      obtain ⟨hflat, hfield⟩ := htokens token htoken
      exact ⟨(), by simpa using hflat, hfield⟩

/-- The subgraph of a definition, by name. -/
theorem definedBy_iff {n : String} {ty : TypeDef} :
    definedBy (names.zip schemas) tname n ty ↔ ∃ i : ℕ, names[i]? = some n ∧ (i, ty) ∈ definitions schemas tname := by
  have hzip (n : String) (s : ValidSubgraph) : (n, s) ∈ names.zip schemas ↔
      ∃ i : ℕ, names[i]? = some n ∧ schemas[i]? = some s := by
    simp only [List.mem_iff_getElem?, List.getElem?_zip_eq_some]
  simp only [definedBy, hzip, mem_definitions]
  constructor
  · rintro ⟨s, ⟨i, hn, hs⟩, hty⟩
    exact ⟨i, hn, s, hs, hty⟩
  · rintro ⟨i, hn, s, hs, hty⟩
    exact ⟨s, ⟨i, hn, hs⟩, hty⟩

theorem definedBy_of_mem (hlength : names.length = schemas.length) {ty : TypeDef}
    (h : (i, ty) ∈ definitions schemas tname) :
    ∃ n, names[i]? = some n ∧ definedBy (names.zip schemas) tname n ty := by
  obtain ⟨s, hs, -⟩ := mem_definitions.1 h
  obtain ⟨hlt, -⟩ := List.getElem?_eq_some_iff.1 hs
  have hn : names[i]? = some names[i] := List.getElem?_eq_getElem (hlength ▸ hlt)
  exact ⟨_, hn, definedBy_iff.2 ⟨i, hn, h⟩⟩

theorem mem_definitions_of_object : (i, o) ∈ objectDefinitions schemas tname ↔
    (i, TypeDef.object o) ∈ definitions schemas tname := by
  rw [mem_objectDefinitions, mem_definitions]

theorem isEntity_iff (hlength : names.length = schemas.length) :
    isEntity schemas tname = true ↔ (definedBy (names.zip schemas)).Entity tname := by
  simp only [isEntity, List.any_eq_true, Prod.exists, mem_definitions_of_object, Bool.not_eq_true',
    List.isEmpty_eq_false_iff]
  constructor
  · rintro ⟨i, o, ho, hkeys⟩
    obtain ⟨n, -, hn⟩ := definedBy_of_mem hlength ho
    exact ⟨n, o, hn, hkeys⟩
  · rintro ⟨n, o, hn, hkeys⟩
    obtain ⟨i, -, ho⟩ := definedBy_iff.1 hn
    exact ⟨i, o, ho, hkeys⟩

theorem mem_groupNames_iff (hlength : names.length = schemas.length) :
    tname ∈ groupNames schemas ↔ (definedBy (names.zip schemas)).Grouped tname := by
  rw [mem_groupNames, Definitions.Grouped]
  refine and_congr_left fun _ => ?_
  constructor
  · rintro ⟨s, hs, hkey⟩
    obtain ⟨ty, hty⟩ := exists_lookup_of_key_mem hkey
    obtain ⟨i, hi⟩ := List.mem_iff_getElem?.1 hs
    obtain ⟨n, -, hn⟩ := definedBy_of_mem hlength (mem_definitions.2 ⟨s, hi, hty⟩)
    exact ⟨n, ty, hn⟩
  · rintro ⟨n, ty, hn⟩
    obtain ⟨i, -, hdef⟩ := definedBy_iff.1 hn
    obtain ⟨s, hs, hty⟩ := mem_definitions.1 hdef
    exact ⟨s, List.mem_of_getElem? hs, key_mem_of_lookup hty⟩

theorem lookup_objectDefinitions (ho : (i, o) ∈ objectDefinitions schemas tname) :
    (objectDefinitions schemas tname).lookup i = some o := by
  rw [lookup_eq_some_iff_mem]
  · exact ho
  · rw [List.Nodup, List.pairwise_map]
    exact (pairwise_objectDefinitions schemas tname).imp fun hlt => hlt.ne

/-- The field of a name is the one of that name. -/
theorem field_eq_some_iff {o : ObjectDef} (hnodup : (o.fields.map FieldDef.name).Nodup) {fname : Name} {f : FieldDef} :
    o.field fname = some f ↔ f ∈ o.fields ∧ f.name = fname := by
  constructor
  · intro hf
    exact ⟨List.mem_of_find?_eq_some hf, field_name hf⟩
  · rintro ⟨hmem, rfl⟩
    obtain ⟨g, hg⟩ : ∃ g, o.field f.name = some g :=
      Option.isSome_iff_exists.1 (List.find?_isSome.2 ⟨f, hmem, by simp⟩)
    obtain rfl : g = f := List.inj_on_of_nodup_map hnodup (List.mem_of_find?_eq_some hg) hmem (field_name hg)
    exact hg

theorem field_of_mem (ho : (i, o) ∈ objectDefinitions schemas tname) {f : FieldDef} (hf : f ∈ o.fields) :
    o.field f.name = some f := by
  obtain ⟨s, -, hobject⟩ := mem_objectDefinitions.1 ho
  exact (field_eq_some_iff (s.fieldNames _ (mem_of_lookup hobject))).2 ⟨hf, rfl⟩

/-! #### What is accepted passes the checks -/

section Accept

variable (hlength : names.length = schemas.length) (hnodup : names.Nodup)
  (h : Accepted (definedBy (names.zip schemas)))

include hnodup in
theorem index_eq {n : String} {j : ℕ} (hi : names[i]? = some n) (hj : names[j]? = some n) : i = j := by
  obtain ⟨hlt, hget⟩ := List.getElem?_eq_some_iff.1 hi
  obtain ⟨hlt', hget'⟩ := List.getElem?_eq_some_iff.1 hj
  exact (List.Nodup.getElem_inj_iff hnodup).1 (hget.trans hget'.symm)

include hlength hnodup h in
theorem checkRootField_of_accepted {root : Name} (hroot : root ∈ rootTypeNames)
    (ho : (i, o) ∈ objectDefinitions schemas root) {f : FieldDef} (hf : f ∈ rootFieldsOf o) :
    checkRootField names schemas root i f = .ok () := by
  unfold checkRootField
  cases hfind : (rootFields schemas root).find? fun p => p.2.name = f.name with
  | none => rfl
  | some p =>
    obtain ⟨j, g⟩ := p
    have hname : g.name = f.name := by simpa using List.find?_some hfind
    have hmem := List.mem_of_find?_eq_some hfind
    simp only [rootFields, List.mem_flatMap, List.mem_map, Prod.mk.injEq, Prod.exists] at hmem
    obtain ⟨_, o', ho', g, hg, rfl, rfl⟩ := hmem
    obtain ⟨n, hi, hn⟩ := definedBy_of_mem hlength (mem_definitions_of_object.1 ho)
    obtain ⟨n', hj, hn'⟩ := definedBy_of_mem hlength (mem_definitions_of_object.1 ho')
    obtain rfl := h.roots root hroot n f n' g ⟨o, hn, hf⟩ ⟨o', hn', hg⟩ hname.symm
    simp [ensure_eq_ok, index_eq hnodup hj hi]

theorem checkEntity_of_accepted {tname : Name} (hlength : names.length = schemas.length) (hnodup : names.Nodup)
    (h : EntityAccepted (definedBy (names.zip schemas)) tname) :
    checkEntity names tname (objectDefinitions schemas tname) = .ok () := by
  have hdef {i : ℕ} {o : ObjectDef} (ho : (i, o) ∈ objectDefinitions schemas tname) :=
    definedBy_of_mem hlength (mem_definitions_of_object.1 ho)
  simp only [checkEntity, bind_eq_ok, List.forM_eq_forM, forM_eq_ok]
  refine ⟨(), fun p hp => ⟨(), ?_, fun f hf => ?_⟩, (), fun fname hfname => ?_, fun p hp s hs => ?_⟩
  · obtain ⟨n, -, hn⟩ := hdef hp
    exact checkKey_eq_ok.2 (h.keys n p.2 hn)
  · obtain ⟨n, -, hn⟩ := hdef hp
    obtain ⟨hrequires, hoverride⟩ := h.directives n p.2 hn f hf
    simp only [checkField, bind_eq_ok, ensure_eq_ok, hrequires, hoverride]
    refine ⟨(), rfl, (), rfl, ?_⟩
    cases hfirst : firstDeclaration (objectDefinitions schemas tname) f.name with
    | none => rfl
    | some q =>
      obtain ⟨⟨j, o'⟩, ho', hdecl⟩ := List.exists_of_findSome?_eq_some hfirst
      obtain ⟨g, hg, rfl⟩ := Option.map_eq_some_iff.1 hdecl
      obtain ⟨n', -, hn'⟩ := hdef ho'
      simpa [ensure_eq_ok] using h.signatures n' o' n p.2 hn' hn f.name g f hg (field_of_mem hp hf)
  · rw [entityFieldNames, List.mem_eraseDups, List.mem_flatMap] at hfname
    obtain ⟨p, hp, hfname⟩ := hfname
    obtain ⟨f, hf, rfl⟩ := List.mem_map.1 hfname
    obtain ⟨n, -, hn⟩ := hdef hp
    obtain ⟨n', o', hn', hres⟩ := h.resolved n p.2 hn f hf
    obtain ⟨j, -, ho'⟩ := definedBy_iff.1 hn'
    rw [ensure_eq_ok, resolvedField, Option.isSome_map, List.findSome?_isSome_iff]
    exact ⟨_, mem_definitions_of_object.2 ho', hres⟩
  · obtain ⟨-, hany⟩ := List.mem_filter.1 hs
    obtain ⟨fname, -, howner⟩ := List.any_eq_true.1 hany
    obtain ⟨o', ho', f, hres⟩ := mem_ownersOf.1 (of_decide_eq_true howner)
    unfold checkKeyAvailable
    split_ifs with hsame
    · rfl
    · obtain ⟨n, hi, hn⟩ := hdef hp
      obtain ⟨n', hj, hn'⟩ := hdef ho'
      have hne : n' ≠ n := by
        rintro rfl
        exact hsame (index_eq hnodup hj hi)
      obtain ⟨key, hkey, hdeclared⟩ := h.available n p.2 n' o' hn hn' hne ⟨fname, by simp [hres]⟩
      have hfind : (key.find? fun f => (p.2.field f).isNone) = none := by
        refine List.find?_eq_none.2 fun k hk => ?_
        simpa [Option.isSome_iff_ne_none] using hdeclared k hk
      simp [lookup_objectDefinitions ho', hkey, hfind]

include hlength hnodup h in
theorem checkType_of_accepted {tname : Name} (hgroup : tname ∈ groupNames schemas) :
    checkType names schemas tname = .ok () := by
  have hgrouped := (mem_groupNames_iff hlength).1 hgroup
  unfold checkType
  cases hdefs : definitions schemas tname with
  | nil => rfl
  | cons first rest =>
    have hdef {p : ℕ × TypeDef} (hp : p ∈ first :: rest) := definedBy_of_mem hlength (hdefs ▸ hp)
    obtain ⟨n₀, -, hfirst⟩ := hdef List.mem_cons_self
    simp only [bind_eq_ok, List.forM_eq_forM, forM_eq_ok]
    refine ⟨(), fun p hp => ?_, ?_⟩
    · obtain ⟨n, -, hn⟩ := hdef hp
      obtain ⟨i, ty⟩ := p
      simp only [checkKind, bind_eq_ok, ensure_eq_ok, decide_eq_true_eq]
      refine ⟨(), h.kinds tname hgrouped n ty n₀ first.2 hn hfirst, ?_⟩
      cases ty with
      | interface o => simpa [ensure_eq_ok] using h.interfaces tname hgrouped n o hn
      | _ => rfl
    · split_ifs with hentity
      · exact checkEntity_of_accepted hlength hnodup (h.entities tname hgrouped ((isEntity_iff hlength).1 hentity))
      · refine forM_eq_ok.2 fun p hp => ?_
        obtain ⟨n, -, hn⟩ := hdef (List.mem_cons_of_mem _ hp)
        simpa [checkIdentical, ensure_eq_ok] using
          h.values tname hgrouped (mt (isEntity_iff hlength).2 hentity) n p.2 n₀ first.2 hn hfirst

include hlength hnodup h in
theorem checkSchemas_of_accepted {c : Apollo} (hvalid : c.validate (composed names schemas).types = .ok ()) :
    checkSchemas names schemas c = .ok () := by
  simp only [checkSchemas, bind_eq_ok, List.forM_eq_forM, forM_eq_ok, mapError_eq_ok]
  refine ⟨(), ?_, (), ?_, (), fun tname htname => checkType_of_accepted hlength hnodup h htname, hvalid⟩
  · rintro ⟨s, i⟩ hs root hroot
    rw [List.mk_mem_zipIdx_iff_getElem?] at hs
    cases hty : s.types.lookup root with
    | none => rfl
    | some ty =>
      cases ty with
      | object o =>
        exact forM_eq_ok.2 fun f hf => checkRootField_of_accepted hlength hnodup h hroot
          (mem_objectDefinitions.2 ⟨s, hs, hty⟩) hf
      | _ => rfl
  · obtain ⟨n, f, o, hn, hf⟩ := h.query
    obtain ⟨i, -, ho⟩ := definedBy_iff.1 hn
    have hmem : (i, stripField f) ∈ rootFields schemas "Query" :=
      List.mem_flatMap.2 ⟨_, mem_definitions_of_object.2 ho, List.mem_map.2 ⟨f, hf, rfl⟩⟩
    simpa [ensure_eq_ok, List.isEmpty_eq_false_iff] using List.ne_nil_of_mem hmem

end Accept

end Checks

namespace Supergraph

variable {S : Supergraph}

/-- The definitions of the subgraphs, by name. -/
def defines (S : Supergraph) : Definitions := definedBy (S.names.zip S.schemas)

theorem defines_iff {tname : Name} {n : String} {ty : TypeDef} : S.defines tname n ty ↔
    ∃ i : ℕ, S.names[i]? = some n ∧ (i, ty) ∈ definitions S.schemas tname := definedBy_iff

theorem checkEntity_accepted {tname : Name} (hgroup : tname ∈ groupNames S.schemas)
    (hentity : isEntity S.schemas tname = true) : EntityAccepted S.defines tname := by
  have hchecks := checkEntity_ok hgroup hentity
  simp only [checkEntity, bind_eq_ok, List.forM_eq_forM, forM_eq_ok] at hchecks
  obtain ⟨_, hobjects, _, hresolved, -⟩ := hchecks
  have hobject {n : String} {o : ObjectDef} (hn : S.defines tname n (.object o)) :
      ∃ i : ℕ, S.names[i]? = some n ∧ (i, o) ∈ objectDefinitions S.schemas tname := by
    obtain ⟨i, hi, ho⟩ := defines_iff.1 hn
    exact ⟨i, hi, mem_definitions_of_object.2 ho⟩
  refine ⟨fun n o hn => ?_, fun n o hn f hf => ?_, fun n o n' o' hn hn' fname f f' hf hf' => ?_,
    fun n o hn f hf => ?_, fun p o s o' hp hs hne hres => ?_⟩
  · obtain ⟨i, -, ho⟩ := hobject hn
    obtain ⟨_, hkey, -⟩ := hobjects _ ho
    exact checkKey_eq_ok.1 hkey
  · obtain ⟨i, -, ho⟩ := hobject hn
    obtain ⟨-, -, hfields⟩ := hobjects _ ho
    have hfield := hfields f hf
    simp only [checkField, bind_eq_ok, ensure_eq_ok] at hfield
    obtain ⟨-, hrequires, -, hoverride, -⟩ := hfield
    exact ⟨by simpa using hrequires, by simpa using hoverride⟩
  · obtain ⟨i, -, ho⟩ := hobject hn
    obtain ⟨j, -, ho'⟩ := hobject hn'
    exact signature_eq hgroup hentity ho hf ho' hf'
  · obtain ⟨i, -, ho⟩ := hobject hn
    have hfield := hresolved f.name (mem_entityFieldNames ho (field_of_mem ho hf))
    rw [ensure_eq_ok, resolvedField, Option.isSome_map, List.findSome?_isSome_iff] at hfield
    obtain ⟨⟨j, o'⟩, ho', hres⟩ := hfield
    obtain ⟨n', -, hn'⟩ := definedBy_of_mem length_names (mem_definitions_of_object.1 ho')
    exact ⟨n', o', hn', hres⟩
  · obtain ⟨i, hi, ho⟩ := hobject hp
    obtain ⟨j, hj, ho'⟩ := hobject hs
    obtain ⟨fname, hres⟩ := hres
    obtain ⟨f, hf⟩ := Option.isSome_iff_exists.1 hres
    have hij : j ≠ i := by
      rintro rfl
      exact hne (Option.some.inj (hj.symm.trans hi))
    obtain ⟨key, hkey, hdeclared⟩ := key_available hgroup hentity ho (mem_ownersOf.2 ⟨o', ho', f, hf⟩) hij
    rw [lookup_objectDefinitions ho', Option.bind_some] at hkey
    exact ⟨key, hkey, fun k hk => Option.isSome_iff_exists.2 (hdeclared k hk)⟩

/-- **Composition accepts nothing but what is accepted.** -/
theorem accepted (S : Supergraph) : Accepted S.defines where
  roots := by
    rintro root hroot n f n' f' ⟨o, hn, hf⟩ ⟨o', hn', hf'⟩ hname
    obtain ⟨i, hi, ho⟩ := defines_iff.1 hn
    obtain ⟨j, hj, ho'⟩ := defines_iff.1 hn'
    have hmem {k : ℕ} {o : ObjectDef} {f : FieldDef} (ho : (k, TypeDef.object o) ∈ definitions S.schemas root)
        (hf : f ∈ rootFieldsOf o) : (k, stripField f) ∈ rootFields S.schemas root :=
      List.mem_flatMap.2 ⟨_, mem_definitions_of_object.2 ho, List.mem_map.2 ⟨f, hf, rfl⟩⟩
    obtain ⟨rfl, -⟩ := rootFields_unique hroot (hmem ho hf) (hmem ho' hf') hname
    exact Option.some.inj (hi.symm.trans hj)
  query := by
    have hchecked := S.checked
    simp only [checkSchemas, bind_eq_ok, ensure_eq_ok] at hchecked
    obtain ⟨-, -, -, hquery, -⟩ := hchecked
    obtain ⟨⟨i, f⟩, hf⟩ := List.exists_mem_of_ne_nil _ (show rootFields S.schemas "Query" ≠ [] by simpa using hquery)
    obtain ⟨s, o, g, hs, ho, hg, -⟩ := mem_rootFields.1 hf
    obtain ⟨n, -, hn⟩ := definedBy_of_mem length_names (mem_definitions.2 ⟨s, hs, ho⟩)
    exact ⟨n, g, o, hn, hg⟩
  kinds := by
    intro tname hgrouped n ty n' ty' hn hn'
    obtain ⟨first, rest, hdefs, hkinds, -⟩ := checkKind_ok ((mem_groupNames_iff length_names).2 hgrouped)
    obtain ⟨i, -, hty⟩ := defines_iff.1 hn
    obtain ⟨j, -, hty'⟩ := defines_iff.1 hn'
    rw [hdefs] at hty hty'
    exact (hkinds _ hty).trans (hkinds _ hty').symm
  interfaces := by
    intro tname hgrouped n o hn
    have hok := checkType_ok ((mem_groupNames_iff length_names).2 hgrouped)
    obtain ⟨i, -, ho⟩ := defines_iff.1 hn
    unfold checkType at hok
    cases hdefs : definitions S.schemas tname with
    | nil => rw [hdefs] at ho; cases ho
    | cons first rest =>
      rw [hdefs] at hok ho
      simp only [bind_eq_ok, List.forM_eq_forM, forM_eq_ok] at hok
      obtain ⟨_, hkinds, -⟩ := hok
      have hkind := hkinds _ ho
      simp only [checkKind, bind_eq_ok, ensure_eq_ok] at hkind
      obtain ⟨-, -, hkeys⟩ := hkind
      simpa using hkeys
  entities := fun tname hgrouped hentity =>
    checkEntity_accepted ((mem_groupNames_iff length_names).2 hgrouped) ((isEntity_iff length_names).2 hentity)
  values := by
    intro tname hgrouped hvalue n ty n' ty' hn hn'
    have hgroup := (mem_groupNames_iff length_names).2 hgrouped
    have hvalue : isEntity S.schemas tname = false := by
      simpa using mt (isEntity_iff length_names).1 hvalue
    obtain ⟨i, -, hty⟩ := defines_iff.1 hn
    obtain ⟨j, -, hty'⟩ := defines_iff.1 hn'
    exact Option.some.inj
      ((composedType_of_value hgroup hvalue hty).symm.trans (composedType_of_value hgroup hvalue hty'))

end Supergraph

/-! ### Reading the subgraphs in another order -/

theorem firstDuplicate_eq_none {seen names : List String} :
    firstDuplicate seen names = none ↔ names.Nodup ∧ ∀ n ∈ names, n ∉ seen := by
  induction names generalizing seen with
  | nil => simp [firstDuplicate]
  | cons n names ih =>
    unfold firstDuplicate
    split_ifs with hseen
    · simp [hseen]
    · rw [ih, List.nodup_cons, List.forall_mem_cons]
      simp only [List.mem_cons, not_or]
      constructor
      · rintro ⟨hnodup, hnot⟩
        exact ⟨⟨fun hmem => (hnot n hmem).1 rfl, hnodup⟩, hseen, fun m hm => (hnot m hm).2⟩
      · rintro ⟨⟨hnot, hnodup⟩, -, hnames⟩
        exact ⟨hnodup, fun m hm => ⟨fun heq => hnot (heq ▸ hm), hnames m hm⟩⟩

theorem readSubgraphs_eq_ok {c : Apollo} {subgraphs : List (String × String)} {schemas : List ValidSubgraph} :
    readSubgraphs c subgraphs = .ok schemas ↔ subgraphs ≠ [] ∧ (subgraphs.map Prod.fst).Nodup ∧
      List.Forall₂ (fun p s => c.parseSubgraphSchema p.2 = .ok s ∧ checkRoots p.1 s.toSubgraphSchema = .ok ())
        subgraphs schemas := by
  have hnames : checkNames (subgraphs.map Prod.fst) = .ok () ↔ (subgraphs.map Prod.fst).Nodup := by
    unfold checkNames
    cases hdup : firstDuplicate [] (subgraphs.map Prod.fst) with
    | none => simpa using (firstDuplicate_eq_none.1 hdup).1
    | some n =>
      simp only [reduceCtorEq, false_iff]
      intro hnodup
      rw [firstDuplicate_eq_none.2 ⟨hnodup, by simp⟩] at hdup
      cases hdup
  have hread (p : String × String) (s : ValidSubgraph) : (do
      let schema ← (c.parseSubgraphSchema p.2).mapError fun e => "subgraph `" ++ p.1 ++ "`: " ++ e
      checkRoots p.1 schema.toSubgraphSchema
      return schema) = Except.ok s ↔ c.parseSubgraphSchema p.2 = .ok s ∧ checkRoots p.1 s.toSubgraphSchema = .ok () := by
    simp only [bind_eq_ok, mapError_eq_ok, pure_eq_ok]
    constructor
    · rintro ⟨s, hparse, _, hroots, rfl⟩
      exact ⟨hparse, hroots⟩
    · rintro ⟨hparse, hroots⟩
      exact ⟨s, hparse, (), hroots, rfl⟩
  simp only [readSubgraphs, bind_eq_ok, ensure_eq_ok, mapM_eq_ok, hread, Bool.not_eq_true', List.isEmpty_eq_false_iff]
  constructor
  · rintro ⟨_, hne, _, hok, hall⟩
    exact ⟨hne, hnames.1 hok, hall⟩
  · rintro ⟨hne, hnodup, hall⟩
    exact ⟨(), hne, (), hnames.2 hnodup, hall⟩

theorem zip_eq_parsed {c : Apollo} {subgraphs : List (String × String)} {schemas : List ValidSubgraph}
    (h : readSubgraphs c subgraphs = .ok schemas) : (subgraphs.map Prod.fst).zip schemas = parsed c subgraphs := by
  obtain ⟨-, -, hall⟩ := readSubgraphs_eq_ok.1 h
  clear h
  induction hall with
  | nil => rfl
  | cons hp _ ih => simpa [parsed, hp.1, Except.toOption] using ih

/-- The definitions do not depend on the order. -/
theorem definedBy_perm {subs subs' : List (String × ValidSubgraph)} (h : subs.Perm subs') :
    definedBy subs = definedBy subs' := by
  funext tname n ty
  simp only [definedBy, h.mem_iff]

/-- `compose` without the final validation. -/
def unvalidated (c : Apollo) : Apollo := { c with validate := fun _ => .ok () }

theorem compose_eq_ok {c : Apollo} {subgraphs : List (String × String)} {r : ComposedSupergraph} :
    compose c subgraphs = .ok r ↔ compose (unvalidated c) subgraphs = .ok r ∧ c.validate r.types = .ok () := by
  simp only [compose, bind_eq_ok, pure_eq_ok, checkSchemas, mapError_eq_ok]
  constructor
  · rintro ⟨schemas, hread, _, ⟨_, hroots, _, hquery, _, htypes, hvalid⟩, rfl⟩
    exact ⟨⟨schemas, hread, (), ⟨(), hroots, (), hquery, (), htypes, rfl⟩, rfl⟩, hvalid⟩
  · rintro ⟨⟨schemas, hread, _, ⟨_, hroots, _, hquery, _, htypes, -⟩, rfl⟩, hvalid⟩
    exact ⟨schemas, hread, (), ⟨(), hroots, (), hquery, (), htypes, hvalid⟩, rfl⟩

/-! ### What is composed -/

/-- The same definition, its fields perhaps in another order. -/
def Reordered : TypeDef → TypeDef → Prop
  | .object o, .object o' => o.fields.Perm o'.fields ∧ o' = { o with fields := o'.fields }
  | d, d' => d = d'

/-- The same kind of type, with the same fields, signatures and implemented interfaces. -/
def SameShape : TypeDef → TypeDef → Prop
  | .object o, .object o' =>
    (∀ fname, (o.field fname).map FieldDef.signature = (o'.field fname).map FieldDef.signature) ∧
      o.implementing = o'.implementing
  | d, d' => d = d'

/-- The same composition, subgraphs read by their names. -/
structure SameComposition (names names' : List String) (r r' : ComposedSupergraph) : Prop where
  types : ∀ tname, Option.Rel SameShape (r.types.lookup tname) (r'.types.lookup tname)
  owners : ∀ field, Option.Rel (fun l l' => (l.map (subgraphName names)).Perm (l'.map (subgraphName names')))
    (r.fieldOwners.lookup field) (r'.fieldOwners.lookup field)
  keys : ∀ tname, Option.Rel (fun l l' => ∀ (i j : ℕ) n, names[i]? = some n → names'[j]? = some n → l[i]? = l'[j]?)
    (r.entityKeys.lookup tname) (r'.entityKeys.lookup tname)

/-- Whether a schema is valid does not depend on the order of its types and of their fields. -/
def OrderFree (validate : List (Name × TypeDef) → Except String Unit) : Prop :=
  ∀ types types', (types.map Prod.fst).Nodup → (types'.map Prod.fst).Nodup →
    (∀ tname, Option.Rel Reordered (types.lookup tname) (types'.lookup tname)) →
    (validate types = .ok () ↔ validate types' = .ok ())

/-- The definitions of an entity have the same directives of their own, and so do those of each of its
fields that is resolved. -/
def DirectivesAgree (D : Definitions) : Prop :=
  ∀ tname, D.Entity tname → ∀ n o n' o', D tname n (.object o) → D tname n' (.object o') →
    o.directives = o'.directives ∧ ∀ fname f f', o.resolves fname = some f → o'.resolves fname = some f' →
      stripField f = stripField f'

theorem Reordered.refl (d : TypeDef) : Reordered d d := by
  cases d with
  | object o => exact ⟨.refl _, rfl⟩
  | _ => rfl

theorem SameShape.refl (d : TypeDef) : SameShape d d := by
  cases d with
  | object o => exact ⟨fun _ => rfl, rfl⟩
  | _ => rfl

theorem Reordered.sameShape {o o' : ObjectDef} (h : Reordered (.object o) (.object o'))
    (hnodup : (o.fields.map FieldDef.name).Nodup) : SameShape (.object o) (.object o') := by
  obtain ⟨hperm, heq⟩ := h
  refine ⟨fun fname => ?_, by rw [heq]⟩
  refine congrArg _ (Option.ext fun f => ?_)
  rw [field_eq_some_iff hnodup, field_eq_some_iff ((hperm.map _).nodup_iff.1 hnodup), hperm.mem_iff]

namespace Supergraph

theorem nodup_names (S : Supergraph) : S.names.Nodup := (readSubgraphs_eq_ok.1 S.read).2.1

theorem defines_eq (S : Supergraph) : S.defines = definedBy (parsed S.apollo S.subgraphs) := by
  rw [defines, names, zip_eq_parsed S.read]

/-- The checks do not depend on the order. -/
theorem exists_perm {c : Apollo} (S : Supergraph) (hc : S.apollo = unvalidated c) {subgraphs : List (String × String)}
    (h : S.subgraphs.Perm subgraphs) : ∃ S' : Supergraph, S'.apollo = unvalidated c ∧ S'.subgraphs = subgraphs ∧
      S'.defines = S.defines := by
  obtain ⟨hne, hnodup, hall⟩ := readSubgraphs_eq_ok.1 S.read
  obtain ⟨schemas, hall', -⟩ : Relation.Comp (List.Forall₂ _) List.Perm subgraphs S.schemas :=
    List.perm_comp_forall₂ h.symm hall
  have hread : readSubgraphs S.apollo subgraphs = .ok schemas :=
    readSubgraphs_eq_ok.2 ⟨fun hnil => hne (by simpa [hnil] using h), (h.map _).nodup_iff.1 hnodup, hall'⟩
  have hdefines : definedBy ((subgraphs.map Prod.fst).zip schemas) = S.defines := by
    rw [zip_eq_parsed hread, S.defines_eq]
    exact definedBy_perm (h.symm.filterMap _)
  have hlength : (subgraphs.map Prod.fst).length = schemas.length := by simpa using hall'.length_eq
  have hchecked : checkSchemas (subgraphs.map Prod.fst) schemas S.apollo = .ok () := by
    refine checkSchemas_of_accepted hlength ((h.map _).nodup_iff.1 hnodup) (hdefines ▸ S.accepted) ?_
    rw [hc]
    rfl
  exact ⟨⟨S.apollo, subgraphs, schemas, hread, hchecked⟩, hc, rfl, hdefines⟩

/-! #### The types -/

section Compare

variable {S S' : Supergraph} (hD : S.defines = S'.defines) {tname fname root : Name}

theorem mem_groups : tname ∈ groupNames S.schemas ↔ S.defines.Grouped tname := mem_groupNames_iff length_names

theorem entity_iff : isEntity S.schemas tname = true ↔ S.defines.Entity tname := isEntity_iff length_names

/-- The object types of a name, by the name of the subgraph. -/
theorem exists_objectDefinition {n : String} {o : ObjectDef} : S.defines tname n (.object o) ↔
    ∃ i : ℕ, S.names[i]? = some n ∧ (i, o) ∈ objectDefinitions S.schemas tname := by
  simp only [defines_iff, mem_definitions_of_object]

theorem defines_of_object {i : ℕ} {o : ObjectDef} (ho : (i, o) ∈ objectDefinitions S.schemas tname) :
    ∃ n, S.names[i]? = some n ∧ S.defines tname n (.object o) :=
  definedBy_of_mem length_names (mem_definitions_of_object.1 ho)

theorem mem_rootFields_iff {f : FieldDef} : f ∈ (rootFields S.schemas root).map Prod.snd ↔
    ∃ n g, S.defines.RootField root n g ∧ f = stripField g := by
  simp only [rootFields, List.map_flatMap, List.map_map, List.mem_flatMap, List.mem_map, Prod.exists,
    Function.comp_def]
  constructor
  · rintro ⟨i, o, ho, g, hg, rfl⟩
    obtain ⟨n, -, hn⟩ := defines_of_object ho
    exact ⟨n, g, ⟨o, hn, hg⟩, rfl⟩
  · rintro ⟨n, g, ⟨o, hn, hg⟩, rfl⟩
    obtain ⟨i, -, ho⟩ := exists_objectDefinition.1 hn
    exact ⟨i, o, ho, g, hg, rfl⟩

theorem nodup_rootFields (hroot : root ∈ rootTypeNames) :
    (((rootFields S.schemas root).map Prod.snd).map FieldDef.name).Nodup := by
  rw [List.map_map, List.Nodup, List.pairwise_map]
  refine List.pairwise_flatMap.2 ⟨fun p hp => List.pairwise_map.2 ?_, ?_⟩
  · obtain ⟨s, -, ho⟩ := mem_objectDefinitions.1 hp
    exact (List.pairwise_map.1 (s.fieldNames _ (mem_of_lookup ho))).filter _
  · refine (List.Pairwise.and_mem.1 (pairwise_objectDefinitions S.schemas root)).imp ?_
    rintro p q ⟨hp, hq, hlt⟩ x hx y hy hname
    obtain ⟨hindex, -⟩ := rootFields_unique hroot (List.mem_flatMap.2 ⟨p, hp, hx⟩) (List.mem_flatMap.2 ⟨q, hq, hy⟩) hname
    obtain ⟨f, -, rfl⟩ := List.mem_map.1 hx
    obtain ⟨g, -, rfl⟩ := List.mem_map.1 hy
    exact hlt.ne hindex

include hD in
theorem rootFields_perm (hroot : root ∈ rootTypeNames) :
    ((rootFields S.schemas root).map Prod.snd).Perm ((rootFields S'.schemas root).map Prod.snd) := by
  refine (List.perm_ext_iff_of_nodup (nodup_rootFields hroot).of_map (nodup_rootFields hroot).of_map).2 fun f => ?_
  rw [mem_rootFields_iff, mem_rootFields_iff, hD]

/-- The composed definition of an entity has the field of the first subgraph to resolve it. -/
theorem field_composedEntity (objects : List (ℕ × ObjectDef)) (fname : Name) :
    (composedEntity objects).field fname = resolvedField objects fname := by
  have hmem {f : FieldDef} : f ∈ (composedEntity objects).fields ↔ resolvedField objects f.name = some f := by
    refine List.mem_filterMap.trans ⟨?_, fun hres => ?_⟩
    · rintro ⟨n, -, hn⟩
      obtain ⟨g, hg, rfl⟩ := Option.map_eq_some_iff.1 hn
      obtain ⟨p, -, hres⟩ := List.exists_of_findSome?_eq_some hg
      obtain rfl : g.name = n := field_name (resolves_eq_some hres)
      exact hn
    · obtain ⟨g, hg, -⟩ := Option.map_eq_some_iff.1 hres
      obtain ⟨⟨i, o⟩, ho, hg⟩ := List.exists_of_findSome?_eq_some hg
      exact ⟨f.name, mem_entityFieldNames ho (resolves_eq_some hg), hres⟩
  cases hfield : (composedEntity objects).field fname with
  | some f =>
    obtain rfl := field_name hfield
    exact (hmem.1 (List.mem_of_find?_eq_some hfield)).symm
  | none =>
    cases hres : resolvedField objects fname with
    | none => rfl
    | some f =>
      have hname : f.name = fname := by
        obtain ⟨g, hg, rfl⟩ := Option.map_eq_some_iff.1 hres
        obtain ⟨p, -, hres⟩ := List.exists_of_findSome?_eq_some hg
        exact (field_name (resolves_eq_some hres) : g.name = fname)
      have hnone := List.find?_eq_none.1 hfield f (hmem.2 (hname ▸ hres))
      simp [hname] at hnone

/-- A field is resolved where some subgraph resolves it. -/
theorem resolvedField_eq_some {f : FieldDef}
    (h : resolvedField (objectDefinitions S.schemas tname) fname = some f) :
    ∃ n o g, S.defines tname n (.object o) ∧ o.resolves fname = some g ∧ f = stripField g := by
  obtain ⟨g, hg, rfl⟩ := Option.map_eq_some_iff.1 h
  obtain ⟨⟨i, o⟩, ho, hres⟩ := List.exists_of_findSome?_eq_some hg
  obtain ⟨n, -, hn⟩ := defines_of_object ho
  exact ⟨n, o, g, hn, hres, rfl⟩

theorem exists_resolvedField {n : String} {o : ObjectDef} {g : FieldDef} (hn : S.defines tname n (.object o))
    (hg : o.resolves fname = some g) : ∃ f, resolvedField (objectDefinitions S.schemas tname) fname = some f := by
  obtain ⟨i, -, ho⟩ := exists_objectDefinition.1 hn
  rw [← Option.isSome_iff_exists, resolvedField, Option.isSome_map, List.findSome?_isSome_iff]
  exact ⟨_, ho, by simp [hg]⟩

include hD in
/-- The fields that are resolved are the same, and what else they have in common comes from their subgraphs. -/
theorem resolvedField_rel {β : Type} {m : FieldDef → β}
    (hm : ∀ n o n' o' f f', S.defines tname n (.object o) → S.defines tname n' (.object o') →
      o.resolves fname = some f → o'.resolves fname = some f' → m (stripField f) = m (stripField f')) :
    (resolvedField (objectDefinitions S.schemas tname) fname).map m =
      (resolvedField (objectDefinitions S'.schemas tname) fname).map m := by
  cases hf : resolvedField (objectDefinitions S.schemas tname) fname with
  | some f =>
    obtain ⟨n, o, g, hn, hg, rfl⟩ := resolvedField_eq_some hf
    obtain ⟨f', hf'⟩ := exists_resolvedField (hD ▸ hn) hg
    obtain ⟨n', o', g', hn', hg', rfl⟩ := resolvedField_eq_some hf'
    rw [hf']
    exact congrArg some (hm n o n' o' g g' hn (hD ▸ hn') hg hg')
  | none =>
    cases hf' : resolvedField (objectDefinitions S'.schemas tname) fname with
    | none => rfl
    | some f' =>
      obtain ⟨n', o', g', hn', hg', -⟩ := resolvedField_eq_some hf'
      obtain ⟨f, hf₁⟩ := exists_resolvedField (hD ▸ hn') hg'
      rw [hf] at hf₁
      cases hf₁

include hD in
theorem implementing_eq : (composedEntity (objectDefinitions S.schemas tname)).implementing =
    (composedEntity (objectDefinitions S'.schemas tname)).implementing := by
  have hmem (S : Supergraph) (n : Name) : n ∈ ((objectDefinitions S.schemas tname).flatMap fun p =>
      p.2.implementing).eraseDups ↔ ∃ sub o, S.defines tname sub (.object o) ∧ n ∈ o.implementing := by
    simp only [List.mem_eraseDups, List.mem_flatMap, Prod.exists]
    constructor
    · rintro ⟨i, o, ho, hn⟩
      obtain ⟨sub, -, hsub⟩ := defines_of_object ho
      exact ⟨sub, o, hsub, hn⟩
    · rintro ⟨sub, o, hsub, hn⟩
      obtain ⟨i, -, ho⟩ := exists_objectDefinition.1 hsub
      exact ⟨i, o, ho, hn⟩
  have hperm : (((objectDefinitions S.schemas tname).flatMap fun p => p.2.implementing).eraseDups).Perm
      ((objectDefinitions S'.schemas tname).flatMap fun p => p.2.implementing).eraseDups :=
    (List.perm_ext_iff_of_nodup (nodup_eraseDups _) (nodup_eraseDups _)).2 fun n => by rw [hmem, hmem, hD]
  have hsorted (l : List Name) : l.mergeSort.Pairwise (· ≤ ·) := by
    have hsort := @List.pairwise_mergeSort Name (fun a b => decide (a ≤ b))
      (fun a b c hab hbc => by simpa using String.le_trans (of_decide_eq_true hab) (of_decide_eq_true hbc))
      (fun a b => by simpa using String.le_total a b) l
    simpa using hsort
  refine List.Perm.eq_of_pairwise (fun a b _ _ => String.le_antisymm) (hsorted _) (hsorted _) ?_
  exact (List.mergeSort_perm _ _).trans (hperm.trans (List.mergeSort_perm _ _).symm)

theorem lookup_types_of_entity (hgroup : tname ∈ groupNames S.schemas) (hentity : isEntity S.schemas tname = true) :
    S.composed.types.lookup tname = some (.object (composedEntity (objectDefinitions S.schemas tname))) := by
  rw [lookup_types_group hgroup, composedType, if_pos hentity]

include hD in
/-- Types that are neither root types nor entities are the same. -/
theorem lookup_types_of_value (hroot : tname ∉ rootTypeNames)
    (hvalue : ¬ (S.defines.Grouped tname ∧ S.defines.Entity tname)) :
    S.composed.types.lookup tname = S'.composed.types.lookup tname := by
  by_cases hgrouped : S.defines.Grouped tname
  · have hvalue : ¬ S.defines.Entity tname := fun hentity => hvalue ⟨hgrouped, hentity⟩
    have hgroup := mem_groups.2 hgrouped
    have hgroup' : tname ∈ groupNames S'.schemas := mem_groups.2 (hD ▸ hgrouped)
    obtain ⟨⟨n, ty, hn⟩, -⟩ := hgrouped
    obtain ⟨i, -, hty⟩ := defines_iff.1 hn
    obtain ⟨j, -, hty'⟩ := defines_iff.1 (hD ▸ hn)
    rw [lookup_types_group hgroup, lookup_types_group hgroup',
      composedType_of_value hgroup (by simpa using mt entity_iff.1 hvalue) hty,
      composedType_of_value hgroup' (by simpa using mt entity_iff.1 (hD ▸ hvalue)) hty']
  · have hnone (S : Supergraph) (h : ¬ S.defines.Grouped tname) : S.composed.types.lookup tname = none := by
      cases hty : S.composed.types.lookup tname with
      | none => rfl
      | some ty => exact absurd (mem_groups.1 ((group_or_root_of_lookup hty).resolve_left hroot)) h
    rw [hnone S hgrouped, hnone S' (hD ▸ hgrouped)]

include hD in
/-- **The composed types agree** as far as those of the root types and of the entities do. -/
theorem types_rel {R : TypeDef → TypeDef → Prop} (hrefl : ∀ d, R d d)
    (hroots : ∀ o o', (o.fields.map FieldDef.name).Nodup → Reordered (.object o) (.object o') →
      R (.object o) (.object o'))
    (hentities : ∀ tname, S.defines.Grouped tname → S.defines.Entity tname →
      R (.object (composedEntity (objectDefinitions S.schemas tname)))
        (.object (composedEntity (objectDefinitions S'.schemas tname)))) (tname : Name) :
    Option.Rel R (S.composed.types.lookup tname) (S'.composed.types.lookup tname) := by
  by_cases hroot : tname ∈ rootTypeNames
  · have hperm := rootFields_perm hD hroot
    rw [lookup_types_root hroot, lookup_types_root hroot, lookup_composedRoots hroot, lookup_composedRoots hroot]
    have hempty : (rootFields S.schemas tname).isEmpty = (rootFields S'.schemas tname).isEmpty := by
      rw [← List.isEmpty_map (f := Prod.snd), hperm.isEmpty_eq, List.isEmpty_map]
    rw [hempty]
    split_ifs
    · exact .none
    · exact .some (hroots _ _ (nodup_rootFields hroot) ⟨hperm, rfl⟩)
  · by_cases hentity : S.defines.Grouped tname ∧ S.defines.Entity tname
    · obtain ⟨hgrouped, hentity⟩ := hentity
      rw [lookup_types_of_entity (mem_groups.2 hgrouped) (entity_iff.2 hentity),
        lookup_types_of_entity (mem_groups.2 (hD ▸ hgrouped)) (entity_iff.2 (hD ▸ hentity))]
      exact .some (hentities tname hgrouped hentity)
    · rw [lookup_types_of_value hD hroot hentity]
      cases S'.composed.types.lookup tname with
      | none => exact .none
      | some d => exact .some (hrefl d)

include hD in
theorem sameShape (tname : Name) :
    Option.Rel SameShape (S.composed.types.lookup tname) (S'.composed.types.lookup tname) := by
  refine types_rel hD SameShape.refl (fun o o' hnodup h => h.sameShape hnodup) (fun tname hgrouped hentity => ?_) tname
  refine ⟨fun fname => ?_, implementing_eq hD⟩
  rw [field_composedEntity, field_composedEntity]
  refine resolvedField_rel hD fun n o n' o' f f' hn hn' hf hf' => ?_
  exact (S.accepted.entities tname hgrouped hentity).signatures n o n' o' hn hn' fname f f'
    (resolves_eq_some hf) (resolves_eq_some hf')

theorem mem_entityFieldNames_iff : fname ∈ entityFieldNames (objectDefinitions S.schemas tname) ↔
    ∃ n o, S.defines tname n (.object o) ∧ fname ∈ o.fields.map FieldDef.name := by
  simp only [entityFieldNames, List.mem_eraseDups, List.mem_flatMap, Prod.exists]
  constructor
  · rintro ⟨i, o, ho, hf⟩
    obtain ⟨n, -, hn⟩ := defines_of_object ho
    exact ⟨n, o, hn, hf⟩
  · rintro ⟨n, o, hn, hf⟩
    obtain ⟨i, -, ho⟩ := exists_objectDefinition.1 hn
    exact ⟨i, o, ho, hf⟩

include hD in
/-- Where the directives agree, the composed types are the same but for the order of fields. -/
theorem reordered (hagree : DirectivesAgree S.defines) (tname : Name) :
    Option.Rel Reordered (S.composed.types.lookup tname) (S'.composed.types.lookup tname) := by
  refine types_rel hD Reordered.refl (fun o o' _ h => h) (fun tname hgrouped hentity => ?_) tname
  have hfields : (fun fname => resolvedField (objectDefinitions S.schemas tname) fname) =
      fun fname => resolvedField (objectDefinitions S'.schemas tname) fname := by
    funext fname
    have hrel := resolvedField_rel (m := id) hD fun n o n' o' f f' hn hn' hf hf' =>
      (hagree tname hentity n o n' o' hn hn').2 fname f f' hf hf'
    simpa using hrel
  refine ⟨?_, ?_⟩
  · have hperm : (entityFieldNames (objectDefinitions S.schemas tname)).Perm
        (entityFieldNames (objectDefinitions S'.schemas tname)) :=
      (List.perm_ext_iff_of_nodup (nodup_eraseDups _) (nodup_eraseDups _)).2 fun fname =>
        mem_entityFieldNames_iff.trans (by rw [hD]; exact mem_entityFieldNames_iff.symm)
    simp only [composedEntity, hfields]
    exact hperm.filterMap _
  · have hdirectives : ((objectDefinitions S.schemas tname).head?.map fun p => p.2.directives).getD [] =
        ((objectDefinitions S'.schemas tname).head?.map fun p => p.2.directives).getD [] := by
      obtain ⟨n, o, hn, hkeys⟩ := hentity
      have hhead {S : Supergraph} (hn : S.defines tname n (.object o)) : ∃ p n',
          (objectDefinitions S.schemas tname).head? = some p ∧ S.defines tname n' (.object p.2) := by
        obtain ⟨i, -, ho⟩ := exists_objectDefinition.1 hn
        obtain ⟨p, rest, hdefs⟩ := List.exists_cons_of_ne_nil (List.ne_nil_of_mem ho)
        obtain ⟨n', -, hn'⟩ := defines_of_object (S := S) (o := p.2) (i := p.1) (by rw [hdefs]; exact List.mem_cons_self)
        exact ⟨p, n', by rw [hdefs]; rfl, hn'⟩
      obtain ⟨p, n₁, hp, hn₁⟩ := hhead hn
      obtain ⟨q, n₂, hq, hn₂⟩ := hhead (hD ▸ hn)
      rw [hp, hq]
      exact (hagree tname ⟨n, o, hn, hkeys⟩ n₁ p.2 n₂ q.2 hn₁ (hD ▸ hn₂)).1
    have himplementing : (composedEntity (objectDefinitions S.schemas tname)).implementing = _ := implementing_eq hD
    simp only [composedEntity] at himplementing ⊢
    rw [himplementing, hdirectives]

/-! #### Owners and keys -/

theorem subgraphName_of_getElem? {i : ℕ} {n : String} (h : S.names[i]? = some n) : subgraphName S.names i = n := by
  rw [subgraphName, List.getD_eq_getElem?_getD, h, Option.getD_some]

/-- The names of the subgraphs that resolve a field of an entity. -/
theorem mem_ownerNames {n : String} :
    n ∈ (ownersOf (objectDefinitions S.schemas tname) fname).map (subgraphName S.names) ↔
      ∃ o f, S.defines tname n (.object o) ∧ o.resolves fname = some f := by
  simp only [List.mem_map, mem_ownersOf]
  constructor
  · rintro ⟨i, ⟨o, ho, f, hf⟩, rfl⟩
    obtain ⟨n, hi, hn⟩ := defines_of_object ho
    exact ⟨o, f, by rwa [subgraphName_of_getElem? hi], hf⟩
  · rintro ⟨o, f, hn, hf⟩
    obtain ⟨i, hi, ho⟩ := exists_objectDefinition.1 hn
    exact ⟨i, ⟨o, ho, f, hf⟩, subgraphName_of_getElem? hi⟩

theorem nodup_ownerNames :
    ((ownersOf (objectDefinitions S.schemas tname) fname).map (subgraphName S.names)).Nodup := by
  refine List.Nodup.map_on ?_ ((pairwise_ownersOf S.schemas tname fname).imp fun hlt => hlt.ne)
  intro i hi j hj heq
  obtain ⟨o, ho, -⟩ := mem_ownersOf.1 hi
  obtain ⟨o', ho', -⟩ := mem_ownersOf.1 hj
  obtain ⟨n, hn, -⟩ := defines_of_object ho
  obtain ⟨n', hn', -⟩ := defines_of_object ho'
  rw [subgraphName_of_getElem? hn, subgraphName_of_getElem? hn'] at heq
  exact index_eq S.nodup_names hn (heq ▸ hn')

/-- A field with owners is one of a root type or of an entity. -/
theorem fieldOwners_cases {owners : List ℕ} (h : S.composed.fieldOwners.lookup (tname, fname) = some owners) :
    (tname ∈ rootTypeNames ∧ ∃ i f, owners = [i] ∧ (i, f) ∈ rootFields S.schemas tname ∧ f.name = fname) ∨
      (S.defines.Grouped tname ∧ S.defines.Entity tname ∧
        fname ∈ entityFieldNames (objectDefinitions S.schemas tname) ∧
        owners = ownersOf (objectDefinitions S.schemas tname) fname) := by
  have hmem := mem_of_lookup h
  simp only [composed, GraphQl.composed, List.mem_append, List.mem_flatMap, List.mem_map, Prod.mk.injEq,
    List.mem_filter] at hmem
  rcases hmem with ⟨_, hroot, ⟨i, f⟩, hf, ⟨rfl, rfl⟩, rfl⟩ | ⟨_, ⟨hgroup, hentity⟩, _, hf, ⟨rfl, rfl⟩, rfl⟩
  · exact .inl ⟨hroot, i, f, rfl, hf, rfl⟩
  · exact .inr ⟨mem_groups.1 hgroup, entity_iff.1 hentity, hf, rfl⟩

include hD in
theorem owners_some {field : Name × Name} {owners : List ℕ} (h : S.composed.fieldOwners.lookup field = some owners) :
    ∃ owners', S'.composed.fieldOwners.lookup field = some owners' ∧
      (owners.map (subgraphName S.names)).Perm (owners'.map (subgraphName S'.names)) := by
  obtain ⟨tname, fname⟩ := field
  rcases fieldOwners_cases h with ⟨hroot, i, f, rfl, hf, rfl⟩ | ⟨hgrouped, hentity, hfname, rfl⟩
  · obtain ⟨s, o, g, hs, ho, hg, rfl⟩ := mem_rootFields.1 hf
    obtain ⟨n, hi, hn⟩ := defines_of_object (mem_objectDefinitions.2 ⟨s, hs, ho⟩)
    obtain ⟨j, hj, ho'⟩ := exists_objectDefinition.1 (hD ▸ hn)
    have hf' : (j, stripField g) ∈ rootFields S'.schemas tname :=
      List.mem_flatMap.2 ⟨_, ho', List.mem_map.2 ⟨g, hg, rfl⟩⟩
    refine ⟨[j], exists_fieldOwners_root hroot hf', ?_⟩
    simp [subgraphName_of_getElem? hi, subgraphName_of_getElem? hj]
  · have hfname' : fname ∈ entityFieldNames (objectDefinitions S'.schemas tname) :=
      mem_entityFieldNames_iff.2 (hD ▸ mem_entityFieldNames_iff.1 hfname)
    refine ⟨_, exists_fieldOwners (mem_groups.2 (hD ▸ hgrouped)) (entity_iff.2 (hD ▸ hentity)) hfname', ?_⟩
    refine (List.perm_ext_iff_of_nodup nodup_ownerNames nodup_ownerNames).2 fun n => ?_
    rw [mem_ownerNames, mem_ownerNames, hD]

include hD in
theorem keys_some {keys : List (Option (List Name))} (h : S.composed.entityKeys.lookup tname = some keys) :
    ∃ keys', S'.composed.entityKeys.lookup tname = some keys' ∧
      ∀ (i j : ℕ) n, S.names[i]? = some n → S'.names[j]? = some n → keys[i]? = keys'[j]? := by
  obtain ⟨hgroup, hentity, rfl⟩ := entityKeys_eq h
  refine ⟨_, exists_entityKeys (mem_groups.2 (hD ▸ mem_groups.1 hgroup)) (entity_iff.2 (hD ▸ entity_iff.1 hentity)), ?_⟩
  intro i j n hi hj
  have hkey (S : Supergraph) {i : ℕ} (hi : S.names[i]? = some n) :
      (entityKeys S.names (objectDefinitions S.schemas tname))[i]? =
        some (((objectDefinitions S.schemas tname).lookup i).bind ObjectDef.keyFields) := by
    obtain ⟨hlt, -⟩ := List.getElem?_eq_some_iff.1 hi
    simp [entityKeys, hlt]
  have hlookup {S S' : Supergraph} (hD : S.defines = S'.defines) {i j : ℕ} (hi : S.names[i]? = some n)
      (hj : S'.names[j]? = some n) {o : ObjectDef} (ho : (objectDefinitions S.schemas tname).lookup i = some o) :
      (objectDefinitions S'.schemas tname).lookup j = some o := by
    have hn := exists_objectDefinition.2 ⟨i, hi, mem_of_lookup ho⟩
    obtain ⟨j', hj', ho'⟩ := exists_objectDefinition.1 (hD ▸ hn)
    obtain rfl := index_eq S'.nodup_names hj hj'
    exact lookup_objectDefinitions ho'
  rw [hkey S hi, hkey S' hj]
  congr 2
  exact Option.ext fun o => ⟨hlookup hD hi hj, hlookup hD.symm hj hi⟩

theorem rel_of_some {α β : Type} {R : α → β → Prop} {x : Option α} {y : Option β}
    (h : ∀ a, x = some a → ∃ b, y = some b ∧ R a b) (h' : ∀ b, y = some b → ∃ a, x = some a) : Option.Rel R x y := by
  cases x with
  | none =>
    cases y with
    | none => exact .none
    | some b => obtain ⟨a, ha⟩ := h' b rfl; cases ha
  | some a =>
    obtain ⟨b, rfl, hab⟩ := h a rfl
    exact .some hab

include hD in
/-- **What is composed does not depend on the order.** -/
theorem sameComposition : SameComposition S.names S'.names S.composed S'.composed where
  types := sameShape hD
  owners := fun _ => rel_of_some (fun _ h => owners_some hD h) fun _ h =>
    (owners_some hD.symm h).imp fun _ h => h.1
  keys := fun _ => rel_of_some (fun _ h => keys_some hD h) fun _ h =>
    (keys_some hD.symm h).imp fun _ h => h.1

end Compare

end Supergraph

/-! ### The guarantee -/

theorem exists_reordered {c : Apollo} {subgraphs subgraphs' : List (String × String)} {r : ComposedSupergraph}
    (hperm : subgraphs.Perm subgraphs') (h : compose (unvalidated c) subgraphs = .ok r) :
    ∃ S S' : Supergraph, S.subgraphs = subgraphs ∧ S'.subgraphs = subgraphs' ∧ S.composed = r ∧
      compose (unvalidated c) subgraphs' = .ok S'.composed ∧ S.defines = S'.defines ∧
      S.defines = definedBy (parsed c subgraphs) := by
  obtain ⟨S, hc, rfl, rfl⟩ := Supergraph.compose_eq_ok_iff.1 h
  obtain ⟨S', hc', rfl, hD⟩ := S.exists_perm hc hperm
  have hdefines := S.defines_eq
  rw [hc] at hdefines
  exact ⟨S, S', rfl, rfl, rfl, Supergraph.compose_eq_ok_iff.2 ⟨S', hc', rfl, rfl⟩, hD.symm, hdefines⟩

theorem exists_compose_of_perm {c : Apollo} {subgraphs subgraphs' : List (String × String)}
    (hperm : subgraphs.Perm subgraphs') (hvalidate : OrderFree c.validate)
    (hagree : DirectivesAgree (definedBy (parsed c subgraphs))) (h : ∃ r, compose c subgraphs = .ok r) :
    ∃ r, compose c subgraphs' = .ok r := by
  obtain ⟨r, h⟩ := h
  obtain ⟨hchecks, hvalid⟩ := compose_eq_ok.1 h
  obtain ⟨S, S', -, -, rfl, hchecks', hD, hdefines⟩ := exists_reordered hperm hchecks
  refine ⟨S'.composed, compose_eq_ok.2 ⟨hchecks', ?_⟩⟩
  exact (hvalidate _ _ Supergraph.nodup_types Supergraph.nodup_types
    (Supergraph.reordered hD (hdefines ▸ hagree))).1 hvalid

/-- What a subgraph resolves is one of its fields, and not `@external`. -/
theorem mem_of_resolves {o : ObjectDef} {fname : Name} {f : FieldDef} (h : o.resolves fname = some f) :
    f ∈ o.fields ∧ f.name = fname ∧ f.federation.external = false := by
  obtain ⟨hf, hexternal⟩ := Option.filter_eq_some_iff.1 h
  have hexternal : isExternal o f = false := by simpa using hexternal
  exact ⟨List.mem_of_find?_eq_some hf, field_name hf, (Bool.or_eq_false_iff.1 hexternal).2⟩

/-- The directives of a type, where it is an object. -/
def objectDirectives : TypeDef → List String
  | .object o => o.directives
  | _ => []

/-- Users and reviews resolve no field of a user both. -/
theorem usersReviews_agree :
    DirectivesAgree (definedBy (parsed usersReviews.apollo [("users", usersSdl), ("reviews", reviewsSdl)])) := by
  have hsub {n : String} {s : ValidSubgraph} (h : (n, s) ∈ parsed usersReviews.apollo
      [("users", usersSdl), ("reviews", reviewsSdl)]) : s = usersSchema ∨ s = reviewsSchema := by
    have hmem : (n, s) ∈ [("users", usersSchema), ("reviews", reviewsSchema)] := h
    simp only [List.mem_cons, Prod.mk.injEq, List.not_mem_nil, or_false] at hmem
    exact hmem.imp And.right And.right
  have hdirectives {s : ValidSubgraph} (hs : s = usersSchema ∨ s = reviewsSchema) {tname : Name} {o : ObjectDef}
      (ho : s.types.lookup tname = some (.object o)) : o.directives = [] := by
    have hall : ∀ s ∈ [usersSchema.types, reviewsSchema.types], ∀ p ∈ s, objectDirectives p.2 = [] := by decide
    refine hall s.types ?_ _ (mem_of_lookup ho)
    rcases hs with rfl | rfl
    · exact List.mem_cons_self
    · exact List.mem_cons_of_mem _ List.mem_cons_self
  have hcross {tname fname : Name} {o o' : ObjectDef} {f f' : FieldDef}
      (ho : usersSchema.types.lookup tname = some (.object o)) (ho' : reviewsSchema.types.lookup tname = some (.object o'))
      (hf : o.resolves fname = some f) (hf' : o'.resolves fname = some f') : False := by
    have hall : ∀ p ∈ usersSchema.types, ∀ q ∈ reviewsSchema.types, p.1 = q.1 → ∀ f ∈ p.2.fields, ∀ g ∈ q.2.fields,
        f.name = g.name → f.federation.external = true ∨ g.federation.external = true := by decide
    obtain ⟨hmem, hname, hresolved⟩ := mem_of_resolves hf
    obtain ⟨hmem', hname', hresolved'⟩ := mem_of_resolves hf'
    have hexternal := hall _ (mem_of_lookup ho) _ (mem_of_lookup ho') rfl f hmem f' hmem' (hname.trans hname'.symm)
    simp [hresolved, hresolved'] at hexternal
  rintro tname - n o n' o' ⟨s, hs, ho⟩ ⟨s', hs', ho'⟩
  refine ⟨(hdirectives (hsub hs) ho).trans (hdirectives (hsub hs') ho').symm, fun fname f f' hf hf' => ?_⟩
  rcases hsub hs with rfl | rfl
  · rcases hsub hs' with rfl | rfl
    · obtain rfl : o = o' := by simpa using ho.symm.trans ho'
      rw [Option.some.inj (hf.symm.trans hf')]
    · exact (hcross ho ho' hf hf').elim
  · rcases hsub hs' with rfl | rfl
    · exact (hcross ho' ho hf' hf).elim
    · obtain rfl : o = o' := by simpa using ho.symm.trans ho'
      rw [Option.some.inj (hf.symm.trans hf')]

/-- The users, with a directive of the subgraph's own. -/
def auditedSdl : String := "directive @audited on OBJECT " ++ "type Query \x7b user: User \x7d " ++
  "type User @key(fields: \"id\") @audited \x7b id: ID! name: String \x7d"

def auditedSchema : ValidSubgraph where
  types := [("Query", .object { fields := [{ name := "user", ty := .named "User" }] }),
    ("User", .object { keys := [⟨some "id", none⟩], directives := ["@audited"],
                       fields := [{ name := "id", ty := .nonNull (.named "ID") },
                                  { name := "name", ty := .named "String" }] })]
  typeNames := usersSchema.typeNames
  fieldNames := by decide
  fieldTypes := by decide
  reserved := by decide
  reservedFields := by decide
  rootTypes := by
    rintro root (h | h)
    · obtain rfl := Option.some.inj h
      exact ⟨_, rfl⟩
    · cases h

/-- The composed text defines no directive, so it may use none of the subgraphs' own. -/
def auditedApollo : Apollo where
  parseSubgraphSchema := fun sdl =>
    if sdl = auditedSdl then .ok auditedSchema
    else if sdl = reviewsSdl then .ok reviewsSchema
    else .error "subgraph SDL is not a valid schema"
  validate := fun types =>
    if types.any fun p => match p.2 with
      | .object o => o.directives.contains "@audited"
      | _ => false
    then .error "cannot find directive `@audited` in this document"
    else .ok ()

end G2way.GraphQl
