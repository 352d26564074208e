import G2way.GraphQl.Subqueries

/-!
# Plans of a composed supergraph

What `compose` promises the planner. `compose_entity` of `g2-core/src/federation.rs`
merges the fields of an entity over its subgraphs and checks that "every subgraph
that can return the entity must be able to provide the key fields of every subgraph
it may need to resolve fields from"; `print_set` and `pick_target` of
`g2-middleware/src/graphql_federation.rs` index the tables it leaves, and `expect`
that a target has a key.

## The model

`PanicFree` says of one set that what is indexed and unwrapped for its foreign
fields is there; `EverySet` is every set a query is printed as, each with the
subgraph it is printed for.

## What is proved

`Supergraph.owners_of_field` and `Supergraph.exists_target` are about one field of
an entity, `panicFree` about one set; `compose_executable` puts them together.
-/

namespace G2way.GraphQl

open Lib Lib.Result Lib.Assoc

/-- What `print_set` indexes and unwraps for the foreign fields of a set is there: the owners of the
field, the place of each among the keys of the type, and the key of the target that is picked. -/
def PanicFree (engine : ComposedSupergraph) (sg : ℕ) (ty : Name) (sel : Selections) : Prop :=
  ∀ f ∈ sel.fields, isLocal engine sg ty f.name = false → ∃ owners keys,
    engine.fieldOwners.lookup (ty, f.name) = some owners ∧ engine.entityKeys.lookup ty = some keys ∧
      (∀ s ∈ owners, s < keys.length) ∧
      ∀ target, pickTarget engine ty f.name = .ok target → ∃ key, keys[target]? = some (some key)

/-- A property of every set holds of those of any query. -/
theorem everySet_of_forall {engine : ComposedSupergraph} {P : ℕ → Name → Selections → Prop}
    (h : ∀ sg ty sel, P sg ty sel) (sg : ℕ) (ty : Name) (sel : Selections) : EverySet engine P sg ty sel := by
  refine ⟨h sg ty sel, ?_⟩
  induction sel generalizing sg ty with
  | nil => trivial
  | field f fty sub rest ihsub ihrest => exact ⟨fun t _ => ⟨h t fty sub, ihsub t fty⟩, ihrest sg ty⟩
  | inlineFragment d cond sub rest ihsub ihrest => exact ⟨⟨h sg cond sub, ihsub sg cond⟩, ihrest sg ty⟩
  | fragmentSpread n d rest ih => exact ih sg ty

/-! ### Owners and targets -/

/-- The definitions of a type are in the order of the subgraphs. -/
theorem pairwise_objectDefinitions (schemas : List ValidSubgraph) (tname : Name) :
    (objectDefinitions schemas tname).Pairwise fun p q => p.1 < q.1 := by
  have hidx : schemas.zipIdx.Pairwise fun p q => p.2 < q.2 := by
    rw [← List.pairwise_map (f := Prod.snd) (R := (· < ·)), List.zipIdx_map_snd]
    exact List.pairwise_lt_range'
  have hdefs : (definitions schemas tname).Pairwise fun p q => p.1 < q.1 := by
    refine List.Pairwise.filterMap _ ?_ hidx
    rintro ⟨s, i⟩ ⟨s', j⟩ hlt p hp q hq
    obtain ⟨ty, -, rfl⟩ := Option.map_eq_some_iff.1 hp
    obtain ⟨ty', -, rfl⟩ := Option.map_eq_some_iff.1 hq
    exact hlt
  refine List.Pairwise.filterMap _ ?_ hdefs
  rintro ⟨i, ty⟩ ⟨j, ty'⟩ hlt p hp q hq
  cases ty with
  | object o =>
    cases ty' with
    | object o' =>
      obtain rfl : (i, o) = p := by simpa using hp
      obtain rfl : (j, o') = q := by simpa using hq
      exact hlt
    | _ => cases hq
  | _ => cases hp

theorem pairwise_ownersOf (schemas : List ValidSubgraph) (tname fname : Name) :
    (ownersOf (objectDefinitions schemas tname) fname).Pairwise (· < ·) :=
  List.pairwise_map.2 ((pairwise_objectDefinitions schemas tname).filter _)

namespace Supergraph

variable {S : Supergraph} {tname fname : Name} {p : ℕ}

/-- The owners of an entity's field: those that define it and not `@external`. -/
theorem owners_of_field (hgroup : tname ∈ groupNames S.schemas) (hentity : isEntity S.schemas tname = true)
    {f : FieldDef} (hf : S.composedField tname fname = some f) :
    S.composed.fieldOwners.lookup (tname, fname) = some (ownersOf (objectDefinitions S.schemas tname) fname) ∧
      ownersOf (objectDefinitions S.schemas tname) fname ≠ [] := by
  obtain ⟨i, o, g, ho, hg, -⟩ := composedField_entity hgroup hentity hf
  exact ⟨exists_fieldOwners hgroup hentity (mem_entityFieldNames ho (resolves_eq_some hg)),
    List.ne_nil_of_mem (mem_ownersOf.2 ⟨o, ho, g, hg⟩)⟩

theorem lt_of_mem_ownersOf {s : ℕ} (hs : s ∈ ownersOf (objectDefinitions S.schemas tname) fname) :
    s < S.schemas.length := by
  obtain ⟨o, ho, -⟩ := mem_ownersOf.1 hs
  obtain ⟨schema, hschema, -⟩ := mem_objectDefinitions.1 ho
  exact (List.getElem?_eq_some_iff.1 hschema).1

/-- A subgraph that has the entity and not the field can have the field fetched from the first of its owners. -/
theorem exists_target (hgroup : tname ∈ groupNames S.schemas) (hentity : isEntity S.schemas tname = true)
    {f : FieldDef} (hf : S.composedField tname fname = some f) {o : ObjectDef}
    (ho : (p, o) ∈ objectDefinitions S.schemas tname)
    (hp : p ∉ ownersOf (objectDefinitions S.schemas tname) fname) : ∃ target key,
      pickTarget S.composed tname fname = .ok target ∧
        target ∈ ownersOf (objectDefinitions S.schemas tname) fname ∧
        S.composed.keyOf tname target = some key ∧ ∀ k ∈ key, ∃ g, o.field k = some g := by
  obtain ⟨hlookup, hne⟩ := owners_of_field hgroup hentity hf
  obtain ⟨target, owners, howners⟩ := List.exists_cons_of_ne_nil hne
  have hmem : target ∈ ownersOf (objectDefinitions S.schemas tname) fname := by
    rw [howners]
    exact List.mem_cons_self
  obtain ⟨key, hkey, hdeclared⟩ := key_available hgroup hentity ho hmem fun heq => hp (heq ▸ hmem)
  rw [← keyOf_eq hgroup hentity (lt_of_mem_ownersOf hmem)] at hkey
  refine ⟨target, key, ?_, hmem, hkey, hdeclared⟩
  simp [pickTarget, targetOf, ComposedSupergraph.ownersOf, hlookup, howners, hkey, okOr]

/-- **Nothing that is indexed or unwrapped for a set is missing**, whatever the set and the subgraph it
is printed for. -/
theorem panicFree (S : Supergraph) (sg : ℕ) (ty : Name) (sel : Selections) :
    PanicFree S.composed sg ty sel := by
  intro f _ hlocal
  obtain ⟨hgroup, hentity, hmeta, howners, -⟩ := of_not_isLocal hlocal
  have hkeys := exists_entityKeys hgroup hentity
  cases hlookup : S.composed.fieldOwners.lookup (ty, f.name) with
  | none => simp [isLocal, hlookup] at hlocal
  | some owners =>
    obtain rfl := fieldOwners_entity hgroup hlookup
    refine ⟨_, _, rfl, hkeys, fun s hs => ?_, fun target htarget => ?_⟩
    · simpa [entityKeys, length_names] using lt_of_mem_ownersOf hs
    · have htarget : targetOf S.composed ty f.name = some target := okOr_eq_ok.1 htarget
      have hlt : target < S.schemas.length := by
        have hmem := List.mem_of_find?_eq_some htarget
        rw [howners] at hmem
        exact lt_of_mem_ownersOf hmem
      have hsome : (S.composed.keyOf ty target).isSome := by simpa using List.find?_some htarget
      obtain ⟨key, hkey⟩ := Option.isSome_iff_exists.1 hsome
      rw [keyOf_eq hgroup hentity hlt] at hkey
      exact ⟨key, by simp [entityKeys, length_names, hlt, hkey]⟩

end Supergraph

/-! ### The guarantee -/

/-- **Composition gives executable plans.** Every field of a composed entity has owners, those that define
it and not `@external`; a subgraph that has the entity and is not among them declares the key of the one
that is picked for the field; and no query has a set for which the planner would panic. -/
theorem compose_executable {c : Apollo} {subgraphs : List (String × String)} {engine : ComposedSupergraph}
    (h : compose c subgraphs = .ok engine) : ∃ schemas, readSubgraphs c subgraphs = .ok schemas ∧
      (∀ tname keys d, engine.entityKeys.lookup tname = some keys → engine.types.lookup tname = some d →
        ∀ f ∈ d.fields, ∃ owners, engine.fieldOwners.lookup (tname, f.name) = some owners ∧ owners ≠ [] ∧
          owners.Pairwise (· < ·) ∧
          (∀ i, i ∈ owners ↔ ∃ s o g, schemas[i]? = some s ∧ s.types.lookup tname = some (.object o) ∧
            o.field f.name = some g ∧ isExternal o g = false) ∧
          ∀ p s o, schemas[p]? = some s → s.types.lookup tname = some (.object o) → p ∉ owners →
            ∃ target key, pickTarget engine tname f.name = .ok target ∧ target ∈ owners ∧
              engine.keyOf tname target = some key ∧ ∀ k ∈ key, ∃ g, o.field k = some g) ∧
      ∀ sg ty sel, EverySet engine (PanicFree engine) sg ty sel := by
  obtain ⟨S, rfl, rfl, rfl⟩ := Supergraph.compose_eq_ok_iff.1 h
  refine ⟨S.schemas, S.read, ?_, everySet_of_forall S.panicFree⟩
  intro tname keys d hkeys hd f hf
  obtain ⟨hgroup, hentity, -⟩ := Supergraph.entityKeys_eq hkeys
  obtain ⟨f', hf'⟩ : ∃ f', S.composedField tname f.name = some f' := by
    refine Option.isSome_iff_exists.1 (List.find?_isSome.2 ⟨f, ?_, by simp⟩)
    simpa [Supergraph.composedFields, hd] using hf
  obtain ⟨hlookup, hne⟩ := Supergraph.owners_of_field hgroup hentity hf'
  refine ⟨_, hlookup, hne, pairwise_ownersOf _ _ _, fun i => ?_, fun p s o hs ho hp => ?_⟩
  · simp only [mem_ownersOf, mem_objectDefinitions, ObjectDef.resolves, Option.filter_eq_some_iff,
      Bool.not_eq_true']
    constructor
    · rintro ⟨o, ⟨s, hs, ho⟩, g, hg⟩
      exact ⟨s, o, g, hs, ho, hg⟩
    · rintro ⟨s, o, g, hs, ho, hg⟩
      exact ⟨o, ⟨s, hs, ho⟩, g, hg⟩
  · exact Supergraph.exists_target hgroup hentity hf' (mem_objectDefinitions.2 ⟨s, hs, ho⟩) hp

/-- The reviews of a user are the reviews subgraph's: it is picked for them, and a set with them is printed. -/
theorem compose_executable_users : (∃ owners target,
    usersReviews.composed.fieldOwners.lookup ("User", "reviews") = some owners ∧
      pickTarget usersReviews.composed "User" "reviews" = .ok target ∧ target ∈ owners) ∧
    EverySet usersReviews.composed (PanicFree usersReviews.composed) 0 "User" (userSelections none) := by
  have hok : compose usersReviews.apollo usersReviews.subgraphs = .ok usersReviews.composed := rfl
  obtain ⟨schemas, hread, hfields, hsets⟩ := compose_executable hok
  obtain rfl : [usersSchema, reviewsSchema] = schemas := Except.ok.inj (usersReviews.read.symm.trans hread)
  refine ⟨?_, hsets 0 "User" (userSelections none)⟩
  obtain ⟨owners, howners, -, -, -, htargets⟩ := hfields "User" _ _ rfl rfl
    { name := "reviews", ty := .list (.named "Review") } (by decide)
  obtain rfl : [1] = owners := Option.some.inj howners
  obtain ⟨target, -, htarget, hmem, -⟩ := htargets 0 usersSchema _ rfl rfl (by decide)
  exact ⟨[1], target, rfl, htarget, hmem⟩

end G2way.GraphQl
