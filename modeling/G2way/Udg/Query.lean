import G2way.GraphQl.Compose
import G2way.Lib.DepthFirst
import G2way.Lib.Json

/-!
# Sub-queries for data sources

`build_subquery` of `g2-middleware/src/graphql_udg.rs`: "the standalone query a
GraphQL source receives: the operation keyword, the variable definitions the field's
subtree uses, the field selections verbatim (aliases and arguments round-trip), and
every transitively referenced fragment definition", with "the client's raw variables
filtered to the used subset".

## The model

Here the arguments and directives of a document are read, not only printed, so they
are kept as values. The text of a sub-query is kept as the document it is parsed to.
A set of names is a list, and the recursion into fragments, which the source ends by
the list of those it has seen, is given more fuel than there are fragments.

## What is proved

`collected_closed`: the collected variables and fragments are those of the fields and
of the fragments collected, at every remove.
-/

namespace G2way.Udg

open G2way.GraphQl (Name TypeRef OperationType)
open G2way.Lib

variable {Num : Type}

/-! ### Documents -/

/-- `ast::Value`; a number is kept as it is written. -/
inductive Value where
  | null
  | bool (b : Bool)
  | number (text : String)
  | string (s : String)
  | enum (name : Name)
  /-- A variable. -/
  | var (name : Name)
  | list (items : List Value)
  | object (fields : List (Name × Value))

/-- A directive. -/
structure Directive where
  name : Name
  arguments : List (Name × Value) := []

/-- A selected field, but for its selection set. -/
structure Field where
  aliasName : Option Name := none
  name : Name
  arguments : List (Name × Value) := []
  directives : List Directive := []

/-- The key of the field in the response. -/
def Field.responseKey (f : Field) : Name := f.aliasName.getD f.name

/-- The selections of a set, in order; a set is given by its type and these. -/
inductive Selections where
  /-- No more selections. -/
  | nil
  /-- A field, and its own selection set. -/
  | field (f : Field) (ty : Name) (sub rest : Selections)
  /-- An inline fragment, and its selection set. -/
  | inlineFragment (typeCondition : Option Name) (directives : List Directive) (ty : Name) (sub rest : Selections)
  /-- The spread of a named fragment. -/
  | fragmentSpread (name : Name) (directives : List Directive) (rest : Selections)

/-- A fragment definition; its type is the type condition. -/
structure Fragment where
  ty : Name
  directives : List Directive := []
  selections : Selections

/-- The definition of a variable. -/
structure VariableDefinition where
  name : Name
  ty : TypeRef
  defaultValue : Option Value := none

/-- An operation. -/
structure Operation where
  operationType : OperationType := .query
  vars : List VariableDefinition := []
  /-- The root type. -/
  ty : Name
  selections : Selections

/-- A document: its anonymous operation, its named ones, and its fragments. -/
structure Document where
  anonymous : Option Operation := none
  named : List (Name × Operation) := []
  fragments : List (Name × Fragment) := []

/-- `operations.get`. -/
def Document.getOperation (doc : Document) : Option Name → Option Operation
  | some name => doc.named.lookup name
  | none =>
    match doc.anonymous, doc.named with
    | some op, [] => some op
    | none, [(_, op)] => some op
    | _, _ => none

/-- A field of a set, with its selection set. -/
structure FieldSelection where
  field : Field
  ty : Name
  selections : Selections

/-- The fields as selections. -/
def selectionsOf : List FieldSelection → Selections
  | [] => .nil
  | x :: rest => .field x.field x.ty x.selections (selectionsOf rest)

/-- `JsonMap`. -/
abbrev JsonMap (Num : Type) := List (String × Json Num)

/-! ### Variables and spreads -/

mutual

/-- `collect_value`: the variables of a value. -/
def Value.vars : Value → List Name
  | .var name => [name]
  | .list items => itemVariables items
  | .object fields => memberVariables fields
  | _ => []

/-- The variables of the items of a list. -/
def itemVariables : List Value → List Name
  | [] => []
  | v :: rest => v.vars ++ itemVariables rest

/-- The variables of the fields of an object. -/
def memberVariables : List (Name × Value) → List Name
  | [] => []
  | (_, v) :: rest => v.vars ++ memberVariables rest

end

/-- `collect_directives`. -/
def directiveVariables (directives : List Directive) : List Name :=
  directives.flatMap fun d => memberVariables d.arguments

/-- The variables of a field itself. -/
def Field.vars (f : Field) : List Name := memberVariables f.arguments ++ directiveVariables f.directives

namespace Selections

/-- The variables of the selections, those of the fragments they spread apart. -/
def vars : Selections → List Name
  | .nil => []
  | .field f _ sub rest => f.vars ++ sub.vars ++ rest.vars
  | .inlineFragment _ d _ sub rest => directiveVariables d ++ sub.vars ++ rest.vars
  | .fragmentSpread _ d rest => directiveVariables d ++ rest.vars

/-- The fragments the selections spread. -/
def spreads : Selections → List Name
  | .nil => []
  | .field _ _ sub rest => sub.spreads ++ rest.spreads
  | .inlineFragment _ _ _ sub rest => sub.spreads ++ rest.spreads
  | .fragmentSpread n _ rest => n :: rest.spreads

end Selections

/-- The variables of a fragment definition. -/
def Fragment.vars (frag : Fragment) : List Name := directiveVariables frag.directives ++ frag.selections.vars

/-! ### `build_subquery` -/

/-- What is collected: the variables, and the fragments in the order they are met. -/
structure Collected where
  vars : List Name := []
  frags : List Name := []

/-- The variables, inserted. -/
def Collected.insert (acc : Collected) (names : List Name) : Collected := { acc with vars := acc.vars ++ names }

/-- `collect_set`, given what is done at a spread. -/
def collectSet (enter : Name → Collected → Collected) : Selections → Collected → Collected
  | .nil, acc => acc
  | .field f _ sub rest, acc => collectSet enter rest (collectSet enter sub (acc.insert f.vars))
  | .inlineFragment _ d _ sub rest, acc =>
    collectSet enter rest (collectSet enter sub (acc.insert (directiveVariables d)))
  | .fragmentSpread n d rest, acc => collectSet enter rest (enter n (acc.insert (directiveVariables d)))

/-- A spread: the fragment is pushed and gone through, unless it was met before. -/
def enterFragment (doc : Document) : ℕ → Name → Collected → Collected
  | 0, _, acc => acc
  | fuel + 1, n, acc =>
    if n ∈ acc.frags then acc
    else
      let acc := { acc with frags := acc.frags ++ [n] }
      match doc.fragments.lookup n with
      | none => acc
      | some frag => collectSet (enterFragment doc fuel) frag.selections (acc.insert (directiveVariables frag.directives))

/-- The loop over the fields: `collect_field` for each. -/
def collectFields (doc : Document) (fields : List FieldSelection) : Collected :=
  collectSet (enterFragment doc (doc.fragments.length + 1)) (selectionsOf fields) {}

/-- `build_subquery`. -/
def buildSubquery (doc : Document) (op : Operation) (fields : List FieldSelection) (raw : JsonMap Num) :
    Document × JsonMap Num :=
  let collected := collectFields doc fields
  ({ anonymous := some
       { operationType := op.operationType
         vars := op.vars.filter fun v => v.name ∈ collected.vars
         ty := op.ty
         selections := selectionsOf fields }
     fragments := collected.frags.filterMap fun n => (doc.fragments.lookup n).map fun frag => (n, frag) },
   raw.filter fun p => p.1 ∈ collected.vars)

/-! ### What is collected -/

section Collect

open DepthFirst

variable (doc : Document)

/-- The spreads of a fragment, as the references of a node. -/
def references (n : Name) : List (Item Name Empty) :=
  ((doc.fragments.lookup n).map fun frag => frag.selections.spreads.map .ref).getD []

/-- A search for nothing goes on. -/
theorem goOn_empty {N : Type} (r : Option Empty × List N) (k : List N → Option Empty × List N) :
    goOn r k = k r.2 := by
  rcases r with ⟨_ | h, visited⟩
  · rfl
  · exact h.elim

variable {doc}

/-- The fragments are met in the order of a depth-first search. -/
theorem frags_collectSet {enter₁ : Name → Collected → Collected} {enter₂ : Name → List Name → Option Empty × List Name}
    (henter : ∀ n acc, (enter₁ n acc).frags.reverse = (enter₂ n acc.frags.reverse).2) (s : Selections)
    (acc : Collected) :
    (collectSet enter₁ s acc).frags.reverse = (scan enter₂ (s.spreads.map .ref) acc.frags.reverse).2 := by
  induction s generalizing acc with
  | nil => rfl
  | field f ty sub rest ihsub ihrest =>
    rw [collectSet, ihrest, ihsub, Selections.spreads, List.map_append, scan_append, goOn_empty]
    rfl
  | inlineFragment cond d ty sub rest ihsub ihrest =>
    rw [collectSet, ihrest, ihsub, Selections.spreads, List.map_append, scan_append, goOn_empty]
    rfl
  | fragmentSpread n d rest ihrest =>
    rw [collectSet, ihrest, henter, Selections.spreads, List.map_cons, scan, goOn_empty]
    rfl

theorem frags_enterFragment (fuel : ℕ) (n : Name) (acc : Collected) :
    (enterFragment doc fuel n acc).frags.reverse = (enter (references doc) fuel n acc.frags.reverse).2 := by
  induction fuel generalizing n acc with
  | zero => rfl
  | succ fuel ih =>
    unfold enterFragment enter
    simp only [List.mem_reverse]
    split
    · rfl
    · cases hfrag : doc.fragments.lookup n with
      | none => simp [references, hfrag, scan]
      | some frag =>
        simp only [references, hfrag, Option.map_some, Option.getD_some]
        rw [frags_collectSet ih]
        simp [Collected.insert]

/-- From `acc` to `acc'` nothing is lost, and each fragment that is new comes with its variables. -/
structure Gathers (doc : Document) (acc acc' : Collected) : Prop where
  vars : acc.vars ⊆ acc'.vars
  frags : acc.frags ⊆ acc'.frags
  bodies : ∀ n ∈ acc'.frags, n ∈ acc.frags ∨ ∀ frag, doc.fragments.lookup n = some frag → frag.vars ⊆ acc'.vars

theorem Gathers.refl (acc : Collected) : Gathers doc acc acc :=
  ⟨List.Subset.refl _, List.Subset.refl _, fun _ hn => .inl hn⟩

theorem Gathers.trans {acc₁ acc₂ acc₃ : Collected} (h₁ : Gathers doc acc₁ acc₂) (h₂ : Gathers doc acc₂ acc₃) :
    Gathers doc acc₁ acc₃ where
  vars := List.Subset.trans h₁.vars h₂.vars
  frags := List.Subset.trans h₁.frags h₂.frags
  bodies := by
    intro n hn
    rcases h₂.bodies n hn with hn | hbody
    · rcases h₁.bodies n hn with hn | hbody
      · exact .inl hn
      · exact .inr fun frag hfrag => List.Subset.trans (hbody frag hfrag) h₂.vars
    · exact .inr hbody

theorem gathers_insert (acc : Collected) (names : List Name) : Gathers doc acc (acc.insert names) :=
  ⟨List.subset_append_left .., List.Subset.refl _, fun _ hn => .inl hn⟩

theorem gathers_collectSet {enter : Name → Collected → Collected} (henter : ∀ n acc, Gathers doc acc (enter n acc))
    (s : Selections) (acc : Collected) :
    Gathers doc acc (collectSet enter s acc) ∧ s.vars ⊆ (collectSet enter s acc).vars := by
  induction s generalizing acc with
  | nil => exact ⟨.refl acc, List.nil_subset _⟩
  | field f ty sub rest ihsub ihrest =>
    obtain ⟨hsub, hsubVars⟩ := ihsub (acc.insert f.vars)
    obtain ⟨hrest, hrestVars⟩ := ihrest (collectSet enter sub (acc.insert f.vars))
    have hown : f.vars ⊆ (collectSet enter sub (acc.insert f.vars)).vars :=
      List.Subset.trans (List.subset_append_right ..) hsub.vars
    refine ⟨((gathers_insert acc _).trans hsub).trans hrest, ?_⟩
    exact List.append_subset.2 ⟨List.Subset.trans (List.append_subset.2 ⟨hown, hsubVars⟩) hrest.vars, hrestVars⟩
  | inlineFragment cond d ty sub rest ihsub ihrest =>
    obtain ⟨hsub, hsubVars⟩ := ihsub (acc.insert (directiveVariables d))
    obtain ⟨hrest, hrestVars⟩ := ihrest (collectSet enter sub (acc.insert (directiveVariables d)))
    have hown : directiveVariables d ⊆ (collectSet enter sub (acc.insert (directiveVariables d))).vars :=
      List.Subset.trans (List.subset_append_right ..) hsub.vars
    refine ⟨((gathers_insert acc _).trans hsub).trans hrest, ?_⟩
    exact List.append_subset.2 ⟨List.Subset.trans (List.append_subset.2 ⟨hown, hsubVars⟩) hrest.vars, hrestVars⟩
  | fragmentSpread n d rest ihrest =>
    have hn := henter n (acc.insert (directiveVariables d))
    obtain ⟨hrest, hrestVars⟩ := ihrest (enter n (acc.insert (directiveVariables d)))
    have hown : directiveVariables d ⊆ (enter n (acc.insert (directiveVariables d))).vars :=
      List.Subset.trans (List.subset_append_right ..) hn.vars
    refine ⟨((gathers_insert acc _).trans hn).trans hrest, ?_⟩
    exact List.append_subset.2 ⟨List.Subset.trans hown hrest.vars, hrestVars⟩

theorem gathers_enterFragment (fuel : ℕ) (n : Name) (acc : Collected) :
    Gathers doc acc (enterFragment doc fuel n acc) := by
  induction fuel generalizing n acc with
  | zero => exact .refl acc
  | succ fuel ih =>
    unfold enterFragment
    split
    · exact .refl acc
    · cases hfrag : doc.fragments.lookup n with
      | none =>
        refine ⟨List.Subset.refl _, List.subset_append_left .., fun m hm => ?_⟩
        rcases List.mem_append.1 hm with hm | hm
        · exact .inl hm
        · obtain rfl := List.mem_singleton.1 hm
          refine .inr fun frag hfrag' => ?_
          rw [hfrag] at hfrag'
          cases hfrag'
      | some frag =>
        obtain ⟨hset, hvars⟩ := gathers_collectSet ih frag.selections
          (Collected.insert ⟨acc.vars, acc.frags ++ [n]⟩ (directiveVariables frag.directives))
        refine ⟨List.Subset.trans (List.subset_append_left ..) hset.vars,
          List.Subset.trans (List.subset_append_left ..) hset.frags, fun m hm => ?_⟩
        rcases hset.bodies m hm with hm | hbody
        · rcases List.mem_append.1 hm with hm | hm
          · exact .inl hm
          · obtain rfl := List.mem_singleton.1 hm
            refine .inr fun frag' hfrag' => ?_
            rw [hfrag] at hfrag'
            cases hfrag'
            exact List.append_subset.2 ⟨List.Subset.trans (List.subset_append_right ..) hset.vars, hvars⟩
        · exact .inr hbody

/-- The variables and fragments are closed: everything a collected fragment uses is collected. -/
structure Collected.Closed (doc : Document) (acc : Collected) : Prop where
  spreads : ∀ n ∈ acc.frags, ∀ frag, doc.fragments.lookup n = some frag → frag.selections.spreads ⊆ acc.frags
  vars : ∀ n ∈ acc.frags, ∀ frag, doc.fragments.lookup n = some frag → frag.vars ⊆ acc.vars

/-- **What is collected is closed**, and has everything the fields themselves use. -/
theorem collected_closed (doc : Document) (fields : List FieldSelection) :
    (collectFields doc fields).Closed doc ∧ (selectionsOf fields).vars ⊆ (collectFields doc fields).vars ∧
      (selectionsOf fields).spreads ⊆ (collectFields doc fields).frags := by
  obtain ⟨hgathers, hvars⟩ :=
    gathers_collectSet (gathers_enterFragment (doc.fragments.length + 1)) (selectionsOf fields) ({} : Collected)
  -- The search that the fragments are met in has visited all it refers to.
  have hscan := frags_collectSet (@frags_enterFragment doc (doc.fragments.length + 1)) (selectionsOf fields) {}
  have hsupport : ∀ n, n ∉ doc.fragments.map Prod.fst → ∀ m, Item.ref m ∉ references doc n := by
    intro n hn m hm
    cases hfrag : doc.fragments.lookup n with
    | none => simp [references, hfrag] at hm
    | some frag =>
      obtain ⟨_, _, hsplit, _⟩ := List.lookup_eq_some_iff.1 hfrag
      exact hn (by simp [hsplit])
  have hpending : pending (doc.fragments.map Prod.fst) ([] : List Name) < doc.fragments.length + 1 := by
    have hle := List.toFinset_card_le (doc.fragments.map Prod.fst)
    simp only [pending, List.toFinset_nil, Finset.sdiff_empty]
    rw [List.length_map] at hle
    omega
  have hscanned := scan_scanned (doc.fragments.map Prod.fst)
    (fun n _ v v' => enter_scanned hsupport (doc.fragments.length + 1) n v v') [] _ hpending
    (show scan (enter (references doc) (doc.fragments.length + 1)) ((selectionsOf fields).spreads.map .ref) [] =
      (none, (collectFields doc fields).frags.reverse) by
      rw [collectFields, hscan]
      exact Prod.ext (Option.eq_none_iff_forall_not_mem.2 fun h => h.elim) rfl)
  refine ⟨⟨?_, ?_⟩, hvars, ?_⟩
  · intro n hn frag hfrag m hm
    have hadded := hscanned.addedRefs n (List.mem_reverse.2 hn) (by simp) m
      (by simp only [references, hfrag, Option.map_some, Option.getD_some]; exact List.mem_map_of_mem hm)
    exact List.mem_reverse.1 hadded
  · intro n hn
    rcases hgathers.bodies n hn with hnil | hbody
    · cases hnil
    · exact hbody
  · intro n hn
    exact List.mem_reverse.1 (hscanned.refs n (List.mem_map_of_mem hn))

end Collect

end G2way.Udg
