import G2way.GraphQl.Compose

/-!
# Planning a federated query

The `Planner` of `g2-middleware/src/graphql_federation.rs`. Each root field's
selection tree is split by ownership: "fields the owning subgraph resolves print
into its sub-query; a field on an entity type owned elsewhere becomes a
`FetchNode` (one per target subgraph per selection set), and the parent's printed
selection gains `__typename` plus the target's key fields (aliased `g2__<field>`
so client aliases can never collide)".

## The model

What is printed is kept as `Selections`, and `Selections.text` is how it is
printed; which variables a text uses is not modelled. A spread is printed as an
inline fragment with the selections of its fragment, so the planner is run on
selections whose spreads are inlined. The source walks a set once, printing it,
and then once more over the foreign fields it came by: `printSlice` is the first
walk, which keeps the outcome of the second (`Cut.sub`), and `finish` the second.

## What is proved

`printSlice_fields` and the lemmas beside it say once what a set is printed as;
`EverySet` is the induction over the sets a plan is made of, each with the
subgraph it is printed for.
-/

namespace G2way.GraphQl

open Lib Lib.Result Lib.Assoc

/-! ### Selections -/

/-- A selected field with its selection set. -/
structure SelectedField where
  field : Field
  /-- The type of the selection set; that of a field without one is not printed. -/
  ty : Name := ""
  selections : Selections := .nil
  deriving DecidableEq, Repr

namespace Selections

/-- No selections. -/
def isEmpty : Selections → Bool
  | .nil => true
  | _ => false

/-- The fields of a set, those of its fragments apart. -/
def fields : Selections → List Field
  | .nil => []
  | .field f _ _ rest => f :: rest.fields
  | .inlineFragment _ _ _ rest => rest.fields
  | .fragmentSpread _ _ rest => rest.fields

/-- They, with the sets below them. -/
def selected : Selections → List SelectedField
  | .nil => []
  | .field f ty sub rest => ⟨f, ty, sub⟩ :: rest.selected
  | .inlineFragment _ _ _ rest => rest.selected
  | .fragmentSpread _ _ rest => rest.selected

/-- The type conditions of the set's inline fragments. -/
def typeConditions : Selections → List Name
  | .nil => []
  | .field _ _ _ rest => rest.typeConditions
  | .inlineFragment _ ty _ rest => ty :: rest.typeConditions
  | .fragmentSpread _ _ rest => rest.typeConditions

/-- One list of selections after the other. -/
def append : Selections → Selections → Selections
  | .nil, other => other
  | .field f ty sub rest, other => .field f ty sub (rest.append other)
  | .inlineFragment d ty sub rest, other => .inlineFragment d ty sub (rest.append other)
  | .fragmentSpread n d rest, other => .fragmentSpread n d (rest.append other)

/-- The selections that are these fields. -/
def ofFields : List SelectedField → Selections
  | [] => .nil
  | f :: rest => .field f.field f.ty f.selections (ofFields rest)

/-- A property of the sets below a set, each with its type. -/
def EverySub (P : Name → Selections → Prop) : Selections → Prop
  | .nil => True
  | .field _ ty sub rest => P ty sub ∧ sub.EverySub P ∧ rest.EverySub P
  | .inlineFragment _ ty sub rest => P ty sub ∧ sub.EverySub P ∧ rest.EverySub P
  | .fragmentSpread _ _ rest => rest.EverySub P

end Selections

/-- A field as `print_field` prints it, its selections apart. -/
def Field.text (f : Field) : String :=
  (f.aliasName.map (· ++ ": ")).getD "" ++ f.name ++
    (if f.arguments.isEmpty then "" else "(" ++ ", ".intercalate (f.arguments.map fun a => a.1 ++ ": " ++ a.2) ++ ")") ++
    String.join (f.directives.map (" " ++ ·))

/-- Selections as they are printed, inside the braces. -/
def Selections.text : Selections → String
  | .nil => ""
  | .field f _ sub rest =>
    f.text ++ (if sub.isEmpty then "" else " \x7b " ++ sub.text ++ "\x7d") ++ " " ++ rest.text
  | .inlineFragment d ty sub rest =>
    "... on " ++ ty ++ String.join (d.map (" " ++ ·)) ++ " \x7b " ++ sub.text ++ "\x7d " ++ rest.text
  | .fragmentSpread _ _ rest => rest.text

/-! ### Plans -/

/-- One step of a `FetchNode` path. -/
inductive PathSeg where
  /-- Descend into this response key. -/
  | key (k : Name)
  /-- Keep only objects whose `__typename` matches. -/
  | typeCond (ty : Name)
  deriving DecidableEq, Repr

/-- `FetchNode`: the `_entities` call for foreign fields of one entity type from one subgraph. -/
structure FetchNode where
  /-- From the parent fetch's data root to the entity objects. -/
  path : List PathSeg
  /-- The entity type the representations name. -/
  typeName : Name
  subgraph : ℕ
  keyFields : List Name
  /-- The entity's pruned selections. -/
  selections : Selections
  children : List FetchNode

/-- `RootPlan`: the plan for one recorded root field. -/
structure RootPlan where
  subgraph : ℕ
  /-- The printed root fields, pruned to the owner's slice. -/
  selections : Selections
  children : List FetchNode

/-- A node of a plan, at any depth. -/
inductive FetchNode.Below : FetchNode → List FetchNode → Prop
  | here {node : FetchNode} {nodes : List FetchNode} : node ∈ nodes → Below node nodes
  | child {node parent : FetchNode} {nodes : List FetchNode} : parent ∈ nodes → Below node parent.children →
      Below node nodes

/-- A property of the nodes of a plan. -/
def AllNodes (P : FetchNode → Prop) (nodes : List FetchNode) : Prop := ∀ node, node.Below nodes → P node

section AllNodes

variable {P : FetchNode → Prop} {nodes nodes' : List FetchNode}

theorem allNodes_iff : AllNodes P nodes ↔ ∀ node ∈ nodes, P node ∧ AllNodes P node.children := by
  constructor
  · intro h node hnode
    exact ⟨h node (.here hnode), fun below hbelow => h below (.child hnode hbelow)⟩
  · rintro h node (hnode | ⟨hparent, hbelow⟩)
    · exact (h node hnode).1
    · exact (h _ hparent).2 node hbelow

@[simp] theorem allNodes_nil : AllNodes P [] := allNodes_iff.2 (by simp)

@[simp] theorem allNodes_append : AllNodes P (nodes ++ nodes') ↔ AllNodes P nodes ∧ AllNodes P nodes' := by
  rw [allNodes_iff, List.forall_mem_append, ← allNodes_iff, ← allNodes_iff]

theorem allNodes_flatMap {α : Type*} {l : List α} {f : α → List FetchNode} :
    AllNodes P (l.flatMap f) ↔ ∀ a ∈ l, AllNodes P (f a) := by
  induction l with
  | nil => simp
  | cons a l ih => simp [ih]

end AllNodes

/-! ### The planner -/

section Planner

variable (engine : ComposedSupergraph)

/-- The key of a type in a subgraph. -/
def ComposedSupergraph.keyOf (ty : Name) (s : ℕ) : Option (List Name) :=
  (engine.entityKeys.lookup ty).bind fun keys => keys.getD s none

/-- The subgraphs that resolve a field. -/
def ComposedSupergraph.ownersOf (ty field : Name) : List ℕ := (engine.fieldOwners.lookup (ty, field)).getD []

/-- Whether the subgraph of a set prints one of its fields itself. An unmapped entity field stays local. -/
def isLocal (sg : ℕ) (ty field : Name) : Bool :=
  isMeta field || (engine.entityKeys.lookup ty).isNone ||
    match engine.fieldOwners.lookup (ty, field) with
    | some owners => owners.contains sg
    | none => true

/-- The first owner reachable via `_entities`. -/
def targetOf (ty field : Name) : Option ℕ :=
  (engine.ownersOf ty field).find? fun s => (engine.keyOf ty s).isSome

/-- `pick_target`. -/
def pickTarget (ty field : Name) : Except String ℕ :=
  okOr (targetOf engine ty field) ("no subgraph with a resolvable key can supply fields of `" ++ ty ++ "`")

/-- A foreign field of a set: the subgraph it is cut to, and what it is printed as there with the
fetches below it. -/
structure Cut where
  target : ℕ
  field : Field
  printed : Except String (SelectedField × List FetchNode)

/-- What the walk over a set leaves. -/
structure Slice where
  /-- What is printed for the set's own subgraph. -/
  printed : Selections := .nil
  /-- The fetches below the fields and fragments that were printed. -/
  children : List FetchNode := []
  cuts : List Cut := []

/-- `__typename`. -/
def typenameField : Field := { name := "__typename" }

/-- The key field as it is injected. -/
def keyField (k : Name) : Field := { aliasName := some ("g2__" ++ k), name := k }

/-- The fetch of the fields that were cut to a target. -/
def fetchNode (ty : Name) (path : List PathSeg) (cuts : List Cut) (target : ℕ) : Except String FetchNode := do
  let fields ← (cuts.filter (·.target = target)).mapM Cut.printed
  return { path, typeName := ty, subgraph := target, keyFields := (engine.keyOf ty target).getD [],
           selections := .ofFields (fields.map Prod.fst), children := fields.flatMap Prod.snd }

/-- The key fields of the targets, each once. -/
def injectedKeys (ty : Name) (targets : List ℕ) : List Name :=
  (targets.flatMap fun t => (engine.keyOf ty t).getD []).eraseDups

/-- The end of `print_set`: the targets' key fields, and a fetch for each target. -/
def finish (ty : Name) (path : List PathSeg) (slice : Slice) : Except String (Selections × List FetchNode) := do
  let targets := (slice.cuts.map Cut.target).eraseDups
  let nodes ← targets.mapM fun target => fetchNode engine ty path slice.cuts target
  let keys := (injectedKeys engine ty targets).map fun k => { field := keyField k }
  return (.field typenameField "" .nil (slice.printed.append (.ofFields keys)), slice.children ++ nodes)

/-- A field with its selections printed, where it has any. -/
def finishField (f : SelectedField) (path : List PathSeg) (slice : Except String Slice) :
    Except String (SelectedField × List FetchNode) := do
  if f.selections.isEmpty then return (f, [])
  let (printed, children) ← slice >>= finish engine f.ty path
  return ({ f with selections := printed }, children)

/-- The path inside a fragment. -/
def fragmentPath (ty cond : Name) (path : List PathSeg) : List PathSeg :=
  if cond ≠ ty then path ++ [.typeCond cond] else path

/-- The walk of `print_set` over a set of type `ty`, for subgraph `sg`. -/
def printSlice : ℕ → Name → List PathSeg → Selections → Except String Slice
  | _, _, _, .nil => .ok {}
  | sg, ty, path, .field f fty sub rest =>
    if isLocal engine sg ty f.name then do
      let path' := path ++ [.key f.responseKey]
      let (printed, children) ← finishField engine ⟨f, fty, sub⟩ path' (printSlice sg fty path' sub)
      let slice ← printSlice sg ty path rest
      return { slice with printed := .field f fty printed.selections slice.printed,
                          children := children ++ slice.children }
    else do
      let target ← pickTarget engine ty f.name
      let path' := [.key f.responseKey]
      let cut := ⟨target, f, finishField engine ⟨f, fty, sub⟩ path' (printSlice target fty path' sub)⟩
      let slice ← printSlice sg ty path rest
      return { slice with cuts := cut :: slice.cuts }
  | sg, ty, path, .inlineFragment d cond sub rest => do
    let path' := fragmentPath ty cond path
    let (printed, children) ← printSlice sg cond path' sub >>= finish engine cond path'
    let slice ← printSlice sg ty path rest
    return { slice with printed := .inlineFragment d cond printed slice.printed,
                        children := children ++ slice.children }
  | _, _, _, .fragmentSpread n _ _ => .error ("fragment `" ++ n ++ "` is not defined")

/-- `print_set`. -/
def printSet (sg : ℕ) (ty : Name) (path : List PathSeg) (sel : Selections) :
    Except String (Selections × List FetchNode) :=
  printSlice engine sg ty path sel >>= finish engine ty path

/-- `print_field`. -/
def printField (sg : ℕ) (path : List PathSeg) (f : SelectedField) :
    Except String (SelectedField × List FetchNode) :=
  let path' := path ++ [.key f.field.responseKey]
  finishField engine f path' (printSlice engine sg f.ty path' f.selections)

/-- `RecordedField`: a requested root field, and its selections. -/
structure RecordedField where
  responseKey : Name
  fieldName : Name
  selections : List SelectedField

/-- The owner of a root field. -/
def rootOwner (rootType field : Name) : Option ℕ := (engine.ownersOf rootType field).head?

/-- The field with the spreads below it inlined. -/
def SelectedField.inlined (doc : ValidDocument) (f : SelectedField) : SelectedField :=
  { f with selections := f.selections.inlineSpreads doc.fragmentOf }

/-- `plan_root`. -/
def planRoot (doc : ValidDocument) (rootType : Name) (field : RecordedField) : Except String RootPlan := do
  let owner ← okOr (rootOwner engine rootType field.fieldName)
    ("no subgraph resolves `" ++ rootType ++ "." ++ field.fieldName ++ "`")
  let fields ← field.selections.mapM fun f => printField engine owner [] (f.inlined doc)
  return ⟨owner, .ofFields (fields.map Prod.fst), fields.flatMap Prod.snd⟩

/-! ### Sets and where they are printed -/

/-- The subgraph that is asked for a field of a set: the set's own, or the one it is cut to. -/
def placeOf (sg : ℕ) (ty field : Name) : Option ℕ :=
  if isLocal engine sg ty field then some sg else targetOf engine ty field

/-- A property of the sets below a set of type `ty` printed for `sg`, each with the subgraph it is
printed for and its type. -/
def EachSub (P : ℕ → Name → Selections → Prop) : ℕ → Name → Selections → Prop
  | _, _, .nil => True
  | sg, ty, .field f fty sub rest =>
    (∀ t, placeOf engine sg ty f.name = some t → P t fty sub ∧ EachSub P t fty sub) ∧ EachSub P sg ty rest
  | sg, ty, .inlineFragment _ cond sub rest => (P sg cond sub ∧ EachSub P sg cond sub) ∧ EachSub P sg ty rest
  | sg, ty, .fragmentSpread _ _ rest => EachSub P sg ty rest

/-- A property of the set and those below it. -/
def EverySet (P : ℕ → Name → Selections → Prop) (sg : ℕ) (ty : Name) (sel : Selections) : Prop :=
  P sg ty sel ∧ EachSub engine P sg ty sel

/-- The targets a set has fields cut to. -/
def cutTargets (sg : ℕ) (ty : Name) (sel : Selections) : List ℕ :=
  ((sel.fields.filter fun f => !isLocal engine sg ty f.name).filterMap fun f => targetOf engine ty f.name).eraseDups

/-- Every foreign field of a set can be cut to a target. -/
def HasTargets (sg : ℕ) (ty : Name) (sel : Selections) : Prop :=
  ∀ f ∈ sel.fields, (placeOf engine sg ty f.name).isSome

end Planner

/-! ### What is printed -/

namespace Selections

variable {P : Name → Selections → Prop}

@[simp] theorem fields_append (a b : Selections) : (a.append b).fields = a.fields ++ b.fields := by
  induction a with
  | nil => rfl
  | field f ty sub rest _ ih => simp [append, fields, ih]
  | inlineFragment d ty sub rest _ ih => simp [append, fields, ih]
  | fragmentSpread n d rest ih => simp [append, fields, ih]

theorem map_field_selected (sel : Selections) : sel.selected.map SelectedField.field = sel.fields := by
  induction sel with
  | nil => rfl
  | field f ty sub rest _ ih => simp [selected, fields, ih]
  | inlineFragment d ty sub rest _ ih => simp [selected, fields, ih]
  | fragmentSpread n d rest ih => simp [selected, fields, ih]

@[simp] theorem selected_append (a b : Selections) : (a.append b).selected = a.selected ++ b.selected := by
  induction a with
  | nil => rfl
  | field f ty sub rest _ ih => simp [append, selected, ih]
  | inlineFragment d ty sub rest _ ih => simp [append, selected, ih]
  | fragmentSpread n d rest ih => simp [append, selected, ih]

@[simp] theorem typeConditions_append (a b : Selections) :
    (a.append b).typeConditions = a.typeConditions ++ b.typeConditions := by
  induction a with
  | nil => rfl
  | field f ty sub rest _ ih => simp [append, typeConditions, ih]
  | inlineFragment d ty sub rest _ ih => simp [append, typeConditions, ih]
  | fragmentSpread n d rest ih => simp [append, typeConditions, ih]

@[simp] theorem everySub_append (a b : Selections) :
    (a.append b).EverySub P ↔ a.EverySub P ∧ b.EverySub P := by
  induction a with
  | nil => simp [append, EverySub]
  | field f ty sub rest _ ih => simp [append, EverySub, ih, and_assoc]
  | inlineFragment d ty sub rest _ ih => simp [append, EverySub, ih, and_assoc]
  | fragmentSpread n d rest ih => simp [append, EverySub, ih]

@[simp] theorem fields_ofFields (l : List SelectedField) : (ofFields l).fields = l.map SelectedField.field := by
  induction l with
  | nil => rfl
  | cons f l ih => simp [ofFields, fields, ih]

@[simp] theorem selected_ofFields (l : List SelectedField) : (ofFields l).selected = l := by
  induction l with
  | nil => rfl
  | cons f l ih => simp [ofFields, selected, ih]

@[simp] theorem typeConditions_ofFields (l : List SelectedField) : (ofFields l).typeConditions = [] := by
  induction l with
  | nil => rfl
  | cons f l ih => simp [ofFields, typeConditions, ih]

@[simp] theorem everySub_ofFields (l : List SelectedField) :
    (ofFields l).EverySub P ↔ ∀ f ∈ l, P f.ty f.selections ∧ f.selections.EverySub P := by
  induction l with
  | nil => simp [ofFields, EverySub]
  | cons f l ih => simp [ofFields, EverySub, ih, and_assoc]

end Selections

section Printed

variable {engine : ComposedSupergraph} {sg : ℕ} {ty : Name} {path : List PathSeg}

theorem printSlice_local {f : Field} {fty : Name} {sub rest : Selections} {slice : Slice}
    (hlocal : isLocal engine sg ty f.name = true) :
    printSlice engine sg ty path (.field f fty sub rest) = .ok slice ↔ ∃ printed children rest',
      printField engine sg path ⟨f, fty, sub⟩ = .ok (printed, children) ∧
        printSlice engine sg ty path rest = .ok rest' ∧
        slice = { rest' with printed := .field f fty printed.selections rest'.printed,
                             children := children ++ rest'.children } := by
  simp only [printSlice, if_pos hlocal, bind_eq_ok, pure_eq_ok, Prod.exists, printField, eq_comm (b := slice),
    exists_and_left]

theorem printSlice_cut {f : Field} {fty : Name} {sub rest : Selections} {slice : Slice}
    (hlocal : isLocal engine sg ty f.name = false) :
    printSlice engine sg ty path (.field f fty sub rest) = .ok slice ↔ ∃ target rest',
      targetOf engine ty f.name = some target ∧ printSlice engine sg ty path rest = .ok rest' ∧
        slice = { rest' with cuts := ⟨target, f, printField engine target [] ⟨f, fty, sub⟩⟩ :: rest'.cuts } := by
  simp only [printSlice, hlocal, Bool.false_eq_true, if_false, bind_eq_ok, pure_eq_ok, pickTarget, okOr_eq_ok,
    printField, eq_comm (b := slice), exists_and_left, List.nil_append]

theorem printSlice_inlineFragment {d : List String} {cond : Name} {sub rest : Selections} {slice : Slice} :
    printSlice engine sg ty path (.inlineFragment d cond sub rest) = .ok slice ↔ ∃ printed children rest',
      printSet engine sg cond (fragmentPath ty cond path) sub = .ok (printed, children) ∧
        printSlice engine sg ty path rest = .ok rest' ∧
        slice = { rest' with printed := .inlineFragment d cond printed rest'.printed,
                             children := children ++ rest'.children } := by
  simp only [printSlice, printSet, bind_eq_ok, pure_eq_ok, Prod.exists, eq_comm (b := slice), exists_and_left]

/-- The walk prints the local fields and the fragments of a set, and cuts its foreign fields. -/
theorem printSlice_fields {sel : Selections} {slice : Slice} (h : printSlice engine sg ty path sel = .ok slice) :
    slice.printed.fields = sel.fields.filter (fun f => isLocal engine sg ty f.name) ∧
      slice.printed.typeConditions = sel.typeConditions ∧
      slice.cuts.map (fun cut => (cut.field, some cut.target)) =
        (sel.fields.filter fun f => !isLocal engine sg ty f.name).map fun f => (f, targetOf engine ty f.name) := by
  induction sel generalizing slice with
  | nil =>
    obtain rfl : _ = slice := by simpa [printSlice] using h
    exact ⟨rfl, rfl, rfl⟩
  | field f fty sub rest _ ih =>
    cases hlocal : isLocal engine sg ty f.name with
    | true =>
      obtain ⟨printed, children, rest', -, hrest, rfl⟩ := (printSlice_local hlocal).1 h
      obtain ⟨hfields, hconds, hcuts⟩ := ih hrest
      simp [Selections.fields, Selections.typeConditions, hlocal, hfields, hconds, hcuts]
    | false =>
      obtain ⟨target, rest', htarget, hrest, rfl⟩ := (printSlice_cut hlocal).1 h
      obtain ⟨hfields, hconds, hcuts⟩ := ih hrest
      simp [Selections.fields, Selections.typeConditions, hlocal, hfields, hconds, hcuts, htarget]
  | inlineFragment d cond sub rest _ ih =>
    obtain ⟨printed, children, rest', -, hrest, rfl⟩ := printSlice_inlineFragment.1 h
    obtain ⟨hfields, hconds, hcuts⟩ := ih hrest
    simp [Selections.fields, Selections.typeConditions, hfields, hconds, hcuts]
  | fragmentSpread n d rest ih => cases h

/-- The targets of the cuts are the set's. -/
theorem printSlice_targets {sel : Selections} {slice : Slice} (h : printSlice engine sg ty path sel = .ok slice) :
    (slice.cuts.map Cut.target).eraseDups = cutTargets engine sg ty sel := by
  obtain ⟨-, -, hcuts⟩ := printSlice_fields h
  have htargets := congrArg (List.filterMap Prod.snd) hcuts
  rw [List.filterMap_map, List.filterMap_map] at htargets
  rw [cutTargets, ← List.filterMap_eq_map]
  exact congrArg List.eraseDups htargets

theorem printField_eq_ok {f g : SelectedField} {children : List FetchNode} :
    printField engine sg path f = .ok (g, children) ↔
      if f.selections.isEmpty then g = f ∧ children = []
      else ∃ printed, printSet engine sg f.ty (path ++ [.key f.field.responseKey]) f.selections =
        .ok (printed, children) ∧ g = { f with selections := printed } := by
  unfold printField finishField
  split_ifs with hempty
  · rw [pure_eq_ok, Prod.mk.injEq, eq_comm, eq_comm (b := children)]
  · simp only [printSet, bind_eq_ok, pure_eq_ok, Prod.mk.injEq, Prod.exists]
    constructor
    · rintro ⟨printed, nodes, hset, rfl, rfl⟩
      exact ⟨printed, hset, rfl⟩
    · rintro ⟨printed, hset, rfl⟩
      exact ⟨printed, children, hset, rfl, rfl⟩

/-- A field is printed as itself, with other selections. -/
theorem printField_same {f g : SelectedField} {children : List FetchNode}
    (h : printField engine sg path f = .ok (g, children)) : g.field = f.field ∧ g.ty = f.ty := by
  have hfield := printField_eq_ok.1 h
  split_ifs at hfield
  · rw [hfield.1]
    exact ⟨rfl, rfl⟩
  · obtain ⟨printed, -, rfl⟩ := hfield
    exact ⟨rfl, rfl⟩

/-- The fields of a set that stay are printed in their places, with what the sets below them are printed as. -/
theorem printSlice_selected {sel : Selections} {slice : Slice} (h : printSlice engine sg ty path sel = .ok slice) :
    List.Forall₂ (fun f g => ∃ nodes, printField engine sg path f = .ok (g, nodes))
      (sel.selected.filter fun f => isLocal engine sg ty f.field.name) slice.printed.selected := by
  induction sel generalizing slice with
  | nil =>
    obtain rfl : _ = slice := by simpa [printSlice] using h
    exact .nil
  | field f fty sub rest _ ih =>
    cases hlocal : isLocal engine sg ty f.name with
    | true =>
      obtain ⟨⟨g, gty, gsub⟩, children, rest', hfield, hrest, rfl⟩ := (printSlice_local hlocal).1 h
      obtain ⟨rfl, rfl⟩ : g = f ∧ gty = fty := printField_same hfield
      simp only [Selections.selected, List.filter_cons, hlocal, if_true]
      exact .cons ⟨children, hfield⟩ (ih hrest)
    | false =>
      obtain ⟨target, rest', -, hrest, rfl⟩ := (printSlice_cut hlocal).1 h
      have hfields := ih hrest
      simpa only [Selections.selected, List.filter_cons, hlocal, Bool.false_eq_true, if_false] using hfields
  | inlineFragment d cond sub rest _ ih =>
    obtain ⟨printed, children, rest', -, hrest, rfl⟩ := printSlice_inlineFragment.1 h
    have hfields := ih hrest
    exact hfields
  | fragmentSpread n d rest ih => cases h

/-- Its foreign fields are cut, each to its target. -/
theorem printSlice_cuts {sel : Selections} {slice : Slice} (h : printSlice engine sg ty path sel = .ok slice) :
    List.Forall₂ (fun f cut => targetOf engine ty f.field.name = some cut.target ∧
        cut.printed = printField engine cut.target [] f)
      (sel.selected.filter fun f => !isLocal engine sg ty f.field.name) slice.cuts := by
  induction sel generalizing slice with
  | nil =>
    obtain rfl : _ = slice := by simpa [printSlice] using h
    exact .nil
  | field f fty sub rest _ ih =>
    cases hlocal : isLocal engine sg ty f.name with
    | true =>
      obtain ⟨printed, children, rest', -, hrest, rfl⟩ := (printSlice_local hlocal).1 h
      have hcuts := ih hrest
      simpa only [Selections.selected, List.filter_cons, hlocal, Bool.not_true, Bool.false_eq_true, if_false] using hcuts
    | false =>
      obtain ⟨target, rest', htarget, hrest, rfl⟩ := (printSlice_cut hlocal).1 h
      simp only [Selections.selected, List.filter_cons, hlocal, Bool.not_false, if_true]
      exact .cons ⟨htarget, rfl⟩ (ih hrest)
  | inlineFragment d cond sub rest _ ih =>
    obtain ⟨printed, children, rest', -, hrest, rfl⟩ := printSlice_inlineFragment.1 h
    have hcuts := ih hrest
    exact hcuts
  | fragmentSpread n d rest ih => cases h

theorem printSet_eq_ok {sel printed : Selections} {nodes : List FetchNode} :
    printSet engine sg ty path sel = .ok (printed, nodes) ↔ ∃ slice fetches,
      printSlice engine sg ty path sel = .ok slice ∧
        List.Forall₂ (fun t node => fetchNode engine ty path slice.cuts t = .ok node)
          (cutTargets engine sg ty sel) fetches ∧
        nodes = slice.children ++ fetches ∧
        printed = .field typenameField "" .nil (slice.printed.append (.ofFields
          ((injectedKeys engine ty (cutTargets engine sg ty sel)).map fun k => { field := keyField k }))) := by
  simp only [printSet, finish, bind_eq_ok, pure_eq_ok, Prod.mk.injEq, mapM_eq_ok]
  constructor
  · rintro ⟨slice, hslice, fetches, hfetches, rfl, rfl⟩
    rw [printSlice_targets hslice] at hfetches ⊢
    exact ⟨slice, fetches, hslice, hfetches, rfl, rfl⟩
  · rintro ⟨slice, fetches, hslice, hfetches, rfl, rfl⟩
    rw [← printSlice_targets hslice] at hfetches ⊢
    exact ⟨slice, hslice, fetches, hfetches, rfl, rfl⟩

/-! #### When planning succeeds -/

theorem exists_fetchNode_iff {cuts : List Cut} {t : ℕ} : (∃ node, fetchNode engine ty path cuts t = .ok node) ↔
    ∀ cut ∈ cuts, cut.target = t → ∃ p, cut.printed = .ok p := by
  have hfields : (∃ fields, (cuts.filter (·.target = t)).mapM Cut.printed = .ok fields) ↔
      ∀ cut ∈ cuts, cut.target = t → ∃ p, cut.printed = .ok p := by
    simp only [exists_mapM_eq_ok, List.mem_filter, decide_eq_true_eq, and_imp]
  rw [← hfields]
  simp only [fetchNode, bind_eq_ok, pure_eq_ok]
  constructor
  · rintro ⟨-, fields, hfields, rfl⟩
    exact ⟨fields, hfields⟩
  · rintro ⟨fields, hfields⟩
    exact ⟨_, fields, hfields, rfl⟩

/-- The walk succeeds, and so does printing each of the cuts. -/
def SliceOk (engine : ComposedSupergraph) (sg : ℕ) (ty : Name) (path : List PathSeg) (sel : Selections) : Prop :=
  ∃ slice, printSlice engine sg ty path sel = .ok slice ∧ ∀ cut ∈ slice.cuts, ∃ p, cut.printed = .ok p

theorem exists_printSet_iff {sel : Selections} :
    (∃ r, printSet engine sg ty path sel = .ok r) ↔ SliceOk engine sg ty path sel := by
  have hfetches {slice : Slice} (hslice : printSlice engine sg ty path sel = .ok slice) :
      (∃ fetches, (cutTargets engine sg ty sel).mapM (fetchNode engine ty path slice.cuts) = .ok fetches) ↔
        ∀ cut ∈ slice.cuts, ∃ p, cut.printed = .ok p := by
    simp only [exists_mapM_eq_ok, exists_fetchNode_iff, ← printSlice_targets hslice, List.mem_eraseDups,
      List.mem_map]
    exact ⟨fun h cut hcut => h _ ⟨cut, hcut, rfl⟩ cut hcut rfl, fun h _ _ cut hcut _ => h cut hcut⟩
  constructor
  · rintro ⟨⟨printed, nodes⟩, h⟩
    obtain ⟨slice, fetches, hslice, hall, -, -⟩ := printSet_eq_ok.1 h
    exact ⟨slice, hslice, (hfetches hslice).1 ⟨fetches, mapM_eq_ok.2 hall⟩⟩
  · rintro ⟨slice, hslice, hcuts⟩
    obtain ⟨fetches, hall⟩ := (hfetches hslice).2 hcuts
    exact ⟨_, printSet_eq_ok.2 ⟨slice, fetches, hslice, mapM_eq_ok.1 hall, rfl, rfl⟩⟩

theorem exists_printField_iff {f : SelectedField} (ih : ∀ path, SliceOk engine sg f.ty path f.selections ↔
    EverySet engine (HasTargets engine) sg f.ty f.selections) :
    (∃ r, printField engine sg path f = .ok r) ↔ EverySet engine (HasTargets engine) sg f.ty f.selections := by
  rw [← ih (path ++ [.key f.field.responseKey]), ← exists_printSet_iff]
  simp only [Prod.exists, printField_eq_ok]
  cases hsel : f.selections with
  | nil =>
    simp only [Selections.isEmpty, if_true]
    exact ⟨fun _ => ⟨_, _, rfl⟩, fun _ => ⟨f, [], rfl, rfl⟩⟩
  | _ =>
    simp only [Selections.isEmpty, Bool.false_eq_true, if_false]
    constructor
    · rintro ⟨-, children, printed, hset, -⟩
      exact ⟨printed, children, hset⟩
    · rintro ⟨printed, children, hset⟩
      exact ⟨_, children, printed, hset, rfl⟩

theorem sliceOk_local {f : Field} {fty : Name} {sub rest : Selections}
    (hlocal : isLocal engine sg ty f.name = true) : SliceOk engine sg ty path (.field f fty sub rest) ↔
      (∃ r, printField engine sg path ⟨f, fty, sub⟩ = .ok r) ∧ SliceOk engine sg ty path rest := by
  unfold SliceOk
  constructor
  · rintro ⟨slice, hslice, hcuts⟩
    obtain ⟨printed, children, rest', hfield, hrest, rfl⟩ := (printSlice_local hlocal).1 hslice
    exact ⟨⟨_, hfield⟩, rest', hrest, hcuts⟩
  · rintro ⟨⟨⟨printed, children⟩, hfield⟩, rest', hrest, hcuts⟩
    exact ⟨_, (printSlice_local hlocal).2 ⟨printed, children, rest', hfield, hrest, rfl⟩, hcuts⟩

theorem sliceOk_cut {f : Field} {fty : Name} {sub rest : Selections}
    (hlocal : isLocal engine sg ty f.name = false) : SliceOk engine sg ty path (.field f fty sub rest) ↔
      (∃ t, targetOf engine ty f.name = some t ∧ ∃ r, printField engine t [] ⟨f, fty, sub⟩ = .ok r) ∧
        SliceOk engine sg ty path rest := by
  unfold SliceOk
  constructor
  · rintro ⟨slice, hslice, hcuts⟩
    obtain ⟨target, rest', htarget, hrest, rfl⟩ := (printSlice_cut hlocal).1 hslice
    obtain ⟨hcut, hcuts⟩ := List.forall_mem_cons.1 hcuts
    exact ⟨⟨target, htarget, hcut⟩, rest', hrest, hcuts⟩
  · rintro ⟨⟨target, htarget, hcut⟩, rest', hrest, hcuts⟩
    exact ⟨_, (printSlice_cut hlocal).2 ⟨target, rest', htarget, hrest, rfl⟩, List.forall_mem_cons.2 ⟨hcut, hcuts⟩⟩

theorem sliceOk_inlineFragment {d : List String} {cond : Name} {sub rest : Selections} :
    SliceOk engine sg ty path (.inlineFragment d cond sub rest) ↔
      SliceOk engine sg cond (fragmentPath ty cond path) sub ∧ SliceOk engine sg ty path rest := by
  have hset : (∃ r, printSet engine sg cond (fragmentPath ty cond path) sub = .ok r) ↔
      SliceOk engine sg cond (fragmentPath ty cond path) sub := exists_printSet_iff
  rw [← hset]
  unfold SliceOk
  constructor
  · rintro ⟨slice, hslice, hcuts⟩
    obtain ⟨printed, children, rest', hset, hrest, rfl⟩ := printSlice_inlineFragment.1 hslice
    exact ⟨⟨_, hset⟩, rest', hrest, hcuts⟩
  · rintro ⟨⟨⟨printed, children⟩, hset⟩, rest', hrest, hcuts⟩
    exact ⟨_, printSlice_inlineFragment.2 ⟨printed, children, rest', hset, hrest, rfl⟩, hcuts⟩

/-- Planning a set succeeds if every foreign field, at any depth, can be cut to a target. -/
theorem sliceOk_iff {sel : Selections} (hspreads : sel.spreads = []) :
    SliceOk engine sg ty path sel ↔ EverySet engine (HasTargets engine) sg ty sel := by
  induction sel generalizing sg ty path with
  | nil => exact ⟨fun _ => ⟨by simp [HasTargets, Selections.fields], trivial⟩, fun _ => ⟨{}, rfl, by simp⟩⟩
  | field f fty sub rest ihsub ihrest =>
    obtain ⟨hsub, hrest⟩ : sub.spreads = [] ∧ rest.spreads = [] := by simpa [Selections.spreads] using hspreads
    have hfield {t : ℕ} {path : List PathSeg} : (∃ r, printField engine t path ⟨f, fty, sub⟩ = .ok r) ↔
        EverySet engine (HasTargets engine) t fty sub := exists_printField_iff fun _ => ihsub hsub
    cases hlocal : isLocal engine sg ty f.name with
    | true =>
      rw [sliceOk_local hlocal, hfield, ihrest hrest]
      simp only [EverySet, HasTargets, Selections.fields, EachSub, List.forall_mem_cons, placeOf, hlocal, if_true,
        Option.isSome_some, true_and, Option.some.injEq, forall_eq']
      exact and_left_comm
    | false =>
      rw [sliceOk_cut hlocal, ihrest hrest]
      simp only [hfield, EverySet, HasTargets, Selections.fields, EachSub, List.forall_mem_cons, placeOf, hlocal,
        Bool.false_eq_true, if_false]
      cases htarget : targetOf engine ty f.name with
      | none => simp
      | some t =>
        simp only [Option.some.injEq, exists_eq_left', Option.isSome_some, true_and, forall_eq']
        exact and_left_comm
  | inlineFragment d cond sub rest ihsub ihrest =>
    obtain ⟨hsub, hrest⟩ : sub.spreads = [] ∧ rest.spreads = [] := by simpa [Selections.spreads] using hspreads
    rw [sliceOk_inlineFragment, ihsub hsub, ihrest hrest]
    exact and_left_comm
  | fragmentSpread n d rest _ => simp [Selections.spreads] at hspreads

end Printed

end G2way.GraphQl
