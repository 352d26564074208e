import G2way.GraphQl.Planner
import G2way.Lib.JsonPlace
import G2way.Udg.Printing

/-!
# The texts of federated sub-queries

The texts that the `Planner` of `g2-middleware/src/graphql_federation.rs` prints, with
the variables it collects beside them, and the operations that `print_operation` makes
of them. `GraphQl.Planner` has the same walk with what is printed as selections, and
without the variables: the plans of the two have the same fetches (`planRoot_same`).

## The model

A text is its tokens. A spread is printed as an inline fragment with the selections of
its fragment, "so subgraphs never need the client's fragment definitions"; fuel bounds
the nesting of fragments, and a valid document has enough of it (`spreadFragment_eq`).
The loop that looks for the name of the variable of the representations is given a step
more than there are variables.

## What is proved

The variables collected are those of the text (`planRoot_ok`, for the root and for every
fetch below it), and the name of the representations is no variable of the operation
(`repsVarName_not_mem`). With the sub-queries of data sources this is
`subqueries_closed`.
-/

namespace G2way.Udg.Federation

open G2way.GraphQl (Name PathSeg ComposedSupergraph isLocal pickTarget injectedKeys fragmentPath rootOwner)
open G2way.Lib G2way.Lib.Result

variable {Num : Type}

/-! ### Plans -/

/-- `FetchNode`. -/
structure FetchNode where
  path : List PathSeg
  typeName : Name
  subgraph : ℕ
  keyFields : List Name
  /-- The entity's pruned selections. -/
  text : List Token
  /-- The variables the selections use. -/
  vars : List Name
  children : List FetchNode

/-- `RootPlan`. -/
structure RootPlan where
  subgraph : ℕ
  text : List Token
  vars : List Name
  children : List FetchNode

/-- A property of a fetch and of those below it. -/
inductive Every (P : FetchNode → Prop) : FetchNode → Prop where
  | node {node : FetchNode} (h : P node) (hchildren : ∀ c ∈ node.children, Every P c) : Every P node

/-! ### Printing -/

/-- What a call of the printer adds: to the text, to the variables and to the fetches. -/
structure Printed where
  text : List Token := []
  vars : List Name := []
  children : List FetchNode := []

/-- One after the other. -/
def Printed.append (a b : Printed) : Printed := ⟨a.text ++ b.text, a.vars ++ b.vars, a.children ++ b.children⟩

/-- One after another. -/
def Printed.join (ps : List Printed) : Printed := ps.foldr Printed.append {}

/-- A field up to its selections. -/
def openField (f : Field) : Printed := ⟨f.print, f.vars, []⟩

/-- A fragment up to its selections. -/
def openFragment (cond : Name) (directives : List Directive) : Printed :=
  ⟨[.word "...", .word "on", .word cond] ++ printDirectives directives, directiveVariables directives, []⟩

/-- A set in its braces. -/
def Printed.braces (p : Printed) : Printed := { p with text := bracketed "\x7b" "\x7d" p.text }

/-- A foreign field: the subgraph it is cut to, and what it is printed as there. -/
structure Cut where
  target : ℕ
  printed : Except String Printed

/-- What the walk over a set leaves. -/
structure Slice where
  printed : Printed := {}
  cuts : List Cut := []

section Planner

variable (engine : ComposedSupergraph)

/-- The fetch of the fields that were cut to a target. -/
def fetchNode (ty : Name) (path : List PathSeg) (cuts : List Cut) (target : ℕ) : Except String FetchNode := do
  let printed ← (cuts.filter (·.target = target)).mapM Cut.printed
  return { path, typeName := ty, subgraph := target, keyFields := (engine.keyOf ty target).getD [],
           text := (Printed.join printed).text, vars := (Printed.join printed).vars,
           children := (Printed.join printed).children }

/-- The end of `print_set`: the targets' key fields, and a fetch for each target. -/
def finish (ty : Name) (path : List PathSeg) (slice : Slice) : Except String Printed := do
  let targets := (slice.cuts.map Cut.target).eraseDups
  let nodes ← targets.mapM fun target => fetchNode engine ty path slice.cuts target
  let keys := (injectedKeys engine ty targets).flatMap fun k => [Token.word ("g2__" ++ k), .word ":", .word k]
  return ⟨.word "__typename" :: (slice.printed.text ++ keys), slice.printed.vars, slice.printed.children ++ nodes⟩

/-- `print_field`, given the walk over its selections. -/
def finishField (f : Field) (ty : Name) (sub : Selections) (path : List PathSeg) (slice : Except String Slice) :
    Except String Printed := do
  if sub.isEmpty then return openField f
  let printed ← slice >>= finish engine ty path
  return (openField f).append printed.braces

/-- The walk of `print_set` over a set of type `ty`, for subgraph `sg`, given what is done at a spread. -/
def printSlice (spread : ℕ → Name → List PathSeg → Name → List Directive → Except String Printed) :
    ℕ → Name → List PathSeg → Selections → Except String Slice
  | _, _, _, .nil => .ok {}
  | sg, ty, path, .field f fty sub rest =>
    if isLocal engine sg ty f.name then do
      let path' := path ++ [.key f.responseKey]
      let printed ← finishField engine f fty sub path' (printSlice spread sg fty path' sub)
      let slice ← printSlice spread sg ty path rest
      return { slice with printed := printed.append slice.printed }
    else do
      let target ← pickTarget engine ty f.name
      let path' := [.key f.responseKey]
      let cut := ⟨target, finishField engine f fty sub path' (printSlice spread target fty path' sub)⟩
      let slice ← printSlice spread sg ty path rest
      return { slice with cuts := cut :: slice.cuts }
  | sg, ty, path, .inlineFragment _ d cond sub rest => do
    let path' := fragmentPath ty cond path
    let printed ← printSlice spread sg cond path' sub >>= finish engine cond path'
    let slice ← printSlice spread sg ty path rest
    return { slice with printed := ((openFragment cond d).append printed.braces).append slice.printed }
  | sg, ty, path, .fragmentSpread n d rest => do
    let printed ← spread sg ty path n d
    let slice ← printSlice spread sg ty path rest
    return { slice with printed := printed.append slice.printed }

/-- A spread, printed as the inline fragment it stands for. -/
def spreadFragment (doc : Document) :
    ℕ → ℕ → Name → List PathSeg → Name → List Directive → Except String Printed
  | 0, _, _, _, n, _ => .error ("fragment `" ++ n ++ "` is not defined")
  | fuel + 1, sg, ty, path, n, d =>
    match doc.fragments.lookup n with
    | none => .error ("fragment `" ++ n ++ "` is not defined")
    | some frag => do
      let path' := fragmentPath ty frag.ty path
      let printed ← printSlice engine (spreadFragment doc fuel) sg frag.ty path' frag.selections >>=
        finish engine frag.ty path'
      return (openFragment frag.ty d).append printed.braces

/-- `print_field`. -/
def printField (doc : Document) (sg : ℕ) (path : List PathSeg) (x : FieldSelection) : Except String Printed :=
  let path' := path ++ [.key x.field.responseKey]
  finishField engine x.field x.ty x.selections path'
    (printSlice engine (spreadFragment engine doc doc.fragments.length) sg x.ty path' x.selections)

/-- `plan_root`. -/
def planRoot (doc : Document) (rootType fieldName : Name) (fields : List FieldSelection) : Except String RootPlan := do
  let owner ← okOr (rootOwner engine rootType fieldName)
    ("no subgraph resolves `" ++ rootType ++ "." ++ fieldName ++ "`")
  let printed ← fields.mapM fun x => printField engine doc owner [] x
  return ⟨owner, (Printed.join printed).text, (Printed.join printed).vars, (Printed.join printed).children⟩

end Planner

/-! ### Operations -/

/-- `print_operation`. -/
def printOperation (keyword : String) (extra : Option VariableDefinition) (op : Operation) (vars : List Name)
    (body : List Token) : Query where
  keyword
  definitions := extra.toList ++ op.vars.filter fun v => v.name ∈ vars
  body

/-- `filtered_variables`. -/
def filteredVariables (raw : JsonMap Num) (vars : List Name) : JsonMap Num := raw.filter fun p => p.1 ∈ vars

/-- The loop of `reps_var_name`. -/
def repsLoop (names : List Name) : ℕ → Name → Name
  | 0, name => name
  | fuel + 1, name => if name ∈ names then repsLoop names fuel (name ++ "_") else name

/-- `reps_var_name`. -/
def repsVarName (op : Operation) : Name :=
  repsLoop (op.vars.map VariableDefinition.name) (op.vars.length + 1) "g2_representations"

/-- The operation of a root field, and the variables sent with it (`run_root`). -/
def rootRequest (op : Operation) (plan : RootPlan) (raw : JsonMap Num) : Query × JsonMap Num :=
  (printOperation (operationKeyword op.operationType) none op plan.vars plan.text, filteredVariables raw plan.vars)

/-- The definition of the variable of the representations. -/
def repsDefinition (op : Operation) : VariableDefinition where
  name := repsVarName op
  ty := .nonNull (.list (.nonNull (.named "_Any")))

/-- The `_entities` call of a fetch below. -/
def entitiesBody (op : Operation) (node : FetchNode) : List Token :=
  [.word "_entities", .word "(", .word "representations", .word ":", .dollar (repsVarName op), .word ")"] ++
    bracketed "\x7b" "\x7d" ([.word "...", .word "on", .word node.typeName] ++ bracketed "\x7b" "\x7d" node.text)

/-- The operation of a fetch below, and the variables sent with it (`resolve_children`). -/
def childRequest (op : Operation) (node : FetchNode) (reps : List (Json Num)) (raw : JsonMap Num) :
    Query × JsonMap Num :=
  (printOperation "query" (some (repsDefinition op)) op node.vars (entitiesBody op node),
    Json.insert (repsVarName op) (.array reps) (filteredVariables raw node.vars))

/-! ### The variables collected are those of the text -/

/-- The variables are those that occur in the text, and all of them are among `S`. -/
def Exact (S : Name → Prop) (text : List Token) (vars : List Name) : Prop :=
  ∀ x, (x ∈ vars ↔ x ∈ variablesOf text) ∧ (x ∈ vars → S x)

/-- A call of the printer is exact, and so are the fetches it adds. -/
structure Printed.Ok (S : Name → Prop) (p : Printed) : Prop where
  exact : Exact S p.text p.vars
  children : ∀ c ∈ p.children, Every (fun node => Exact S node.text node.vars) c

section Ok

variable {S : Name → Prop} {engine : ComposedSupergraph}

theorem Exact.append {a b : List Token} {va vb : List Name} (ha : Exact S a va) (hb : Exact S b vb) :
    Exact S (a ++ b) (va ++ vb) := by
  intro x
  rw [variablesOf_append, List.mem_append, List.mem_append, (ha x).1, (hb x).1]
  exact ⟨Iff.rfl, fun hx => hx.elim (fun h => (ha x).2 ((ha x).1.2 h)) fun h => (hb x).2 ((hb x).1.2 h)⟩

/-- Tokens that are no variables change nothing. -/
theorem Exact.of_variables {a b : List Token} {vars : List Name} (h : Exact S a vars)
    (hvars : variablesOf b = variablesOf a) : Exact S b vars := by
  intro x
  rw [hvars]
  exact h x

theorem Printed.Ok.append {a b : Printed} (ha : a.Ok S) (hb : b.Ok S) : (a.append b).Ok S :=
  ⟨ha.exact.append hb.exact, List.forall_mem_append.2 ⟨ha.children, hb.children⟩⟩

theorem Printed.ok_empty : Printed.Ok S {} :=
  ⟨fun _ => ⟨Iff.rfl, fun hx => absurd hx List.not_mem_nil⟩, fun _ hc => absurd hc List.not_mem_nil⟩

theorem Printed.ok_join {ps : List Printed} (h : ∀ p ∈ ps, p.Ok S) : (Printed.join ps).Ok S := by
  induction ps with
  | nil => exact Printed.ok_empty
  | cons p ps ih => exact (h p List.mem_cons_self).append (ih fun q hq => h q (List.mem_cons_of_mem _ hq))

theorem Printed.Ok.braces {p : Printed} (h : p.Ok S) : p.braces.Ok S :=
  ⟨h.exact.of_variables (variablesOf_bracketed ..), h.children⟩

theorem openField_ok {f : Field} (h : ∀ x ∈ f.vars, S x) : (openField f).Ok S :=
  ⟨fun x => ⟨by rw [openField, variables_printField], h x⟩, fun _ hc => absurd hc List.not_mem_nil⟩

theorem openFragment_ok (cond : Name) {d : List Directive} (h : ∀ x ∈ directiveVariables d, S x) :
    (openFragment cond d).Ok S := by
  refine ⟨fun x => ⟨?_, h x⟩, fun _ hc => absurd hc List.not_mem_nil⟩
  simp [openFragment, variables_printDirectives]

/-- The walk over a set is exact, and what it cut is where it was printed. -/
structure Slice.Ok (S : Name → Prop) (slice : Slice) : Prop where
  printed : slice.printed.Ok S
  cuts : ∀ cut ∈ slice.cuts, ∀ p, cut.printed = .ok p → p.Ok S

theorem fetchNode_ok {ty : Name} {path : List PathSeg} {cuts : List Cut} {target : ℕ} {node : FetchNode}
    (hcuts : ∀ cut ∈ cuts, ∀ p, cut.printed = .ok p → p.Ok S) (h : fetchNode engine ty path cuts target = .ok node) :
    Every (fun node => Exact S node.text node.vars) node := by
  unfold fetchNode at h
  obtain ⟨printed, hprinted, h⟩ := bind_eq_ok.1 h
  obtain rfl := pure_eq_ok.1 h
  have hall : ∀ p ∈ printed, p.Ok S :=
    (forall_mem_mapM hprinted).2 fun cut hcut p hp => hcuts cut (List.mem_of_mem_filter hcut) p hp
  have hjoin := Printed.ok_join hall
  exact .node hjoin.exact hjoin.children

theorem variablesOf_keys (keys : List Name) :
    variablesOf (keys.flatMap fun k => [Token.word ("g2__" ++ k), .word ":", .word k]) = [] := by
  induction keys with
  | nil => rfl
  | cons k keys ih => rw [List.flatMap_cons, variablesOf_append, ih]; rfl

theorem finish_ok {ty : Name} {path : List PathSeg} {slice : Slice} {p : Printed} (hslice : slice.Ok S)
    (h : finish engine ty path slice = .ok p) : p.Ok S := by
  unfold finish at h
  obtain ⟨nodes, hnodes, h⟩ := bind_eq_ok.1 h
  obtain rfl := pure_eq_ok.1 h
  refine ⟨hslice.printed.exact.of_variables ?_, List.forall_mem_append.2 ⟨hslice.printed.children, ?_⟩⟩
  · rw [variablesOf_word, variablesOf_append, variablesOf_keys, List.append_nil]
  · exact (forall_mem_mapM hnodes).2 fun target _ node hnode => fetchNode_ok hslice.cuts hnode

theorem finishField_ok {f : Field} {ty : Name} {sub : Selections} {path : List PathSeg} {slice : Except String Slice}
    {p : Printed} (hf : ∀ x ∈ f.vars, S x) (hslice : ∀ s, slice = .ok s → s.Ok S)
    (h : finishField engine f ty sub path slice = .ok p) : p.Ok S := by
  unfold finishField at h
  split_ifs at h with hempty
  · obtain rfl := pure_eq_ok.1 h
    exact openField_ok hf
  · obtain ⟨printed, hprinted, h⟩ := bind_eq_ok.1 h
    obtain ⟨s, hs, hfinish⟩ := bind_eq_ok.1 hprinted
    obtain rfl := pure_eq_ok.1 h
    exact (openField_ok hf).append (finish_ok (hslice s hs) hfinish).braces

/-- **The walk collects the variables it prints.** -/
theorem printSlice_ok {spread : ℕ → Name → List PathSeg → Name → List Directive → Except String Printed}
    {s : Selections} (hvars : ∀ x ∈ s.vars, S x)
    (hspread : ∀ sg ty path d p, ∀ n ∈ s.spreads, (∀ x ∈ directiveVariables d, S x) →
      spread sg ty path n d = .ok p → p.Ok S)
    {sg : ℕ} {ty : Name} {path : List PathSeg} {slice : Slice} (h : printSlice engine spread sg ty path s = .ok slice) :
    slice.Ok S := by
  induction s generalizing sg ty path slice with
  | nil =>
    obtain rfl := Except.ok.inj h
    exact ⟨Printed.ok_empty, fun _ hc => absurd hc List.not_mem_nil⟩
  | field f fty sub rest ihsub ihrest =>
    simp only [Selections.vars, Selections.spreads, List.forall_mem_append] at hvars hspread
    rw [printSlice] at h
    have hsub := @ihsub hvars.1.2 fun sg ty path d p n hn => (hspread sg ty path d p).1 n hn
    have hrest := @ihrest hvars.2 fun sg ty path d p n hn => (hspread sg ty path d p).2 n hn
    split_ifs at h with hlocal
    · obtain ⟨printed, hprinted, h⟩ := bind_eq_ok.1 h
      obtain ⟨slice', hslice', h⟩ := bind_eq_ok.1 h
      obtain rfl := pure_eq_ok.1 h
      have htail := hrest hslice'
      exact ⟨(finishField_ok hvars.1.1 (fun _ hs => hsub hs) hprinted).append htail.printed, htail.cuts⟩
    · obtain ⟨target, -, h⟩ := bind_eq_ok.1 h
      obtain ⟨slice', hslice', h⟩ := bind_eq_ok.1 h
      obtain rfl := pure_eq_ok.1 h
      have htail := hrest hslice'
      refine ⟨htail.printed, List.forall_mem_cons.2 ⟨fun p hp => ?_, htail.cuts⟩⟩
      exact finishField_ok hvars.1.1 (fun _ hs => hsub hs) hp
  | inlineFragment cond d fty sub rest ihsub ihrest =>
    simp only [Selections.vars, Selections.spreads, List.forall_mem_append] at hvars hspread
    rw [printSlice] at h
    have hsub := @ihsub hvars.1.2 fun sg ty path d p n hn => (hspread sg ty path d p).1 n hn
    have hrest := @ihrest hvars.2 fun sg ty path d p n hn => (hspread sg ty path d p).2 n hn
    obtain ⟨printed, hprinted, h⟩ := bind_eq_ok.1 h
    obtain ⟨inner, hinner, hfinish⟩ := bind_eq_ok.1 hprinted
    obtain ⟨slice', hslice', h⟩ := bind_eq_ok.1 h
    obtain rfl := pure_eq_ok.1 h
    have htail := hrest hslice'
    have hfragment := (openFragment_ok fty hvars.1.1).append (finish_ok (hsub hinner) hfinish).braces
    exact ⟨hfragment.append htail.printed, htail.cuts⟩
  | fragmentSpread n d rest ihrest =>
    simp only [Selections.vars, Selections.spreads, List.forall_mem_append, List.forall_mem_cons] at hvars hspread
    rw [printSlice] at h
    have hrest := @ihrest hvars.2 fun sg ty path d p n hn => (hspread sg ty path d p).2 n hn
    obtain ⟨printed, hprinted, h⟩ := bind_eq_ok.1 h
    obtain ⟨slice', hslice', h⟩ := bind_eq_ok.1 h
    obtain rfl := pure_eq_ok.1 h
    have htail := hrest hslice'
    exact ⟨((hspread sg ty path d printed).1 hvars.1 hprinted).append htail.printed, htail.cuts⟩

/-- A spread is exact, where `P` is closed under spreads and what its fragments use is among `S`. -/
theorem spreadFragment_ok {doc : Document} {P : Name → Prop}
    (hclosed : ∀ n frag, P n → doc.fragments.lookup n = some frag →
      (∀ m ∈ frag.selections.spreads, P m) ∧ ∀ x ∈ frag.vars, S x)
    (fuel : ℕ) {sg : ℕ} {ty : Name} {path : List PathSeg} {n : Name} {d : List Directive} {p : Printed} (hn : P n)
    (hd : ∀ x ∈ directiveVariables d, S x) (h : spreadFragment engine doc fuel sg ty path n d = .ok p) : p.Ok S := by
  induction fuel generalizing sg ty path n d p with
  | zero => cases h
  | succ fuel ih =>
    rw [spreadFragment] at h
    cases hfrag : doc.fragments.lookup n with
    | none =>
      simp only [hfrag] at h
      cases h
    | some frag =>
      simp only [hfrag] at h
      obtain ⟨hspreads, hvars⟩ := hclosed n frag hn hfrag
      rw [Fragment.vars, List.forall_mem_append] at hvars
      obtain ⟨printed, hprinted, h⟩ := bind_eq_ok.1 h
      obtain ⟨inner, hinner, hfinish⟩ := bind_eq_ok.1 hprinted
      obtain rfl := pure_eq_ok.1 h
      have hslice := printSlice_ok hvars.2 (fun sg ty path d p m hm hd hp => ih (hspreads m hm) hd hp) hinner
      exact (openFragment_ok frag.ty hd).append (finish_ok hslice hfinish).braces

/-- What one of the fields uses and spreads. -/
theorem fieldSelection_below {doc : Document} {s : Selections} {fields : List FieldSelection} {x : FieldSelection}
    (h : doc.Below (selectionsOf fields) s) (hx : x ∈ fields) :
    (∀ y ∈ x.field.vars, doc.Uses s y) ∧ (∀ n ∈ x.selections.spreads, doc.Reaches s n) ∧
      ∀ y ∈ x.selections.vars, doc.Uses s y := by
  induction fields with
  | nil => cases hx
  | cons z fields ih =>
    obtain ⟨hspreads, hvars⟩ := h
    simp only [selectionsOf, Selections.spreads, Selections.vars, List.forall_mem_append] at hspreads hvars
    rcases List.mem_cons.1 hx with rfl | hx
    · exact ⟨hvars.1.1, hspreads.1, hvars.1.2⟩
    · exact ih ⟨hspreads.2, hvars.2⟩ hx

/-- **The plan of a root field is exact**, and so is every fetch below it. -/
theorem planRoot_ok {doc : Document} {s : Selections} {fields : List FieldSelection} {rootType fieldName : Name}
    {plan : RootPlan} (hfields : doc.Below (selectionsOf fields) s)
    (h : planRoot engine doc rootType fieldName fields = .ok plan) :
    Exact (doc.Uses s) plan.text plan.vars ∧
      ∀ c ∈ plan.children, Every (fun node => Exact (doc.Uses s) node.text node.vars) c := by
  unfold planRoot at h
  obtain ⟨owner, -, h⟩ := bind_eq_ok.1 h
  obtain ⟨printed, hprinted, h⟩ := bind_eq_ok.1 h
  obtain rfl := pure_eq_ok.1 h
  have hclosed : ∀ n frag, doc.Reaches s n → doc.fragments.lookup n = some frag →
      (∀ m ∈ frag.selections.spreads, doc.Reaches s m) ∧ ∀ x ∈ frag.vars, doc.Uses s x := fun n frag hn hfrag =>
    ⟨fun m hm => .through hn hfrag hm, fun x hx => .inr ⟨n, frag, hn, hfrag, hx⟩⟩
  have hall : ∀ p ∈ printed, p.Ok (doc.Uses s) := by
    refine (forall_mem_mapM hprinted).2 fun x hx p hp => ?_
    obtain ⟨hown, hspreads, hvars⟩ := fieldSelection_below hfields hx
    exact finishField_ok hown (fun slice hslice => printSlice_ok hvars (fun sg ty path d p n hn hd hp =>
      spreadFragment_ok hclosed _ (hspreads n hn) hd hp) hslice) hp
  have hjoin := Printed.ok_join hall
  exact ⟨hjoin.exact, hjoin.children⟩

end Ok

/-! ### The fuel lasts -/

section Fuel

variable {engine : ComposedSupergraph} {doc : Document}

/-- The walk only looks at the spreads of the set. -/
theorem printSlice_congr {spread spread' : ℕ → Name → List PathSeg → Name → List Directive → Except String Printed}
    {s : Selections} (h : ∀ sg ty path d, ∀ n ∈ s.spreads, spread sg ty path n d = spread' sg ty path n d)
    (sg : ℕ) (ty : Name) (path : List PathSeg) :
    printSlice engine spread sg ty path s = printSlice engine spread' sg ty path s := by
  induction s generalizing sg ty path with
  | nil => rfl
  | field f fty sub rest ihsub ihrest =>
    simp only [Selections.spreads, List.forall_mem_append] at h
    have hsub := @ihsub fun sg ty path d => (h sg ty path d).1
    have hrest := @ihrest fun sg ty path d => (h sg ty path d).2
    simp only [printSlice, hsub, hrest]
  | inlineFragment cond d fty sub rest ihsub ihrest =>
    simp only [Selections.spreads, List.forall_mem_append] at h
    have hsub := @ihsub fun sg ty path d => (h sg ty path d).1
    have hrest := @ihrest fun sg ty path d => (h sg ty path d).2
    simp only [printSlice, hsub, hrest]
  | fragmentSpread n d rest ihrest =>
    simp only [Selections.spreads, List.forall_mem_cons] at h
    have hrest := @ihrest fun sg ty path d => (h sg ty path d).2
    simp only [printSlice, (h sg ty path d).1, hrest]

/-- More fuel changes nothing where there was enough. -/
theorem spreadFragment_of_bounded {k fuel : ℕ} {n : Name} (h : Nesting.Bounded doc.spreadsOf k n) (hk : k ≤ fuel)
    (sg : ℕ) (ty : Name) (path : List PathSeg) (d : List Directive) :
    spreadFragment engine doc fuel sg ty path n d = spreadFragment engine doc k sg ty path n d := by
  induction k generalizing fuel n sg ty path d with
  | zero => exact h.elim
  | succ k ih =>
    obtain ⟨fuel, rfl⟩ : ∃ f, fuel = f + 1 := ⟨fuel - 1, by omega⟩
    obtain ⟨refs, hrefs, hbelow⟩ := h
    obtain ⟨frag, hfrag, rfl⟩ := Option.map_eq_some_iff.1 hrefs
    simp only [spreadFragment, hfrag]
    rw [printSlice_congr fun sg ty path d m hm => ih (hbelow m hm) (by omega : k ≤ fuel) sg ty path d]

/-- **A spread of a valid document is printed whole**: more fuel than there are fragments changes nothing. -/
theorem spreadFragment_eq (hdoc : doc.Valid) {n : Name} (hn : (doc.spreadsOf n).isSome = true) {fuel : ℕ}
    (hfuel : doc.fragments.length ≤ fuel) (sg : ℕ) (ty : Name) (path : List PathSeg) (d : List Directive) :
    spreadFragment engine doc fuel sg ty path n d = spreadFragment engine doc doc.fragments.length sg ty path n d := by
  have hbounded := hdoc.nested.bounded hn
  rw [List.length_map] at hbounded
  exact spreadFragment_of_bounded hbounded hfuel sg ty path d

end Fuel

/-! ### The walk of `GraphQl.Planner` -/

section Written

variable (write : List Token → String)

/-- The field with its arguments and directives as they are printed. -/
def written (f : Field) : GraphQl.Field where
  aliasName := f.aliasName
  name := f.name
  arguments := f.arguments.map fun a => (a.1, write a.2.print)
  directives := f.directives.map fun d => write (printDirectives [d])

/-- The selections, so. -/
def writtenSelections : Selections → GraphQl.Selections
  | .nil => .nil
  | .field f ty sub rest => .field (written write f) ty (writtenSelections sub) (writtenSelections rest)
  | .inlineFragment _ d ty sub rest =>
    .inlineFragment (d.map fun d => write (printDirectives [d])) ty (writtenSelections sub) (writtenSelections rest)
  | .fragmentSpread n d rest =>
    .fragmentSpread n (d.map fun d => write (printDirectives [d])) (writtenSelections rest)

/-- The fragment, so. -/
def writtenFragment (frag : Fragment) : GraphQl.Fragment := ⟨frag.ty, writtenSelections write frag.selections⟩

/-- The selected field, so. -/
def writtenField (x : FieldSelection) : GraphQl.SelectedField :=
  ⟨written write x.field, x.ty, writtenSelections write x.selections⟩

end Written

/-- The two are one fetch, and so are those below them. -/
inductive FetchNode.Same : GraphQl.FetchNode → FetchNode → Prop where
  | node {a : GraphQl.FetchNode} {b : FetchNode} (path : a.path = b.path) (typeName : a.typeName = b.typeName)
      (subgraph : a.subgraph = b.subgraph) (keyFields : a.keyFields = b.keyFields)
      (children : List.Forall₂ Same a.children b.children) : Same a b

/-- The fetches of what was printed are the same. -/
def SameFetches {α : Type} (a : α × List GraphQl.FetchNode) (b : Printed) : Prop :=
  List.Forall₂ FetchNode.Same a.2 b.children

/-- The two are cut to one subgraph, and are printed with the same fetches. -/
structure Cut.Same (a : GraphQl.Cut) (b : Cut) : Prop where
  target : a.target = b.target
  printed : Agree SameFetches a.printed b.printed

/-- The two walks over a set leave the same fetches. -/
structure Slice.Same (a : GraphQl.Slice) (b : Slice) : Prop where
  children : List.Forall₂ FetchNode.Same a.children b.printed.children
  cuts : List.Forall₂ Cut.Same a.cuts b.cuts

section Same

variable {engine : ComposedSupergraph}

theorem children_join (ps : List Printed) : (Printed.join ps).children = ps.flatMap Printed.children := by
  induction ps with
  | nil => rfl
  | cons p ps ih =>
    rw [List.flatMap_cons, ← ih]
    rfl

theorem sameFetches_join {α : Type} {as : List (α × List GraphQl.FetchNode)} {ps : List Printed}
    (h : List.Forall₂ SameFetches as ps) : List.Forall₂ FetchNode.Same (as.flatMap Prod.snd) (Printed.join ps).children := by
  rw [children_join]
  induction h with
  | nil => exact .nil
  | cons hp _ ih => exact List.rel_append hp ih

theorem targets_same {cuts : List GraphQl.Cut} {cuts' : List Cut} (h : List.Forall₂ Cut.Same cuts cuts') :
    cuts.map GraphQl.Cut.target = cuts'.map Cut.target := by
  induction h with
  | nil => rfl
  | cons hcut _ ih => rw [List.map_cons, List.map_cons, hcut.target, ih]

theorem filter_same {cuts : List GraphQl.Cut} {cuts' : List Cut} (h : List.Forall₂ Cut.Same cuts cuts') (target : ℕ) :
    List.Forall₂ Cut.Same (cuts.filter (·.target = target)) (cuts'.filter (·.target = target)) := by
  induction h with
  | nil => exact .nil
  | cons hcut _ ih =>
    simp only [List.filter_cons, hcut.target]
    split_ifs
    · exact .cons hcut ih
    · exact ih

theorem fetchNode_same {cuts : List GraphQl.Cut} {cuts' : List Cut} (h : List.Forall₂ Cut.Same cuts cuts') (ty : Name)
    (path : List PathSeg) (target : ℕ) :
    Agree FetchNode.Same (GraphQl.fetchNode engine ty path cuts target) (fetchNode engine ty path cuts' target) :=
  (Agree.mapM (filter_same h target) fun _ _ hcut => hcut.printed).bind fun _ _ hprinted =>
    .ok (.node rfl rfl rfl rfl (sameFetches_join hprinted))

theorem finish_same {slice : GraphQl.Slice} {slice' : Slice} (h : Slice.Same slice slice') (ty : Name)
    (path : List PathSeg) : Agree SameFetches (GraphQl.finish engine ty path slice) (finish engine ty path slice') := by
  unfold GraphQl.finish finish
  rw [targets_same h.cuts]
  refine (Agree.mapM (P := Eq) (List.forall₂_same.2 fun _ _ => rfl) fun target _ heq => ?_).bind fun nodes nodes' hnodes =>
    .ok (List.rel_append h.children hnodes)
  exact heq ▸ fetchNode_same h.cuts ty path target

/-- A field is printed with the same fetches, if the walk over its set leaves the same. -/
theorem finishField_same {write : List Token → String} {f : Field} {ty : Name} {sel : GraphQl.Selections}
    {sub : Selections} (hempty : sel.isEmpty = sub.isEmpty) (path : List PathSeg) {slice : Except String GraphQl.Slice}
    {slice' : Except String Slice} (h : Agree Slice.Same slice slice') :
    Agree SameFetches (GraphQl.finishField engine ⟨written write f, ty, sel⟩ path slice)
      (finishField engine f ty sub path slice') := by
  unfold GraphQl.finishField finishField
  simp only [hempty]
  split_ifs
  · exact .ok .nil
  · refine (h.bind fun _ _ hslice => finish_same hslice ty path).bind fun _ _ hprinted => ?_
    exact .ok hprinted

/-- What is done at a spread is what the other walk does at the fragment in its place. -/
structure SameSpread (engine : ComposedSupergraph) (fragment : Name → Option GraphQl.Fragment)
    (spread : ℕ → Name → List PathSeg → Name → List Directive → Except String Printed) : Prop where
  defined : ∀ sg ty path n d frag, fragment n = some frag → Agree SameFetches
    (GraphQl.printSet engine sg frag.ty (fragmentPath ty frag.ty path) frag.selections) (spread sg ty path n d)
  undefined : ∀ sg ty path n d, fragment n = none →
    spread sg ty path n d = .error ("fragment `" ++ n ++ "` is not defined")

theorem isEmpty_inlineSpreads (write : List Token → String) (fragment : Name → Option GraphQl.Fragment) (s : Selections) :
    ((writtenSelections write s).inlineSpreads fragment).isEmpty = s.isEmpty := by
  cases s with
  | nil => rfl
  | field f ty sub rest => rfl
  | inlineFragment cond d ty sub rest => rfl
  | fragmentSpread n d rest =>
    rw [writtenSelections, GraphQl.Selections.inlineSpreads]
    split
    · rfl
    · rfl

/-- **The two walks over a set are the same**, with its spreads inlined for the one. -/
theorem printSlice_same {write : List Token → String} {fragment : Name → Option GraphQl.Fragment}
    {spread : ℕ → Name → List PathSeg → Name → List Directive → Except String Printed}
    (hspread : SameSpread engine fragment spread) (s : Selections) (sg : ℕ) (ty : Name) (path : List PathSeg) :
    Agree Slice.Same (GraphQl.printSlice engine sg ty path ((writtenSelections write s).inlineSpreads fragment))
      (printSlice engine spread sg ty path s) := by
  induction s generalizing sg ty path with
  | nil => exact .ok ⟨.nil, .nil⟩
  | field f fty sub rest ihsub ihrest =>
    have hempty := isEmpty_inlineSpreads write fragment sub
    rw [writtenSelections, GraphQl.Selections.inlineSpreads, GraphQl.printSlice, printSlice]
    change Agree _ (if isLocal engine sg ty f.name then _ else _) _
    split_ifs with hlocal
    · refine (finishField_same hempty _ (ihsub ..)).bind fun _ _ hprinted => (ihrest sg ty path).bind fun _ _ hslice => ?_
      exact .ok ⟨List.rel_append hprinted hslice.children, hslice.cuts⟩
    · refine (Agree.refl (pickTarget engine ty f.name)).bind fun target _ htarget => ?_
      subst htarget
      refine (ihrest sg ty path).bind fun _ _ hslice => ?_
      exact .ok ⟨hslice.children, .cons ⟨rfl, finishField_same hempty _ (ihsub ..)⟩ hslice.cuts⟩
  | inlineFragment cond d fty sub rest ihsub ihrest =>
    rw [writtenSelections, GraphQl.Selections.inlineSpreads, GraphQl.printSlice, printSlice]
    refine ((ihsub ..).bind fun _ _ hslice => finish_same hslice ..).bind fun _ _ hprinted => ?_
    refine (ihrest sg ty path).bind fun _ _ hslice => ?_
    exact .ok ⟨List.rel_append hprinted hslice.children, hslice.cuts⟩
  | fragmentSpread n d rest ihrest =>
    rw [writtenSelections, GraphQl.Selections.inlineSpreads, printSlice]
    cases hfrag : fragment n with
    | none =>
      rw [hspread.undefined sg ty path n d hfrag]
      exact .error _
    | some frag =>
      refine (hspread.defined sg ty path n d frag hfrag).bind fun _ _ hprinted => ?_
      refine (ihrest sg ty path).bind fun _ _ hslice => ?_
      exact .ok ⟨List.rel_append hprinted hslice.children, hslice.cuts⟩

/-- The fragments of the two documents are the same. -/
theorem sameSpread {write : List Token → String} {doc : Document} {doc' : GraphQl.Document}
    (h : doc'.fragments = doc.fragments.map fun p => (p.1, writtenFragment write p.2)) (fuel : ℕ) :
    SameSpread engine (doc'.inlinedFragment fuel) (spreadFragment engine doc fuel) := by
  have hlookup : ∀ n, doc'.fragments.lookup n = (doc.fragments.lookup n).map (writtenFragment write) := by
    intro n
    rw [h]
    induction doc.fragments with
    | nil => rfl
    | cons p fragments ih =>
      rw [List.map_cons, List.lookup_cons, List.lookup_cons, ih]
      split
      · rfl
      · rfl
  induction fuel with
  | zero => exact ⟨fun _ _ _ _ _ _ hfrag => (by cases hfrag), fun _ _ _ _ _ _ => rfl⟩
  | succ fuel ih =>
    constructor
    · intro sg ty path n d frag hfrag
      rw [GraphQl.Document.inlinedFragment, hlookup, Option.map_map, Option.map_eq_some_iff] at hfrag
      obtain ⟨frag, hdefined, rfl⟩ := hfrag
      rw [spreadFragment, hdefined]
      refine ((printSlice_same ih ..).bind fun _ _ hslice => finish_same hslice ..).bind_right fun _ _ hprinted => ?_
      exact .ok hprinted
    · intro sg ty path n d hfrag
      rw [GraphQl.Document.inlinedFragment, hlookup, Option.map_map, Option.map_eq_none_iff] at hfrag
      rw [spreadFragment, hfrag]

/-- **The two plans of a root field have the same fetches**, or there is neither, for one reason. -/
theorem planRoot_same (engine : ComposedSupergraph) {write : List Token → String} {doc : Document}
    {doc' : GraphQl.ValidDocument} (h : doc'.fragments = doc.fragments.map fun p => (p.1, writtenFragment write p.2))
    (rootType fieldName responseKey : Name) (fields : List FieldSelection) :
    Agree (fun a b => a.subgraph = b.subgraph ∧ List.Forall₂ FetchNode.Same a.children b.children)
      (GraphQl.planRoot engine doc' rootType ⟨responseKey, fieldName, fields.map (writtenField write)⟩)
      (planRoot engine doc rootType fieldName fields) := by
  unfold GraphQl.planRoot planRoot
  refine (Agree.refl (okOr (rootOwner engine rootType fieldName) _)).bind fun owner _ howner => ?_
  subst howner
  have hfields : List.Forall₂ (fun a x => a = writtenField write x) (fields.map (writtenField write)) fields :=
    List.forall₂_map_left_iff.2 (List.forall₂_same.2 fun _ _ => rfl)
  have hcount : doc'.fragments.length = doc.fragments.length := by rw [h, List.length_map]
  have hof : doc'.fragmentOf = doc'.inlinedFragment doc.fragments.length := by
    funext n
    rw [GraphQl.ValidDocument.fragmentOf, hcount]
  refine (Agree.mapM (R := SameFetches) hfields fun _ x hx => ?_).bind fun _ _ hprinted =>
    .ok ⟨rfl, sameFetches_join hprinted⟩
  subst hx
  have hspread : SameSpread engine doc'.fragmentOf (spreadFragment engine doc doc.fragments.length) :=
    hof ▸ sameSpread h doc.fragments.length
  exact finishField_same (isEmpty_inlineSpreads write _ x.selections) _ (printSlice_same hspread ..)

end Same

/-! ### The variable of the representations -/

/-- A name that the loop gave up at is longer than as many names of the operation. -/
theorem lt_card_of_repsLoop_mem {names : List Name} {fuel : ℕ} {name : Name} (h : repsLoop names fuel name ∈ names) :
    fuel < (names.toFinset.filter fun m => name.length ≤ m.length).card := by
  induction fuel generalizing name with
  | zero =>
    have hmem : name ∈ names := h
    exact Finset.card_pos.2 ⟨name, by simpa using hmem⟩
  | succ fuel ih =>
    rw [repsLoop] at h
    split_ifs at h with hmem
    · have hlonger := ih h
      have hlt : (names.toFinset.filter fun m => (name ++ "_").length ≤ m.length).card <
          (names.toFinset.filter fun m => name.length ≤ m.length).card := by
        refine Finset.card_lt_card ((Finset.ssubset_iff_of_subset fun m hm => ?_).2 ⟨name, ?_, ?_⟩)
        · simp only [Finset.mem_filter, String.length_append] at hm ⊢
          exact ⟨hm.1, by omega⟩
        · simpa using hmem
        · rw [Finset.mem_filter, String.length_append]
          exact fun hm => absurd hm.2 (Nat.not_le.2 (Nat.lt_add_of_pos_right (by decide)))
      omega
    · exact absurd h hmem

/-- **The representations shadow no variable of the operation.** -/
theorem repsVarName_not_mem (op : Operation) : repsVarName op ∉ op.vars.map VariableDefinition.name := by
  intro h
  have hlt := lt_card_of_repsLoop_mem h
  have hle := (Finset.card_filter_le (op.vars.map VariableDefinition.name).toFinset
    fun m => "g2_representations".length ≤ m.length).trans (List.toFinset_card_le _)
  rw [List.length_map] at hle
  omega

/-! ### Every text is closed -/

section Closed

variable {doc : Document} {op : Operation} {used : List Name}

/-- An operation is closed whose body has the variables used and the extra one. -/
theorem printOperation_closed (keyword : String) (extra : Option VariableDefinition) (body : List Token)
    (hextra : ∀ v ∈ extra, v.name ∉ op.vars.map VariableDefinition.name)
    (hbody : ∀ x, x ∈ variablesOf body ↔ x ∈ extra.map VariableDefinition.name ∨ x ∈ used)
    (hop : ∀ x ∈ used, x ∈ op.vars.map VariableDefinition.name) (raw : JsonMap Num) :
    (printOperation keyword extra op used body).Closed op extra.toList ∧
      filteredVariables raw used = (printOperation keyword extra op used body).restricted op raw := by
  have hoccurring : (printOperation keyword extra op used body).occurring = variablesOf body := List.append_nil _
  have hocc : ∀ v ∈ op.vars, v.name ∈ used ↔ v.name ∈ (printOperation keyword extra op used body).occurring := by
    intro v hv
    rw [hoccurring, hbody]
    refine ⟨.inr, fun h => h.resolve_left fun hname => ?_⟩
    obtain ⟨e, he, heq⟩ := Option.map_eq_some_iff.1 hname
    exact hextra e he (heq ▸ List.mem_map_of_mem hv)
  have hdefinitions : (printOperation keyword extra op used body).definitions = extra.toList ++
      op.vars.filter fun v => v.name ∈ (printOperation keyword extra op used body).occurring :=
    congrArg (extra.toList ++ ·) (filter_used hocc)
  refine ⟨⟨hdefinitions, fun x hx => ?_⟩, filter_raw_used hocc hop raw⟩
  rw [hdefinitions, List.map_append, List.mem_append]
  rw [hoccurring, hbody] at hx
  rcases hx with hx | hx
  · obtain ⟨e, he, rfl⟩ := Option.map_eq_some_iff.1 hx
    exact .inl (List.mem_map_of_mem (Option.mem_toList.2 he))
  · exact .inr ((mem_names_filter hocc hop).2 hx)

variable (hdoc : doc.Valid) (hop : op ∈ doc.operations)
include hdoc hop

/-- The operation of a root field is closed. -/
theorem rootRequest_closed {plan : RootPlan} (hplan : Exact (doc.Uses op.selections) plan.text plan.vars)
    (raw : JsonMap Num) :
    (rootRequest op plan raw).1.Closed op [] ∧ (rootRequest op plan raw).2 = (rootRequest op plan raw).1.restricted op raw := by
  refine printOperation_closed _ none _ (fun v hv => absurd hv (Option.not_mem_none v)) (fun x => ?_)
    (fun x hx => hdoc.vars op hop x ((hplan x).2 hx)) raw
  rw [← (hplan x).1]
  simp

/-- The operation of a fetch below is closed, with the representations. -/
theorem childRequest_closed {node : FetchNode} (hnode : Exact (doc.Uses op.selections) node.text node.vars)
    (reps : List (Json Num)) (raw : JsonMap Num) :
    (childRequest op node reps raw).1.Closed op [repsDefinition op] ∧
      (childRequest op node reps raw).2 =
        Json.insert (repsVarName op) (.array reps) ((childRequest op node reps raw).1.restricted op raw) := by
  have hbody : ∀ x, x ∈ variablesOf (entitiesBody op node) ↔
      x ∈ (some (repsDefinition op)).map VariableDefinition.name ∨ x ∈ node.vars := by
    intro x
    rw [(hnode x).1]
    simp [entitiesBody, repsDefinition, eq_comm]
  have hclosed := printOperation_closed "query" (some (repsDefinition op)) (entitiesBody op node)
    (fun v hv => Option.some.inj hv ▸ repsVarName_not_mem op) hbody
    (fun x hx => hdoc.vars op hop x ((hnode x).2 hx)) raw
  exact ⟨hclosed.1, congrArg _ hclosed.2⟩

end Closed

/-! ### Sub-queries are closed -/

/-- What `build_subquery` makes of the recorded fields is closed. -/
structure SubqueryClosed (doc : Document) (op : Operation) (fields : List FieldSelection) (raw : JsonMap Num)
    (q : Query) : Prop where
  text : (buildSubquery doc op fields raw).1.text = some q
  /-- It defines the fragments that the fields reach, each once and as it is defined. -/
  fragments : ∀ n, n ∈ q.fragments.map Prod.fst ↔ doc.Reaches (selectionsOf fields) n
  once : (q.fragments.map Prod.fst).Nodup
  definitions : ∀ p ∈ q.fragments, ∃ frag, doc.fragments.lookup p.1 = some frag ∧ p.2 = frag.print p.1
  closed : q.Closed op []
  sent : (buildSubquery doc op fields raw).2 = q.restricted op raw

/-- The operations that a plan makes are closed. -/
structure PlanClosed (op : Operation) (raw : JsonMap Num) (plan : RootPlan) : Prop where
  root : (rootRequest op plan raw).1.Closed op []
  rootSent : (rootRequest op plan raw).2 = (rootRequest op plan raw).1.restricted op raw
  children : ∀ c ∈ plan.children, Every (fun node => ∀ reps,
    (childRequest op node reps raw).1.Closed op [repsDefinition op] ∧
      (childRequest op node reps raw).2 =
        Json.insert (repsVarName op) (.array reps) ((childRequest op node reps raw).1.restricted op raw)) c

theorem Every.imp {P Q : FetchNode → Prop} (hPQ : ∀ node, P node → Q node) {node : FetchNode} (h : Every P node) :
    Every Q node := by
  induction h with
  | node h _ ih => exact .node (hPQ _ h) ih

/-- **Sub-queries are closed**, those for data sources and those of the federation planner, and the variable of
the representations is none of the operation's. -/
theorem subqueries_closed (doc : Document) (hdoc : doc.Valid) (op : Operation) (hop : op ∈ doc.operations)
    (fields : List FieldSelection) (hfields : ∀ y ∈ fields, RootField doc op.selections y) (raw : JsonMap Num) :
    (∃ q, SubqueryClosed doc op fields raw q) ∧
      (∀ engine rootType fieldName plan, planRoot engine doc rootType fieldName fields = .ok plan →
        PlanClosed op raw plan) ∧
      repsVarName op ∉ op.vars.map VariableDefinition.name := by
  refine ⟨⟨_, rfl, ?_, ?_, ?_, ?_, ?_⟩, fun engine rootType fieldName plan hplan => ?_, repsVarName_not_mem op⟩
  · rw [fragments_names]
    exact (fragments_subquery hdoc hop hfields).2
  · rw [fragments_names]
    exact (fragments_subquery hdoc hop hfields).1
  · intro p hp
    obtain ⟨⟨n, frag⟩, hfrag, rfl⟩ := List.mem_map.1 hp
    exact ⟨frag, (mem_subqueryFragments.1 hfrag).2, rfl⟩
  · exact (subquery_closed hdoc hop hfields raw).1
  · exact (subquery_closed hdoc hop hfields raw).2
  · obtain ⟨hroot, hchildren⟩ := planRoot_ok (below_selectionsOf hfields) hplan
    obtain ⟨hclosed, hsent⟩ := rootRequest_closed hdoc hop hroot raw
    refine ⟨hclosed, hsent, fun c hc => (hchildren c hc).imp fun node hnode reps => ?_⟩
    exact childRequest_closed hdoc hop hnode reps raw

/-! ### A user's name -/

/-- `user(id: $id) { ...F }`. -/
def userField : FieldSelection where
  field := { name := "user", arguments := [("id", .var "id")] }
  ty := "User"
  selections := .fragmentSpread "F" [] .nil

/-- `query ($id: ID!, $full: Boolean!)` of that field. -/
def userOperation : Operation where
  vars := [⟨"id", .nonNull (.named "ID"), none⟩, ⟨"full", .nonNull (.named "Boolean"), none⟩]
  ty := "Query"
  selections := selectionsOf [userField]

/-- `fragment F on User { name @include(if: $full) }`. -/
def nameFragment : Fragment where
  ty := "User"
  selections := selectionsOf [⟨{ name := "name", directives := [⟨"include", [("if", .var "full")]⟩] }, "", .nil⟩]

/-- The operation with that fragment. -/
def userDocument : Document where
  anonymous := some userOperation
  fragments := [("F", nameFragment)]

theorem lookup_userDocument {n : Name} {frag : Fragment} (h : userDocument.fragments.lookup n = some frag) :
    n = "F" ∧ frag.selections.spreads = [] ∧ frag.vars = ["full"] := by
  simp only [userDocument, List.lookup_cons, List.lookup_nil] at h
  split at h
  · next hn =>
    obtain rfl := Option.some.inj h
    exact ⟨eq_of_beq hn, rfl, rfl⟩
  · cases h

theorem userDocument_valid : userDocument.Valid where
  nested :=
    { support := by
        intro n hn
        rw [Document.spreadsOf, Option.isSome_map] at hn
        obtain ⟨frag, hfrag⟩ := Option.isSome_iff_exists.1 hn
        exact List.mem_singleton.2 (lookup_userDocument hfrag).1
      closed := by
        rintro a b ⟨refs, hrefs, hb⟩
        obtain ⟨frag, hfrag, rfl⟩ := Option.map_eq_some_iff.1 hrefs
        rw [(lookup_userDocument hfrag).2.1] at hb
        cases hb
      acyclic := by
        intro n hn
        obtain ⟨m, ⟨refs, hrefs, hm⟩, -⟩ := Relation.TransGen.head'_iff.1 hn
        obtain ⟨frag, hfrag, rfl⟩ := Option.map_eq_some_iff.1 hrefs
        rw [(lookup_userDocument hfrag).2.1] at hm
        cases hm }
  spreads op hop n hn := by
    obtain rfl := List.mem_singleton.1 hop
    obtain rfl := List.mem_singleton.1 hn
    rfl
  vars op hop x hx := by
    obtain rfl := List.mem_singleton.1 hop
    rcases hx with hx | ⟨n, frag, -, hfrag, hx⟩
    · obtain rfl := List.mem_singleton.1 hx
      decide
    · rw [(lookup_userDocument hfrag).2.2] at hx
      obtain rfl := List.mem_singleton.1 hx
      decide

/-- Users are found in one subgraph, and have their names in another. -/
def userEngine : ComposedSupergraph where
  types := []
  fieldOwners := [(("Query", "user"), [0]), (("User", "id"), [0, 1]), (("User", "name"), [1])]
  entityKeys := [("User", [some ["id"], some ["id"]])]

/-- The name of a user is fetched with the variable that decides whether it is, and the representations. -/
theorem subqueries_closed_user :
    (∃ q, SubqueryClosed userDocument userOperation [userField] ([] : JsonMap ℕ) q ∧
      q.definitions.map VariableDefinition.name = ["id", "full"]) ∧
    ∃ plan, planRoot userEngine userDocument "Query" "user" [userField] = .ok plan ∧
      PlanClosed userOperation ([] : JsonMap ℕ) plan ∧ plan.vars = ["id"] ∧
      plan.children.map FetchNode.vars = [["full"]] := by
  obtain ⟨⟨q, hq⟩, hplan, -⟩ := subqueries_closed userDocument userDocument_valid userOperation
    (List.mem_singleton_self _) [userField] (fun y hy => List.mem_singleton.1 hy ▸ .here _ _ _ _) ([] : JsonMap ℕ)
  have htext := hq.text
  obtain rfl := Option.some.inj htext
  exact ⟨⟨_, hq, by decide⟩, _, rfl, hplan userEngine "Query" "user" _ rfl, by decide, by decide⟩

end G2way.Udg.Federation
