import G2way.Lib.Result
import G2way.Udg.Printing

/-!
# Execution

The execution of a query as the GraphQL specification has it: `CollectFields`,
`CoerceVariableValues`, `CoerceArgumentValues`, `CompleteValue`. It is what
`apollo_compiler`'s `Execution` does in the gateway, over any `ObjectValue`, and what
a source that serves a schema does over its data.

## The model

How a value is coerced by its type is a parameter; of the variables, the coercion of
an argument sees those that occur in it. What a resolver returns is a `Resolved` value
over its own kind of objects.

An execution that meets a field error is a `Fault`: the `null`s such an error spreads
are not modelled. Fuel bounds the nesting of fields and of fragments; running out of
it is a fault too.

## What is proved

`exec_congr`: an execution depends on the variables and the fragments it uses only.
`exec_subquery`: what `build_subquery` makes of some fields of a document is executed
as the fields are in the document, at any source.
-/

namespace G2way.Udg

open G2way.GraphQl (Name TypeRef OperationType TypeDef FieldDef ArgumentDef)
open G2way.Lib G2way.Lib.Result

variable {Num : Type}

/-! ### Schemas -/

/-- A schema, with the types of the introspection system and the built-in scalars. -/
structure Schema where
  /-- The query root type. -/
  query : Name := "Query"
  types : List (Name × TypeDef)

namespace Schema

variable (S : Schema)

/-- The definition of a field, `__typename` apart. -/
def fieldDef (ty field : Name) : Option FieldDef :=
  if ty = S.query ∧ field = "__schema" then some { name := "__schema", ty := .nonNull (.named "__Schema") }
  else if ty = S.query ∧ field = "__type" then
    some { name := "__type", arguments := [{ name := "name", ty := .nonNull (.named "String") }], ty := .named "__Type" }
  else (S.types.lookup ty).bind fun d => d.fields.find? (·.name = field)

/-- An interface or a union. -/
def isAbstract (ty : Name) : Bool :=
  match S.types.lookup ty with
  | some (.interface _) => true
  | some (.union ..) => true
  | _ => false

/-- An object type. -/
def isObject (ty : Name) : Bool :=
  match S.types.lookup ty with
  | some (.object _) => true
  | _ => false

/-- A scalar or an enum. -/
def isLeaf (ty : Name) : Bool :=
  match S.types.lookup ty with
  | some (.scalar _) => true
  | some (.enum _) => true
  | _ => false

/-- `DoesFragmentTypeApply`: the object type is the type itself, or one of its possible types. -/
def applies (ty object : Name) : Bool :=
  match S.types.lookup ty with
  | some (.object _) => ty = object
  | some (.interface _) =>
    match S.types.lookup object with
    | some (.object o) => ty ∈ o.implementing
    | _ => false
  | some (.union members _) => object ∈ members
  | _ => false

end Schema

/-- How values are coerced. -/
structure Coercion (Num : Type) where
  /-- A constant of a document, as a default value. -/
  literal : TypeRef → Value → Option (Json Num)
  /-- A value of the raw variables. -/
  input : TypeRef → Json Num → Option (Json Num)
  /-- The arguments of a field, given the values of the variables in them. -/
  arguments : FieldDef → List (Name × Value) → (Name → Option (Json Num)) → Except String (JsonMap Num)
  /-- A result of a leaf type. -/
  result : Name → Json Num → Option (Json Num)

/-! ### Variables -/

/-- `CoerceVariableValues`, of one variable: its value, if it has one. -/
def coerceVariable (C : Coercion Num) (raw : JsonMap Num) (d : VariableDefinition) :
    Except String (Option (Name × Json Num)) :=
  let value := fun o : Option (Json Num) => do
    let v ← okOr o ("variable `" ++ d.name ++ "` has an invalid value")
    return some (d.name, v)
  match raw.lookup d.name with
  | some j => value (C.input d.ty j)
  | none =>
    match d.defaultValue, d.ty with
    | some v, ty => value (C.literal ty v)
    | none, .nonNull _ => .error ("missing value for non-null variable `" ++ d.name ++ "`")
    | none, _ => .ok none

/-- `CoerceVariableValues`. -/
def coerceVariables (C : Coercion Num) (defs : List VariableDefinition) (raw : JsonMap Num) :
    Except String (JsonMap Num) :=
  (fun values => values.filterMap id) <$> defs.mapM (coerceVariable C raw)

/-! ### `CollectFields` -/

/-- Why an execution has no data. -/
inductive Fault where
  | outOfFuel
  /-- A field error. -/
  | field (message : String)
  deriving DecidableEq, Repr

/-- What a selection set is executed with besides the schema. -/
structure Env (Num : Type) where
  fragments : List (Name × Fragment)
  vars : Name → Option (Json Num)

/-- The argument `if` of a directive, evaluated. -/
def evalIf (vars : Name → Option (Json Num)) (directives : List Directive) (name : Name) : Option Bool := do
  let d ← directives.find? (·.name = name)
  match ← d.arguments.lookup "if" with
  | .bool b => some b
  | .var n =>
    match vars n with
    | some (.bool b) => some b
    | _ => none
  | _ => none

/-- `@skip` and `@include`. -/
def included (vars : Name → Option (Json Num)) (directives : List Directive) : Bool :=
  !(evalIf vars directives "skip").getD false && (evalIf vars directives "include").getD true

section Collect

variable (S : Schema) (E : Env Num) (object : Name)

/-- The fields of the selections that are included, in order, and the fragments visited, given what
is done at a spread. -/
def collectSelections (enter : Name → List Name → Except Fault (List FieldSelection × List Name)) :
    Selections → List Name → Except Fault (List FieldSelection × List Name)
  | .nil, visited => .ok ([], visited)
  | .field f ty sub rest, visited => do
    let (fields, visited) ← collectSelections enter rest visited
    return (if included E.vars f.directives then ⟨f, ty, sub⟩ :: fields else fields, visited)
  | .inlineFragment typeCondition d _ sub rest, visited =>
    if included E.vars d && typeCondition.all fun ty => S.applies ty object then do
      let (fields, visited) ← collectSelections enter sub visited
      let (more, visited) ← collectSelections enter rest visited
      return (fields ++ more, visited)
    else collectSelections enter rest visited
  | .fragmentSpread n d rest, visited =>
    if included E.vars d && n ∉ visited then do
      let (fields, visited) ← enter n (n :: visited)
      let (more, visited) ← collectSelections enter rest visited
      return (fields ++ more, visited)
    else collectSelections enter rest visited

/-- The spread of a fragment that was not visited. -/
def visitFragment : ℕ → Name → List Name → Except Fault (List FieldSelection × List Name)
  | 0, _, _ => .error .outOfFuel
  | fuel + 1, n, visited =>
    match E.fragments.lookup n with
    | none => .ok ([], visited)
    | some frag =>
      if S.applies frag.ty object then collectSelections S E object (visitFragment fuel) frag.selections visited
      else .ok ([], visited)

/-- The fields of several sets, one after the other. -/
def collectSets (fuel : ℕ) : List Selections → List Name → Except Fault (List FieldSelection × List Name)
  | [], visited => .ok ([], visited)
  | s :: rest, visited => do
    let (fields, visited) ← collectSelections S E object (visitFragment S E object fuel) s visited
    let (more, visited) ← collectSets fuel rest visited
    return (fields ++ more, visited)

end Collect

/-- The key of a selected field. -/
def FieldSelection.key (x : FieldSelection) : Name := x.field.responseKey

/-- The fields by response key, in the order of the first of each. -/
def groupByKey (fields : List FieldSelection) : List (Name × List FieldSelection) :=
  (fields.map FieldSelection.key).eraseDups.map fun k => (k, fields.filter fun x => x.key = k)

/-! ### Execution -/

/-- `ResolvedValue`, or an error in its place. -/
inductive Resolved (Num Obj : Type) where
  | null
  | leaf (value : Json Num)
  | object (o : Obj)
  | list (items : List (Resolved Num Obj))
  | failed (message : String)

/-- `ResolveInfo`. -/
structure ResolveInfo (Num : Type) where
  objectType : Name
  fieldName : Name
  /-- The response key of the first selection. -/
  responseKey : Name
  arguments : JsonMap Num
  fieldType : TypeRef
  selections : List FieldSelection

/-- `ObjectValue`. -/
structure Resolver (Num Obj : Type) where
  typeName : Obj → Name
  resolveField : Obj → ResolveInfo Num → Resolved Num Obj

/-- The value is `null`. -/
def isNull : Json Num → Bool
  | .null => true
  | _ => false

section Execute

variable {Obj : Type} (S : Schema) (C : Coercion Num) (R : Resolver Num Obj)

/-- `CompleteValue` of an object; `execObj` executes the selections. -/
def completeObject (execObj : Name → Obj → Except Fault (JsonMap Num)) (ty : Name) (o : Obj) :
    Except Fault (Json Num) :=
  if S.isObject ty then .object <$> execObj ty o
  else if S.isAbstract ty then
    if S.isObject (R.typeName o) && S.applies ty (R.typeName o) then .object <$> execObj (R.typeName o) o
    else .error (.field "the resolved type is not a possible type")
  else .error (.field "an object in the place of a leaf")

/-- `CompleteValue` of a value of a named type. -/
def completeNamed (execObj : Name → Obj → Except Fault (JsonMap Num)) (ty : Name) :
    Resolved Num Obj → Except Fault (Json Num)
  | .null => .ok .null
  | .leaf value =>
    if S.isLeaf ty then okOr (C.result ty value) (.field "the value is not one of its type")
    else .error (.field "a leaf in the place of an object")
  | .object o => completeObject S R execObj ty o
  | .list _ => .error (.field "a list in the place of a single value")
  | .failed message => .error (.field message)

/-- `CompleteValue`. -/
def complete (execObj : Name → Obj → Except Fault (JsonMap Num)) :
    TypeRef → Resolved Num Obj → Except Fault (Json Num)
  | .named ty, r => completeNamed S C R execObj ty r
  | .nonNull ty, r => do
    let v ← complete execObj ty r
    ensure (!isNull v) (.field "`null` for a non-null field")
    return v
  | .list _, .null => .ok .null
  | .list ty, .list items => .array <$> items.mapM (complete execObj ty)
  | .list _, .failed message => .error (.field message)
  | .list _, _ => .error (.field "a single value in the place of a list")

variable (E : Env Num)

/-- What the arguments of a field are coerced with. -/
def variablesIn (names : List Name) : Name → Option (Json Num) := fun n => if n ∈ names then E.vars n else none

/-- `ExecuteField`, for the fields of one response key. -/
def executeField (execObj : List Selections → Name → Obj → Except Fault (JsonMap Num)) (object : Name) (o : Obj)
    (key : Name) : List FieldSelection → Except Fault (Json Num)
  | [] => .error (.field "no field")
  | x :: rest =>
    if x.field.name = "__typename" then .ok (.string object)
    else do
      let d ← okOr (S.fieldDef object x.field.name) (.field "no such field")
      let arguments ← (C.arguments d x.field.arguments (variablesIn E (memberVariables x.field.arguments))).mapError
        Fault.field
      complete S C R (execObj ((x :: rest).map FieldSelection.selections)) d.ty
        (R.resolveField o ⟨object, x.field.name, key, arguments, d.ty, x :: rest⟩)

/-- The collected fields, executed by response key. -/
def executeGroups (execObj : List Selections → Name → Obj → Except Fault (JsonMap Num)) (object : Name) (o : Obj)
    (fields : List FieldSelection) : Except Fault (JsonMap Num) :=
  (groupByKey fields).mapM fun group => do
    let value ← executeField S C R E execObj object o group.1 group.2
    return (group.1, value)

/-- `ExecuteSelectionSet`, of several sets merged. -/
def exec : ℕ → List Selections → Name → Obj → Except Fault (JsonMap Num)
  | 0, _, _, _ => .error .outOfFuel
  | fuel + 1, sets, object, o => do
    let collected ← collectSets S E object fuel sets []
    executeGroups S C R E (exec fuel) object o collected.1

end Execute

/-! ### The fields of a set -/

/-- A field of a set or of the fragments in it, with the type it is selected on; a fragment is gone
into where its type condition is allowed. -/
inductive InScope (fragments : List (Name × Fragment)) (allow : Name → Prop) :
    Name → Selections → Name → FieldSelection → Prop
  | field {P : Name} {f : Field} {ty : Name} {sub rest : Selections} :
      InScope fragments allow P (.field f ty sub rest) P ⟨f, ty, sub⟩
  | afterField {P Q : Name} {f : Field} {ty : Name} {sub rest : Selections} {x : FieldSelection} :
      InScope fragments allow P rest Q x → InScope fragments allow P (.field f ty sub rest) Q x
  | inline {P Q : Name} {cond : Option Name} {d : List Directive} {ty : Name} {sub rest : Selections}
      {x : FieldSelection} : (∀ c ∈ cond, allow c) → InScope fragments allow ty sub Q x →
      InScope fragments allow P (.inlineFragment cond d ty sub rest) Q x
  | afterInline {P Q : Name} {cond : Option Name} {d : List Directive} {ty : Name} {sub rest : Selections}
      {x : FieldSelection} : InScope fragments allow P rest Q x →
      InScope fragments allow P (.inlineFragment cond d ty sub rest) Q x
  | spread {P Q : Name} {n : Name} {d : List Directive} {rest : Selections} {frag : Fragment}
      {x : FieldSelection} : fragments.lookup n = some frag → allow frag.ty →
      InScope fragments allow frag.ty frag.selections Q x → InScope fragments allow P (.fragmentSpread n d rest) Q x
  | afterSpread {P Q : Name} {n : Name} {d : List Directive} {rest : Selections} {x : FieldSelection} :
      InScope fragments allow P rest Q x → InScope fragments allow P (.fragmentSpread n d rest) Q x

section Collected

variable {S : Schema} {E : Env Num} {object : Name}

/-- What `CollectFields` makes of a set: fields in its scope that are included. -/
def Gathered (S : Schema) (E : Env Num) (object P : Name) (s : Selections) (fields : List FieldSelection) : Prop :=
  ∀ x ∈ fields, included E.vars x.field.directives = true ∧
    ∃ Q, InScope E.fragments (fun ty => S.applies ty object = true) P s Q x

theorem gathered_collectSelections {enter : Name → List Name → Except Fault (List FieldSelection × List Name)}
    (henter : ∀ n visited fields visited', enter n visited = .ok (fields, visited') →
      ∀ P d rest, Gathered S E object P (.fragmentSpread n d rest) fields)
    {s : Selections} {P : Name} {visited visited' : List Name} {fields : List FieldSelection}
    (h : collectSelections S E object enter s visited = .ok (fields, visited')) : Gathered S E object P s fields := by
  induction s generalizing P visited visited' fields with
  | nil =>
    cases h
    exact fun x hx => absurd hx (List.not_mem_nil)
  | field f ty sub rest _ ihrest =>
    simp only [collectSelections, bind_eq_ok, pure_eq_ok] at h
    obtain ⟨⟨more, mid⟩, hmore, heq⟩ := h
    cases heq
    have hafter : Gathered S E object P (.field f ty sub rest) more := by
      intro x hx
      obtain ⟨hincluded, Q, hQ⟩ := ihrest hmore x hx
      exact ⟨hincluded, Q, .afterField hQ⟩
    dsimp only
    split
    · next hincluded =>
      intro x hx
      rcases List.mem_cons.1 hx with rfl | hx
      · exact ⟨hincluded, P, .field⟩
      · exact hafter x hx
    · exact hafter
  | inlineFragment cond d ty sub rest ihsub ihrest =>
    have hafter : ∀ {fields : List FieldSelection}, Gathered S E object P rest fields →
        Gathered S E object P (.inlineFragment cond d ty sub rest) fields := by
      intro fields hg x hx
      obtain ⟨hincluded, Q, hQ⟩ := hg x hx
      exact ⟨hincluded, Q, .afterInline hQ⟩
    simp only [collectSelections] at h
    split at h
    · next hcond =>
      simp only [bind_eq_ok, pure_eq_ok] at h
      obtain ⟨⟨own, mid⟩, hown, ⟨more, last⟩, hmore, heq⟩ := h
      cases heq
      intro x hx
      rcases List.mem_append.1 hx with hx | hx
      · obtain ⟨hincluded, Q, hQ⟩ := ihsub hown x hx
        refine ⟨hincluded, Q, .inline ?_ hQ⟩
        rw [Bool.and_eq_true] at hcond
        intro c hc
        simpa [Option.mem_def.1 hc] using hcond.2
      · exact hafter (ihrest hmore) x hx
    · exact hafter (ihrest h)
  | fragmentSpread n d rest ihrest =>
    have hafter : ∀ {fields : List FieldSelection}, Gathered S E object P rest fields →
        Gathered S E object P (.fragmentSpread n d rest) fields := by
      intro fields hg x hx
      obtain ⟨hincluded, Q, hQ⟩ := hg x hx
      exact ⟨hincluded, Q, .afterSpread hQ⟩
    simp only [collectSelections] at h
    split at h
    · simp only [bind_eq_ok, pure_eq_ok] at h
      obtain ⟨⟨own, mid⟩, hown, ⟨more, last⟩, hmore, heq⟩ := h
      cases heq
      intro x hx
      rcases List.mem_append.1 hx with hx | hx
      · exact henter n _ _ _ hown P d rest x hx
      · exact hafter (ihrest hmore) x hx
    · exact hafter (ihrest h)

theorem gathered_visitFragment (fuel : ℕ) (n : Name) (visited : List Name) (fields : List FieldSelection)
    (visited' : List Name) (h : visitFragment S E object fuel n visited = .ok (fields, visited')) (P : Name) (d : List Directive)
    (rest : Selections) : Gathered S E object P (.fragmentSpread n d rest) fields := by
  induction fuel generalizing n visited fields visited' P d rest with
  | zero => cases h
  | succ fuel ih =>
    unfold visitFragment at h
    cases hfrag : E.fragments.lookup n with
    | none =>
      rw [hfrag] at h
      cases h
      exact fun x hx => absurd hx (List.not_mem_nil)
    | some frag =>
      simp only [hfrag] at h
      split at h
      · next happlies =>
        intro x hx
        exact (gathered_collectSelections ih h x hx).imp_right fun ⟨Q, hQ⟩ => ⟨Q, .spread hfrag happlies hQ⟩
      · cases h
        exact fun x hx => absurd hx (List.not_mem_nil)

/-- **`CollectFields`**: each field is included, and in the scope of one of the sets. -/
theorem mem_collectSets {fuel : ℕ} {sets : List (Name × Selections)} {visited visited' : List Name}
    {fields : List FieldSelection}
    (h : collectSets S E object fuel (sets.map Prod.snd) visited = .ok (fields, visited')) :
    ∀ x ∈ fields, included E.vars x.field.directives = true ∧
      ∃ set ∈ sets, ∃ Q, InScope E.fragments (fun ty => S.applies ty object = true) set.1 set.2 Q x := by
  induction sets generalizing visited visited' fields with
  | nil =>
    cases h
    exact fun x hx => absurd hx (List.not_mem_nil)
  | cons set sets ih =>
    simp only [List.map_cons, collectSets, bind_eq_ok, pure_eq_ok] at h
    obtain ⟨⟨own, mid⟩, hown, ⟨more, last⟩, hmore, heq⟩ := h
    cases heq
    intro x hx
    rcases List.mem_append.1 hx with hx | hx
    · exact (gathered_collectSelections (gathered_visitFragment fuel) hown x hx).imp_right
        fun hQ => ⟨set, List.mem_cons_self .., hQ⟩
    · obtain ⟨hincluded, set', hset', hQ⟩ := ih hmore x hx
      exact ⟨hincluded, set', List.mem_cons_of_mem _ hset', hQ⟩

end Collected

/-! ### What an execution depends on -/

/-- The selections use those variables and fragments only. -/
def Selections.Uses (V F : List Name) (s : Selections) : Prop := s.vars ⊆ V ∧ s.spreads ⊆ F

/-- Two environments agree on those variables and fragments, and the fragments use no others. -/
structure Env.Agree (V F : List Name) (E E' : Env Num) : Prop where
  vars : ∀ n ∈ V, E.vars n = E'.vars n
  fragments : ∀ n ∈ F, E.fragments.lookup n = E'.fragments.lookup n
  closed : ∀ n ∈ F, ∀ frag, E.fragments.lookup n = some frag → frag.selections.Uses V F

section Congr

variable {S : Schema} {C : Coercion Num} {E E' : Env Num} {object : Name} {V F : List Name}

theorem vars_subset_of_lookup {arguments : List (Name × Value)} {k : Name} {v : Value}
    (h : arguments.lookup k = some v) : v.vars ⊆ memberVariables arguments := by
  induction arguments with
  | nil => cases h
  | cons p arguments ih =>
    obtain ⟨k', v'⟩ := p
    rw [List.lookup_cons] at h
    split at h
    · cases h
      exact List.subset_append_left ..
    · exact List.Subset.trans (ih h) (List.subset_append_right ..)

/-- Whether a selection is included depends on the variables of its directives. -/
theorem evalIf_congr {v v' : Name → Option (Json Num)} {directives : List Directive}
    (h : ∀ n ∈ directiveVariables directives, v n = v' n) (name : Name) :
    evalIf v directives name = evalIf v' directives name := by
  unfold evalIf
  cases hfind : directives.find? (·.name = name) with
  | none => rfl
  | some d =>
    cases hif : d.arguments.lookup "if" with
    | none => simp [hif]
    | some value =>
      cases value with
      | var n =>
        have hn : n ∈ directiveVariables directives :=
          List.mem_flatMap.2 ⟨d, List.mem_of_find?_eq_some hfind, vars_subset_of_lookup hif (List.mem_singleton.2 rfl)⟩
        simp [hif, h n hn]
      | _ => simp [hif]

theorem included_congr {v v' : Name → Option (Json Num)} {d : List Directive}
    (h : ∀ n ∈ directiveVariables d, v n = v' n) : included v d = included v' d := by
  rw [included, included, evalIf_congr h, evalIf_congr h]

theorem collectSelections_congr (hE : Env.Agree V F E E')
    {enter enter' : Name → List Name → Except Fault (List FieldSelection × List Name)}
    (henter : ∀ n ∈ F, ∀ visited, enter n visited = enter' n visited) {s : Selections} (hs : s.Uses V F)
    (visited : List Name) :
    collectSelections S E object enter s visited = collectSelections S E' object enter' s visited := by
  induction s generalizing visited with
  | nil => rfl
  | field f ty sub rest _ ihrest =>
    obtain ⟨hvars, hspreads⟩ := hs
    simp only [Selections.vars, Selections.spreads, List.append_subset] at hvars hspreads
    have hincluded := included_congr (d := f.directives) fun n hn =>
      hE.vars n (hvars.1.1 (List.mem_append_right _ hn))
    simp only [collectSelections, hincluded, ihrest ⟨hvars.2, hspreads.2⟩]
  | inlineFragment cond d ty sub rest ihsub ihrest =>
    obtain ⟨hvars, hspreads⟩ := hs
    simp only [Selections.vars, Selections.spreads, List.append_subset] at hvars hspreads
    have hincluded := included_congr (d := d) fun n hn => hE.vars n (hvars.1.1 hn)
    simp only [collectSelections, hincluded, ihrest ⟨hvars.2, hspreads.2⟩, ihsub ⟨hvars.1.2, hspreads.1⟩]
  | fragmentSpread n d rest ihrest =>
    obtain ⟨hvars, hspreads⟩ := hs
    simp only [Selections.vars, Selections.spreads, List.append_subset, List.cons_subset] at hvars hspreads
    have hincluded := included_congr (d := d) fun n hn => hE.vars n (hvars.1 hn)
    simp only [collectSelections, hincluded, ihrest ⟨hvars.2, hspreads.2⟩, henter n hspreads.1]

theorem visitFragment_congr (hE : Env.Agree V F E E') (fuel : ℕ) :
    ∀ n ∈ F, ∀ visited, visitFragment S E object fuel n visited = visitFragment S E' object fuel n visited := by
  induction fuel with
  | zero => exact fun _ _ _ => rfl
  | succ fuel ih =>
    intro n hn visited
    unfold visitFragment
    rw [← hE.fragments n hn]
    cases hfrag : E.fragments.lookup n with
    | none => rfl
    | some frag => simp only [collectSelections_congr hE ih (hE.closed n hn frag hfrag)]

theorem collectSets_congr (hE : Env.Agree V F E E') {fuel : ℕ} {sets : List Selections}
    (hsets : ∀ s ∈ sets, s.Uses V F) (visited : List Name) :
    collectSets S E object fuel sets visited = collectSets S E' object fuel sets visited := by
  induction sets generalizing visited with
  | nil => rfl
  | cons s sets ih =>
    obtain ⟨hs, hsets⟩ := List.forall_mem_cons.1 hsets
    simp only [collectSets, collectSelections_congr hE (visitFragment_congr hE fuel) hs, ih hsets]

/-- What is in the scope of a set uses what the set does. -/
theorem InScope.uses (hE : Env.Agree V F E E') {allow : Name → Prop} {P Q : Name} {s : Selections}
    {x : FieldSelection} (h : InScope E.fragments allow P s Q x) (hs : s.Uses V F) :
    x.field.vars ⊆ V ∧ x.selections.Uses V F := by
  induction h with
  | field =>
    simp only [Selections.Uses, Selections.vars, Selections.spreads, List.append_subset] at hs
    exact ⟨hs.1.1.1, hs.1.1.2, hs.2.1⟩
  | afterField _ ih =>
    simp only [Selections.Uses, Selections.vars, Selections.spreads, List.append_subset] at hs
    exact ih ⟨hs.1.2, hs.2.2⟩
  | inline _ _ ih =>
    simp only [Selections.Uses, Selections.vars, Selections.spreads, List.append_subset] at hs
    exact ih ⟨hs.1.1.2, hs.2.1⟩
  | afterInline _ ih =>
    simp only [Selections.Uses, Selections.vars, Selections.spreads, List.append_subset] at hs
    exact ih ⟨hs.1.2, hs.2.2⟩
  | spread hfrag _ _ ih =>
    simp only [Selections.Uses, Selections.spreads, List.cons_subset] at hs
    exact ih (hE.closed _ hs.2.1 _ hfrag)
  | afterSpread _ ih =>
    simp only [Selections.Uses, Selections.vars, Selections.spreads, List.append_subset, List.cons_subset] at hs
    exact ih ⟨hs.1.2, hs.2.2⟩

/-- The fields of a group are fields that were collected, of that key. -/
theorem mem_groupByKey {fields : List FieldSelection} {key : Name} {group : List FieldSelection}
    (h : (key, group) ∈ groupByKey fields) : ∀ x ∈ group, x ∈ fields ∧ x.key = key := by
  obtain ⟨k, _, heq⟩ := List.mem_map.1 h
  cases heq
  intro x hx
  obtain ⟨hx, hkey⟩ := List.mem_filter.1 hx
  exact ⟨hx, by simpa using hkey⟩

variable {Obj : Type} {R : Resolver Num Obj}

theorem executeField_congr (hE : Env.Agree V F E E')
    {execObj execObj' : List Selections → Name → Obj → Except Fault (JsonMap Num)}
    (hexec : ∀ sets, (∀ s ∈ sets, s.Uses V F) → execObj sets = execObj' sets) {group : List FieldSelection}
    (hgroup : ∀ x ∈ group, x.field.vars ⊆ V ∧ x.selections.Uses V F) (object : Name) (o : Obj) (key : Name) :
    executeField S C R E execObj object o key group = executeField S C R E' execObj' object o key group := by
  cases group with
  | nil => rfl
  | cons x rest =>
    have hargs : variablesIn E (memberVariables x.field.arguments) =
        variablesIn E' (memberVariables x.field.arguments) := by
      funext n
      unfold variablesIn
      split
      · next hn => exact hE.vars n ((hgroup x (List.mem_cons_self ..)).1 (List.mem_append_left _ hn))
      · rfl
    have hsub := hexec ((x :: rest).map FieldSelection.selections) fun s hs => by
      obtain ⟨y, hy, rfl⟩ := List.mem_map.1 hs
      exact (hgroup y hy).2
    rw [executeField, executeField, hargs, hsub]

theorem executeGroups_congr (hE : Env.Agree V F E E')
    {execObj execObj' : List Selections → Name → Obj → Except Fault (JsonMap Num)}
    (hexec : ∀ sets, (∀ s ∈ sets, s.Uses V F) → execObj sets = execObj' sets) {fields : List FieldSelection}
    (hfields : ∀ x ∈ fields, x.field.vars ⊆ V ∧ x.selections.Uses V F) (object : Name) (o : Obj) :
    executeGroups S C R E execObj object o fields = executeGroups S C R E' execObj' object o fields := by
  unfold executeGroups
  apply mapM_congr
  intro group hgroup
  have hmem := mem_groupByKey hgroup
  rw [executeField_congr hE hexec fun x hx => hfields x (hmem x hx).1]

/-- **An execution depends on what it uses**: with the same variables and fragments for its
selections, it has the same result. -/
theorem exec_congr (hE : Env.Agree V F E E') (fuel : ℕ) (sets : List Selections)
    (hsets : ∀ s ∈ sets, s.Uses V F) : exec S C R E fuel sets = exec S C R E' fuel sets := by
  induction fuel generalizing sets with
  | zero => rfl
  | succ fuel ih =>
    funext object o
    rw [exec, exec, ← collectSets_congr hE hsets]
    cases hcollect : collectSets S E object fuel sets [] with
    | error e => rw [error_bind, error_bind]
    | ok collected =>
      have hfields : ∀ x ∈ collected.1, x.field.vars ⊆ V ∧ x.selections.Uses V F := by
        intro x hx
        have hmap : (sets.map fun s => (object, s)).map Prod.snd = sets := by simp [List.map_map, Function.comp_def]
        rw [← hmap] at hcollect
        obtain ⟨-, set, hset, Q, hQ⟩ := mem_collectSets hcollect x hx
        obtain ⟨s, hs, rfl⟩ := List.mem_map.1 hset
        exact hQ.uses hE (hsets s hs)
      rw [ok_bind, ok_bind]
      exact executeGroups_congr hE ih hfields object o

end Congr

/-! ### The meaning of a sub-query -/

section Subquery

variable {C : Coercion Num} {used : List Name}

theorem lookup_filter_used (values : JsonMap Num) {n : Name} (hn : n ∈ used) :
    (values.filter fun p => p.1 ∈ used).lookup n = values.lookup n := by
  induction values with
  | nil => rfl
  | cons p values ih =>
    by_cases hp : p.1 ∈ used
    · rw [List.filter_cons_of_pos (by simpa using hp), List.lookup_cons, List.lookup_cons, ih]
    · have hne : (n == p.1) = false := beq_eq_false_iff_ne.2 fun heq => hp (heq ▸ hn)
      rw [List.filter_cons_of_neg (by simpa using hp), List.lookup_cons, hne, ih]

/-- The value of a variable has its name. -/
theorem name_coerceVariable {raw : JsonMap Num} {d : VariableDefinition} {value : Option (Name × Json Num)}
    (h : coerceVariable C raw d = .ok value) : ∀ p ∈ value, p.1 = d.name := by
  have hnamed : ∀ o : Option (Json Num), (do
      let v ← okOr o ("variable `" ++ d.name ++ "` has an invalid value")
      return some (d.name, v)) = .ok value → ∀ p ∈ value, p.1 = d.name := by
    intro o ho p hp
    simp only [bind_eq_ok, okOr_eq_ok, pure_eq_ok] at ho
    obtain ⟨v, -, rfl⟩ := ho
    rw [← Option.some.inj hp]
  unfold coerceVariable at h
  simp only at h
  split at h
  · exact hnamed _ h
  · split at h
    · exact hnamed _ h
    · cases h
    · cases h
      exact fun p hp => absurd hp (by simp)

/-- Of the definitions and of the raw values, those of the names used make the values of these names. -/
theorem coerceVariables_filter {defs : List VariableDefinition} {raw values : JsonMap Num}
    (h : coerceVariables C defs raw = .ok values) :
    coerceVariables C (defs.filter fun d => d.name ∈ used) (raw.filter fun p => p.1 ∈ used) =
      .ok (values.filter fun p => p.1 ∈ used) := by
  rw [coerceVariables, map_eq_ok] at h ⊢
  obtain ⟨os, hos, rfl⟩ := h
  simp only [mapM_eq_ok] at hos ⊢
  induction hos with
  | nil => exact ⟨[], .nil, rfl⟩
  | @cons d o defs os hd _ ih =>
    obtain ⟨os', hos', hvalues⟩ := ih
    have hname := name_coerceVariable hd
    by_cases hused : d.name ∈ used
    · have hsame : coerceVariable C (raw.filter fun p => p.1 ∈ used) d = .ok o := by
        rw [← hd, coerceVariable, coerceVariable, lookup_filter_used raw hused]
      refine ⟨o :: os', ?_, ?_⟩
      · rw [List.filter_cons_of_pos (by simpa using hused)]
        exact .cons hsame hos'
      · cases o with
        | none => exact hvalues
        | some p =>
          have hp : p.1 ∈ used := hname p rfl ▸ hused
          change p :: os'.filterMap id = (p :: os.filterMap id).filter _
          rw [hvalues, List.filter_cons_of_pos (by simpa using hp)]
    · refine ⟨os', ?_, ?_⟩
      · rw [List.filter_cons_of_neg (by simpa using hused)]
        exact hos'
      · cases o with
        | none => exact hvalues
        | some p =>
          have hp : p.1 ∉ used := hname p rfl ▸ hused
          change os'.filterMap id = (p :: os.filterMap id).filter _
          rw [hvalues, List.filter_cons_of_neg (by simpa using hp)]

theorem lookup_filterMap_names {α : Type} (f : Name → Option α) (names : List Name) (n : Name) :
    (names.filterMap fun m => (f m).map fun a => (m, a)).lookup n = if n ∈ names then f n else none := by
  induction names with
  | nil => rfl
  | cons m names ih =>
    by_cases hn : n = m
    · subst hn
      cases hf : f n with
      | none => simp [hf, ih]
      | some a => simp [hf]
    · have hne : (n == m) = false := beq_eq_false_iff_ne.2 hn
      cases hf : f m with
      | none => simp [hf, ih, hn]
      | some a => simp [hf, List.lookup_cons, ih, hn, hne]

/-- The fragments of a sub-query are as they are in the document. -/
theorem lookup_subqueryFragments {doc : Document} {fields : List FieldSelection} {n : Name}
    (hn : n ∈ (collectFields doc fields).frags) : (subqueryFragments doc fields).lookup n = doc.fragments.lookup n := by
  rw [subqueryFragments, lookup_filterMap_names, if_pos hn]

/-- **A sub-query is executed as its fields are in the client's document**, at any source: with the variables
and the fragments that `build_subquery` sends, it has the same result. -/
theorem exec_subquery {S : Schema} {Obj : Type} {R : Resolver Num Obj} {doc : Document} {op : Operation}
    {fields : List FieldSelection} {raw values : JsonMap Num} (h : coerceVariables C op.vars raw = .ok values) :
    ∃ sent, coerceVariables C (subqueryOperation doc op fields).vars (buildSubquery doc op fields raw).2 = .ok sent ∧
      ∀ fuel, exec S C R ⟨(buildSubquery doc op fields raw).1.fragments, fun n => sent.lookup n⟩ fuel
          [(subqueryOperation doc op fields).selections] =
        exec S C R ⟨doc.fragments, fun n => values.lookup n⟩ fuel [selectionsOf fields] := by
  obtain ⟨hclosed, hvars, hspreads⟩ := collected_closed doc fields
  have hagree : Env.Agree (collectFields doc fields).vars (collectFields doc fields).frags
      ⟨doc.fragments, fun n => values.lookup n⟩
      ⟨subqueryFragments doc fields, fun n => (values.filter fun p => p.1 ∈ (collectFields doc fields).vars).lookup n⟩ :=
    { vars := fun n hn => (lookup_filter_used values hn).symm
      fragments := fun n hn => (lookup_subqueryFragments hn).symm
      closed := fun n hn frag hfrag =>
        ⟨(List.append_subset.1 (hclosed.vars n hn frag hfrag)).2, hclosed.spreads n hn frag hfrag⟩ }
  exact ⟨_, coerceVariables_filter h, fun fuel =>
    (exec_congr hagree fuel _ (List.forall_mem_singleton.2 ⟨hvars, hspreads⟩)).symm⟩

end Subquery

end G2way.Udg
