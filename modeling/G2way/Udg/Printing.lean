import G2way.Lib.Nesting
import G2way.Udg.Query

/-!
# The text of a sub-query

What `build_subquery` prints, as the tokens of the text: it is the operation keyword,
the definitions of variables, the fields, and the definitions of fragments. The
printing of fields, values and directives is that of `apollo_compiler`, which writes
them in the syntax of GraphQL.

## The model

A token is a word, a string literal or a variable. Blanks and commas, which GraphQL
ignores, are left out. A `Query` is a text in its parts. A document is valid as far as
fragments and variables go (`Document.Valid`): spreads are defined and do not lead
back to themselves, and every variable that an operation uses, itself or in a
fragment, is defined by it. The fields that are recorded for a root field are root
fields of the operation (`RootField`).

## What is proved

`variables_print` and its like: the collectors find the variables of the text that is
printed. `collected_exact`: the fragments collected are those the fields reach, each
once, and the variables collected are those of the fields and these fragments.
-/

namespace G2way.Udg

open G2way.GraphQl (Name TypeRef OperationType)
open G2way.Lib
open Relation (ReflTransGen TransGen)

variable {Num : Type}

/-! ### Tokens -/

/-- A token of a text. -/
inductive Token where
  /-- A name, a number or a punctuator. -/
  | word (s : String)
  /-- A string literal, as the string it is. -/
  | string (s : String)
  /-- A variable. -/
  | dollar (name : Name)
  deriving DecidableEq, Repr

/-- The variables that occur in a text. -/
def variablesOf (tokens : List Token) : List Name :=
  tokens.filterMap fun
    | .dollar name => some name
    | _ => none

@[simp] theorem variablesOf_nil : variablesOf [] = [] := rfl

@[simp] theorem variablesOf_word (s : String) (tokens : List Token) :
    variablesOf (.word s :: tokens) = variablesOf tokens := rfl

@[simp] theorem variablesOf_string (s : String) (tokens : List Token) :
    variablesOf (.string s :: tokens) = variablesOf tokens := rfl

@[simp] theorem variablesOf_dollar (name : Name) (tokens : List Token) :
    variablesOf (.dollar name :: tokens) = name :: variablesOf tokens := rfl

@[simp] theorem variablesOf_append (a b : List Token) : variablesOf (a ++ b) = variablesOf a ++ variablesOf b :=
  List.filterMap_append

/-- Tokens in brackets. -/
def bracketed (opening closing : String) (tokens : List Token) : List Token :=
  .word opening :: (tokens ++ [.word closing])

@[simp] theorem variablesOf_bracketed (opening closing : String) (tokens : List Token) :
    variablesOf (bracketed opening closing tokens) = variablesOf tokens := by
  simp [bracketed]

/-! ### Printing -/

mutual

/-- A value. -/
def Value.print : Value → List Token
  | .null => [.word "null"]
  | .bool b => [.word (if b then "true" else "false")]
  | .number text => [.word text]
  | .string s => [.string s]
  | .enum name => [.word name]
  | .var name => [.dollar name]
  | .list items => bracketed "[" "]" (printItems items)
  | .object fields => bracketed "\x7b" "\x7d" (printMembers fields)

/-- The items of a list. -/
def printItems : List Value → List Token
  | [] => []
  | v :: rest => v.print ++ printItems rest

/-- The fields of an object, or arguments. -/
def printMembers : List (Name × Value) → List Token
  | [] => []
  | (name, v) :: rest => .word name :: .word ":" :: (v.print ++ printMembers rest)

end

/-- Arguments. -/
def printArguments (arguments : List (Name × Value)) : List Token :=
  if arguments.isEmpty then [] else bracketed "(" ")" (printMembers arguments)

/-- Directives. -/
def printDirectives (directives : List Directive) : List Token :=
  directives.flatMap fun d => .word "@" :: .word d.name :: printArguments d.arguments

/-- A field, but for its selection set. -/
def Field.print (f : Field) : List Token :=
  (f.aliasName.map fun a => [.word a, .word ":"]).getD [] ++ .word f.name ::
    (printArguments f.arguments ++ printDirectives f.directives)

namespace Selections

/-- No selections. -/
def isEmpty : Selections → Bool
  | .nil => true
  | _ => false

/-- The selections of a set. -/
def print : Selections → List Token
  | .nil => []
  | .field f _ sub rest =>
    f.print ++ (if sub.isEmpty then [] else bracketed "\x7b" "\x7d" sub.print) ++ rest.print
  | .inlineFragment typeCondition d _ sub rest =>
    .word "..." :: ((typeCondition.map fun ty => [.word "on", .word ty]).getD [] ++ printDirectives d ++
      bracketed "\x7b" "\x7d" sub.print ++ rest.print)
  | .fragmentSpread name d rest => .word "..." :: .word name :: (printDirectives d ++ rest.print)

end Selections

/-- The definition of a fragment. -/
def Fragment.print (name : Name) (frag : Fragment) : List Token :=
  [.word "fragment", .word name, .word "on", .word frag.ty] ++ printDirectives frag.directives ++
    bracketed "\x7b" "\x7d" frag.selections.print

/-- A text in its parts. -/
structure Query where
  /-- The operation keyword. -/
  keyword : String
  /-- The definitions in the parentheses behind it. -/
  definitions : List VariableDefinition
  /-- What is in the braces. -/
  body : List Token
  /-- The definitions of fragments behind them. -/
  fragments : List (Name × List Token) := []

/-- The keyword of an operation. -/
def operationKeyword : OperationType → String
  | .query => "query"
  | .mutation => "mutation"
  | .subscription => "subscription"

/-- The text of an operation and fragments. -/
def Query.of (op : Operation) (fragments : List (Name × Fragment)) : Query where
  keyword := operationKeyword op.operationType
  definitions := op.vars
  body := op.selections.print
  fragments := fragments.map fun p => (p.1, p.2.print p.1)

/-- The text of a document of one operation without a name. -/
def Document.text (doc : Document) : Option Query := doc.anonymous.map fun op => .of op doc.fragments

/-- The variables that occur in the text, its definitions of variables apart. -/
def Query.occurring (q : Query) : List Name :=
  variablesOf q.body ++ q.fragments.flatMap fun p => variablesOf p.2

/-! ### The collectors find what is printed -/

mutual

/-- `collect_value` finds the variables of a printed value. -/
theorem variables_print : ∀ v : Value, variablesOf v.print = v.vars
  | .null | .number _ | .string _ | .enum _ | .var _ => rfl
  | .bool b => by cases b <;> rfl
  | .list items => by rw [Value.print, variablesOf_bracketed, variables_printItems items, Value.vars]
  | .object fields => by rw [Value.print, variablesOf_bracketed, variables_printMembers fields, Value.vars]

theorem variables_printItems : ∀ items : List Value, variablesOf (printItems items) = itemVariables items
  | [] => rfl
  | v :: rest => by
    rw [printItems, variablesOf_append, variables_print v, variables_printItems rest, itemVariables]

theorem variables_printMembers : ∀ members : List (Name × Value),
    variablesOf (printMembers members) = memberVariables members
  | [] => rfl
  | (name, v) :: rest => by
    rw [printMembers, variablesOf_word, variablesOf_word, variablesOf_append, variables_print v,
      variables_printMembers rest, memberVariables]

end

theorem variables_printArguments (arguments : List (Name × Value)) :
    variablesOf (printArguments arguments) = memberVariables arguments := by
  cases arguments with
  | nil => rfl
  | cons arg rest =>
    rw [printArguments, List.isEmpty_cons, if_neg Bool.false_ne_true, variablesOf_bracketed, variables_printMembers]

/-- `collect_directives` finds the variables of printed directives. -/
theorem variables_printDirectives (directives : List Directive) :
    variablesOf (printDirectives directives) = directiveVariables directives := by
  induction directives with
  | nil => rfl
  | cons d rest ih =>
    rw [printDirectives, List.flatMap_cons, variablesOf_append, variablesOf_word, variablesOf_word,
      variables_printArguments, directiveVariables, List.flatMap_cons]
    exact congrArg _ ih

theorem variables_printField (f : Field) : variablesOf f.print = f.vars := by
  unfold Field.print Field.vars
  rw [variablesOf_append, variablesOf_word, variablesOf_append, variables_printArguments, variables_printDirectives]
  cases f.aliasName with
  | none => rfl
  | some a => rfl

theorem variables_printSelections (s : Selections) : variablesOf s.print = s.vars := by
  induction s with
  | nil => rfl
  | field f ty sub rest ihsub ihrest =>
    have hsub : variablesOf (if sub.isEmpty then [] else bracketed "\x7b" "\x7d" sub.print) = sub.vars := by
      cases sub with
      | nil => rfl
      | _ => exact (variablesOf_bracketed ..).trans ihsub
    rw [Selections.print, Selections.vars, variablesOf_append, variablesOf_append, variables_printField, hsub, ihrest]
  | inlineFragment cond d ty sub rest ihsub ihrest =>
    rw [Selections.print, Selections.vars, variablesOf_word, variablesOf_append, variablesOf_append, variablesOf_append,
      variables_printDirectives, variablesOf_bracketed, ihsub, ihrest]
    cases cond with
    | none => rfl
    | some ty => rfl
  | fragmentSpread n d rest ihrest =>
    rw [Selections.print, Selections.vars, variablesOf_word, variablesOf_word, variablesOf_append,
      variables_printDirectives, ihrest]

theorem variables_printFragment (name : Name) (frag : Fragment) : variablesOf (frag.print name) = frag.vars := by
  simp [Fragment.print, Fragment.vars, variables_printDirectives, variables_printSelections]

/-! ### Valid documents -/

/-- All operations. -/
def Document.operations (doc : Document) : List Operation := doc.anonymous.toList ++ doc.named.map Prod.snd

/-- The spreads of a fragment, where it is defined. -/
def Document.spreadsOf (doc : Document) (n : Name) : Option (List Name) :=
  (doc.fragments.lookup n).map fun frag => frag.selections.spreads

/-- The selections spread the fragment, themselves or in a fragment they reach. -/
inductive Document.Reaches (doc : Document) (s : Selections) : Name → Prop where
  | spread {n : Name} (h : n ∈ s.spreads) : Reaches doc s n
  | through {n m : Name} {frag : Fragment} (hn : Reaches doc s n) (hfrag : doc.fragments.lookup n = some frag)
      (hm : m ∈ frag.selections.spreads) : Reaches doc s m

/-- The selections use the variable, themselves or in a fragment they reach. -/
def Document.Uses (doc : Document) (s : Selections) (x : Name) : Prop :=
  x ∈ s.vars ∨ ∃ n frag, doc.Reaches s n ∧ doc.fragments.lookup n = some frag ∧ x ∈ frag.vars

/-- A document that passed validation, as far as fragments and variables go. -/
structure Document.Valid (doc : Document) : Prop where
  /-- Fragments spread defined fragments, and none spreads itself at any remove. -/
  nested : Nesting.WellNested doc.spreadsOf (doc.fragments.map Prod.fst)
  /-- Every spread of an operation names a fragment. -/
  spreads : ∀ op ∈ doc.operations, ∀ n ∈ op.selections.spreads, (doc.spreadsOf n).isSome = true
  /-- Every variable that an operation uses is one of its own. -/
  vars : ∀ op ∈ doc.operations, ∀ x, doc.Uses op.selections x → x ∈ op.vars.map VariableDefinition.name

/-- A field at the root of the selections, fragments gone through. -/
inductive RootField (doc : Document) : Selections → FieldSelection → Prop where
  | here (f : Field) (ty : Name) (sub rest : Selections) : RootField doc (.field f ty sub rest) ⟨f, ty, sub⟩
  | field {f : Field} {ty : Name} {sub rest : Selections} {x : FieldSelection} (h : RootField doc rest x) :
      RootField doc (.field f ty sub rest) x
  | inlineFragment {cond : Option Name} {d : List Directive} {ty : Name} {sub rest : Selections} {x : FieldSelection}
      (h : RootField doc sub x) : RootField doc (.inlineFragment cond d ty sub rest) x
  | afterFragment {cond : Option Name} {d : List Directive} {ty : Name} {sub rest : Selections} {x : FieldSelection}
      (h : RootField doc rest x) : RootField doc (.inlineFragment cond d ty sub rest) x
  | fragmentSpread {n : Name} {d : List Directive} {rest : Selections} {frag : Fragment} {x : FieldSelection}
      (hfrag : doc.fragments.lookup n = some frag) (h : RootField doc frag.selections x) :
      RootField doc (.fragmentSpread n d rest) x
  | afterSpread {n : Name} {d : List Directive} {rest : Selections} {x : FieldSelection} (h : RootField doc rest x) :
      RootField doc (.fragmentSpread n d rest) x

section Valid

variable {doc : Document} {s t : Selections} {n x : Name}

/-- `s` spreads and uses no more than `t` does. -/
structure Document.Below (doc : Document) (s t : Selections) : Prop where
  spreads : ∀ n ∈ s.spreads, doc.Reaches t n
  vars : ∀ x ∈ s.vars, doc.Uses t x

theorem Document.Below.reaches (h : doc.Below s t) (hn : doc.Reaches s n) : doc.Reaches t n := by
  induction hn with
  | spread hmem => exact h.spreads _ hmem
  | through _ hfrag hm ih => exact .through ih hfrag hm

theorem Document.Below.uses (h : doc.Below s t) (hx : doc.Uses s x) : doc.Uses t x := by
  rcases hx with hx | ⟨n, frag, hn, hfrag, hx⟩
  · exact h.vars x hx
  · exact .inr ⟨n, frag, h.reaches hn, hfrag, hx⟩

/-- Parts of the selections spread and use no more. -/
theorem Document.below_of_subset (hspreads : s.spreads ⊆ t.spreads) (hvars : s.vars ⊆ t.vars) : doc.Below s t :=
  ⟨fun _ hn => .spread (hspreads hn), fun _ hx => .inl (hvars hx)⟩

theorem Document.Below.trans {r : Selections} (h : doc.Below r s) (h' : doc.Below s t) : doc.Below r t :=
  ⟨fun n hn => h'.reaches (h.spreads n hn), fun x hx => h'.uses (h.vars x hx)⟩

theorem Document.below_fragment {d : List Directive} {rest : Selections} {frag : Fragment}
    (hfrag : doc.fragments.lookup n = some frag) : doc.Below frag.selections (.fragmentSpread n d rest) where
  spreads _ hm := .through (.spread List.mem_cons_self) hfrag hm
  vars _ hx := .inr ⟨n, frag, .spread List.mem_cons_self, hfrag, List.mem_append_right _ hx⟩

/-- A root field spreads and uses no more than the selections it is a field of. -/
theorem RootField.below_selections {y : FieldSelection} (h : RootField doc s y) : doc.Below (selectionsOf [y]) s := by
  induction h with
  | here f ty sub rest =>
    refine Document.below_of_subset (List.append_subset.2 ⟨List.subset_append_left .., List.nil_subset _⟩)
      (List.append_subset.2 ⟨List.subset_append_left .., List.nil_subset _⟩)
  | field _ ih =>
    exact ih.trans (Document.below_of_subset (List.subset_append_right ..) (List.subset_append_right ..))
  | inlineFragment _ ih =>
    refine ih.trans (Document.below_of_subset (List.subset_append_left ..) fun x hx => ?_)
    exact List.mem_append_left _ (List.mem_append_right _ hx)
  | afterFragment _ ih =>
    exact ih.trans (Document.below_of_subset (List.subset_append_right ..) (List.subset_append_right ..))
  | fragmentSpread hfrag _ ih => exact ih.trans (Document.below_fragment hfrag)
  | afterSpread _ ih =>
    exact ih.trans (Document.below_of_subset (List.subset_cons_self ..) (List.subset_append_right ..))

/-- So do several of them. -/
theorem below_selectionsOf {fields : List FieldSelection} (h : ∀ y ∈ fields, RootField doc s y) :
    doc.Below (selectionsOf fields) s := by
  induction fields with
  | nil => exact ⟨fun _ hn => absurd hn List.not_mem_nil, fun _ hx => absurd hx List.not_mem_nil⟩
  | cons y fields ih =>
    have hhead := (h y List.mem_cons_self).below_selections
    have htail := ih fun z hz => h z (List.mem_cons_of_mem _ hz)
    constructor
    · intro n hn
      rcases List.mem_append.1 hn with hn | hn
      · exact hhead.spreads n (List.mem_append_left _ hn)
      · exact htail.spreads n hn
    · intro x hx
      rcases List.mem_append.1 hx with hx | hx
      · exact hhead.vars x (List.mem_append_left _ hx)
      · exact htail.vars x hx

end Valid

/-! ### What is collected, exactly -/

section Exact

variable {doc : Document} {P Q : Name → Prop}

/-- What was collected satisfies `P` and `Q`, each fragment once. -/
structure Collected.Within (P Q : Name → Prop) (acc : Collected) : Prop where
  frags : ∀ n ∈ acc.frags, P n
  vars : ∀ x ∈ acc.vars, Q x
  nodup : acc.frags.Nodup

theorem Collected.Within.insert {acc : Collected} (h : acc.Within P Q) {names : List Name} (hnames : ∀ x ∈ names, Q x) :
    (acc.insert names).Within P Q :=
  ⟨h.frags, fun x hx => (List.mem_append.1 hx).elim (h.vars x) (hnames x), h.nodup⟩

theorem within_collectSet {enter : Name → Collected → Collected}
    (henter : ∀ n acc, P n → acc.Within P Q → (enter n acc).Within P Q) {s : Selections}
    (hspreads : ∀ n ∈ s.spreads, P n) (hvars : ∀ x ∈ s.vars, Q x) {acc : Collected} (h : acc.Within P Q) :
    (collectSet enter s acc).Within P Q := by
  induction s generalizing acc with
  | nil => exact h
  | field f ty sub rest ihsub ihrest =>
    simp only [Selections.spreads, Selections.vars, List.forall_mem_append] at hspreads hvars
    exact ihrest hspreads.2 hvars.2 (ihsub hspreads.1 hvars.1.2 (h.insert hvars.1.1))
  | inlineFragment cond d ty sub rest ihsub ihrest =>
    simp only [Selections.spreads, Selections.vars, List.forall_mem_append] at hspreads hvars
    exact ihrest hspreads.2 hvars.2 (ihsub hspreads.1 hvars.1.2 (h.insert hvars.1.1))
  | fragmentSpread n d rest ihrest =>
    simp only [Selections.spreads, Selections.vars, List.forall_mem_cons, List.forall_mem_append] at hspreads hvars
    exact ihrest hspreads.2 hvars.2 (henter n _ hspreads.1 (h.insert hvars.1))

theorem within_enterFragment
    (hclosed : ∀ n frag, P n → doc.fragments.lookup n = some frag →
      (∀ m ∈ frag.selections.spreads, P m) ∧ ∀ x ∈ frag.vars, Q x)
    (fuel : ℕ) (n : Name) (acc : Collected) (hn : P n) (h : acc.Within P Q) :
    (enterFragment doc fuel n acc).Within P Q := by
  induction fuel generalizing n acc with
  | zero => exact h
  | succ fuel ih =>
    unfold enterFragment
    split_ifs with hmem
    · exact h
    · have hpushed : Collected.Within P Q ⟨acc.vars, acc.frags ++ [n]⟩ := by
        refine ⟨?_, h.vars, ?_⟩
        · exact List.forall_mem_append.2 ⟨h.frags, fun m hm => List.mem_singleton.1 hm ▸ hn⟩
        · rw [List.nodup_append]
          refine ⟨h.nodup, List.nodup_singleton n, fun a ha b hb hab => ?_⟩
          rw [List.mem_singleton.1 hb] at hab
          exact hmem (hab ▸ ha)
      cases hfrag : doc.fragments.lookup n with
      | none => exact hpushed
      | some frag =>
        obtain ⟨hspreads, hvars⟩ := hclosed n frag hn hfrag
        rw [Fragment.vars, List.forall_mem_append] at hvars
        exact within_collectSet ih hspreads hvars.2 (hpushed.insert hvars.1)

/-- **What is collected is what the fields reach and use**, each fragment once. -/
theorem collected_exact (doc : Document) (fields : List FieldSelection) :
    (collectFields doc fields).frags.Nodup ∧
      (∀ n, n ∈ (collectFields doc fields).frags ↔ doc.Reaches (selectionsOf fields) n) ∧
      ∀ x, x ∈ (collectFields doc fields).vars ↔ doc.Uses (selectionsOf fields) x := by
  have hwithin : (collectFields doc fields).Within (doc.Reaches (selectionsOf fields))
      (doc.Uses (selectionsOf fields)) := by
    refine within_collectSet (within_enterFragment ?_ _) (fun n hn => .spread hn) (fun x hx => .inl hx)
      ⟨fun _ hn => absurd hn List.not_mem_nil, fun _ hx => absurd hx List.not_mem_nil, List.nodup_nil⟩
    intro n frag hn hfrag
    exact ⟨fun m hm => .through hn hfrag hm, fun x hx => .inr ⟨n, frag, hn, hfrag, hx⟩⟩
  obtain ⟨hclosed, hvars, hspreads⟩ := collected_closed doc fields
  have hfrags : ∀ n, doc.Reaches (selectionsOf fields) n → n ∈ (collectFields doc fields).frags := by
    intro n hn
    induction hn with
    | spread hmem => exact hspreads hmem
    | through _ hfrag hm ih => exact hclosed.spreads _ ih _ hfrag hm
  refine ⟨hwithin.nodup, fun n => ⟨hwithin.frags n, hfrags n⟩, fun x => ⟨hwithin.vars x, ?_⟩⟩
  rintro (hx | ⟨n, frag, hn, hfrag, hx⟩)
  · exact hvars hx
  · exact hclosed.vars n (hfrags n hn) frag hfrag hx

end Exact

/-! ### Sub-queries are closed -/

/-- The operation of a sub-query. -/
def subqueryOperation (doc : Document) (op : Operation) (fields : List FieldSelection) : Operation where
  operationType := op.operationType
  vars := op.vars.filter fun v => v.name ∈ (collectFields doc fields).vars
  ty := op.ty
  selections := selectionsOf fields

/-- The fragments of a sub-query. -/
def subqueryFragments (doc : Document) (fields : List FieldSelection) : List (Name × Fragment) :=
  (collectFields doc fields).frags.filterMap fun n => (doc.fragments.lookup n).map fun frag => (n, frag)

/-- **A text is closed**, for an operation: it declares the operation's variables that occur in it, besides
them the extra ones only, and nothing that occurs is left undeclared. -/
structure Query.Closed (op : Operation) (extra : List VariableDefinition) (q : Query) : Prop where
  declares : q.definitions = extra ++ op.vars.filter fun v => v.name ∈ q.occurring
  declared : ∀ x ∈ q.occurring, x ∈ q.definitions.map VariableDefinition.name

/-- The client's variables of the names that a text declares for the operation. -/
def Query.restricted (op : Operation) (raw : JsonMap Num) (q : Query) : JsonMap Num :=
  raw.filter fun p => p.1 ∈ (op.vars.filter fun v => v.name ∈ q.occurring).map VariableDefinition.name

section Closed

variable {op : Operation} {q : Query} {used : List Name}

theorem mem_names_filter {x : Name} (hocc : ∀ v ∈ op.vars, v.name ∈ used ↔ v.name ∈ q.occurring)
    (hop : ∀ x ∈ used, x ∈ op.vars.map VariableDefinition.name) :
    x ∈ (op.vars.filter fun v => v.name ∈ q.occurring).map VariableDefinition.name ↔ x ∈ used := by
  constructor
  · intro hx
    obtain ⟨v, hv, rfl⟩ := List.mem_map.1 hx
    rw [List.mem_filter, decide_eq_true_eq] at hv
    exact (hocc v hv.1).2 hv.2
  · intro hx
    obtain ⟨v, hv, rfl⟩ := List.mem_map.1 (hop x hx)
    exact List.mem_map_of_mem (List.mem_filter.2 ⟨hv, decide_eq_true ((hocc v hv).1 hx)⟩)

/-- The definitions filtered by the names used are those of the names that occur. -/
theorem filter_used (hocc : ∀ v ∈ op.vars, v.name ∈ used ↔ v.name ∈ q.occurring) :
    (op.vars.filter fun v => v.name ∈ used) = op.vars.filter fun v => v.name ∈ q.occurring :=
  List.filter_congr fun v hv => decide_eq_decide.2 (hocc v hv)

/-- The client's variables filtered by the names used are those of the names declared. -/
theorem filter_raw_used (hocc : ∀ v ∈ op.vars, v.name ∈ used ↔ v.name ∈ q.occurring)
    (hop : ∀ x ∈ used, x ∈ op.vars.map VariableDefinition.name) (raw : JsonMap Num) :
    (raw.filter fun p => p.1 ∈ used) = q.restricted op raw :=
  List.filter_congr fun _ _ => decide_eq_decide.2 (mem_names_filter hocc hop).symm

end Closed

section Subquery

variable {doc : Document} {op : Operation} {fields : List FieldSelection}

theorem mem_subqueryFragments {n : Name} {frag : Fragment} :
    (n, frag) ∈ subqueryFragments doc fields ↔
      doc.Reaches (selectionsOf fields) n ∧ doc.fragments.lookup n = some frag := by
  obtain ⟨-, hfrags, -⟩ := collected_exact doc fields
  simp only [subqueryFragments, List.mem_filterMap, Option.map_eq_some_iff, Prod.mk.injEq]
  constructor
  · rintro ⟨m, hm, frag', hfrag', rfl, rfl⟩
    exact ⟨(hfrags m).1 hm, hfrag'⟩
  · rintro ⟨hn, hfrag⟩
    exact ⟨n, (hfrags n).2 hn, frag, hfrag, rfl, rfl⟩

/-- What occurs in a sub-query is what its fields use. -/
theorem mem_occurring_subquery {x : Name} :
    x ∈ (Query.of (subqueryOperation doc op fields) (subqueryFragments doc fields)).occurring ↔
      doc.Uses (selectionsOf fields) x := by
  simp only [Query.occurring, Query.of, subqueryOperation, variables_printSelections, List.mem_append,
    List.flatMap_map, variables_printFragment, List.mem_flatMap, Prod.exists, mem_subqueryFragments, Document.Uses,
    and_assoc]

/-- What a document's root fields reach is defined in it. -/
theorem defined_of_reaches (hdoc : doc.Valid) (hop : op ∈ doc.operations) {n : Name}
    (hn : doc.Reaches op.selections n) : ∃ frag, doc.fragments.lookup n = some frag := by
  have hsome : (doc.spreadsOf n).isSome = true := by
    induction hn with
    | spread hmem => exact hdoc.spreads op hop _ hmem
    | through _ hfrag hm _ => exact hdoc.nested.closed _ _ ⟨_, Option.map_eq_some_iff.2 ⟨_, hfrag, rfl⟩, hm⟩
  rw [Document.spreadsOf, Option.isSome_map] at hsome
  exact Option.isSome_iff_exists.1 hsome

/-- The fragments that a sub-query defines are those its fields reach, each once. -/
theorem fragments_subquery (hdoc : doc.Valid) (hop : op ∈ doc.operations)
    (hfields : ∀ y ∈ fields, RootField doc op.selections y) :
    ((subqueryFragments doc fields).map Prod.fst).Nodup ∧
      ∀ n, n ∈ (subqueryFragments doc fields).map Prod.fst ↔ doc.Reaches (selectionsOf fields) n := by
  obtain ⟨hnodup, hfrags, -⟩ := collected_exact doc fields
  have hbelow := below_selectionsOf hfields
  have hnames : (subqueryFragments doc fields).map Prod.fst = (collectFields doc fields).frags := by
    have hall : ∀ l : List Name, (∀ n ∈ l, doc.Reaches (selectionsOf fields) n) →
        (l.filterMap fun n => (doc.fragments.lookup n).map fun frag => (n, frag)).map Prod.fst = l := by
      intro l hl
      induction l with
      | nil => rfl
      | cons n l ih =>
        obtain ⟨frag, hfrag⟩ := defined_of_reaches hdoc hop (hbelow.reaches (hl n List.mem_cons_self))
        rw [List.filterMap_cons, hfrag]
        exact congrArg (n :: ·) (ih fun m hm => hl m (List.mem_cons_of_mem _ hm))
    exact hall _ fun n hn => (hfrags n).1 hn
  rw [hnames]
  exact ⟨hnodup, hfrags⟩

theorem fragments_names (op : Operation) (fragments : List (Name × Fragment)) :
    (Query.of op fragments).fragments.map Prod.fst = fragments.map Prod.fst := by
  rw [Query.of, List.map_map]
  rfl

/-- **Sub-queries for data sources are closed.** -/
theorem subquery_closed (hdoc : doc.Valid) (hop : op ∈ doc.operations)
    (hfields : ∀ y ∈ fields, RootField doc op.selections y) (raw : JsonMap Num) :
    (Query.of (subqueryOperation doc op fields) (subqueryFragments doc fields)).Closed op [] ∧
      (buildSubquery doc op fields raw).2 =
        (Query.of (subqueryOperation doc op fields) (subqueryFragments doc fields)).restricted op raw := by
  obtain ⟨-, -, hvars⟩ := collected_exact doc fields
  have hocc : ∀ x, x ∈ (collectFields doc fields).vars ↔
      x ∈ (Query.of (subqueryOperation doc op fields) (subqueryFragments doc fields)).occurring := fun x =>
    (hvars x).trans mem_occurring_subquery.symm
  have hused : ∀ x ∈ (collectFields doc fields).vars, x ∈ op.vars.map VariableDefinition.name := fun x hx =>
    hdoc.vars op hop x ((below_selectionsOf hfields).uses ((hvars x).1 hx))
  have hdefinitions : (Query.of (subqueryOperation doc op fields) (subqueryFragments doc fields)).definitions =
      op.vars.filter fun v =>
        v.name ∈ (Query.of (subqueryOperation doc op fields) (subqueryFragments doc fields)).occurring :=
    filter_used fun v _ => hocc v.name
  refine ⟨⟨hdefinitions, fun x hx => ?_⟩, filter_raw_used (fun v _ => hocc v.name) hused raw⟩
  rw [hdefinitions]
  exact (mem_names_filter (fun v _ => hocc v.name) hused).2 ((hocc x).2 hx)

end Subquery

end G2way.Udg
