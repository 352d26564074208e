import G2way.Lib.Nesting
import G2way.Lib.Text

/-!
# Executable documents

The part of `apollo_compiler::executable` the gateway's GraphQL layers read. A
document has operations and fragments; a selection set has the type it selects
on and its selections, each a field with a selection set of its own, an inline
fragment, or the spread of a fragment by name.

## The model

`Selections` is the list of a set's selections, each constructor a first
selection and the rest of them, so that a walk of the source is a structural
recursion. A `ValidDocument` is what validation leaves: every spread names a
fragment, and no fragment spreads itself, at whatever remove.

## What is proved

A valid document can be written without fragments (`Document.inlined`):
`spreads_inlined` says no spread is left, and `fragmentOf_eq` that each
fragment is replaced by its own selections, inlined in their turn.
-/

namespace G2way.GraphQl

open Relation
open G2way.Lib

/-- A name of a document or a schema. -/
abbrev Name := String

/-- A `__` name: of a meta field, or of a type of the introspection system. -/
def isMeta (name : Name) : Bool := G2way.Lib.Text.startsWith "__" name

/-- The grammar of names: letters, digits and underscores, and no digit first. -/
def isName (name : Name) : Bool :=
  let letter := fun c : Char => c.isAlpha || c == '_'
  match name.toList with
  | [] => false
  | c :: rest => letter c && rest.all fun c => letter c || c.isDigit

/-- A selected field, but for its selection set. -/
structure Field where
  /-- The alias the client gave it. -/
  aliasName : Option Name := none
  name : Name
  /-- The arguments, each value as it is printed. -/
  arguments : List (Name × String) := []
  /-- The directives, as they are printed. -/
  directives : List String := []
  deriving DecidableEq, Repr

/-- The key of the field in the response. -/
def Field.responseKey (f : Field) : Name := f.aliasName.getD f.name

/-- The selections of a set, in order. A selection set is given by its type and these. -/
inductive Selections where
  /-- No more selections. -/
  | nil
  /-- A field, and its own selection set: the type and the selections. -/
  | field (f : Field) (ty : Name) (sub rest : Selections)
  /-- An inline fragment, and its selection set. -/
  | inlineFragment (directives : List String) (ty : Name) (sub rest : Selections)
  /-- The spread of a named fragment. -/
  | fragmentSpread (fragmentName : Name) (directives : List String) (rest : Selections)
  deriving DecidableEq, Repr

/-- A fragment definition: its selection set, whose type is the type condition. -/
structure Fragment where
  ty : Name
  selections : Selections
  deriving DecidableEq, Repr

/-- What an operation does. -/
inductive OperationType where
  | query
  | mutation
  | subscription
  deriving DecidableEq, Repr

/-- An operation: its kind and its selection set. -/
structure Operation where
  operationType : OperationType := .query
  ty : Name
  selections : Selections
  deriving DecidableEq, Repr

/-- A document: its anonymous operation, its named ones, and its fragments. -/
structure Document where
  anonymous : Option Operation := none
  named : List (Name × Operation) := []
  fragments : List (Name × Fragment) := []
  deriving DecidableEq, Repr

/-- `operations`: all operations, anonymous and named. -/
def Document.operations (doc : Document) : List Operation := doc.anonymous.toList ++ doc.named.map Prod.snd

/-! ### Spreads -/

/-- The fragments a set spreads, in its own selections and in those below them. -/
def Selections.spreads : Selections → List Name
  | .nil => []
  | .field _ _ sub rest => sub.spreads ++ rest.spreads
  | .inlineFragment _ _ sub rest => sub.spreads ++ rest.spreads
  | .fragmentSpread n _ rest => n :: rest.spreads

/-- The fragment `a` spreads `b`. -/
def Document.Spreads (doc : Document) (a b : Name) : Prop :=
  ∃ frag, doc.fragments.lookup a = some frag ∧ b ∈ frag.selections.spreads

/-- The fragment is defined. -/
def Document.Defines (doc : Document) (n : Name) : Prop := ∃ frag, doc.fragments.lookup n = some frag

/-- A document that passed validation, as far as names and fragments go. -/
structure ValidDocument extends Document where
  operationNames : ∀ p ∈ named, isName p.1 = true
  /-- Every spread of an operation names a fragment. -/
  operationSpreads : ∀ op ∈ toDocument.operations, ∀ n ∈ op.selections.spreads, toDocument.Defines n
  /-- Every spread of a fragment names a fragment. -/
  fragmentSpreads : ∀ a b, toDocument.Spreads a b → toDocument.Defines b
  /-- No fragment spreads itself, directly or through others. -/
  acyclic : ∀ n, ¬ TransGen toDocument.Spreads n n

/-- A document of one operation and no fragments. -/
def ValidDocument.single (op : Operation) (h : op.selections.spreads = []) : ValidDocument where
  anonymous := some op
  operationNames := by simp
  operationSpreads := by simp [Document.operations, h]
  fragmentSpreads := by
    rintro a b ⟨frag, hfrag, _⟩
    simp at hfrag
  acyclic := by
    intro n hn
    obtain ⟨m, ⟨frag, hfrag, _⟩, _⟩ := TransGen.head'_iff.1 hn
    simp at hfrag

/-! ### Inlining -/

/-- Each spread becomes an inline fragment with the selections of the fragment. -/
def Selections.inlineSpreads (fragment : Name → Option Fragment) : Selections → Selections
  | .nil => .nil
  | .field f ty sub rest => .field f ty (sub.inlineSpreads fragment) (rest.inlineSpreads fragment)
  | .inlineFragment d ty sub rest =>
    .inlineFragment d ty (sub.inlineSpreads fragment) (rest.inlineSpreads fragment)
  | .fragmentSpread n d rest =>
    match fragment n with
    | some frag => .inlineFragment d frag.ty frag.selections (rest.inlineSpreads fragment)
    | none => .fragmentSpread n d (rest.inlineSpreads fragment)

/-- A fragment with its spreads inlined, to a nesting of `fuel` fragments. -/
def Document.inlinedFragment (doc : Document) : ℕ → Name → Option Fragment
  | 0, _ => none
  | fuel + 1, n => (doc.fragments.lookup n).map fun frag =>
      { frag with selections := frag.selections.inlineSpreads (doc.inlinedFragment fuel) }

/-- An operation with its spreads inlined. Fragments that spread one another without a cycle are
nested no deeper than their number. -/
def Document.inlinedOperation (doc : Document) (op : Operation) : Operation :=
  { op with selections := op.selections.inlineSpreads (doc.inlinedFragment doc.fragments.length) }

/-- **The document with all its fragment spreads inlined.** -/
def Document.inlined (doc : Document) : Document where
  anonymous := doc.anonymous.map doc.inlinedOperation
  named := doc.named.map fun p => (p.1, doc.inlinedOperation p.2)

theorem Document.operations_inlined (doc : Document) :
    doc.inlined.operations = doc.operations.map doc.inlinedOperation := by
  cases h : doc.anonymous with
  | none => simp [operations, inlined, h, List.map_map, Function.comp_def]
  | some op => simp [operations, inlined, h, List.map_map, Function.comp_def]

/-- The fragment and those below it are defined and nested no deeper than `k`. -/
def Document.Bounded (doc : Document) : ℕ → Name → Prop
  | 0, _ => False
  | k + 1, n => ∃ frag, doc.fragments.lookup n = some frag ∧ ∀ m ∈ frag.selections.spreads, doc.Bounded k m

theorem Document.Bounded.mono {doc : Document} {k l : ℕ} {n : Name} (h : doc.Bounded k n) (hkl : k ≤ l) :
    doc.Bounded l n := by
  induction k generalizing l n with
  | zero => exact absurd h (by simp [Bounded])
  | succ k ih =>
    obtain ⟨l, rfl⟩ : ∃ l', l = l' + 1 := ⟨l - 1, by omega⟩
    obtain ⟨frag, hfrag, hspreads⟩ := h
    exact ⟨frag, hfrag, fun m hm => ih (hspreads m hm) (by omega)⟩

/-- The spreads of a fragment, where it is defined. -/
def Document.spreadsOf (doc : Document) (n : Name) : Option (List Name) :=
  (doc.fragments.lookup n).map fun frag => frag.selections.spreads

theorem Document.spreadsOf_isSome {doc : Document} {n : Name} : (doc.spreadsOf n).isSome = true ↔ doc.Defines n := by
  rw [spreadsOf, Option.isSome_map, Option.isSome_iff_exists]
  rfl

theorem Document.refers_spreadsOf {doc : Document} : Nesting.Refers doc.spreadsOf = doc.Spreads := by
  funext a b
  simp only [Nesting.Refers, spreadsOf, Option.map_eq_some_iff, Spreads]
  refine propext ⟨?_, ?_⟩
  · rintro ⟨_, ⟨frag, hfrag, rfl⟩, hb⟩
    exact ⟨frag, hfrag, hb⟩
  · rintro ⟨frag, hfrag, hb⟩
    exact ⟨_, ⟨frag, hfrag, rfl⟩, hb⟩

/-- The fragments of a valid document are well nested. -/
theorem ValidDocument.wellNested (doc : ValidDocument) :
    Nesting.WellNested doc.spreadsOf (doc.fragments.map Prod.fst) where
  support n hn := by
    obtain ⟨frag, hfrag⟩ := Document.spreadsOf_isSome.1 hn
    obtain ⟨_, _, hsplit, _⟩ := List.lookup_eq_some_iff.1 hfrag
    simp [hsplit]
  closed a b hab := Document.spreadsOf_isSome.2 (doc.fragmentSpreads a b (Document.refers_spreadsOf ▸ hab))
  acyclic n hn := doc.acyclic n (Document.refers_spreadsOf ▸ hn)

theorem Document.bounded_of_nesting {doc : Document} {k : ℕ} {n : Name} (h : Nesting.Bounded doc.spreadsOf k n) :
    doc.Bounded k n := by
  induction k generalizing n with
  | zero => exact h.elim
  | succ k ih =>
    obtain ⟨refs, hrefs, hbelow⟩ := h
    obtain ⟨frag, hfrag, rfl⟩ := Option.map_eq_some_iff.1 hrefs
    exact ⟨frag, hfrag, fun m hm => ih (hbelow m hm)⟩

theorem ValidDocument.bounded (doc : ValidDocument) {n : Name} (hn : doc.Defines n) :
    doc.Bounded doc.fragments.length n := by
  have hbounded := doc.wellNested.bounded (Document.spreadsOf_isSome.2 hn)
  rw [List.length_map] at hbounded
  exact Document.bounded_of_nesting hbounded

/-- Inlining only looks at the fragments the set spreads. -/
theorem Selections.inlineSpreads_congr {f g : Name → Option Fragment} (s : Selections)
    (h : ∀ n ∈ s.spreads, f n = g n) : s.inlineSpreads f = s.inlineSpreads g := by
  induction s with
  | nil => rfl
  | field fl ty sub rest ihsub ihrest =>
    simp only [spreads, List.mem_append] at h
    simp only [inlineSpreads, ihsub fun n hn => h n (.inl hn), ihrest fun n hn => h n (.inr hn)]
  | inlineFragment d ty sub rest ihsub ihrest =>
    simp only [spreads, List.mem_append] at h
    simp only [inlineSpreads, ihsub fun n hn => h n (.inl hn), ihrest fun n hn => h n (.inr hn)]
  | fragmentSpread n d rest ihrest =>
    simp only [spreads, List.mem_cons] at h
    simp only [inlineSpreads, h n (.inl rfl), ihrest fun m hm => h m (.inr hm)]

/-- More fuel changes nothing where there was enough. -/
theorem Document.inlinedFragment_of_bounded {doc : Document} {k l : ℕ} {n : Name} (h : doc.Bounded k n)
    (hkl : k ≤ l) : doc.inlinedFragment l n = doc.inlinedFragment k n := by
  induction k generalizing l n with
  | zero => exact absurd h (by simp [Bounded])
  | succ k ih =>
    obtain ⟨l, rfl⟩ : ∃ l', l = l' + 1 := ⟨l - 1, by omega⟩
    obtain ⟨frag, hfrag, hspreads⟩ := h
    simp only [inlinedFragment, hfrag, Option.map_some]
    rw [frag.selections.inlineSpreads_congr fun m hm => ih (hspreads m hm) (show k ≤ l by omega)]

/-- The fragment that stands for a spread in a valid document. -/
def ValidDocument.fragmentOf (doc : ValidDocument) (n : Name) : Option Fragment :=
  doc.inlinedFragment doc.fragments.length n

/-- **A fragment's spread stands for its own selections, inlined in their turn.** -/
theorem ValidDocument.fragmentOf_eq (doc : ValidDocument) {n : Name} {frag : Fragment}
    (hfrag : doc.fragments.lookup n = some frag) :
    doc.fragmentOf n = some { frag with selections := frag.selections.inlineSpreads doc.fragmentOf } := by
  have hb := doc.bounded ⟨frag, hfrag⟩
  unfold fragmentOf
  generalize hl : doc.fragments.length = l at hb ⊢
  cases l with
  | zero => exact absurd hb (by simp [Document.Bounded])
  | succ k =>
    obtain ⟨frag', hfrag', hspreads⟩ := hb
    obtain rfl : frag = frag' := by rw [hfrag] at hfrag'; exact Option.some.inj hfrag'
    simp only [Document.inlinedFragment, hfrag, Option.map_some]
    have hsame : ∀ m ∈ frag.selections.spreads, doc.inlinedFragment k m = doc.inlinedFragment (k + 1) m :=
      fun m hm => (Document.inlinedFragment_of_bounded (hspreads m hm) (by omega)).symm
    rw [frag.selections.inlineSpreads_congr hsame]
    rfl

/-- Inlining leaves the spreads of what it puts in, and those it cannot resolve. -/
theorem Selections.spreads_inlineSpreads {f : Name → Option Fragment} (s : Selections)
    (h : ∀ n ∈ s.spreads, ∃ frag, f n = some frag ∧ frag.selections.spreads = []) :
    (s.inlineSpreads f).spreads = [] := by
  induction s with
  | nil => rfl
  | field fl ty sub rest ihsub ihrest =>
    simp only [spreads, List.mem_append] at h
    simp only [inlineSpreads, spreads, ihsub fun n hn => h n (.inl hn), ihrest fun n hn => h n (.inr hn),
      List.append_nil]
  | inlineFragment d ty sub rest ihsub ihrest =>
    simp only [spreads, List.mem_append] at h
    simp only [inlineSpreads, spreads, ihsub fun n hn => h n (.inl hn), ihrest fun n hn => h n (.inr hn),
      List.append_nil]
  | fragmentSpread n d rest ihrest =>
    simp only [spreads, List.mem_cons] at h
    obtain ⟨frag, hfrag, hnil⟩ := h n (.inl rfl)
    simp only [inlineSpreads, hfrag, spreads, hnil, ihrest fun m hm => h m (.inr hm), List.append_nil]

theorem Document.spreads_inlinedFragment {doc : Document} {k : ℕ} {n : Name} (h : doc.Bounded k n) :
    ∃ frag, doc.inlinedFragment k n = some frag ∧ frag.selections.spreads = [] := by
  induction k generalizing n with
  | zero => exact absurd h (by simp [Bounded])
  | succ k ih =>
    obtain ⟨frag, hfrag, hspreads⟩ := h
    exact ⟨_, by simp only [inlinedFragment, hfrag, Option.map_some]; rfl,
      frag.selections.spreads_inlineSpreads fun m hm => ih (hspreads m hm)⟩

/-- **No spread is left.** -/
theorem ValidDocument.spreads_inlined (doc : ValidDocument) :
    ∀ op ∈ doc.inlined.operations, op.selections.spreads = [] := by
  rw [Document.operations_inlined]
  intro op' hop'
  obtain ⟨op, hop, rfl⟩ := List.mem_map.1 hop'
  exact op.selections.spreads_inlineSpreads fun n hn =>
    Document.spreads_inlinedFragment (doc.bounded (doc.operationSpreads op hop n hn))

end G2way.GraphQl
