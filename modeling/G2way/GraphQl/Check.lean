import G2way.Core.Session
import G2way.GraphQl.Document
import G2way.Lib.DepthFirst
import Mathlib.Algebra.Group.Int.Defs

/-!
# Policing a document

`check_document` of `g2-middleware/src/graphql.rs` "runs the protection pipeline —
introspection control, depth limit, field permissions — over a validated
document". Its four walks go through fragments by name: three of them enter each
fragment once, with a visited set that is shared by all operations, and the depth
walk keeps the depth of each fragment it has measured.

## The model

The three walks that search are one (`walk`, `enterFragment`), given what they
look for, whether they go below a field and what a missing fragment counts as
(`Walk`). A walk is given fuel for the fragments it enters: the visited set, or
the stack of the depth walk, lets it enter no more of them than there are. Depths
are natural numbers; a level takes a character of the document at least, so a
`u32` holds them.

## What is proved

`checkDocument_iff`: a valid document passes exactly when the document with its
fragments inlined keeps the policy (`Policy`), which reads off the inlined
document with no visited set and no memo. The searching walks are instances of
`Lib.DepthFirst.scan` (`walk_eq_scan`, `enterFragment_eq`), right by
`scan_eq_none_iff`; the depth walk's memo holds the depth of the inlined fragment
(`setDepth_eq`, `fragmentDepth_eq`).
-/

namespace G2way.GraphQl

open G2way.Core G2way.Lib G2way.Lib.DepthFirst Relation

/-! ### The policy's settings -/

/-- The settings of a GraphQL API the policing reads (`GraphQlShared`). -/
structure GraphQlShared where
  introspectionEnabled : Bool := true
  maxQueryDepth : Option ℕ := none
  deriving DecidableEq, Repr

/-- Why a document is refused. -/
inductive Violation where
  /-- It selects `__schema` or `__type`. -/
  | introspection
  /-- It is nested too deep. -/
  | depthLimit
  /-- It selects a field the key may not. -/
  | forbiddenField (ty field : Name)
  deriving DecidableEq, Repr

/-- `Violation::message`. -/
def Violation.message : Violation → String
  | .introspection => "introspection is disabled"
  | .depthLimit => "depth limit exceeded"
  | .forbiddenField ty field => "field: " ++ field ++ " is restricted on type: " ++ ty

/-- `u32::MAX`. -/
def u32Max : ℤ := 2 ^ 32 - 1

/-- `effective_depth_limit`: a positive limit of the key replaces the API's, one that is not lifts
it. -/
def effectiveDepthLimit (shared : GraphQlShared) (grants : Option ApiAccess) : Option ℕ :=
  match grants.bind (·.maxQueryDepth) with
  | some n => if 0 < n then some (min n u32Max).toNat else none
  | none => shared.maxQueryDepth

/-- `introspection_allowed`. -/
def introspectionAllowed (shared : GraphQlShared) (grants : Option ApiAccess) : Bool :=
  shared.introspectionEnabled && !grants.any (·.disableIntrospection)

/-- The list has the pair, or all fields of the type. -/
def listed (list : List TypeFields) (ty field : Name) : Bool :=
  list.any fun t => t.name == ty && t.fields.any fun f => f == "*" || f == field

/-- `field_allowed`: an allow list is exhaustive, and the block list is read without one. -/
def fieldAllowed (ty field : Name) (grants : ApiAccess) : Bool :=
  if grants.allowedTypes.isEmpty then !listed grants.restrictedTypes ty field
  else listed grants.allowedTypes ty field

/-! ### The searching walks -/

/-- What a walk looks for. -/
structure Walk (H : Type) where
  /-- What a field of a type is found to be. -/
  hit : Name → Name → Option H
  /-- The walk goes on below fields. -/
  descends : Bool
  /-- What a missing fragment counts as. -/
  missing : Option H

variable {H : Type}

/-- `walk`: goes through a selection set, entering fragments with `enter`. -/
def walk (w : Walk H) (enter : Name → List Name → Option H × List Name) :
    Name → Selections → List Name → Option H × List Name
  | _, .nil, visited => (none, visited)
  | ty, .field f fty sub rest, visited =>
    match w.hit ty f.name with
    | some h => (some h, visited)
    | none =>
      goOn (if w.descends then walk w enter fty sub visited else (none, visited)) (walk w enter ty rest)
  | ty, .inlineFragment _ fty sub rest, visited =>
    goOn (walk w enter fty sub visited) (walk w enter ty rest)
  | ty, .fragmentSpread n _ rest, visited => goOn (enter n visited) (walk w enter ty rest)

/-- A spread: the fragment is walked unless it was visited. -/
def enterFragment (w : Walk H) (doc : Document) : ℕ → Name → List Name → Option H × List Name
  | 0, _, visited => (none, visited)
  | fuel + 1, n, visited =>
    if n ∈ visited then (none, visited)
    else match doc.fragments.lookup n with
      | some frag => walk w (enterFragment w doc fuel) frag.ty frag.selections (n :: visited)
      | none => (w.missing, n :: visited)

/-- The walk of one operation after another. -/
def walkOperations (w : Walk H) (doc : Document) : List Operation → List Name → Option H × List Name
  | [], visited => (none, visited)
  | op :: ops, visited =>
    goOn (walk w (enterFragment w doc (doc.fragments.length + 1)) op.ty op.selections visited)
      (walkOperations w doc ops)

/-- The walk of a document: the first hit. -/
def walkDocument (w : Walk H) (doc : Document) : Option H := (walkOperations w doc doc.operations []).1

/-- The walk of `selects_introspection`. -/
def introspectionWalk : Walk Unit where
  hit _ field := if field = "__schema" ∨ field = "__type" then some () else none
  descends := true
  missing := none

/-- The walk of `is_pure_introspection`: it looks for a root field that is not meta. -/
def nonMetaWalk : Walk Unit where
  hit _ field := if isMeta field then none else some ()
  descends := false
  missing := some ()

/-- The walk of `first_forbidden_field`. -/
def forbiddenWalk (grants : ApiAccess) : Walk (Name × Name) where
  hit ty field := if !isMeta field && !fieldAllowed ty field grants then some (ty, field) else none
  descends := true
  missing := none

/-- `selects_introspection`. -/
def selectsIntrospection (doc : Document) : Bool := (walkDocument introspectionWalk doc).isSome

/-- `is_pure_introspection`. -/
def isPureIntrospection (doc : Document) : Bool := (walkDocument nonMetaWalk doc).isNone

/-- `first_forbidden_field`. -/
def firstForbiddenField (doc : Document) (grants : ApiAccess) : Option (Name × Name) :=
  walkDocument (forbiddenWalk grants) doc

/-! ### The depth walk -/

/-- The depths of the fragments measured so far. -/
abbrev Memo := List (Name × ℕ)

/-- `set_depth`: measures a selection set, with `enter` for fragments. -/
def setDepth (enter : Name → Memo → ℕ × Memo) : Selections → Memo → ℕ × Memo
  | .nil, memo => (0, memo)
  | .field _ _ sub rest, memo =>
    let d := setDepth enter sub memo
    let r := setDepth enter rest d.2
    (max (1 + d.1) r.1, r.2)
  | .inlineFragment _ _ sub rest, memo =>
    let d := setDepth enter sub memo
    let r := setDepth enter rest d.2
    (max d.1 r.1, r.2)
  | .fragmentSpread n _ rest, memo =>
    let d := enter n memo
    let r := setDepth enter rest d.2
    (max d.1 r.1, r.2)

/-- A spread: the depth the memo has, or the fragment is measured. The stack holds the fragments
being measured. -/
def fragmentDepth (doc : Document) : ℕ → List Name → Name → Memo → ℕ × Memo
  | 0, _, _, memo => (0, memo)
  | fuel + 1, stack, n, memo =>
    match memo.lookup n with
    | some depth => (depth, memo)
    | none =>
      if n ∈ stack then (0, memo)
      else match doc.fragments.lookup n with
        | none => (0, memo)
        | some frag =>
          let d := setDepth (fragmentDepth doc fuel (n :: stack)) frag.selections memo
          (d.1, (n, d.1) :: d.2)

/-- The depth of the deepest of the operations. -/
def operationsDepth (doc : Document) : List Operation → Memo → ℕ
  | [], _ => 0
  | op :: ops, memo =>
    let d := setDepth (fragmentDepth doc (doc.fragments.length + 1) []) op.selections memo
    max d.1 (operationsDepth doc ops d.2)

/-- `document_depth`. -/
def documentDepth (doc : Document) : ℕ := operationsDepth doc doc.operations []

/-! ### The check -/

/-- The field check of a key's grants, where there are grants. -/
def checkFields (grants : Option ApiAccess) (doc : Document) : Except Violation Unit :=
  match grants.bind (firstForbiddenField doc) with
  | some (ty, field) => .error (.forbiddenField ty field)
  | none => .ok ()

/-- `check_document`. -/
def checkDocument (shared : GraphQlShared) (grants : Option ApiAccess) (doc : Document) :
    Except Violation Unit :=
  if !introspectionAllowed shared grants && selectsIntrospection doc then .error .introspection
  else if isPureIntrospection doc then .ok ()
  else if (effectiveDepthLimit shared grants).any (documentDepth doc > ·) then .error .depthLimit
  else checkFields grants doc

/-! ### What is selected in a document without spreads -/

/-- The pairs of a type and a field selected on it, at the root of the set or, if `below`, at any
depth. -/
def Selections.fieldsOf (below : Bool) : Name → Selections → List (Name × Name)
  | _, .nil => []
  | ty, .field f fty sub rest =>
    (ty, f.name) :: (if below then fieldsOf below fty sub else []) ++ fieldsOf below ty rest
  | ty, .inlineFragment _ fty sub rest => fieldsOf below fty sub ++ fieldsOf below ty rest
  | ty, .fragmentSpread _ _ rest => fieldsOf below ty rest

/-- Every selected pair of a type and a field. -/
def Operation.fields (op : Operation) : List (Name × Name) := op.selections.fieldsOf true op.ty

/-- The root fields. -/
def Operation.rootFields (op : Operation) : List (Name × Name) := op.selections.fieldsOf false op.ty

/-- The nesting depth. -/
def Selections.depth : Selections → ℕ
  | .nil => 0
  | .field _ _ sub rest => max (1 + sub.depth) rest.depth
  | .inlineFragment _ _ sub rest => max sub.depth rest.depth
  | .fragmentSpread _ _ rest => rest.depth

/-- **The policy**, of a document without spreads: `__schema` and `__type` are selected only where
introspection is allowed; and, unless only meta fields are selected at the root, no operation is
deeper than the limit and no field is selected that the key's grants forbid. -/
def Policy (shared : GraphQlShared) (grants : Option ApiAccess) (doc : Document) : Prop :=
  (introspectionAllowed shared grants = true ∨
    ∀ op ∈ doc.operations, ∀ p ∈ op.fields, p.2 ≠ "__schema" ∧ p.2 ≠ "__type") ∧
  ((∀ op ∈ doc.operations, ∀ p ∈ op.rootFields, isMeta p.2 = true) ∨
    (∀ limit, effectiveDepthLimit shared grants = some limit →
      ∀ op ∈ doc.operations, op.selections.depth ≤ limit) ∧
    ∀ g, grants = some g → ∀ op ∈ doc.operations, ∀ p ∈ op.fields,
      isMeta p.2 = false → fieldAllowed p.1 p.2 g = true)

/-! ### The searching walks are depth-first searches -/

/-- A selection set as a search sees it. -/
def items (w : Walk H) : Name → Selections → List (Item Name H)
  | _, .nil => []
  | ty, .field f fty sub rest =>
    ((w.hit ty f.name).toList.map .hit ++ if w.descends then items w fty sub else []) ++ items w ty rest
  | ty, .inlineFragment _ fty sub rest => items w fty sub ++ items w ty rest
  | ty, .fragmentSpread n _ rest => .ref n :: items w ty rest

/-- A fragment as a search sees it. -/
def body (w : Walk H) (doc : Document) (n : Name) : List (Item Name H) :=
  match doc.fragments.lookup n with
  | some frag => items w frag.ty frag.selections
  | none => w.missing.toList.map .hit

theorem walk_eq_scan (w : Walk H) (enter : Name → List Name → Option H × List Name) (ty : Name)
    (s : Selections) (visited : List Name) : walk w enter ty s visited = scan enter (items w ty s) visited := by
  induction s generalizing ty visited with
  | nil => rfl
  | field f fty sub rest ihsub ihrest =>
    simp only [walk, items]
    cases hhit : w.hit ty f.name with
    | some h => simp [scan]
    | none =>
      cases hd : w.descends with
      | true =>
        simp only [if_true, Option.toList_none, List.map_nil, List.nil_append, scan_append, ihsub,
          funext (ihrest ty)]
      | false =>
        simp [goOn, ihrest]
  | inlineFragment d fty sub rest ihsub ihrest =>
    simp only [walk, items, scan_append, ihsub, funext (ihrest ty)]
  | fragmentSpread n d rest ihrest =>
    simp only [walk, items, scan, funext (ihrest ty)]

theorem scan_toList (enter : Name → List Name → Option H × List Name) (o : Option H) (visited : List Name) :
    scan enter (o.toList.map .hit) visited = (o, visited) := by
  cases o with
  | none => rfl
  | some h => rfl

theorem enterFragment_eq (w : Walk H) (doc : Document) (fuel : ℕ) :
    enterFragment w doc fuel = enter (body w doc) fuel := by
  induction fuel with
  | zero => rfl
  | succ fuel ih =>
    funext n visited
    simp only [enterFragment, enter, body]
    congr 1
    cases doc.fragments.lookup n with
    | some frag => simp only [walk_eq_scan, ih]
    | none => simp only [scan_toList]

/-- The operations as a search sees them. -/
def operationItems (w : Walk H) (ops : List Operation) : List (Item Name H) :=
  ops.flatMap fun op => items w op.ty op.selections

theorem walkOperations_eq (w : Walk H) (doc : Document) (ops : List Operation) (visited : List Name) :
    walkOperations w doc ops visited =
      scan (enter (body w doc) (doc.fragments.length + 1)) (operationItems w ops) visited := by
  induction ops generalizing visited with
  | nil => rfl
  | cons op ops ih =>
    simp only [walkOperations, operationItems, List.flatMap_cons, scan_append, walk_eq_scan, enterFragment_eq]
    congr 1
    funext visited'
    exact ih visited'

theorem mem_spreads_of_ref {w : Walk H} {ty n : Name} {s : Selections} (h : .ref n ∈ items w ty s) :
    n ∈ s.spreads := by
  induction s generalizing ty with
  | nil => simp [items] at h
  | field f fty sub rest ihsub ihrest =>
    simp only [items, List.mem_append] at h
    simp only [Selections.spreads, List.mem_append]
    rcases h with (h | h) | h
    · simp at h
    · split at h
      · exact .inl (ihsub h)
      · simp at h
    · exact .inr (ihrest h)
  | inlineFragment d fty sub rest ihsub ihrest =>
    simp only [items, List.mem_append] at h
    simp only [Selections.spreads, List.mem_append]
    exact h.imp ihsub ihrest
  | fragmentSpread m d rest ihrest =>
    simp only [items, List.mem_cons, Item.ref.injEq] at h
    simp only [Selections.spreads, List.mem_cons]
    exact h.imp id ihrest

/-- A walk finds nothing exactly when nothing is reachable. -/
theorem walkDocument_eq_none_iff_reaches (w : Walk H) (doc : Document) :
    walkDocument w doc = none ↔ ∀ h, ¬ Reaches (body w doc) (operationItems w doc.operations) h := by
  rw [walkDocument, walkOperations_eq]
  refine scan_eq_none_iff (doc.fragments.map Prod.fst) ?_ (by simp) _
  intro n hn m hm
  have hnone : doc.fragments.lookup n = none := by
    rw [List.lookup_eq_none_iff]
    intro p hp
    rw [bne_iff_ne]
    rintro rfl
    exact hn (List.mem_map.2 ⟨p, hp, rfl⟩)
  simp [body, hnone] at hm

/-! ### What is reachable is what is selected in the inlined document -/

/-- The hits of a set are those of its fields. -/
theorem hit_mem_items_iff {w : Walk H} {ty : Name} {s : Selections} {h : H} :
    .hit h ∈ items w ty s ↔ ∃ p ∈ s.fieldsOf w.descends ty, w.hit p.1 p.2 = some h := by
  induction s generalizing ty with
  | nil => simp [items, Selections.fieldsOf]
  | field f fty sub rest ihsub ihrest =>
    have hsub : .hit h ∈ (if w.descends then items w fty sub else []) ↔
        ∃ p ∈ (if w.descends then Selections.fieldsOf w.descends fty sub else []), w.hit p.1 p.2 = some h := by
      cases hd : w.descends with
      | true => simpa [hd] using ihsub
      | false => simp
    simp only [items, Selections.fieldsOf, List.mem_append, List.cons_append, List.mem_cons, hsub, ihrest,
      or_and_right, exists_or, exists_eq_left, or_assoc]
    simp [Option.mem_toList]
  | inlineFragment d fty sub rest ihsub ihrest =>
    simp only [items, Selections.fieldsOf, List.mem_append, ihsub, ihrest, or_and_right, exists_or]
  | fragmentSpread n d rest ihrest =>
    simp only [items, Selections.fieldsOf, List.mem_cons, ihrest, reduceCtorEq, false_or]

/-- What an item becomes when its spread is inlined. -/
def inlineItem (w : Walk H) (f : Name → Option Fragment) : Item Name H → List (Item Name H)
  | .hit h => [.hit h]
  | .ref n =>
    match f n with
    | some frag => items w frag.ty frag.selections
    | none => [.ref n]

theorem flatMap_inlineItem_hit (w : Walk H) (f : Name → Option Fragment) (o : Option H) :
    (o.toList.map .hit).flatMap (inlineItem w f) = o.toList.map .hit := by
  cases o with
  | none => rfl
  | some h => rfl

theorem items_inlineSpreads (w : Walk H) (f : Name → Option Fragment) (ty : Name) (s : Selections) :
    items w ty (s.inlineSpreads f) = (items w ty s).flatMap (inlineItem w f) := by
  induction s generalizing ty with
  | nil => rfl
  | field fl fty sub rest ihsub ihrest =>
    simp only [items, Selections.inlineSpreads, List.flatMap_append, flatMap_inlineItem_hit, ihrest]
    cases w.descends with
    | true => simp only [if_true, ihsub]
    | false => rfl
  | inlineFragment d fty sub rest ihsub ihrest =>
    simp only [items, Selections.inlineSpreads, List.flatMap_append, ihsub, ihrest]
  | fragmentSpread n d rest ihrest =>
    cases hfrag : f n with
    | none => simp [items, Selections.inlineSpreads, inlineItem, hfrag, ihrest]
    | some frag => simp [items, Selections.inlineSpreads, inlineItem, hfrag, ihrest]

/-- The hits after inlining: the set's own, and those of the fragments put in. -/
theorem hit_mem_items_inlineSpreads {w : Walk H} {f : Name → Option Fragment} {ty : Name} {s : Selections}
    {h : H} : .hit h ∈ items w ty (s.inlineSpreads f) ↔ .hit h ∈ items w ty s ∨
      ∃ n frag, .ref n ∈ items w ty s ∧ f n = some frag ∧ .hit h ∈ items w frag.ty frag.selections := by
  rw [items_inlineSpreads, List.mem_flatMap]
  constructor
  · rintro ⟨x, hx, hmem⟩
    cases x with
    | hit h' =>
      simp only [inlineItem, List.mem_singleton, Item.hit.injEq] at hmem
      exact .inl (hmem ▸ hx)
    | ref n =>
      cases hfrag : f n with
      | none => simp [inlineItem, hfrag] at hmem
      | some frag =>
        simp only [inlineItem, hfrag] at hmem
        exact .inr ⟨n, frag, hx, hfrag, hmem⟩
  · rintro (hx | ⟨n, frag, hx, hfrag, hmem⟩)
    · exact ⟨_, hx, by simp [inlineItem]⟩
    · exact ⟨_, hx, by simpa only [inlineItem, hfrag] using hmem⟩

/-- A hit that inlining shows was reachable, whatever the fuel. -/
theorem reaches_of_hit_inlined {w : Walk H} {doc : Document} {h : H} (k : ℕ) {ty : Name} {s : Selections}
    (hhit : .hit h ∈ items w ty (s.inlineSpreads (doc.inlinedFragment k))) :
    Reaches (body w doc) (items w ty s) h := by
  induction k generalizing ty s with
  | zero =>
    rcases hit_mem_items_inlineSpreads.1 hhit with hhit | ⟨n, frag, _, hfrag, _⟩
    · exact .hit hhit
    · simp [Document.inlinedFragment] at hfrag
  | succ k ih =>
    rcases hit_mem_items_inlineSpreads.1 hhit with hhit | ⟨n, frag, href, hfrag, hhit⟩
    · exact .hit hhit
    · simp only [Document.inlinedFragment, Option.map_eq_some_iff] at hfrag
      obtain ⟨frag', hlookup, rfl⟩ := hfrag
      refine .ref href ?_
      simp only [body, hlookup]
      exact ih hhit

theorem hit_inlined_of_reaches {w : Walk H} {doc : ValidDocument} {h : H} {xs : List (Item Name H)}
    (hx : Reaches (body w doc.toDocument) xs h) (ty : Name) (s : Selections) (hxs : xs = items w ty s)
    (hdefined : ∀ n ∈ s.spreads, doc.Defines n) : .hit h ∈ items w ty (s.inlineSpreads doc.fragmentOf) := by
  induction hx generalizing ty s with
  | hit hmem => exact hit_mem_items_inlineSpreads.2 (.inl (hxs ▸ hmem))
  | @ref _ n h hmem _ ih =>
    subst hxs
    obtain ⟨frag, hfrag⟩ := hdefined n (mem_spreads_of_ref hmem)
    have hbody : body w doc.toDocument n = items w frag.ty frag.selections := by simp only [body, hfrag]
    have hhit := ih frag.ty frag.selections hbody fun m hm => doc.fragmentSpreads n m ⟨frag, hfrag, hm⟩
    exact hit_mem_items_inlineSpreads.2 (.inr ⟨n, _, hmem, doc.fragmentOf_eq hfrag, hhit⟩)

theorem reaches_iff {w : Walk H} (doc : ValidDocument) {op : Operation} (hop : op ∈ doc.operations) {h : H} :
    Reaches (body w doc.toDocument) (items w op.ty op.selections) h ↔
      ∃ p ∈ (doc.inlinedOperation op).selections.fieldsOf w.descends op.ty, w.hit p.1 p.2 = some h := by
  rw [← hit_mem_items_iff]
  constructor
  · exact fun hx => hit_inlined_of_reaches hx op.ty op.selections rfl (doc.operationSpreads op hop)
  · exact reaches_of_hit_inlined doc.fragments.length

/-- What is reachable from the operations is reachable from one of them. -/
theorem reaches_operationItems {w : Walk H} {doc : Document} {ops : List Operation} {h : H}
    (hx : Reaches (body w doc) (operationItems w ops) h) :
    ∃ op ∈ ops, Reaches (body w doc) (items w op.ty op.selections) h := by
  cases hx with
  | hit hmem =>
    obtain ⟨op, hop, hmem⟩ := List.mem_flatMap.1 hmem
    exact ⟨op, hop, .hit hmem⟩
  | ref hmem hn =>
    obtain ⟨op, hop, hmem⟩ := List.mem_flatMap.1 hmem
    exact ⟨op, hop, .ref hmem hn⟩

/-- **A walk finds nothing exactly when the inlined document has nothing to find.** -/
theorem walkDocument_eq_none_iff (w : Walk H) (doc : ValidDocument) :
    walkDocument w doc.toDocument = none ↔ ∀ op ∈ doc.inlined.operations,
      ∀ p ∈ op.selections.fieldsOf w.descends op.ty, w.hit p.1 p.2 = none := by
  rw [walkDocument_eq_none_iff_reaches, Document.operations_inlined, List.forall_mem_map]
  constructor
  · intro hno op hop p hp
    cases hhit : w.hit p.1 p.2 with
    | none => rfl
    | some h =>
      refine absurd (((reaches_iff doc hop).2 ⟨p, hp, hhit⟩).mono ?_) (hno h)
      exact fun x hx => List.mem_flatMap.2 ⟨op, hop, hx⟩
  · intro hno h hx
    obtain ⟨op, hop, hx⟩ := reaches_operationItems hx
    obtain ⟨p, hp, hhit⟩ := (reaches_iff doc hop).1 hx
    simp [hno op hop p hp] at hhit

/-! ### The depth walk measures the inlined document -/

/-- The depth of a set whose fragments are as deep as `g` says. -/
def Selections.depthWith (g : Name → ℕ) : Selections → ℕ
  | .nil => 0
  | .field _ _ sub rest => max (1 + sub.depthWith g) (rest.depthWith g)
  | .inlineFragment _ _ sub rest => max (sub.depthWith g) (rest.depthWith g)
  | .fragmentSpread n _ rest => max (g n) (rest.depthWith g)

/-- The depth of an inlined fragment. -/
def ValidDocument.depthOf (doc : ValidDocument) (n : Name) : ℕ :=
  (doc.fragmentOf n).elim 0 (·.selections.depth)

theorem depth_inlineSpreads (f : Name → Option Fragment) (s : Selections) :
    (s.inlineSpreads f).depth = s.depthWith fun n => (f n).elim 0 (·.selections.depth) := by
  induction s with
  | nil => rfl
  | field fl ty sub rest ihsub ihrest =>
    simp only [Selections.inlineSpreads, Selections.depth, Selections.depthWith, ihsub, ihrest]
  | inlineFragment d ty sub rest ihsub ihrest =>
    simp only [Selections.inlineSpreads, Selections.depth, Selections.depthWith, ihsub, ihrest]
  | fragmentSpread n d rest ihrest =>
    cases hfrag : f n with
    | none => simp [Selections.inlineSpreads, Selections.depth, Selections.depthWith, hfrag, ihrest]
    | some frag => simp [Selections.inlineSpreads, Selections.depth, Selections.depthWith, hfrag, ihrest]

theorem ValidDocument.depthOf_eq (doc : ValidDocument) {n : Name} {frag : Fragment}
    (hfrag : doc.fragments.lookup n = some frag) : doc.depthOf n = frag.selections.depthWith doc.depthOf := by
  rw [depthOf, doc.fragmentOf_eq hfrag, Option.elim_some, depth_inlineSpreads]
  rfl

/-- The memo holds depths of inlined fragments only. -/
def MemoOk (doc : ValidDocument) (memo : Memo) : Prop := ∀ n d, memo.lookup n = some d → d = doc.depthOf n

theorem MemoOk.cons {doc : ValidDocument} {memo : Memo} (h : MemoOk doc memo) (n : Name) :
    MemoOk doc ((n, doc.depthOf n) :: memo) := by
  intro m d hd
  by_cases hmn : m = n
  · subst hmn
    simpa using hd.symm
  · rw [List.lookup_cons, beq_false_of_ne hmn] at hd
    exact h m d hd

/-- A spread is measured right, and the memo stays right. -/
def Measures (doc : ValidDocument) (enter : Name → Memo → ℕ × Memo) (n : Name) : Prop :=
  ∀ memo, MemoOk doc memo → (enter n memo).1 = doc.depthOf n ∧ MemoOk doc (enter n memo).2

theorem setDepth_eq {doc : ValidDocument} {enter : Name → Memo → ℕ × Memo} {s : Selections}
    (henter : ∀ n ∈ s.spreads, Measures doc enter n) {memo : Memo} (hmemo : MemoOk doc memo) :
    (setDepth enter s memo).1 = s.depthWith doc.depthOf ∧ MemoOk doc (setDepth enter s memo).2 := by
  induction s generalizing memo with
  | nil => exact ⟨rfl, hmemo⟩
  | field f ty sub rest ihsub ihrest =>
    simp only [Selections.spreads, List.mem_append] at henter
    obtain ⟨hsub, hmemo⟩ := ihsub (fun n hn => henter n (.inl hn)) hmemo
    obtain ⟨hrest, hmemo⟩ := ihrest (fun n hn => henter n (.inr hn)) hmemo
    exact ⟨by simp only [setDepth, Selections.depthWith, hsub, hrest], hmemo⟩
  | inlineFragment d ty sub rest ihsub ihrest =>
    simp only [Selections.spreads, List.mem_append] at henter
    obtain ⟨hsub, hmemo⟩ := ihsub (fun n hn => henter n (.inl hn)) hmemo
    obtain ⟨hrest, hmemo⟩ := ihrest (fun n hn => henter n (.inr hn)) hmemo
    exact ⟨by simp only [setDepth, Selections.depthWith, hsub, hrest], hmemo⟩
  | fragmentSpread n d rest ihrest =>
    simp only [Selections.spreads, List.mem_cons] at henter
    obtain ⟨hn, hmemo⟩ := henter n (.inl rfl) memo hmemo
    obtain ⟨hrest, hmemo⟩ := ihrest (fun m hm => henter m (.inr hm)) hmemo
    exact ⟨by simp only [setDepth, Selections.depthWith, hn, hrest], hmemo⟩

/-- The stack is a chain that leads to the fragment, so the cycle guard never fires and the fuel
lasts. -/
theorem fragmentDepth_eq (doc : ValidDocument) (fuel : ℕ) {stack : List Name} {n : Name}
    (hchain : Nesting.Chain doc.spreadsOf stack n) (hfuel : doc.fragments.length < stack.length + fuel) :
    Measures doc (fragmentDepth doc.toDocument fuel stack) n := by
  induction fuel generalizing stack n with
  | zero =>
    have hlt := doc.wellNested.chain_length_lt hchain
    rw [List.length_map] at hlt
    omega
  | succ fuel ih =>
    intro memo hmemo
    simp only [fragmentDepth]
    cases hd : memo.lookup n with
    | some d => exact ⟨hmemo n d hd, hmemo⟩
    | none =>
      obtain ⟨frag, hfrag⟩ := Document.spreadsOf_isSome.1 hchain.target
      simp only [if_neg (doc.wellNested.not_mem_chain hchain), hfrag]
      have henter : ∀ m ∈ frag.selections.spreads,
          Measures doc (fragmentDepth doc.toDocument fuel (n :: stack)) m := by
        intro m hm
        have hspread : Nesting.Refers doc.spreadsOf n m := Document.refers_spreadsOf ▸ ⟨frag, hfrag, hm⟩
        refine ih (doc.wellNested.chain_cons hchain hspread) ?_
        simp only [List.length_cons]
        omega
      obtain ⟨hdepth, hmemo⟩ := setDepth_eq henter hmemo
      rw [← doc.depthOf_eq hfrag] at hdepth
      exact ⟨hdepth, hdepth ▸ hmemo.cons n⟩

theorem operationsDepth_le_iff (doc : ValidDocument) {ops : List Operation} (hops : ops ⊆ doc.operations)
    {memo : Memo} (hmemo : MemoOk doc memo) (limit : ℕ) : operationsDepth doc.toDocument ops memo ≤ limit ↔
      ∀ op ∈ ops, (doc.inlinedOperation op).selections.depth ≤ limit := by
  induction ops generalizing memo with
  | nil => simp [operationsDepth]
  | cons op ops ih =>
    have henter : ∀ n ∈ op.selections.spreads,
        Measures doc (fragmentDepth doc.toDocument (doc.fragments.length + 1) []) n := fun n hn =>
      fragmentDepth_eq doc _ (.nil (Document.spreadsOf_isSome.2 (doc.operationSpreads op (hops (List.mem_cons_self ..)) n hn)))
        (by simp)
    obtain ⟨hdepth, hmemo⟩ := setDepth_eq henter hmemo
    have hop : (doc.inlinedOperation op).selections.depth = op.selections.depthWith doc.depthOf :=
      depth_inlineSpreads _ _
    simp only [operationsDepth, hdepth, max_le_iff, List.forall_mem_cons, hop,
      ih (fun o ho => hops (List.mem_cons_of_mem _ ho)) hmemo]

theorem documentDepth_le_iff (doc : ValidDocument) (limit : ℕ) : documentDepth doc.toDocument ≤ limit ↔
    ∀ op ∈ doc.inlined.operations, op.selections.depth ≤ limit := by
  rw [Document.operations_inlined, List.forall_mem_map]
  exact operationsDepth_le_iff doc (List.Subset.refl _) (fun n d h => by simp at h) limit

/-! ### The check is the policy -/

theorem selectsIntrospection_eq_false_iff (doc : ValidDocument) : selectsIntrospection doc.toDocument = false ↔
    ∀ op ∈ doc.inlined.operations, ∀ p ∈ op.fields, p.2 ≠ "__schema" ∧ p.2 ≠ "__type" := by
  rw [selectsIntrospection, Option.isSome_eq_false_iff, Option.isNone_iff_eq_none, walkDocument_eq_none_iff]
  simp [introspectionWalk, Operation.fields]

theorem isPureIntrospection_iff (doc : ValidDocument) : isPureIntrospection doc.toDocument = true ↔
    ∀ op ∈ doc.inlined.operations, ∀ p ∈ op.rootFields, isMeta p.2 = true := by
  rw [isPureIntrospection, Option.isNone_iff_eq_none, walkDocument_eq_none_iff]
  simp [nonMetaWalk, Operation.rootFields]

theorem firstForbiddenField_eq_none_iff (doc : ValidDocument) (grants : ApiAccess) :
    firstForbiddenField doc.toDocument grants = none ↔ ∀ op ∈ doc.inlined.operations, ∀ p ∈ op.fields,
      isMeta p.2 = false → fieldAllowed p.1 p.2 grants = true := by
  rw [firstForbiddenField, walkDocument_eq_none_iff]
  simp [forbiddenWalk, Operation.fields]

theorem checkFields_eq_ok_iff {grants : Option ApiAccess} {doc : Document} :
    checkFields grants doc = .ok () ↔ ∀ g, grants = some g → firstForbiddenField doc g = none := by
  unfold checkFields
  cases grants with
  | none => simp
  | some g =>
    cases h : firstForbiddenField doc g with
    | none => simp [h]
    | some p => simp [h]

theorem depthLimit_iff {shared : GraphQlShared} {grants : Option ApiAccess} {doc : Document} :
    (effectiveDepthLimit shared grants).any (documentDepth doc > ·) = false ↔
      ∀ limit, effectiveDepthLimit shared grants = some limit → documentDepth doc ≤ limit := by
  cases effectiveDepthLimit shared grants with
  | none => simp
  | some l => simp

/-- **Policing is the policy on the inlined document**, for every valid document, every key and
every setting. -/
theorem checkDocument_iff (shared : GraphQlShared) (grants : Option ApiAccess) (doc : ValidDocument) :
    checkDocument shared grants doc.toDocument = .ok () ↔ Policy shared grants doc.inlined := by
  simp only [Policy, ← selectsIntrospection_eq_false_iff, ← isPureIntrospection_iff, ← documentDepth_le_iff,
    ← firstForbiddenField_eq_none_iff, ← checkFields_eq_ok_iff, ← depthLimit_iff]
  unfold checkDocument
  generalize introspectionAllowed shared grants = allowed
  generalize selectsIntrospection doc.toDocument = introspects
  generalize isPureIntrospection doc.toDocument = pureIntrospection
  generalize Option.any _ (effectiveDepthLimit shared grants) = tooDeep
  cases allowed <;> cases introspects <;> cases pureIntrospection <;> cases tooDeep <;> simp

end G2way.GraphQl
