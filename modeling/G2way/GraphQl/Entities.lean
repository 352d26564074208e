import G2way.GraphQl.Planner
import G2way.Lib.JsonPlace

/-!
# Merging entities

`resolve_children` of `g2-middleware/src/graphql_federation.rs`: "one level of
entity fetches against `values` (and, recursively, every deeper level), merging
fetched entity fields in place". The objects a fetch is for are found three times
over: when the representations are collected, when those without one are left out,
and when the answers are merged, "re-walking each child's path (structure along
sibling paths is unchanged by earlier merges — merged fields are new keys on entity
objects)".

## The model

A reference to an object is its place (`Lib.Place`). `collectMaps` and
`collectMapsMut` are the two walks; the second leaves the places where the objects
are changed. What subgraphs answer is a tree of `EntityAnswer`s, one for each fetch
that is sent, with those of the fetches below it.

## What is proved

`Lands` is what the merge of one level promises: the `k`-th entity goes to the object
of the `k`-th representation, and nothing on the way to it was replaced.
`resolve_children` calls itself for the entities of each answer; `Call` are the levels
it comes to, each with what is answered there. Whatever the answers are, every level
lands (`LandsEverywhere`) if and only if at none that may be reached (`Level`) an
object that gets an entity is one where the path of a later fetch still reads
(`Settled`).
-/

namespace G2way.GraphQl

open Lib Lib.Result

/-! ### The walks -/

section Walks

variable {Num : Type}

/-- `JsonMap`. -/
abbrev JsonMap (Num : Type) := List (String × Json Num)

/-- The type name an object has. -/
def typename (map : JsonMap Num) : Option String := (map.lookup "__typename").bind Json.asStr

/-- The objects found behind a step. -/
def behind (s : Step) (found : List (Place × JsonMap Num)) : List (Place × JsonMap Num) :=
  found.map fun p => (s :: p.1, p.2)

mutual

/-- `collect_maps`: arrays flatten, type conditions filter, missing keys prune. -/
def collectMaps (value : Json Num) (path : List PathSeg) : List (Place × JsonMap Num) :=
  match value with
  | .array items => collectItems 0 items path
  | .object map =>
    match path with
    | [] => [([], map)]
    | .key k :: path =>
      match map.lookup k with
      | some v => behind (.member k) (collectMaps v path)
      | none => []
    | .typeCond t :: path => if typename map = some t then collectMaps (.object map) path else []
  | _ => []
termination_by (path.length, sizeOf value)

/-- `collect_maps` of the values from the `i`-th on. -/
def collectItems (i : ℕ) (items : List (Json Num)) (path : List PathSeg) : List (Place × JsonMap Num) :=
  match items with
  | [] => []
  | item :: items => behind (.item i) (collectMaps item path) ++ collectItems (i + 1) items path
termination_by (path.length, sizeOf items)

end

mutual

/-- `collect_maps_mut`: the places of the objects. -/
def collectMapsMut (value : Json Num) (path : List PathSeg) : List Place :=
  match value, path with
  | .array items, path => collectItemsMut 0 items path
  | value, .typeCond t :: path =>
    if value.asObject.bind typename = some t then collectMapsMut value path else []
  | .object _, [] => [[]]
  | .object map, .key k :: path =>
    match map.lookup k with
    | some v => (collectMapsMut v path).map (.member k :: ·)
    | none => []
  | _, _ => []
termination_by (path.length, sizeOf value)

/-- `collect_maps_mut` of the values from the `i`-th on. -/
def collectItemsMut (i : ℕ) (items : List (Json Num)) (path : List PathSeg) : List Place :=
  match items with
  | [] => []
  | item :: items => (collectMapsMut item path).map (.item i :: ·) ++ collectItemsMut (i + 1) items path
termination_by (path.length, sizeOf items)

end

end Walks

/-! ### Representations and answers -/

section Resolve

variable {Num : Type}

/-- A key field of an object, under the planner's alias or its own name; it must not be `null`. -/
def keyValue (map : JsonMap Num) (key : Name) : Option (Json Num) :=
  match (map.lookup ("g2__" ++ key)).or (map.lookup key) with
  | none | some .null => none
  | some value => some value

/-- `representation`. -/
def representation (map : JsonMap Num) (child : FetchNode) : Option (Json Num) := do
  if (typename map).any (· ≠ child.typeName) then none
  let rep ← child.keyFields.foldlM (fun rep key => (keyValue map key).map fun value => Json.insert key value rep)
    [("__typename", .string child.typeName)]
  return .object rep

/-- `Prep`. -/
structure Prep (Num : Type) where
  reps : List (Json Num)
  /-- Which walked objects produced a representation. -/
  mask : List Bool

/-- The representations of the objects a fetch is for. -/
def prep (values : List (Json Num)) (child : FetchNode) : Prep Num :=
  let found := (collectItems 0 values child.path).map fun p => representation p.2 child
  ⟨found.filterMap id, found.map Option.isSome⟩

/-- The answer to a fetch. -/
inductive EntityAnswer (Num : Type) where
  /-- The subgraph could not be asked. -/
  | failed (message : String)
  /-- What it has under `_entities`, its errors, and the answers to the fetches below. -/
  | ok (entities : List (Json Num)) (errors : List String) (nested : List (EntityAnswer Num))

/-- The objects that get an entity, with it: those of the mask, as long as there are results. -/
def writes : List Place → List Bool → List (Json Num) → List (Place × Json Num)
  | map :: maps, keep :: mask, results =>
    if keep then
      match results with
      | entity :: results => (map, entity) :: writes maps mask results
      | [] => []
    else writes maps mask results
  | _, _, _ => []

/-- An entity merged into the object at a place; one that is no object stays unmerged. -/
def mergeEntity (values : List (Json Num)) (write : Place × Json Num) : List (Json Num) :=
  match write.2 with
  | .object fields => Json.modifyItems (Json.insertAll fields) write.1 values
  | _ => values

variable (names : List String)

/-- One turn of the merge: the values, and the error if the walks diverged. -/
def mergeChild (values : List (Json Num)) (child : FetchNode) (prep : Prep Num) (entities : List (Json Num)) :
    List (Json Num) × List String :=
  if prep.reps.isEmpty || entities.isEmpty then (values, [])
  else
    let maps := collectItemsMut 0 values child.path
    if maps.length ≠ prep.mask.length then
      (values, ["subgraph `" ++ subgraphName names child.subgraph ++ "` results could not be merged"])
    else ((writes maps prep.mask entities).foldl mergeEntity values, [])

/-- The merge, child by child. -/
def mergeAll (values : List (Json Num)) :
    List ((FetchNode × Prep Num) × List (Json Num) × List String) → List (Json Num) × List String
  | [] => (values, [])
  | ((child, prep), entities, errs) :: rest =>
    let (values, diverged) := mergeChild names values child prep entities
    let (values, errors) := mergeAll values rest
    (values, errs ++ diverged ++ errors)

/-- Each child with its representations. -/
def preps (values : List (Json Num)) (children : List FetchNode) : List (FetchNode × Prep Num) :=
  children.map fun child => (child, prep values child)

/-- What is fetched for the children: the entities, with their own children merged into them, and the errors. -/
def fetchAll : List (FetchNode × Prep Num) → List (EntityAnswer Num) → List (List (Json Num) × List String)
  | (child, prep) :: rest, answer :: answers =>
    (if prep.reps.isEmpty then ([], [])
    else match answer with
      | .failed message => ([], [message])
      | .ok entities errors nested =>
        let pending := preps entities child.children
        let (entities, more) := mergeAll names entities (pending.zip (fetchAll pending nested))
        (entities, errors ++ more)) :: fetchAll rest answers
  | _, _ => []

/-- `resolve_children`. -/
def resolveChildren (values : List (Json Num)) (children : List FetchNode) (answers : List (EntityAnswer Num)) :
    List (Json Num) × List String :=
  let pending := preps values children
  mergeAll names values (pending.zip (fetchAll names pending answers))

end Resolve

/-! ### What the merge promises -/

section Promise

variable {Num : Type}

/-- The places of the objects a fetch has representations of, in their order. -/
def representedAt (values : List (Json Num)) (child : FetchNode) : List Place :=
  (collectItems 0 values child.path).filterMap fun p => (representation p.2 child).map fun _ => p.1

/-- The `k`-th entity of each fetch, with the place the `k`-th representation was built from. -/
def landings (values : List (Json Num)) (children : List FetchNode)
    (fetched : List (List (Json Num) × List String)) : List (Place × Json Num) :=
  (children.zip fetched).flatMap fun p => (representedAt values p.1).zip p.2.1

/-- The entity replaces a value on the way to the place. -/
def Replaces (write : Place × Json Num) (place : Place) : Prop :=
  ∃ fields k, write.2 = .object fields ∧ k ∈ fields.map Prod.fst ∧ write.1 ++ [.member k] <+: place

/-- **What the merge of one level promises**: the `k`-th entity of a fetch is merged into the object that the
`k`-th representation was built from, and into no other; the errors are those of the fetches, none of this level
says that the walks diverged. -/
structure Lands (names : List String) (values : List (Json Num)) (children : List FetchNode)
    (answers : List (EntityAnswer Num)) : Prop where
  merged : resolveChildren names values children answers =
    ((landings values children (fetchAll names (preps values children) answers)).foldl mergeEntity values,
      (fetchAll names (preps values children) answers).flatMap Prod.snd)
  /-- No entity has replaced the object, nor one it is in. -/
  kept : (landings values children (fetchAll names (preps values children) answers)).Pairwise
    fun earlier later => ¬ Replaces earlier later.1

/-- The calls of `resolve_children` that a call makes: itself, and for each fetch that is sent the call for the
entities that are answered, before they are merged. -/
inductive Call : List (Json Num) → List FetchNode → List (EntityAnswer Num) →
    List (Json Num) → List FetchNode → List (EntityAnswer Num) → Prop
  /-- The call itself. -/
  | here {values : List (Json Num)} {children : List FetchNode} {answers : List (EntityAnswer Num)} :
      Call values children answers values children answers
  /-- A call that one for the entities of an answer makes. -/
  | deeper {values values' entities : List (Json Num)} {children children' : List FetchNode}
      {answers answers' nested : List (EntityAnswer Num)} {child : FetchNode} {errors : List String} :
      (child, .ok entities errors nested) ∈ children.zip answers → representedAt values child ≠ [] →
      Call entities child.children nested values' children' answers' →
      Call values children answers values' children' answers'

/-- **Every level lands**, however deep. -/
def LandsEverywhere (names : List String) (values : List (Json Num)) (children : List FetchNode)
    (answers : List (EntityAnswer Num)) : Prop :=
  ∀ values' children' answers', Call values children answers values' children' answers' →
    Lands names values' children' answers'

/-- What is left of a path behind the type conditions at its front, if the object meets them. -/
def arrive (map : JsonMap Num) : List PathSeg → Option (List PathSeg)
  | .typeCond t :: path => if typename map = some t then arrive map path else none
  | path => some path

/-- What is left of a path where its walk comes to the object at a place. -/
def remaining : List PathSeg → Place → Json Num → Option (List PathSeg)
  | path, [], .object _ => some path
  | path, .item i :: p, .array items => items[i]? >>= remaining path p
  | path, .member k :: p, .object map =>
    match arrive map path with
    | some (.key k' :: rest) => if k' = k then map.lookup k >>= remaining rest p else none
    | _ => none
  | _, _, _ => none

/-- No object has anything at the end of the path: its type conditions exclude one another. -/
def DeadEnd (Num : Type) (path : List PathSeg) : Prop := ∀ map : JsonMap Num, collectMaps (.object map) path = []

/-- The walk along a path reads nothing of the object at a place, or nothing that would get it anywhere. -/
def Clear (path : List PathSeg) (p : Place) (v : Json Num) : Prop :=
  ∀ rest, remaining path p v = some rest → rest = [] ∨ DeadEnd Num rest

/-- No object that is represented is one where the path of a later fetch still reads, if that has
representations. -/
def Settled (values : List (Json Num)) (children : List FetchNode) : Prop :=
  children.Pairwise fun earlier later => representedAt values later ≠ [] →
    ∀ p ∈ representedAt values earlier, Clear later.path p (.array values)

/-- The levels that may be reached: the entities below a fetch that is sent are whatever is answered. -/
inductive Level : List (Json Num) → List FetchNode → List (Json Num) → List FetchNode → Prop
  /-- The first level. -/
  | here {values : List (Json Num)} {children : List FetchNode} : Level values children values children
  /-- A level that is reached from any entities of a fetch. -/
  | deeper {values values' : List (Json Num)} {children children' : List FetchNode} {child : FetchNode}
      (entities : List (Json Num)) : child ∈ children → representedAt values child ≠ [] →
      Level entities child.children values' children' → Level values children values' children'

/-- Every level that may be reached is settled. -/
def SettledEverywhere (values : List (Json Num)) (children : List FetchNode) : Prop :=
  ∀ values' children', Level values children values' children' → Settled values' children'

end Promise

/-! ### The walks agree -/

section Agree

variable {Num : Type}

mutual

/-- **The two walks visit the same objects in the same order.** -/
theorem collectMapsMut_eq (value : Json Num) (path : List PathSeg) :
    collectMapsMut value path = (collectMaps value path).map Prod.fst := by
  match value, path with
  | .array items, path => simp only [collectMapsMut, collectMaps, collectItemsMut_eq 0 items path]
  | .object map, [] => simp [collectMapsMut, collectMaps]
  | .object map, .key k :: path =>
    simp only [collectMapsMut, collectMaps]
    cases map.lookup k with
    | none => rfl
    | some v => simp [behind, collectMapsMut_eq v path]
  | .object map, .typeCond t :: path =>
    by_cases ht : typename map = some t
    · simp [collectMapsMut, collectMaps, Json.asObject, ht, collectMapsMut_eq (.object map) path]
    · simp [collectMapsMut, collectMaps, Json.asObject, ht]
  | .null, path | .bool _, path | .number _, path | .string _, path =>
    cases path with
    | nil => simp [collectMapsMut, collectMaps]
    | cons seg path => cases seg <;> simp [collectMapsMut, collectMaps, Json.asObject]
termination_by (path.length, sizeOf value)

theorem collectItemsMut_eq (i : ℕ) (items : List (Json Num)) (path : List PathSeg) :
    collectItemsMut i items path = (collectItems i items path).map Prod.fst := by
  match items with
  | [] => simp [collectItemsMut, collectItems]
  | item :: items =>
    simp [collectItemsMut, collectItems, behind, collectMapsMut_eq item path, collectItemsMut_eq (i + 1) items path]
termination_by (path.length, sizeOf items)

end

mutual

/-- A walk finds the objects of the value, at their places. -/
theorem place?_of_mem_collectMaps (value : Json Num) (path : List PathSeg) {p : Place} {map : JsonMap Num}
    (h : (p, map) ∈ collectMaps value path) : Json.place? p value = some (.object map) := by
  match value, path with
  | .array items, path =>
    rw [collectMaps] at h
    obtain ⟨i, item, q, rfl, hitem, hplace⟩ := place?_of_mem_collectItems 0 items path h
    simpa [Json.place?, hitem] using hplace
  | .object m, [] =>
    obtain ⟨rfl, rfl⟩ : p = [] ∧ map = m := by simpa [collectMaps] using h
    rfl
  | .object m, .key k :: path =>
    rw [collectMaps] at h
    cases hk : m.lookup k with
    | none => simp [hk] at h
    | some v =>
      simp only [hk, behind, List.mem_map, Prod.mk.injEq, Prod.exists] at h
      obtain ⟨q, _, hq, rfl, rfl⟩ := h
      simpa [Json.place?, hk] using place?_of_mem_collectMaps v path hq
  | .object m, .typeCond t :: path =>
    rw [collectMaps] at h
    split_ifs at h
    · exact place?_of_mem_collectMaps (.object m) path h
    · cases h
  | .null, _ | .bool _, _ | .number _, _ | .string _, _ => simp [collectMaps] at h
termination_by (path.length, sizeOf value)

theorem place?_of_mem_collectItems (i : ℕ) (items : List (Json Num)) (path : List PathSeg) {p : Place}
    {map : JsonMap Num} (h : (p, map) ∈ collectItems i items path) : ∃ n item q, p = .item (i + n) :: q ∧
      items[n]? = some item ∧ Json.place? q item = some (.object map) := by
  match items with
  | [] => simp [collectItems] at h
  | item :: items =>
    rw [collectItems, List.mem_append] at h
    rcases h with h | h
    · simp only [behind, List.mem_map, Prod.mk.injEq, Prod.exists] at h
      obtain ⟨q, _, hq, rfl, rfl⟩ := h
      exact ⟨0, item, q, rfl, rfl, place?_of_mem_collectMaps item path hq⟩
    · obtain ⟨n, found, q, rfl, hitem, hplace⟩ := place?_of_mem_collectItems (i + 1) items path h
      exact ⟨n + 1, found, q, by rw [Nat.add_assoc, Nat.add_comm 1], hitem, hplace⟩
termination_by (path.length, sizeOf items)

end

/-! #### The walk through an object -/

variable {map map' : JsonMap Num} {path rest : List PathSeg} {k : String}

theorem arrive_cases (map : JsonMap Num) (path : List PathSeg) :
    arrive map path = none ∨ arrive map path = some [] ∨ ∃ k rest, arrive map path = some (.key k :: rest) := by
  induction path with
  | nil => exact .inr (.inl rfl)
  | cons seg path ih =>
    cases seg with
    | key k => exact .inr (.inr ⟨k, path, rfl⟩)
    | typeCond t =>
      unfold arrive
      split_ifs
      · exact ih
      · exact .inl rfl

theorem arrive_congr (h : typename map = typename map') : arrive map path = arrive map' path := by
  induction path with
  | nil => rfl
  | cons seg path ih =>
    cases seg with
    | key k => rfl
    | typeCond t => simp only [arrive, h, ih]

theorem collectMapsMut_typeCond (map : JsonMap Num) (t : Name) (path : List PathSeg) :
    collectMapsMut (.object map) (.typeCond t :: path) =
      if typename map = some t then collectMapsMut (.object map) path else [] := by
  rw [collectMapsMut]
  · rfl
  · intro items h
    cases h

/-- Type conditions at the front of a path are tried first. -/
theorem collectMapsMut_object (map : JsonMap Num) (path : List PathSeg) : collectMapsMut (.object map) path =
    ((arrive map path).map (collectMapsMut (.object map))).getD [] := by
  induction path with
  | nil => rfl
  | cons seg path ih =>
    cases seg with
    | key k => rfl
    | typeCond t =>
      rw [collectMapsMut_typeCond, arrive]
      split_ifs
      · exact ih
      · rfl

theorem collectMapsMut_nil (map : JsonMap Num) : collectMapsMut (.object map) [] = [[]] := by
  rw [collectMapsMut]

theorem collectMapsMut_key (map : JsonMap Num) (k : String) (path : List PathSeg) :
    collectMapsMut (.object map) (.key k :: path) =
      ((map.lookup k).map fun v => (collectMapsMut v path).map (.member k :: ·)).getD [] := by
  rw [collectMapsMut]
  cases map.lookup k with
  | none => rfl
  | some v => rfl

theorem collectMapsMut_array (items : List (Json Num)) (path : List PathSeg) :
    collectMapsMut (.array items) path = collectItemsMut 0 items path := by
  rw [collectMapsMut]

end Agree

/-! ### Changing an object on the way -/

section Change

variable {Num : Type} {f : JsonMap Num → JsonMap Num} {g : Json Num → Json Num} {items : List (Json Num)}
  {path rest : List PathSeg} {p : Place} {v : Json Num} {n : ℕ}

theorem typename_updateMember (hg : ∀ v, (g v).asStr = v.asStr) (k : String) (map : JsonMap Num) :
    typename (Json.updateMember g k map) = typename map := by
  unfold typename
  rw [Json.lookup_updateMember]
  split_ifs with hk
  · subst hk
    cases map.lookup "__typename" with
    | none => rfl
    | some v => exact hg v
  · rfl

theorem arrive_updateMember (k : String) (map : JsonMap Num) :
    arrive (Json.updateMember (Json.modify f p) k map) path = arrive map path :=
  arrive_congr (typename_updateMember (fun v => Json.asStr_modify p v) k map)

theorem mem_collectItemsMut {i : ℕ} {q : Place} (h : q ∈ collectItemsMut i items path) : ∃ n v q',
    q = .item (i + n) :: q' ∧ items[n]? = some v ∧ q' ∈ collectMapsMut v path := by
  induction items generalizing i with
  | nil => simp [collectItemsMut] at h
  | cons item items ih =>
    rw [collectItemsMut, List.mem_append] at h
    rcases h with h | h
    · obtain ⟨q', hq', rfl⟩ := List.mem_map.1 h
      exact ⟨0, item, q', rfl, rfl, hq'⟩
    · obtain ⟨n, v, q', rfl, hv, hq'⟩ := ih h
      exact ⟨n + 1, v, q', by rw [Nat.add_assoc, Nat.add_comm 1], hv, hq'⟩

/-- What the walk finds below one of the values, and apart from it. -/
theorem collectItemsMut_modify (hv : items[n]? = some v) (i : ℕ) (path : List PathSeg) : ∃ before after,
    collectItemsMut i items path = before ++ (collectMapsMut v path).map (.item (i + n) :: ·) ++ after ∧
      ∀ g, collectItemsMut i (items.modify n g) path =
        before ++ (collectMapsMut (g v) path).map (.item (i + n) :: ·) ++ after := by
  induction items generalizing i n with
  | nil => cases hv
  | cons item items ih =>
    cases n with
    | zero =>
      obtain rfl : item = v := Option.some.inj hv
      refine ⟨[], collectItemsMut (i + 1) items path, ?_, fun g => ?_⟩
      · rw [collectItemsMut]
        rfl
      · rw [List.modify_zero_cons, collectItemsMut]
        rfl
    | succ n =>
      obtain ⟨before, after, heq, hmodify⟩ := ih hv (i + 1)
      rw [Nat.add_assoc, Nat.add_comm 1] at heq hmodify
      refine ⟨(collectMapsMut item path).map (.item i :: ·) ++ before, after, ?_, fun g => ?_⟩
      · rw [collectItemsMut, heq]
        simp only [List.append_assoc]
      · rw [List.modify_succ_cons, collectItemsMut, hmodify]
        simp only [List.append_assoc]

/-- **What an object adds to a walk.** Where the walk comes to an object, it finds what the rest of the path
finds there, between what it finds elsewhere. -/
theorem collectMapsMut_modify (h : remaining path p v = some rest) : ∃ o before after,
    Json.place? p v = some (.object o) ∧
      collectMapsMut v path = before ++ (collectMapsMut (.object o) rest).map (p ++ ·) ++ after ∧
      ∀ f, collectMapsMut (Json.modify f p v) path =
        before ++ (collectMapsMut (.object (f o)) rest).map (p ++ ·) ++ after := by
  induction p generalizing path v with
  | nil =>
    cases v with
    | object o =>
      obtain rfl : path = rest := by simpa [remaining] using h
      exact ⟨o, [], [], rfl, by simp, fun f => by simp [Json.modify]⟩
    | _ => cases h
  | cons s p ih =>
    cases s with
    | item i =>
      cases v with
      | array items =>
        obtain ⟨w, hw, hrest⟩ := Option.bind_eq_some_iff.1 h
        obtain ⟨o, before, after, ho, heq, hmodify⟩ := ih hrest
        obtain ⟨before', after', heq', hmodify'⟩ := collectItemsMut_modify hw 0 path
        refine ⟨o, before' ++ before.map (.item i :: ·), after.map (.item i :: ·) ++ after', ?_, ?_, fun f => ?_⟩
        · simpa [Json.place?, hw] using ho
        · rw [collectMapsMut_array, heq', heq]
          simp
        · rw [Json.modify, collectMapsMut_array, hmodify', hmodify]
          simp
      | _ => cases h
    | member k =>
      cases v with
      | object map =>
        obtain harrive | harrive | ⟨k', rest', harrive⟩ := arrive_cases map path
        · simp [remaining, harrive] at h
        · simp [remaining, harrive] at h
        · simp only [remaining, harrive] at h
          split_ifs at h with hk
          subst hk
          obtain ⟨w, hw, hrest⟩ := Option.bind_eq_some_iff.1 h
          obtain ⟨o, before, after, ho, heq, hmodify⟩ := ih hrest
          refine ⟨o, before.map (.member k' :: ·), after.map (.member k' :: ·), ?_, ?_, fun f => ?_⟩
          · simpa [Json.place?, hw] using ho
          · rw [collectMapsMut_object, harrive, Option.map_some, Option.getD_some, collectMapsMut_key, hw,
              Option.map_some, Option.getD_some, heq]
            simp
          · rw [Json.modify, collectMapsMut_object, arrive_updateMember, harrive, Option.map_some, Option.getD_some,
              collectMapsMut_key, Json.lookup_updateMember, if_pos rfl, hw, Option.map_some, Option.map_some,
              Option.getD_some, hmodify]
            simp
      | _ => cases h

/-- Where the walk does not come, a change does not touch it. -/
theorem collectMapsMut_modify_of_none (h : remaining path p v = none) :
    collectMapsMut (Json.modify f p v) path = collectMapsMut v path := by
  induction p generalizing path v with
  | nil =>
    cases v with
    | object o => cases h
    | _ => rfl
  | cons s p ih =>
    cases s with
    | item i =>
      cases v with
      | array items =>
        rw [Json.modify, collectMapsMut_array, collectMapsMut_array]
        cases hw : items[i]? with
        | none => rw [List.modify_eq_self (by simpa using hw)]
        | some w =>
          have hnone : remaining path p w = none := by simpa [remaining, hw] using h
          obtain ⟨before, after, heq, hmodify⟩ := collectItemsMut_modify hw 0 path
          rw [hmodify, ih hnone, heq]
      | _ => rfl
    | member k =>
      cases v with
      | object map =>
        rw [Json.modify, collectMapsMut_object, arrive_updateMember, collectMapsMut_object map]
        obtain harrive | harrive | ⟨k', rest, harrive⟩ := arrive_cases map path
        · rw [harrive]
          rfl
        · rw [harrive, Option.map_some, Option.map_some, collectMapsMut_nil, collectMapsMut_nil]
        · rw [harrive, Option.map_some, Option.map_some, collectMapsMut_key, collectMapsMut_key,
            Json.lookup_updateMember]
          by_cases hk : k' = k
          · subst hk
            cases hw : map.lookup k' with
            | none => simp
            | some w =>
              have hnone : remaining rest p w = none := by simpa [remaining, harrive, hw] using h
              simp [ih hnone]
          · rw [if_neg hk]
      | _ => rfl

theorem DeadEnd.places (h : DeadEnd Num path) (map : JsonMap Num) : collectMapsMut (.object map) path = [] := by
  rw [collectMapsMut_eq, h map]
  rfl

theorem deadEnd_iff : DeadEnd Num path ↔ ∀ map : JsonMap Num, collectMapsMut (.object map) path = [] := by
  refine ⟨DeadEnd.places, fun h map => ?_⟩
  simpa [collectMapsMut_eq] using h map

/-- A walk is not touched by a change of an object where it reads nothing. -/
theorem Clear.places (h : Clear path p v) : collectMapsMut (Json.modify f p v) path = collectMapsMut v path := by
  cases hrest : remaining path p v with
  | none => exact collectMapsMut_modify_of_none hrest
  | some rest =>
    obtain ⟨o, before, after, -, heq, hmodify⟩ := collectMapsMut_modify hrest
    rw [hmodify, heq]
    rcases h rest hrest with rfl | hdead
    · rw [collectMapsMut_nil, collectMapsMut_nil]
    · rw [hdead.places, hdead.places]

/-- A path that gets nowhere gets nowhere later on. -/
theorem DeadEnd.remaining {map : JsonMap Num} (h : DeadEnd Num path)
    (hrest : remaining path p (.object map) = some rest) : DeadEnd Num rest := by
  rw [deadEnd_iff]
  intro map'
  obtain ⟨o, before, after, -, -, hmodify⟩ := collectMapsMut_modify hrest
  obtain ⟨map'', hobject⟩ : ∃ map'', Json.modify (fun _ => map') p (.object map) = .object map'' := by
    cases p with
    | nil => exact ⟨map', rfl⟩
    | cons s p =>
      cases s with
      | item i => cases hrest
      | member k => exact ⟨_, rfl⟩
  have hnone := hmodify fun _ => map'
  rw [hobject, h.places] at hnone
  simpa using (List.append_eq_nil_iff.1 (List.append_eq_nil_iff.1 hnone.symm).1).2

/-- The walk comes to every object on the way to what it finds. -/
theorem remaining_of_mem {s : Place} {o : JsonMap Num} (ho : Json.place? p v = some (.object o))
    (h : p ++ s ∈ collectMapsMut v path) :
    ∃ rest, remaining path p v = some rest ∧ s ∈ collectMapsMut (.object o) rest := by
  induction p generalizing path v with
  | nil =>
    obtain rfl : v = .object o := Option.some.inj ho
    exact ⟨path, rfl, h⟩
  | cons step p ih =>
    cases step with
    | item i =>
      cases v with
      | array items =>
        obtain ⟨w, hw, ho⟩ := Option.bind_eq_some_iff.1 ho
        have hmem : p ++ s ∈ collectMapsMut w path := by
          rw [collectMapsMut_array] at h
          obtain ⟨n, w', q, hq, hw', hmem⟩ := mem_collectItemsMut h
          obtain ⟨rfl, rfl⟩ : i = n ∧ p ++ s = q := by simpa using hq
          obtain rfl : w = w' := Option.some.inj (hw.symm.trans hw')
          exact hmem
        simpa [remaining, hw] using ih ho hmem
      | _ => cases ho
    | member k =>
      cases v with
      | object map =>
        obtain ⟨w, hw, hplace⟩ := Option.bind_eq_some_iff.1 ho
        rw [collectMapsMut_object] at h
        obtain harrive | harrive | ⟨k', rest, harrive⟩ := arrive_cases map path
        · simp [harrive] at h
        · simp [harrive, collectMapsMut_nil] at h
        · rw [harrive, Option.map_some, Option.getD_some, collectMapsMut_key] at h
          cases hw' : map.lookup k' with
          | none => simp [hw'] at h
          | some w' =>
            simp only [hw', Option.map_some, Option.getD_some, List.mem_map, List.cons_append, List.cons.injEq,
              Step.member.injEq] at h
            obtain ⟨q, hq, rfl, rfl⟩ := h
            obtain rfl : w = w' := Option.some.inj (hw.symm.trans hw')
            simpa [remaining, harrive, hw] using ih hplace hq
      | _ => cases ho

/-- A walk that reads nothing of two objects reads nothing of the one when the other is changed. -/
theorem Clear.modify {q : Place} (hp : Clear path p v) (hq : Clear path q v) : Clear path q (Json.modify f p v) := by
  intro rest hrest
  induction p generalizing path q v with
  | nil =>
    cases v with
    | object map =>
      rcases hp path rfl with rfl | hdead
      · cases q with
        | nil => exact .inl (Option.some.inj hrest).symm
        | cons s q => cases s <;> cases hrest
      · exact .inr (hdead.remaining hrest)
    | _ => exact hq rest hrest
  | cons s p ih =>
    cases s with
    | item i =>
      cases v with
      | array items =>
        cases q with
        | nil => cases hrest
        | cons s q =>
          cases s with
          | member k => cases hrest
          | item j =>
            by_cases hij : i = j
            · subst hij
              cases hw : items[i]? with
              | none => simp [Json.modify, remaining, hw] at hrest
              | some w =>
                have hp : Clear path p w := by simpa [Clear, remaining, hw] using hp
                have hq : Clear path q w := by simpa [Clear, remaining, hw] using hq
                exact ih hp hq (by simpa [Json.modify, remaining, hw] using hrest)
            · refine hq rest ?_
              simpa [Json.modify, remaining, List.getElem?_modify, hij] using hrest
      | _ => exact hq rest hrest
    | member k =>
      cases v with
      | object map =>
        cases q with
        | nil =>
          obtain rfl : path = rest := Option.some.inj hrest
          exact hq path rfl
        | cons s q =>
          cases s with
          | item j => cases hrest
          | member k₂ =>
            rw [Json.modify, remaining, arrive_updateMember] at hrest
            obtain harrive | harrive | ⟨k', rest', harrive⟩ := arrive_cases map path
            · simp [harrive] at hrest
            · simp [harrive] at hrest
            · simp only [harrive] at hrest
              split_ifs at hrest with hk₂
              subst hk₂
              rw [Json.lookup_updateMember] at hrest
              by_cases hk : k' = k
              · subst hk
                cases hw : map.lookup k' with
                | none => simp [hw] at hrest
                | some w =>
                  have hp : Clear rest' p w := by simpa [Clear, remaining, harrive, hw] using hp
                  have hq : Clear rest' q w := by simpa [Clear, remaining, harrive, hw] using hq
                  exact ih hp hq (by simpa [hw] using hrest)
              · refine hq rest ?_
                simpa [remaining, harrive, hk] using hrest
      | _ => exact hq rest hrest

end Change

/-! ### The merge -/

section Merge

variable {Num : Type} {names : List String} {values : List (Json Num)} {child : FetchNode}

/-- The places of the objects with a representation. -/
theorem representedAt_sublist (values : List (Json Num)) (child : FetchNode) :
    (representedAt values child).Sublist (collectItemsMut 0 values child.path) := by
  rw [collectItemsMut_eq, representedAt]
  induction collectItems 0 values child.path with
  | nil => simp
  | cons p found ih =>
    cases hrep : representation p.2 child with
    | none => simpa [hrep] using ih.trans (List.sublist_cons_self _ _)
    | some rep => simpa [hrep] using ih

theorem place?_of_representedAt {p : Place} (h : p ∈ representedAt values child) :
    ∃ o, Json.place? p (.array values) = some (.object o) := by
  obtain ⟨⟨q, o⟩, hmem, hrep⟩ := List.mem_filterMap.1 h
  obtain ⟨rep, -, rfl⟩ := Option.map_eq_some_iff.1 hrep
  exact ⟨o, place?_of_mem_collectMaps (.array values) child.path (by rwa [collectMaps])⟩

theorem reps_eq_nil : (prep values child).reps = [] ↔ representedAt values child = [] := by
  simp only [prep, representedAt, List.filterMap_map, Function.comp_def, List.filterMap_eq_nil_iff, id_eq]
  refine forall₂_congr fun p _ => ?_
  cases representation p.2 child with
  | none => simp
  | some rep => simp

/-- The compacted results go to the objects of the mask. -/
theorem writes_mask (found : List (Place × JsonMap Num)) (child : FetchNode) (results : List (Json Num)) :
    writes (found.map Prod.fst) ((found.map fun p => representation p.2 child).map Option.isSome) results =
      (found.filterMap fun p => (representation p.2 child).map fun _ => p.1).zip results := by
  induction found generalizing results with
  | nil => rfl
  | cons p found ih =>
    cases hrep : representation p.2 child with
    | none => simpa [writes, hrep] using ih results
    | some rep =>
      cases results with
      | nil => simp [writes, hrep]
      | cons entity results => simpa [writes, hrep] using ih results

/-- **One turn.** Where the walk finds what the first one found, the `k`-th entity goes to the object of the
`k`-th representation. -/
theorem mergeChild_eq {now : List (Json Num)} (entities : List (Json Num))
    (h : representedAt values child ≠ [] →
      collectItemsMut 0 now child.path = collectItemsMut 0 values child.path) :
    mergeChild names now child (prep values child) entities =
      (((representedAt values child).zip entities).foldl mergeEntity now, []) := by
  unfold mergeChild
  by_cases hreps : representedAt values child = []
  · simp [reps_eq_nil.2 hreps, hreps]
  · cases entities with
    | nil => simp
    | cons entity entities =>
      have hreps' : (prep values child).reps.isEmpty = false := by
        simpa [List.isEmpty_eq_false_iff] using fun hnil => hreps (reps_eq_nil.1 hnil)
      rw [h hreps, hreps']
      simp only [prep, Bool.false_or, List.isEmpty_cons, Bool.false_eq_true, if_false, collectItemsMut_eq,
        List.length_map, ne_eq, not_true, writes_mask]
      rfl

theorem mergeAll_cons (prep : Prep Num) (entities : List (Json Num)) (errs : List String)
    (pending : List ((FetchNode × Prep Num) × List (Json Num) × List String)) :
    mergeAll names values (((child, prep), entities, errs) :: pending) =
      ((mergeAll names (mergeChild names values child prep entities).1 pending).1,
        errs ++ (mergeChild names values child prep entities).2 ++
          (mergeAll names (mergeChild names values child prep entities).1 pending).2) := rfl

/-- A place where a path reads nothing stays one whatever is merged at such places. -/
theorem Clear.mergeEntity {path : List PathSeg} {q : Place} {write : Place × Json Num}
    (hp : Clear path write.1 (.array values)) (hq : Clear path q (.array values)) :
    Clear path q (.array (GraphQl.mergeEntity values write)) := by
  unfold GraphQl.mergeEntity
  split
  · rw [← Json.modify_array]
    exact hp.modify hq
  · exact hq

theorem collectItemsMut_mergeEntity {path : List PathSeg} {write : Place × Json Num}
    (h : Clear path write.1 (.array values)) :
    collectItemsMut 0 (mergeEntity values write) path = collectItemsMut 0 values path := by
  unfold mergeEntity
  split
  · rw [← collectMapsMut_array, ← Json.modify_array, h.places, collectMapsMut_array]
  · rfl

/-- Entities merged where a path reads nothing: it still reads nothing there, and its walk is the same. -/
theorem clear_foldl {path : List PathSeg} {q : Place} {landed : List (Place × Json Num)}
    (h : ∀ write ∈ landed, Clear path write.1 (.array values)) (hq : Clear path q (.array values)) :
    Clear path q (.array (landed.foldl mergeEntity values)) := by
  induction landed generalizing values with
  | nil => exact hq
  | cons write landed ih =>
    obtain ⟨hwrite, h⟩ := List.forall_mem_cons.1 h
    exact ih (fun w hw => hwrite.mergeEntity (h w hw)) (hwrite.mergeEntity hq)

theorem collectItemsMut_foldl {path : List PathSeg} {landed : List (Place × Json Num)}
    (h : ∀ write ∈ landed, Clear path write.1 (.array values)) :
    collectItemsMut 0 (landed.foldl mergeEntity values) path = collectItemsMut 0 values path := by
  induction landed generalizing values with
  | nil => rfl
  | cons write landed ih =>
    obtain ⟨hwrite, h⟩ := List.forall_mem_cons.1 h
    rw [List.foldl_cons, ih fun w hw => hwrite.mergeEntity (h w hw), collectItemsMut_mergeEntity hwrite]

/-- What holds between two turns, of the fetches that are still to be merged: their walks find what they
first found, and read nothing where an earlier one of them has its entities. -/
structure Steady (values now : List (Json Num)) (children : List FetchNode) : Prop where
  walks : ∀ child ∈ children, representedAt values child ≠ [] →
    collectItemsMut 0 now child.path = collectItemsMut 0 values child.path
  clear : children.Pairwise fun earlier later => representedAt values later ≠ [] →
    ∀ p ∈ representedAt values earlier, Clear later.path p (.array now)

theorem Settled.steady {children : List FetchNode} (h : Settled values children) : Steady values values children :=
  ⟨fun _ _ _ => rfl, h⟩

/-- A turn keeps it so. -/
theorem Steady.turn {now : List (Json Num)} {children : List FetchNode}
    (h : Steady values now (child :: children)) (entities : List (Json Num)) :
    Steady values (((representedAt values child).zip entities).foldl mergeEntity now) children := by
  obtain ⟨hchild, hpairs⟩ := List.pairwise_cons.1 h.clear
  have hclear {later : FetchNode} (hlater : later ∈ children) (hreps : representedAt values later ≠ []) :
      ∀ write ∈ (representedAt values child).zip entities, Clear later.path write.1 (.array now) :=
    fun write hwrite => hchild later hlater hreps _ (List.of_mem_zip hwrite).1
  refine ⟨fun later hlater hreps => ?_, ?_⟩
  · rw [collectItemsMut_foldl (hclear hlater hreps)]
    exact h.walks later (List.mem_cons_of_mem _ hlater) hreps
  · refine (List.Pairwise.and_mem.1 hpairs).imp ?_
    rintro earlier later ⟨-, hlater, hpair⟩ hreps p hp
    exact clear_foldl (hclear hlater hreps) (hpair hreps p hp)

/-- **The whole merge**: every entity lands where its representation was built. -/
theorem Steady.mergeAll_eq {now : List (Json Num)} {children : List FetchNode}
    {fetched : List (List (Json Num) × List String)} (h : Steady values now children)
    (hlength : fetched.length ≤ children.length) :
    mergeAll names now ((preps values children).zip fetched) =
      ((landings values children fetched).foldl mergeEntity now, fetched.flatMap Prod.snd) := by
  induction children generalizing now fetched with
  | nil =>
    obtain rfl : fetched = [] := by simpa using hlength
    rfl
  | cons child children ih =>
    cases fetched with
    | nil => rfl
    | cons p fetched =>
      obtain ⟨entities, errs⟩ := p
      have hturn : mergeChild names now child (prep values child) entities = _ :=
        mergeChild_eq entities (h.walks child List.mem_cons_self)
      have hrest := ih (h.turn entities) (by simpa using hlength)
      simp only [preps, List.map_cons, List.zip_cons_cons, mergeAll_cons, hturn] at hrest ⊢
      rw [hrest]
      simp [landings]

theorem length_fetchAll_le (pending : List (FetchNode × Prep Num)) (answers : List (EntityAnswer Num)) :
    (fetchAll names pending answers).length ≤ pending.length := by
  induction pending generalizing answers with
  | nil => simp [fetchAll]
  | cons p pending ih =>
    obtain ⟨child, prep⟩ := p
    cases answers with
    | nil => simp [fetchAll]
    | cons answer answers => cases answer <;> simpa [fetchAll] using ih answers

theorem isObject_modify (f : JsonMap Num → JsonMap Num) (p : Place) (v : Json Num) :
    (Json.modify f p v).asObject.isSome = v.asObject.isSome := by
  cases p with
  | nil => cases v <;> rfl
  | cons s p => cases s <;> cases v <;> rfl

theorem isObject_mergeEntity (values : List (Json Num)) (write : Place × Json Num) :
    (mergeEntity values write).map (·.asObject.isSome) = values.map (·.asObject.isSome) := by
  unfold mergeEntity
  split
  · unfold Json.modifyItems
    split
    · refine List.ext_getElem (by simp) fun i hi hi' => ?_
      simp only [List.getElem_map, List.getElem_modify]
      split_ifs
      · exact isObject_modify _ _ _
      · rfl
    · rfl
  · rfl

/-- **Entities stay in their order**: what is merged below them leaves an object where an object was answered,
and none where none was. -/
theorem isObject_mergeAll (values : List (Json Num))
    (pending : List ((FetchNode × Prep Num) × List (Json Num) × List String)) :
    (mergeAll names values pending).1.map (·.asObject.isSome) = values.map (·.asObject.isSome) := by
  have hfold (values : List (Json Num)) (landed : List (Place × Json Num)) :
      (landed.foldl mergeEntity values).map (·.asObject.isSome) = values.map (·.asObject.isSome) := by
    induction landed generalizing values with
    | nil => rfl
    | cons write landed ih => exact (ih _).trans (isObject_mergeEntity values write)
  induction pending generalizing values with
  | nil => rfl
  | cons p pending ih =>
    obtain ⟨⟨child, prep⟩, entities, errs⟩ := p
    rw [mergeAll_cons]
    refine (ih _).trans ?_
    simp only [mergeChild]
    split_ifs
    · rfl
    · rfl
    · exact hfold values _

/-! #### Nothing on the way is replaced -/

/-- Where a walk ends, it goes no further. -/
theorem eq_nil_of_mem {path : List PathSeg} {o : JsonMap Num} {s : Place} (hend : [] ∈ collectMapsMut (.object o) path)
    (hs : s ∈ collectMapsMut (.object o) path) : s = [] := by
  rw [collectMapsMut_object] at hend hs
  obtain harrive | harrive | ⟨k, rest, harrive⟩ := arrive_cases o path
  · simp [harrive] at hend
  · simpa [harrive, collectMapsMut_nil] using hs
  · rw [harrive, Option.map_some, Option.getD_some, collectMapsMut_key] at hend
    cases hk : o.lookup k with
    | none => simp [hk] at hend
    | some v => simp [hk] at hend

theorem not_replaces_of_clear {path : List PathSeg} {write : Place × Json Num} {q : Place} {o : JsonMap Num}
    (ho : Json.place? write.1 (.array values) = some (.object o)) (hclear : Clear path write.1 (.array values))
    (hq : q ∈ collectItemsMut 0 values path) : ¬ Replaces write q := by
  rintro ⟨fields, k, -, -, s, rfl⟩
  rw [← collectMapsMut_array, List.append_assoc] at hq
  obtain ⟨rest, hrest, hs⟩ := remaining_of_mem ho hq
  rcases hclear rest hrest with rfl | hdead
  · simp [collectMapsMut_nil] at hs
  · simp [hdead.places] at hs

theorem not_replaces_of_same {path : List PathSeg} {write : Place × Json Num} {q : Place} {o : JsonMap Num}
    (ho : Json.place? write.1 (.array values) = some (.object o)) (hwrite : write.1 ∈ collectItemsMut 0 values path)
    (hq : q ∈ collectItemsMut 0 values path) : ¬ Replaces write q := by
  rintro ⟨fields, k, -, -, s, rfl⟩
  rw [← collectMapsMut_array] at hwrite hq
  rw [List.append_assoc] at hq
  rw [← List.append_nil write.1] at hwrite
  obtain ⟨rest, hrest, hs⟩ := remaining_of_mem ho hq
  obtain ⟨rest', hrest', hend⟩ := remaining_of_mem ho hwrite
  obtain rfl : rest = rest' := Option.some.inj (hrest.symm.trans hrest')
  exact absurd (eq_nil_of_mem hend hs) (by simp)

theorem Settled.kept {children : List FetchNode} (h : Settled values children)
    (fetched : List (List (Json Num) × List String)) :
    (landings values children fetched).Pairwise fun earlier later => ¬ Replaces earlier later.1 := by
  refine List.pairwise_flatMap.2 ⟨?_, ?_⟩
  · rintro ⟨child, entities, errs⟩ -
    refine List.pairwise_of_forall_mem_list fun write hwrite later hlater => ?_
    have hmem := (List.of_mem_zip hwrite).1
    obtain ⟨o, ho⟩ := place?_of_representedAt hmem
    exact not_replaces_of_same ho ((representedAt_sublist values child).subset hmem)
      ((representedAt_sublist values child).subset (List.of_mem_zip hlater).1)
  · refine (Assoc.pairwise_zip h fetched).imp ?_
    rintro ⟨child, entities, errs⟩ ⟨later, entities', errs'⟩ hpair write hwrite w hw
    have hmem := (List.of_mem_zip hwrite).1
    have hlater := (List.of_mem_zip hw).1
    obtain ⟨o, ho⟩ := place?_of_representedAt hmem
    exact not_replaces_of_clear ho (hpair (List.ne_nil_of_mem hlater) _ hmem)
      ((representedAt_sublist values later).subset hlater)

theorem Settled.lands {children : List FetchNode} (h : Settled values children) (answers : List (EntityAnswer Num)) :
    Lands names values children answers where
  merged := h.steady.mergeAll_eq (by simpa [preps] using length_fetchAll_le (preps values children) answers)
  kept := h.kept _

end Merge

/-! ### When it fails -/

section Fails

variable {Num : Type} {names : List String} {values : List (Json Num)} {map map' : JsonMap Num}
  {path rest : List PathSeg}

theorem arrive_of_typename_none (h : typename map' = none) (harrive : arrive map' path = some rest) :
    arrive map path = some rest := by
  cases path with
  | nil => exact harrive
  | cons seg path =>
    cases seg with
    | key k => exact harrive
    | typeCond t => simp [arrive, h] at harrive

/-- The members of a map under these keys. -/
def membersAt (map : JsonMap Num) (keys : List String) : JsonMap Num :=
  keys.filterMap fun k => (map.lookup k).map fun v => (k, v)

theorem lookup_membersAt (o : JsonMap Num) {keys : List String} {k : String} {v : Json Num} (hk : k ∈ keys)
    (hv : map.lookup k = some v) : (Json.insertAll (membersAt map keys) o).lookup k = some v := by
  rw [← hv]
  refine Json.lookup_insertAll_of_mem ?_ ?_
  · exact List.mem_map.2 ⟨(k, v), List.mem_filterMap.2 ⟨k, hk, by simp [hv]⟩, rfl⟩
  · rintro p hp
    obtain ⟨k', -, hp⟩ := List.mem_filterMap.1 hp
    obtain ⟨v', hv', rfl⟩ := Option.map_eq_some_iff.1 hp
    exact hv'

theorem arrive_membersAt (o : JsonMap Num) {keys : List String} (hk : "__typename" ∈ keys)
    (h : arrive map path = some rest) : arrive (Json.insertAll (membersAt map keys) o) path = some rest := by
  cases hv : map.lookup "__typename" with
  | none => exact arrive_of_typename_none (by simp [typename, hv]) h
  | some v =>
    rw [← h]
    exact arrive_congr (by simp [typename, hv, lookup_membersAt o hk hv])

/-- An object can be given the fields that the walk of a path reads. -/
theorem exists_reached (o : JsonMap Num) (h : collectMapsMut (.object map) path ≠ []) :
    ∃ fields, collectMapsMut (.object (Json.insertAll fields o)) path ≠ [] := by
  rw [collectMapsMut_object] at h
  obtain harrive | harrive | ⟨k, rest, harrive⟩ := arrive_cases map path
  · simp [harrive] at h
  · refine ⟨membersAt map ["__typename"], ?_⟩
    rw [collectMapsMut_object, arrive_membersAt o List.mem_cons_self harrive]
    simp [collectMapsMut_nil]
  · refine ⟨membersAt map ["__typename", k], ?_⟩
    rw [collectMapsMut_object, arrive_membersAt o List.mem_cons_self harrive]
    rw [harrive, Option.map_some, Option.getD_some, collectMapsMut_key] at h
    rw [Option.map_some, Option.getD_some, collectMapsMut_key]
    cases hv : map.lookup k with
    | none => simp [hv] at h
    | some v => rwa [lookup_membersAt o (List.mem_cons_of_mem _ List.mem_cons_self) hv, ← hv]

/-- An object can be given a field that ends the walk of a path. -/
theorem exists_ended (o : JsonMap Num) (hne : path ≠ []) :
    ∃ fields, collectMapsMut (.object (Json.insertAll fields o)) path = [] := by
  cases path with
  | nil => exact absurd rfl hne
  | cons seg path =>
    cases seg with
    | key k =>
      refine ⟨[(k, .null)], ?_⟩
      rw [collectMapsMut_key, Json.insertAll, List.foldl_cons, List.foldl_nil, Json.lookup_insert, if_pos rfl,
        Option.map_some, Option.getD_some, collectMapsMut_eq]
      simp [collectMaps]
    | typeCond t =>
      refine ⟨[("__typename", .null)], ?_⟩
      have hnone : typename (Json.insertAll [("__typename", .null)] o) = none := by
        rw [typename, Json.insertAll, List.foldl_cons, List.foldl_nil, Json.lookup_insert, if_pos rfl]
        rfl
      rw [collectMapsMut_typeCond, hnone, if_neg (by simp)]

/-- What is still read of an object can be changed so that the walk finds another number of objects. -/
theorem exists_disturbed (o : JsonMap Num) (hne : path ≠ []) (hlive : ¬ DeadEnd Num path) : ∃ fields,
    (collectMapsMut (.object (Json.insertAll fields o)) path).length ≠ (collectMapsMut (.object o) path).length := by
  by_cases hempty : collectMapsMut (.object o) path = []
  · obtain ⟨map, hmap⟩ := not_forall.1 (mt deadEnd_iff.2 hlive)
    obtain ⟨fields, hfields⟩ := exists_reached o hmap
    exact ⟨fields, by simpa [hempty] using hfields⟩
  · obtain ⟨fields, hfields⟩ := exists_ended o hne
    refine ⟨fields, ?_⟩
    rw [hfields]
    exact fun heq => hempty (List.eq_nil_of_length_eq_zero heq.symm)

theorem fetchAll_nil (pending : List (FetchNode × Prep Num)) : fetchAll names pending [] = [] := by
  cases pending with
  | nil => simp [fetchAll]
  | cons p pending => simp [fetchAll]

/-- What is fetched when there are neither errors nor fetches below. -/
theorem fetchAll_plain (pending : List (FetchNode × Prep Num)) (entities : List (List (Json Num))) :
    fetchAll names pending (entities.map fun es => .ok es [] []) =
      (pending.zip entities).map fun p => (if p.1.2.reps.isEmpty then [] else p.2, []) := by
  induction pending generalizing entities with
  | nil => simp [fetchAll]
  | cons p pending ih =>
    obtain ⟨child, prep⟩ := p
    cases entities with
    | nil => simp [fetchAll]
    | cons es entities =>
      simp only [List.map_cons, fetchAll, fetchAll_nil, List.zip_nil_right, mergeAll, ih, List.zip_cons_cons]
      split_ifs
      · rfl
      · rfl

/-- Without entities nothing changes. -/
theorem mergeChild_nil (child : FetchNode) (prep : Prep Num) : mergeChild names values child prep [] = (values, []) := by
  simp [mergeChild]

/-- A later fetch whose walk now finds another number of objects leaves an error. -/
theorem mergeAll_diverges {now : List (Json Num)} {later : FetchNode} (hreps : representedAt values later ≠ [])
    (hlength : (collectItemsMut 0 now later.path).length ≠ (collectItemsMut 0 values later.path).length)
    (between after : List FetchNode) :
    (mergeAll names now ((preps values (between ++ later :: after)).zip
      (((preps values (between ++ later :: after)).zip (List.replicate between.length [] ++ [[.null]])).map
        fun p => (if p.1.2.reps.isEmpty then [] else p.2, [])))).2 ≠ [] := by
  induction between with
  | nil =>
    have hreps : (prep values later).reps ≠ [] := mt reps_eq_nil.1 hreps
    have hmask : (prep values later).mask.length = (collectItemsMut 0 values later.path).length := by
      simp [prep, collectItemsMut_eq]
    simp [preps, mergeAll_cons, mergeChild, hreps, hmask, hlength]
  | cons child between ih =>
    simpa [preps, List.replicate_succ, mergeAll_cons, mergeChild_nil] using ih

/-- The entity for one of the objects, and `null` for those before it. -/
theorem foldl_mergeEntity_single {before after : List Place} {p : Place} (entity : Json Num) :
    ((before ++ p :: after).zip (List.replicate before.length .null ++ [entity])).foldl mergeEntity values =
      mergeEntity values (p, entity) := by
  rw [List.zip_append (by simp), List.foldl_append]
  have hnull : (before.zip (List.replicate before.length .null)).foldl mergeEntity values = values := by
    induction before with
    | nil => rfl
    | cons q before ih => simpa [List.replicate_succ, mergeEntity] using ih
  simp [hnull]

/-- The first fetch reads nothing that a later one writes. -/
theorem clear_of_lands {child later : FetchNode} {between after : List FetchNode}
    (h : ∀ answers : List (EntityAnswer Num), Lands names values (child :: (between ++ later :: after)) answers)
    (hreps : representedAt values later ≠ []) {p : Place} (hp : p ∈ representedAt values child) :
    Clear later.path p (.array values) := by
  intro rest hrest
  by_contra hread
  obtain ⟨hne, hlive⟩ := not_or.1 hread
  obtain ⟨o, before, behind, -, heq, hmodify⟩ := collectMapsMut_modify hrest
  obtain ⟨fields, hfields⟩ := exists_disturbed o hne hlive
  obtain ⟨places, places', hplaces⟩ := List.append_of_mem hp
  have hlength : (collectItemsMut 0 (mergeEntity values (p, .object fields)) later.path).length ≠
      (collectItemsMut 0 values later.path).length := by
    rw [← collectMapsMut_array, ← collectMapsMut_array, mergeEntity, ← Json.modify_array, hmodify, heq]
    simpa using hfields
  have hmerged := (h ((((List.replicate places.length .null ++ [.object fields]) ::
    (List.replicate between.length [] ++ [[.null]]))).map fun es => .ok es [] [])).merged
  have herrors := congrArg Prod.snd hmerged
  rw [resolveChildren, fetchAll_plain] at herrors
  have hturn : mergeChild names values child (prep values child)
      (List.replicate places.length .null ++ [.object fields]) = (mergeEntity values (p, .object fields), []) := by
    rw [mergeChild_eq _ fun _ => rfl, hplaces, foldl_mergeEntity_single]
  have hreps' : (prep values child).reps ≠ [] := mt reps_eq_nil.1 (List.ne_nil_of_mem hp)
  have hdiverges : (mergeAll names (mergeEntity values (p, .object fields)) _).2 ≠ [] :=
    mergeAll_diverges hreps hlength between after
  have hnone (l : List ((FetchNode × Prep Num) × List (Json Num))) : l.flatMap (fun _ => ([] : List String)) = [] :=
    List.flatMap_eq_nil_iff.2 (by simp)
  refine hdiverges ?_
  simpa [preps, hreps', mergeAll_cons, hturn, List.flatMap_map, hnone] using herrors

/-- What holds of the fetches holds of those behind the first. -/
theorem Lands.tail {child : FetchNode} {children : List FetchNode} {answers : List (EntityAnswer Num)}
    (h : Lands names values (child :: children) (.ok [] [] [] :: answers)) : Lands names values children answers := by
  have hfetched : fetchAll names (preps values (child :: children)) (.ok [] [] [] :: answers) =
      ([], []) :: fetchAll names (preps values children) answers := by
    simp [preps, fetchAll, mergeAll, fetchAll_nil]
  obtain ⟨hmerged, hkept⟩ := h
  rw [resolveChildren, hfetched] at hmerged
  rw [hfetched] at hkept
  refine ⟨?_, ?_⟩
  · simpa [resolveChildren, preps, mergeAll_cons, mergeChild_nil, landings, Prod.ext_iff] using hmerged
  · simpa [landings] using hkept

theorem settled_of_lands {children : List FetchNode}
    (h : ∀ answers : List (EntityAnswer Num), Lands names values children answers) : Settled values children := by
  induction children with
  | nil => exact List.Pairwise.nil
  | cons child children ih =>
    refine List.pairwise_cons.2 ⟨fun later hlater hreps p hp => ?_, ih fun answers => (h _).tail⟩
    obtain ⟨between, after, rfl⟩ := List.append_of_mem hlater
    exact clear_of_lands h hreps hp

end Fails

/-! ### The guarantee -/

section Levels

variable {Num : Type} {names : List String} {values values' entities : List (Json Num)}
  {children children' : List FetchNode} {answers answers' nested : List (EntityAnswer Num)}

/-- What a fetch brings is what the call for its entities makes of them. -/
theorem fetchAll_ok {child : FetchNode} {rest : List (FetchNode × Prep Num)} {errors : List String}
    (h : representedAt values child ≠ []) :
    fetchAll names ((child, prep values child) :: rest) (.ok entities errors nested :: answers) =
      ((resolveChildren names entities child.children nested).1,
        errors ++ (resolveChildren names entities child.children nested).2) :: fetchAll names rest answers := by
  have hreps : (prep values child).reps.isEmpty = false := by
    simpa [List.isEmpty_eq_false_iff] using mt reps_eq_nil.1 h
  rw [fetchAll, hreps]
  rfl

/-- A call is one of a level that may be reached. -/
theorem Call.level (h : Call values children answers values' children' answers') :
    Level values children values' children' := by
  induction h with
  | here => exact .here
  | deeper hmem hreps _ ih => exact .deeper _ (List.of_mem_zip hmem).1 hreps ih

/-- Every level that may be reached is that of some call, with any answers there. -/
theorem Level.exists_call (h : Level values children values' children') (answers' : List (EntityAnswer Num)) :
    ∃ answers, Call values children answers values' children' answers' := by
  induction h with
  | here => exact ⟨answers', .here⟩
  | @deeper values values' children children' child entities hchild hreps _ ih =>
    obtain ⟨nested, hcall⟩ := ih
    obtain ⟨before, after, rfl⟩ := List.append_of_mem hchild
    have hmem : (child, EntityAnswer.ok entities [] nested) ∈
        (before ++ child :: after).zip (before.map (fun _ => .failed "") ++ [.ok entities [] nested]) := by
      rw [List.zip_append (by simp)]
      exact List.mem_append_right _ List.mem_cons_self
    exact ⟨_, .deeper hmem hreps hcall⟩

theorem landsEverywhere_iff : (∀ answers : List (EntityAnswer Num), LandsEverywhere names values children answers) ↔
    ∀ values' children', Level values children values' children' →
      ∀ answers' : List (EntityAnswer Num), Lands names values' children' answers' := by
  constructor
  · intro h values' children' hlevel answers'
    obtain ⟨answers, hcall⟩ := hlevel.exists_call answers'
    exact h answers _ _ _ hcall
  · intro h answers values' children' answers' hcall
    exact h values' children' hcall.level answers'

end Levels

/-- **Entities land on the objects they were fetched for, at every level**, whatever is answered, if and only if
at no level that may be reached an object that gets an entity is one where the path of a later fetch still
reads. The two walks agree in any case. -/
theorem entities_land_iff {Num : Type} (names : List String) (values : List (Json Num)) (children : List FetchNode) :
    ((∀ (value : Json Num) (path : List PathSeg), collectMapsMut value path = (collectMaps value path).map Prod.fst) ∧
      ∀ answers : List (EntityAnswer Num), LandsEverywhere names values children answers) ↔
        SettledEverywhere values children := by
  rw [landsEverywhere_iff]
  constructor
  · rintro ⟨-, h⟩ values' children' hlevel
    exact settled_of_lands (h values' children' hlevel)
  · exact fun h => ⟨collectMapsMut_eq, fun values' children' hlevel => (h values' children' hlevel).lands⟩

/-- A user whose best friend is another, as the first subgraph answers
`{ node { ... on User { best { id } } best { ... on User { rank } } } }`. -/
def bestFriends : List (Json ℕ) :=
  [.object [("node", .object [("__typename", .string "User"), ("g2__id", .string "1"),
    ("best", .object [("__typename", .string "User"), ("g2__id", .string "2")])])]]

/-- `User.best` is fetched from the second subgraph, the `rank` of the best friend from the third. -/
def bestFetches : List FetchNode :=
  [{ path := [.key "node", .typeCond "User"], typeName := "User", subgraph := 1, keyFields := ["id"],
     selections := .field { name := "best" } "Node" (.field { name := "id" } "ID" .nil .nil) .nil, children := [] },
   { path := [.key "node", .key "best", .typeCond "User"], typeName := "User", subgraph := 2, keyFields := ["id"],
     selections := .field { name := "rank" } "Int" .nil .nil, children := [] }]

/-- What is answered: the second subgraph has no best friend for the user, the third the friend's rank. -/
def bestAnswers : List (EntityAnswer ℕ) :=
  [.ok [.object [("best", .null)]] [] [], .ok [.object [("rank", .number 1)]] [] []]

theorem bestFriends_not_lands : ¬ Lands ["nodes", "users", "ranks"] bestFriends bestFetches bestAnswers := by
  intro h
  have herrors := congrArg Prod.snd h.merged
  simp [bestFriends, bestFetches, bestAnswers, resolveChildren, preps, prep, fetchAll, mergeAll, mergeChild, collectItems,
    collectMaps, collectItemsMut, collectMapsMut, behind, typename, Json.asStr, Json.asObject, representation, keyValue,
    writes, mergeEntity, Json.modifyItems, Json.modify, Json.updateMember, Json.insertAll, Json.insert,
    List.lookup_cons] at herrors

/-- The rank that the third subgraph has for the friend of the first cannot be merged. -/
theorem best_replaced : ¬ LandsEverywhere ["nodes", "users", "ranks"] bestFriends bestFetches bestAnswers :=
  fun h => bestFriends_not_lands (h _ _ _ .here)

/-- A group, to which the fetch below it brings the users. -/
def groupFetch : FetchNode where
  path := [.key "group"]
  typeName := "Group"
  subgraph := 0
  keyFields := ["id"]
  selections := .nil
  children := bestFetches

-- one level down it is the same
example : ¬ LandsEverywhere ["nodes", "users", "ranks"] [.object [("group", .object [("id", .string "3")])]]
    [groupFetch] [.ok bestFriends [] bestAnswers] := by
  intro h
  have hmem : (groupFetch, EntityAnswer.ok bestFriends [] bestAnswers) ∈
      [groupFetch].zip [EntityAnswer.ok bestFriends [] bestAnswers] := List.mem_cons_self
  refine bestFriends_not_lands (h _ _ _ (.deeper hmem ?_ .here))
  simp [representedAt, groupFetch, collectItems, collectMaps, behind, representation, typename, keyValue,
    List.lookup_cons]

end G2way.GraphQl
