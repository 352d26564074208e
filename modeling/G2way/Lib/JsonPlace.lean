import G2way.Lib.Json

/-!
# Places in a JSON value

Where a part of a JSON value is: the items and members to go through from the
whole. A value is changed in place by `modify`, which changes the object at one
place and leaves every other part as it is. A map keeps the order in which its
keys came; `insert` puts a new value in the old one's place. `mapStrings` puts a
value for each string, at every place.
-/

namespace G2way.Lib

/-- One step from a value to a part of it. -/
inductive Step where
  | item (i : ℕ)
  | member (k : String)
  deriving DecidableEq, Repr

/-- The steps from a value to a part of it. -/
abbrev Place := List Step

namespace Json

variable {ν : Type} {k k' : String} {m : List (String × Json ν)}

/-- A value that is a string. -/
def asStr : Json ν → Option String
  | .string s => some s
  | _ => none

/-- A value that is an object. -/
def asObject : Json ν → Option (List (String × Json ν))
  | .object m => some m
  | _ => none

/-! ### Maps -/

/-- The map with a value for the key: in place of the one it has, or at the end. -/
def insert (k : String) (v : Json ν) : List (String × Json ν) → List (String × Json ν)
  | [] => [(k, v)]
  | (k', v') :: rest => if k' = k then (k, v) :: rest else (k', v') :: insert k v rest

theorem lookup_insert (v : Json ν) : (insert k v m).lookup k' = if k' = k then some v else m.lookup k' := by
  induction m with
  | nil =>
    by_cases hk : k' = k
    · simp [insert, hk]
    · simp [insert, hk, List.lookup_cons, beq_false_of_ne hk]
  | cons p m ih =>
    obtain ⟨k₀, v₀⟩ := p
    unfold insert
    by_cases hk₀ : k₀ = k
    · by_cases hk : k' = k
      · simp [hk₀, hk]
      · simp [hk₀, hk, List.lookup_cons, beq_false_of_ne hk]
    · rw [if_neg hk₀, List.lookup_cons, List.lookup_cons, ih]
      by_cases hk : k' = k₀
      · subst hk
        simp [hk₀]
      · simp [beq_false_of_ne hk]

/-- The map with every one of the fields inserted, one after the other. -/
def insertAll (fields m : List (String × Json ν)) : List (String × Json ν) :=
  fields.foldl (fun m p => insert p.1 p.2 m) m

theorem lookup_insertAll_of_not_mem {fields : List (String × Json ν)} (h : k ∉ fields.map Prod.fst) :
    (insertAll fields m).lookup k = m.lookup k := by
  induction fields generalizing m with
  | nil => rfl
  | cons p fields ih =>
    simp only [List.map_cons, List.mem_cons, not_or] at h
    exact (ih h.2).trans ((lookup_insert p.2).trans (if_neg h.1))

/-- A key of the fields has the value they give it, if they give it one. -/
theorem lookup_insertAll_of_mem {fields m' : List (String × Json ν)} (h : k ∈ fields.map Prod.fst)
    (hsame : ∀ p ∈ fields, m'.lookup p.1 = some p.2) : (insertAll fields m).lookup k = m'.lookup k := by
  induction fields generalizing m with
  | nil => cases h
  | cons p fields ih =>
    obtain ⟨hp, hsame⟩ := List.forall_mem_cons.1 hsame
    by_cases hmem : k ∈ fields.map Prod.fst
    · exact ih hmem hsame
    · have hk : k = p.1 := (List.mem_cons.1 h).resolve_right hmem
      refine (lookup_insertAll_of_not_mem hmem).trans ((lookup_insert p.2).trans ?_)
      rw [if_pos hk, hk, hp]

/-- The map with the values of a key changed. -/
def updateMember (g : Json ν → Json ν) (k : String) (m : List (String × Json ν)) : List (String × Json ν) :=
  m.map fun p => if p.1 = k then (p.1, g p.2) else p

theorem lookup_updateMember (g : Json ν → Json ν) :
    (updateMember g k m).lookup k' = if k' = k then (m.lookup k).map g else m.lookup k' := by
  induction m with
  | nil => simp [updateMember]
  | cons p m ih =>
    obtain ⟨k₀, v₀⟩ := p
    unfold updateMember at ih ⊢
    by_cases hk₀ : k₀ = k
    · by_cases hk : k' = k
      · simp [hk₀, hk]
      · rw [if_neg hk] at ih ⊢
        simp [hk₀, List.lookup_cons, beq_false_of_ne hk, ih]
    · rw [List.map_cons, if_neg hk₀, List.lookup_cons, ih, List.lookup_cons, List.lookup_cons,
        beq_false_of_ne (Ne.symm hk₀)]
      by_cases hk : k' = k₀
      · subst hk
        simp [hk₀]
      · simp [beq_false_of_ne hk]

/-! ### Places -/

/-- The value at a place. -/
def place? : Place → Json ν → Option (Json ν)
  | [], v => some v
  | .item i :: p, .array items => items[i]? >>= place? p
  | .member k :: p, .object m => m.lookup k >>= place? p
  | _, _ => none

/-- The value with the object at a place changed. -/
def modify (f : List (String × Json ν) → List (String × Json ν)) : Place → Json ν → Json ν
  | [], .object m => .object (f m)
  | .item i :: p, .array items => .array (items.modify i (modify f p))
  | .member k :: p, .object m => .object (updateMember (modify f p) k m)
  | _, v => v

/-- The values with the object at a place changed. -/
def modifyItems (f : List (String × Json ν) → List (String × Json ν)) : Place → List (Json ν) → List (Json ν)
  | .item i :: p, items => items.modify i (modify f p)
  | _, items => items

variable {f : List (String × Json ν) → List (String × Json ν)}

theorem modify_array (p : Place) (items : List (Json ν)) :
    modify f p (.array items) = .array (modifyItems f p items) := by
  cases p with
  | nil => rfl
  | cons s p => cases s <;> rfl

/-- Strings stay. -/
@[simp] theorem asStr_modify (p : Place) (v : Json ν) : (modify f p v).asStr = v.asStr := by
  cases p with
  | nil => cases v <;> rfl
  | cons s p => cases s <;> cases v <;> rfl

/-! ### The strings of a value -/

mutual

/-- The strings of a value, keys apart. -/
def strings : Json ν → List String
  | .string s => [s]
  | .array items => stringsOfItems items
  | .object m => stringsOfMembers m
  | _ => []

def stringsOfItems : List (Json ν) → List String
  | [] => []
  | v :: rest => strings v ++ stringsOfItems rest

def stringsOfMembers : List (String × Json ν) → List String
  | [] => []
  | (_, v) :: rest => strings v ++ stringsOfMembers rest

end

mutual

/-- The value with another for each of its strings. -/
def mapStrings (g : String → Json ν) : Json ν → Json ν
  | .string s => g s
  | .array items => .array (mapStringsOfItems g items)
  | .object m => .object (mapStringsOfMembers g m)
  | v => v

def mapStringsOfItems (g : String → Json ν) : List (Json ν) → List (Json ν)
  | [] => []
  | v :: rest => mapStrings g v :: mapStringsOfItems g rest

def mapStringsOfMembers (g : String → Json ν) : List (String × Json ν) → List (String × Json ν)
  | [] => []
  | (k, v) :: rest => (k, mapStrings g v) :: mapStringsOfMembers g rest

end

section

variable {g g' : String → Json ν}

mutual

/-- Only what is put for the value's own strings matters. -/
theorem mapStrings_congr : ∀ v : Json ν, (∀ s ∈ v.strings, g s = g' s) → v.mapStrings g = v.mapStrings g'
  | .null, _ | .bool _, _ | .number _, _ => rfl
  | .string s, h => h s List.mem_cons_self
  | .array items, h => congrArg Json.array (mapStringsOfItems_congr items h)
  | .object m, h => congrArg Json.object (mapStringsOfMembers_congr m h)

theorem mapStringsOfItems_congr : ∀ items : List (Json ν), (∀ s ∈ stringsOfItems items, g s = g' s) →
    mapStringsOfItems g items = mapStringsOfItems g' items
  | [], _ => rfl
  | v :: rest, h => by
    simp only [mapStringsOfItems]
    rw [mapStrings_congr v fun s hs => h s (List.mem_append_left _ hs),
      mapStringsOfItems_congr rest fun s hs => h s (List.mem_append_right _ hs)]

theorem mapStringsOfMembers_congr : ∀ m : List (String × Json ν), (∀ s ∈ stringsOfMembers m, g s = g' s) →
    mapStringsOfMembers g m = mapStringsOfMembers g' m
  | [], _ => rfl
  | (k, v) :: rest, h => by
    simp only [mapStringsOfMembers]
    rw [mapStrings_congr v fun s hs => h s (List.mem_append_left _ hs),
      mapStringsOfMembers_congr rest fun s hs => h s (List.mem_append_right _ hs)]

end

end

end Json

end G2way.Lib
