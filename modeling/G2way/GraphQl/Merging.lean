import G2way.GraphQl.Planner

/-!
# Fields that merge

The rule of validation that a response key is given to one field ("fields in set
can merge"), as far as names and arguments go: what shape fields on different
object types have is left out.

## The model

The fields of an inline fragment are asked of the object the fragment stands in, so
that a set and those of its inline fragments, at any depth, are parts of one selection
set (`SetOn.parts`). Fields on two different object types are never of one object; all
others meet (`Schema.Meet`). Where fields that meet have one response key, the sets
below them are one set in turn: `Joined` leads from two sets to all that are so joined,
and `FieldsCanMerge` says of two sets that the fields that meet there merge.

## What is proved

`FieldsCanMerge.within` and `FieldsCanMerge.below` lead to smaller and deeper sets;
`fieldsCanMerge_of_plain` is about sets that have each response key once.
-/

namespace G2way.GraphQl

/-- Two selections of one response key are of the same field. -/
def Field.Merges (f g : Field) : Prop := f.responseKey = g.responseKey → f.name = g.name ∧ f.arguments = g.arguments

instance (f g : Field) : Decidable (f.Merges g) := inferInstanceAs (Decidable (_ → _))

/-- A selection set, and the type it is on. -/
structure SetOn where
  ty : Name
  selections : Selections

/-- The sets of the inline fragments of a set, and of those in them. -/
def Selections.fragmentParts : Selections → List SetOn
  | .nil => []
  | .field _ _ _ rest => rest.fragmentParts
  | .inlineFragment _ cond sub rest => ⟨cond, sub⟩ :: (sub.fragmentParts ++ rest.fragmentParts)
  | .fragmentSpread _ _ rest => rest.fragmentParts

namespace SetOn

/-- The parts of a selection set: itself, and the sets of its inline fragments at any depth. -/
def parts (a : SetOn) : List SetOn := a :: a.selections.fragmentParts

/-- The fields of the set, those of its fragments apart. -/
def fields (a : SetOn) : List Field := a.selections.fields

/-- They, with the sets below them. -/
def selected (a : SetOn) : List SelectedField := a.selections.selected

end SetOn

/-- The set below a field. -/
def SelectedField.set (f : SelectedField) : SetOn := ⟨f.ty, f.selections⟩

/-- Fields on these types may be asked of one object. -/
def Schema.Meet (s : Schema) (ty ty' : Name) : Prop := ty = ty' ∨ s.objectType ty = none ∨ s.objectType ty' = none

instance (s : Schema) (ty ty' : Name) : Decidable (s.Meet ty ty') :=
  decidable_of_iff (ty = ty' ∨ (s.objectType ty).isNone ∨ (s.objectType ty').isNone) (by
    simp only [Schema.Meet, Option.isNone_iff_eq_none])

/-- Two sets that are asked of one object lead to two others: those below fields of theirs that meet and have one
response key, and so on. Only some of the fields, by their type and name, are in question. -/
inductive Joined (s : Schema) (stays : Name → Name → Prop) : SetOn → SetOn → SetOn → SetOn → Prop
  | here {a b : SetOn} : Joined s stays a b a b
  | down {a b p q x y : SetOn} {f g : SelectedField} : p ∈ a.parts → q ∈ b.parts → s.Meet p.ty q.ty →
      f ∈ p.selected → g ∈ q.selected → stays p.ty f.field.name → stays q.ty g.field.name →
      f.field.responseKey = g.field.responseKey → Joined s stays f.set g.set x y → Joined s stays a b x y

/-- The fields of two sets that meet merge. -/
def MergePair (s : Schema) (a b : SetOn) : Prop :=
  ∀ p ∈ a.parts, ∀ q ∈ b.parts, s.Meet p.ty q.ty → ∀ f ∈ p.fields, ∀ g ∈ q.fields, f.Merges g

/-- So do those of all sets they lead to. -/
def FieldsCanMerge (s : Schema) (a b : SetOn) : Prop := ∀ x y, Joined s (fun _ _ => True) a b x y → MergePair s x y

/-! ### Sets and their parts -/

section Parts

variable {s : Schema} {ty fty root : Name} {sel : Selections} {a b : SetOn} {f : SelectedField}

theorem Field.Merges.symm {f g : Field} (h : f.Merges g) : g.Merges f := by
  intro hkey
  obtain ⟨hname, harguments⟩ := h hkey.symm
  exact ⟨hname.symm, harguments.symm⟩

theorem Field.Merges.refl (f : Field) : f.Merges f := fun _ => ⟨rfl, rfl⟩

/-- A field of a set has a set below it. -/
theorem Selections.mem_fields {f : Field} : f ∈ sel.fields ↔ ∃ g ∈ sel.selected, g.field = f := by
  rw [← map_field_selected, List.mem_map]

theorem SetOn.mem_fields {f : Field} : f ∈ a.fields ↔ ∃ g ∈ a.selected, g.field = f := Selections.mem_fields

@[simp] theorem Selections.fragmentParts_append (a b : Selections) :
    (a.append b).fragmentParts = a.fragmentParts ++ b.fragmentParts := by
  induction a with
  | nil => rfl
  | field f ty sub rest _ ih => simp [append, fragmentParts, ih]
  | inlineFragment d ty sub rest _ ih => simp [append, fragmentParts, ih]
  | fragmentSpread n d rest ih => simp [append, fragmentParts, ih]

@[simp] theorem Selections.fragmentParts_ofFields (l : List SelectedField) : (ofFields l).fragmentParts = [] := by
  induction l with
  | nil => rfl
  | cons f l ih => simp [ofFields, fragmentParts, ih]

theorem Schema.Meet.refl (s : Schema) (ty : Name) : s.Meet ty ty := .inl rfl

theorem Schema.Meet.symm {s : Schema} {ty ty' : Name} (h : s.Meet ty ty') : s.Meet ty' ty := by
  rcases h with h | h | h
  · exact .inl h.symm
  · exact .inr (.inr h)
  · exact .inr (.inl h)

/-- Sets that merge lead to sets that do. -/
theorem FieldsCanMerge.below {p q : SetOn} {f g : SelectedField} (h : FieldsCanMerge s a b)
    (hp : p ∈ a.parts) (hq : q ∈ b.parts) (hmeet : s.Meet p.ty q.ty) (hf : f ∈ p.selected) (hg : g ∈ q.selected)
    (hkey : f.field.responseKey = g.field.responseKey) : FieldsCanMerge s f.set g.set :=
  fun x y hjoined => h x y (.down hp hq hmeet hf hg trivial trivial hkey hjoined)

/-- With a set that is empty any other merges. -/
theorem fieldsCanMerge_of_nil (h : a.selections = .nil ∨ b.selections = .nil) : FieldsCanMerge s a b := by
  have hparts {c p : SetOn} (hc : c.selections = .nil) (hp : p ∈ c.parts) : p.selections = .nil := by
    rw [SetOn.parts, hc] at hp
    obtain rfl := List.mem_singleton.1 hp
    exact hc
  intro x y hjoined
  cases hjoined with
  | here =>
    intro p hp q hq _ f hf g hg
    rcases h with h | h
    · rw [SetOn.fields, hparts h hp] at hf
      cases hf
    · rw [SetOn.fields, hparts h hq] at hg
      cases hg
  | down hp hq _ hf hg =>
    rcases h with h | h
    · rw [SetOn.selected, hparts h hp] at hf
      cases hf
    · rw [SetOn.selected, hparts h hq] at hg
      cases hg

/-! #### Smaller sets -/

/-- The parts of the first set are among those of the second, or shorter. -/
def SetOn.Within (a b : SetOn) : Prop := ∀ p ∈ a.parts, ∃ q ∈ b.parts, q.ty = p.ty ∧ p.selected ⊆ q.selected

theorem SetOn.within_field {f : Field} {sub rest : Selections} : Within ⟨ty, rest⟩ ⟨ty, .field f fty sub rest⟩ := by
  intro p hp
  rcases List.mem_cons.1 hp with rfl | hp
  · exact ⟨_, List.mem_cons_self, rfl, List.subset_cons_self _ _⟩
  · exact ⟨p, List.mem_cons_of_mem _ hp, rfl, List.Subset.refl _⟩

theorem SetOn.within_inlineFragment {d : List String} {cond : Name} {sub rest : Selections} :
    Within ⟨cond, sub⟩ ⟨ty, .inlineFragment d cond sub rest⟩ ∧
      Within ⟨ty, rest⟩ ⟨ty, .inlineFragment d cond sub rest⟩ := by
  refine ⟨fun p hp => ?_, fun p hp => ?_⟩
  · refine ⟨p, List.mem_cons_of_mem _ ?_, rfl, List.Subset.refl _⟩
    rcases List.mem_cons.1 hp with rfl | hp
    · exact List.mem_cons_self
    · exact List.mem_cons_of_mem _ (List.mem_append_left _ hp)
  · rcases List.mem_cons.1 hp with rfl | hp
    · exact ⟨_, List.mem_cons_self, rfl, List.Subset.refl _⟩
    · exact ⟨p, List.mem_cons_of_mem _ (List.mem_cons_of_mem _ (List.mem_append_right _ hp)), rfl, List.Subset.refl _⟩

theorem SetOn.within_fragmentSpread {n : Name} {d : List String} {rest : Selections} :
    Within ⟨ty, rest⟩ ⟨ty, .fragmentSpread n d rest⟩ := by
  intro p hp
  rcases List.mem_cons.1 hp with rfl | hp
  · exact ⟨_, List.mem_cons_self, rfl, List.Subset.refl _⟩
  · exact ⟨p, List.mem_cons_of_mem _ hp, rfl, List.Subset.refl _⟩

/-- What is within a set that merges merges. -/
theorem FieldsCanMerge.within (h : FieldsCanMerge s b b) (hab : a.Within b) : FieldsCanMerge s a a := by
  intro x y hjoined
  cases hjoined with
  | here =>
    intro p hp q hq hmeet f hf g hg
    obtain ⟨p', hp', hty, hsub⟩ := hab p hp
    obtain ⟨q', hq', hty', hsub'⟩ := hab q hq
    obtain ⟨f', hf', rfl⟩ := SetOn.mem_fields.1 hf
    obtain ⟨g', hg', rfl⟩ := SetOn.mem_fields.1 hg
    rw [← hty, ← hty'] at hmeet
    exact h _ _ .here p' hp' q' hq' hmeet _ (SetOn.mem_fields.2 ⟨f', hsub hf', rfl⟩) _
      (SetOn.mem_fields.2 ⟨g', hsub' hg', rfl⟩)
  | @down _ _ p q _ _ f g hp hq hmeet hf hg _ _ hkey hjoined =>
    obtain ⟨p', hp', hty, hsub⟩ := hab p hp
    obtain ⟨q', hq', hty', hsub'⟩ := hab q hq
    rw [← hty, ← hty'] at hmeet
    exact h.below hp' hq' hmeet (hsub hf) (hsub' hg) hkey x y hjoined

/-! #### Selections on a type -/

/-- The fields a set selects on a type, in its inline fragments too. -/
def Selections.on (root : Name) : Name → Selections → List SelectedField
  | _, .nil => []
  | ty, .field f fty sub rest => if ty = root then ⟨f, fty, sub⟩ :: rest.on root ty else rest.on root ty
  | ty, .inlineFragment _ cond sub rest => sub.on root cond ++ rest.on root ty
  | ty, .fragmentSpread _ _ rest => rest.on root ty

/-- What is selected in a set spreads no more than the set. -/
theorem Selections.spreads_on (hf : f ∈ sel.on root ty) : f.selections.spreads ⊆ sel.spreads := by
  induction sel generalizing ty with
  | nil => cases hf
  | field g gty sub rest _ ih =>
    have hcases : f = ⟨g, gty, sub⟩ ∨ f ∈ rest.on root ty := by
      unfold Selections.on at hf
      split_ifs at hf
      · exact List.mem_cons.1 hf
      · exact .inr hf
    rcases hcases with rfl | hf
    · exact List.subset_append_left _ _
    · exact fun n hn => List.mem_append_right _ (ih hf hn)
  | inlineFragment d cond sub rest ihsub ihrest =>
    rcases List.mem_append.1 hf with hf | hf
    · exact fun n hn => List.mem_append_left _ (ihsub hf hn)
    · exact fun n hn => List.mem_append_right _ (ihrest hf hn)
  | fragmentSpread n d rest ih => exact fun m hm => List.mem_cons_of_mem _ (ih hf hm)

/-- It is selected in a part of the set that is on the type. -/
theorem Selections.exists_part_of_on (hf : f ∈ sel.on root ty) :
    ∃ p ∈ SetOn.parts ⟨ty, sel⟩, p.ty = root ∧ f ∈ p.selected := by
  have hpart {a b : SetOn} (hab : a.Within b) (h : ∃ p ∈ a.parts, p.ty = root ∧ f ∈ p.selected) :
      ∃ p ∈ b.parts, p.ty = root ∧ f ∈ p.selected := by
    obtain ⟨p, hp, hty, hf⟩ := h
    obtain ⟨q, hq, hty', hsub⟩ := hab p hp
    exact ⟨q, hq, hty'.trans hty, hsub hf⟩
  induction sel generalizing ty with
  | nil => cases hf
  | field g gty sub rest _ ih =>
    unfold Selections.on at hf
    split_ifs at hf with hty
    · rcases List.mem_cons.1 hf with rfl | hf
      · exact ⟨_, List.mem_cons_self, hty, List.mem_cons_self⟩
      · exact hpart SetOn.within_field (ih hf)
    · exact hpart SetOn.within_field (ih hf)
  | inlineFragment d cond sub rest ihsub ihrest =>
    rcases List.mem_append.1 hf with hf | hf
    · exact hpart SetOn.within_inlineFragment.1 (ihsub hf)
    · exact hpart SetOn.within_inlineFragment.2 (ihrest hf)
  | fragmentSpread n d rest ih => exact hpart SetOn.within_fragmentSpread (ih hf)

/-! #### Plain sets -/

/-- A set without fragments, of one selection for each response key. -/
structure Selections.Plain (sel : Selections) : Prop where
  parts : sel.fragmentParts = []
  keys : (sel.fields.map Field.responseKey).Nodup

theorem Selections.plain_nil : Selections.nil.Plain := ⟨rfl, List.nodup_nil⟩

/-- What holds of the sets below a set holds of those below its fields. -/
theorem Selections.EverySub.selected {P : Name → Selections → Prop} (h : sel.EverySub P)
    (hf : f ∈ sel.selected) : P f.ty f.selections ∧ f.selections.EverySub P := by
  induction sel with
  | nil => cases hf
  | field g gty sub rest _ ih =>
    obtain ⟨hset, hsub, hrest⟩ := h
    rcases List.mem_cons.1 hf with rfl | hf
    · exact ⟨hset, hsub⟩
    · exact ih hrest hf
  | inlineFragment d cond sub rest _ ih => exact ih h.2.2 hf
  | fragmentSpread n d rest ih => exact ih h hf

/-- Plain sets lead from a set twice to sets below it, each twice. -/
theorem Joined.of_plain {P : Name → Selections → Prop} (hplain : ∀ ty sel, P ty sel → sel.Plain)
    {stays : Name → Name → Prop} {x y : SetOn} (h : Joined s stays a b x y) (hab : a = b)
    (hset : P a.ty a.selections) (hbelow : a.selections.EverySub P) : x = y ∧ P x.ty x.selections := by
  induction h with
  | here => exact ⟨hab, hset⟩
  | @down a b p q x y f g hp hq _ hf hg _ _ hkey _ ih =>
    subst hab
    obtain ⟨hparts, hkeys⟩ := hplain _ _ hset
    rw [SetOn.parts, hparts] at hp hq
    obtain rfl := List.mem_singleton.1 hp
    obtain rfl := List.mem_singleton.1 hq
    rw [← Selections.map_field_selected, List.map_map] at hkeys
    obtain rfl := List.inj_on_of_nodup_map hkeys hf hg hkey
    obtain ⟨hset, hbelow⟩ := hbelow.selected hf
    exact ih rfl hset hbelow

theorem fieldsCanMerge_of_plain (hset : a.selections.Plain) (hbelow : a.selections.EverySub fun _ sel => sel.Plain) :
    FieldsCanMerge s a a := by
  intro x y hjoined
  obtain ⟨rfl, hparts, hkeys⟩ := hjoined.of_plain (P := fun _ sel => sel.Plain) (fun _ _ h => h) rfl hset hbelow
  intro p hp q hq _ f hf g hg hkey
  rw [SetOn.parts, hparts] at hp hq
  obtain rfl := List.mem_singleton.1 hp
  obtain rfl := List.mem_singleton.1 hq
  obtain rfl := List.inj_on_of_nodup_map hkeys hf hg hkey
  exact ⟨rfl, rfl⟩

end Parts

end G2way.GraphQl
