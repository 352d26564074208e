import G2way.Lib.Sdl

/-!
# Type system documents are read back

The parser of `Sdl` is a right inverse of writing a document as tokens: each
production of the grammar is read back, given that nothing stands behind it that
would continue it (`Avoids`, `Stops`, `Follows`).

## What is proved

`document_tokens`: the tokens of a document are read as that document, provided
only what the grammar asks of it beyond its shape (`Described.WellFormed`).
-/

namespace G2way.Lib.GraphQl.Sdl

open G2way.Lib.GraphQl

/-! ### Lists are read back -/

section Lists

variable {α : Type}

/-- That punctuator does not come next. -/
def Avoids (c : Char) (ts : List Token) : Prop := ts.head? ≠ some (.punctuator c)

theorem expect_self (c : Char) (ts : List Token) : expect c (.punctuator c :: ts) = some ts := by
  rw [expect, if_pos rfl]

theorem avoids_cons {c d : Char} (h : c ≠ d) (ts : List Token) : Avoids c (.punctuator d :: ts) := by
  intro heq
  exact h (Token.punctuator.inj (Option.some.inj heq)).symm

theorem Avoids.expect {c : Char} {ts : List Token} (h : Avoids c ts) : expect c ts = none := by
  cases ts with
  | nil => rfl
  | cons t ts =>
    have hne : t ≠ .punctuator c := fun heq => h (by rw [heq]; rfl)
    rw [Sdl.expect, if_neg hne]

/-- Behind tokens that do not begin with it a token does not come next. -/
theorem head?_append_ne {t : Token} {l ts : List Token} (hl : ∀ u ∈ l.head?, u ≠ t) (h : ts.head? ≠ some t) :
    (l ++ ts).head? ≠ some t := by
  cases l with
  | nil => exact h
  | cons u l =>
    intro heq
    exact hl u rfl (Option.some.inj heq)

theorem optional_self {c : Char} {p : Parser α} {a : α} {ts rest : List Token} (h : p ts = some (a, rest)) :
    optional c p (.punctuator c :: ts) = some (some a, rest) := by
  rw [optional, expect_self]
  simp only [h, Option.map_some]

theorem optional_avoids {c : Char} {p : Parser α} {ts : List Token} (h : Avoids c ts) :
    optional c p ts = some (none, ts) := by
  rw [optional, h.expect]

variable {p : Parser α} {tok : α → List Token} {l : List α} {F : List Token → Prop}

/-- Items are read back one by one; `F` is what an item needs of what stands behind it. -/
theorem manyTill_tokens {stop : List Token → Option (List Token)} {after rest : List Token} {fuel : ℕ}
    (hitem : ∀ a ∈ l, ∀ ts, F ts → p (tok a ++ ts) = some (a, ts)) (hgo : ∀ a ∈ l, ∀ ts, stop (tok a ++ ts) = none)
    (hF : ∀ a ∈ l, ∀ ts, F (tok a ++ ts)) (hafter : F after) (hstop : stop after = some rest)
    (hfuel : l.length < fuel) : manyTill stop p fuel (l.flatMap tok ++ after) = some (l, rest) := by
  induction l generalizing fuel with
  | nil =>
    obtain ⟨fuel, rfl⟩ := Nat.exists_eq_add_one_of_ne_zero (Nat.ne_of_gt (Nat.zero_lt_of_lt hfuel))
    rw [List.flatMap_nil, List.nil_append, manyTill, hstop]
  | cons a l ih =>
    obtain ⟨fuel, rfl⟩ := Nat.exists_eq_add_one_of_ne_zero (Nat.ne_of_gt (Nat.zero_lt_of_lt hfuel))
    have hrest : F (l.flatMap tok ++ after) := by
      cases l with
      | nil => exact hafter
      | cons b l =>
        rw [List.flatMap_cons, List.append_assoc]
        exact hF b (by simp) _
    have htail := ih (fun b hb => hitem b (List.mem_cons_of_mem _ hb)) (fun b hb => hgo b (List.mem_cons_of_mem _ hb))
      (fun b hb => hF b (List.mem_cons_of_mem _ hb)) (Nat.lt_of_succ_lt_succ hfuel)
    rw [List.flatMap_cons, List.append_assoc, manyTill, hgo a (List.mem_cons_self ..)]
    simp only [hitem a (List.mem_cons_self ..) _ hrest, htail, bind, pure, Option.bind_some]

theorem length_le_flatMap (hne : ∀ a ∈ l, tok a ≠ []) : l.length ≤ (l.flatMap tok).length := by
  induction l with
  | nil => exact Nat.le_refl _
  | cons a l ih =>
    have hpos := List.length_pos_iff.2 (hne a (List.mem_cons_self ..))
    have hle := ih fun b hb => hne b (List.mem_cons_of_mem _ hb)
    rw [List.flatMap_cons, List.length_append, List.length_cons]
    omega

theorem many_tokens {stop : List Token → Option (List Token)} {after rest : List Token}
    (hitem : ∀ a ∈ l, ∀ ts, F ts → p (tok a ++ ts) = some (a, ts)) (hgo : ∀ a ∈ l, ∀ ts, stop (tok a ++ ts) = none)
    (hne : ∀ a ∈ l, tok a ≠ []) (hF : ∀ a ∈ l, ∀ ts, F (tok a ++ ts)) (hafter : F after)
    (hstop : stop after = some rest) : many stop p (l.flatMap tok ++ after) = some (l, rest) := by
  refine manyTill_tokens hitem hgo hF hafter hstop ?_
  have hle := length_le_flatMap hne
  rw [List.length_append]
  omega

/-- Items to a closing punctuator. -/
theorem many_expect_tokens {closing : Char} (hitem : ∀ a ∈ l, ∀ ts, F ts → p (tok a ++ ts) = some (a, ts))
    (hfirst : ∀ a ∈ l, ∃ t ts, tok a = t :: ts ∧ t ≠ .punctuator closing) (hF : ∀ a ∈ l, ∀ ts, F (tok a ++ ts))
    (hclose : ∀ ts, F (.punctuator closing :: ts)) (ts : List Token) :
    many (expect closing) p (l.flatMap tok ++ .punctuator closing :: ts) = some (l, ts) := by
  refine many_tokens hitem ?_ ?_ hF (hclose ts) (expect_self closing ts)
  · intro a ha ts
    obtain ⟨t, ts', htok, hne⟩ := hfirst a ha
    rw [htok, List.cons_append, expect, if_neg hne]
  · intro a ha
    obtain ⟨t, ts', htok, -⟩ := hfirst a ha
    rw [htok]
    exact List.cons_ne_nil _ _

/-- A list in brackets. -/
theorem bracketed_tokens {opening closing : Char} (hitem : ∀ a ∈ l, ∀ ts, F ts → p (tok a ++ ts) = some (a, ts))
    (hfirst : ∀ a ∈ l, ∃ t ts, tok a = t :: ts ∧ t ≠ .punctuator closing) (hF : ∀ a ∈ l, ∀ ts, F (tok a ++ ts))
    (hclose : ∀ ts, F (.punctuator closing :: ts)) {ts : List Token} (hts : Avoids opening ts) :
    optionalList opening (items closing p) (bracketed tok opening closing l ++ ts) = some (l, ts) := by
  cases l with
  | nil =>
    rw [optionalList, bracketed, List.isEmpty_nil, if_pos rfl, List.nil_append, optional_avoids hts]
    rfl
  | cons a l =>
    have hmany := many_expect_tokens hitem hfirst hF hclose ts
    have hitems : items closing p ((a :: l).flatMap tok ++ .punctuator closing :: ts) = some (a :: l, ts) := by
      rw [items, hmany]
      rfl
    rw [optionalList, bracketed, List.isEmpty_cons, if_neg Bool.false_ne_true, List.cons_append, List.append_assoc,
      List.singleton_append, optional_self hitems]
    rfl

/-- A list with separators. -/
theorem separated_tokens {sep : Char} (hl : l ≠ []) (hitem : ∀ a ∈ l, ∀ ts, p (tok a ++ ts) = some (a, ts))
    (hfirst : ∀ a ∈ l, ∃ t ts, tok a = t :: ts ∧ t ≠ .punctuator sep) {ts : List Token} (hts : Avoids sep ts) :
    separated sep p (separatedTokens tok sep l ++ ts) = some (l, ts) := by
  cases l with
  | nil => exact absurd rfl hl
  | cons a l =>
    have hlead : expect sep (tok a ++ (l.flatMap (fun b => .punctuator sep :: tok b) ++ ts)) = none := by
      obtain ⟨t, ts', htok, hne⟩ := hfirst a (List.mem_cons_self ..)
      rw [htok, List.cons_append, expect, if_neg hne]
    have hmany : many (fun ts => if (expect sep ts).isSome then none else some ts) (fun ts => (expect sep ts).bind p)
        (l.flatMap (fun b => .punctuator sep :: tok b) ++ ts) = some (l, ts) := by
      refine many_tokens (F := fun _ => True) ?_ ?_ ?_ (fun _ _ _ => trivial) trivial ?_
      · intro b hb ts _
        rw [List.cons_append, expect_self]
        exact hitem b (List.mem_cons_of_mem _ hb) ts
      · intro b _ ts
        rw [List.cons_append, expect_self]
        rfl
      · intro b _
        exact List.cons_ne_nil _ _
      · rw [hts.expect]
        rfl
    rw [separatedTokens, List.append_assoc, separated, hlead]
    simp only [Option.getD_none, hitem a (List.mem_cons_self ..), hmany, bind, pure, Option.bind_some]

end Lists

/-! ### Values and types are read back -/

theorem itemTokens_eq (items : List Value) : itemTokens items = items.flatMap Value.tokens := by
  induction items with
  | nil => rfl
  | cons v vs ih => rw [itemTokens, ih, List.flatMap_cons]

theorem fieldTokens_eq (fields : List (Name × Value)) :
    fieldTokens fields = fields.flatMap (entryTokens Value.tokens) := by
  induction fields with
  | nil => rfl
  | cons f fs ih => rw [fieldTokens, ih, List.flatMap_cons, entryTokens, List.cons_append, List.cons_append]

theorem entry_tokens {α : Type} {p : Parser α} {tok : α → List Token} {e : Name × α} {ts : List Token}
    (h : p (tok e.2 ++ ts) = some (e.2, ts)) : entry p (entryTokens tok e ++ ts) = some (e, ts) := by
  simp only [entry, entryTokens, List.cons_append, name, expect_self, h, bind, pure, Option.bind_some]

theorem length_le_of_mem_flatMap {α : Type} {tok : α → List Token} {l : List α} {a : α} (ha : a ∈ l) :
    (tok a).length ≤ (l.flatMap tok).length := by
  obtain ⟨l₁, l₂, rfl⟩ := List.append_of_mem ha
  rw [List.flatMap_append, List.flatMap_cons, List.length_append, List.length_append]
  omega

/-- A value does not begin with a closing bracket. -/
theorem Value.tokens_first (v : Value) {c : Char} (h : c = ']' ∨ c = ')' ∨ c = '}') :
    ∃ t ts, v.tokens = t :: ts ∧ t ≠ .punctuator c := by
  cases v with
  | word n => exact ⟨_, _, by rw [tokens], by simp⟩
  | number text => exact ⟨_, _, by rw [tokens], by simp⟩
  | string s =>
    cases s with
    | quoted value => exact ⟨_, _, by rw [tokens], by simp [StringValue.token]⟩
    | block raw => exact ⟨_, _, by rw [tokens], by simp [StringValue.token]⟩
  | list items =>
    refine ⟨_, _, by rw [tokens], ?_⟩
    rcases h with rfl | rfl | rfl <;> simp
  | object fields =>
    refine ⟨_, _, by rw [tokens], ?_⟩
    rcases h with rfl | rfl | rfl <;> simp

theorem valueOf_tokens {fuel : ℕ} {v : Value} (h : v.tokens.length ≤ fuel) (ts : List Token) :
    valueOf fuel (v.tokens ++ ts) = some (v, ts) := by
  -- every part of a value has fewer tokens than the value
  induction fuel generalizing v ts with
  | zero =>
    obtain ⟨t, ts', htok, -⟩ := v.tokens_first (c := ']') (.inl rfl)
    rw [htok] at h
    cases h
  | succ fuel ih =>
    cases v with
    | word n => rfl
    | number text => rfl
    | string s => cases s <;> rfl
    | list items =>
      rw [Value.tokens, itemTokens_eq] at h ⊢
      have hitem : ∀ v ∈ items, ∀ ts, True → valueOf fuel (v.tokens ++ ts) = some (v, ts) := by
        intro v hv ts _
        have hle : v.tokens.length ≤ (items.flatMap Value.tokens).length := length_le_of_mem_flatMap hv
        simp only [List.length_cons, List.length_append, List.length_nil] at h
        exact ih (by omega) ts
      have hmany := many_expect_tokens hitem (fun v _ => v.tokens_first (.inl rfl)) (fun _ _ _ => trivial)
        (fun _ => trivial) ts
      rw [List.cons_append, List.append_assoc, List.singleton_append, valueOf, if_pos rfl, hmany]
      rfl
    | object fields =>
      rw [Value.tokens, fieldTokens_eq] at h ⊢
      have hitem : ∀ f ∈ fields, ∀ ts, True → entry (valueOf fuel) (entryTokens Value.tokens f ++ ts) = some (f, ts) := by
        intro f hf ts _
        have hle : (entryTokens Value.tokens f).length ≤ (fields.flatMap (entryTokens Value.tokens)).length :=
          length_le_of_mem_flatMap hf
        simp only [entryTokens, List.length_cons, List.length_append, List.length_nil] at h hle
        exact entry_tokens (ih (by omega) ts)
      have hfirst : ∀ f ∈ fields, ∃ t ts, entryTokens Value.tokens f = t :: ts ∧ t ≠ .punctuator '}' :=
        fun f _ => ⟨.name f.1, _, rfl, by simp⟩
      have hmany := many_expect_tokens hitem hfirst (fun _ _ _ => trivial) (fun _ => trivial) ts
      rw [List.cons_append, List.append_assoc, List.singleton_append, valueOf, if_neg (by decide), if_pos rfl, hmany]
      rfl

theorem value_tokens (v : Value) (ts : List Token) : value (v.tokens ++ ts) = some (v, ts) := by
  refine valueOf_tokens ?_ ts
  rw [List.length_append]
  omega

theorem bang_tokens (b : Bool) {ts : List Token} (h : Avoids '!' ts) : bang (bangTokens b ++ ts) = (b, ts) := by
  cases b with
  | true =>
    rw [bangTokens, if_pos rfl, List.singleton_append, bang, expect_self]
  | false =>
    rw [bangTokens, if_neg Bool.false_ne_true, List.nil_append, bang, h.expect]

theorem typeOf_tokens (t : TypeRef) {fuel : ℕ} (hfuel : t.tokens.length ≤ fuel) {ts : List Token}
    (h : Avoids '!' ts) : typeOf fuel (t.tokens ++ ts) = some (t, ts) := by
  induction t generalizing fuel ts with
  | named n b =>
    obtain ⟨fuel, rfl⟩ := Nat.exists_eq_add_one_of_ne_zero (Nat.ne_of_gt (Nat.lt_of_lt_of_le Nat.zero_lt_one
      (Nat.le_trans (by simp [TypeRef.tokens]) hfuel)))
    simp only [TypeRef.tokens, List.cons_append, typeOf, bang_tokens b h]
  | list item b ih =>
    obtain ⟨fuel, rfl⟩ := Nat.exists_eq_add_one_of_ne_zero (Nat.ne_of_gt (Nat.lt_of_lt_of_le Nat.zero_lt_one
      (Nat.le_trans (by simp [TypeRef.tokens]) hfuel)))
    have hle : item.tokens.length ≤ fuel := by
      simp only [TypeRef.tokens, List.length_cons, List.length_append] at hfuel
      omega
    have hclose : Avoids '!' (.punctuator ']' :: (bangTokens b ++ ts)) := avoids_cons (by decide) _
    have hitem := ih hle hclose
    simp only [TypeRef.tokens, List.cons_append, List.append_assoc, typeOf, hitem, expect_self, bang_tokens b h, bind,
      pure, Option.bind_some]

theorem type_tokens (t : TypeRef) {ts : List Token} (h : Avoids '!' ts) : type (t.tokens ++ ts) = some (t, ts) := by
  refine typeOf_tokens t ?_ h
  rw [List.length_append]
  omega

/-! ### Definitions are read back -/

theorem description_tokens (d : Option StringValue) (n : Name) (ts : List Token) :
    description (descriptionTokens d ++ .name n :: ts) = (d, .name n :: ts) := by
  cases d with
  | none => rfl
  | some d => cases d <;> rfl

theorem directive_tokens (d : Directive) {ts : List Token} (h : Avoids '(' ts) :
    directive (d.tokens ++ ts) = some (d, ts) := by
  have hitem : ∀ e ∈ d.arguments, ∀ ts, True → entry value (entryTokens Value.tokens e ++ ts) = some (e, ts) :=
    fun e _ ts _ => entry_tokens (value_tokens e.2 ts)
  have hfirst : ∀ e ∈ d.arguments, ∃ t ts, entryTokens Value.tokens e = t :: ts ∧ t ≠ .punctuator ')' :=
    fun e _ => ⟨.name e.1, _, rfl, by simp⟩
  have harguments := bracketed_tokens hitem hfirst (fun _ _ _ => trivial) (fun _ => trivial) h
  simp only [directive, Directive.tokens, List.cons_append, expect_self, name, harguments, bind, pure, Option.bind_some]

theorem directives_tokens (ds : List Directive) {ts : List Token} (ha : Avoids '@' ts) (hp : Avoids '(' ts) :
    directives (ds.flatMap Directive.tokens ++ ts) = some (ds, ts) := by
  refine many_tokens (fun d _ ts hts => directive_tokens d hts) ?_ ?_ ?_ hp ?_
  · intro d _ ts
    rw [Directive.tokens, List.cons_append, expect_self]
    rfl
  · intro d _
    exact List.cons_ne_nil _ _
  · intro d _ ts
    simp [Avoids, Directive.tokens]
  · rw [ha.expect]
    rfl

/-- What may stand behind an item: the end, a word, a string, or a closing bracket. -/
def Stops (ts : List Token) : Prop := ∀ c, ts.head? = some (.punctuator c) → c = ')' ∨ c = '}'

theorem Stops.avoids {ts : List Token} (h : Stops ts) {c : Char} (hp : c ≠ ')') (hb : c ≠ '}') : Avoids c ts := by
  intro hc
  rcases h c hc with rfl | rfl
  · exact hp rfl
  · exact hb rfl

theorem stops_of_not_punctuator {t : Token} {ts : List Token} (h : ∀ c, t ≠ .punctuator c) : Stops (t :: ts) := by
  intro c hc
  exact absurd (Option.some.inj hc) (h c)

/-- Directives begin with their sign. -/
theorem Avoids.directives {c : Char} (hc : c ≠ '@') (ds : List Directive) {ts : List Token} (h : Avoids c ts) :
    Avoids c (ds.flatMap Directive.tokens ++ ts) := by
  refine head?_append_ne ?_ h
  intro t ht
  cases ds with
  | nil => cases ht
  | cons d ds =>
    have hfirst : t = .punctuator '@' := by
      rw [List.flatMap_cons, Directive.tokens] at ht
      exact (Option.some.inj ht).symm
    rw [hfirst]
    simpa using Ne.symm hc

/-- A default begins with its sign. -/
theorem Avoids.default {c : Char} (hc : c ≠ '=') (v : Option Value) {ts : List Token} (h : Avoids c ts) :
    Avoids c (defaultTokens v ++ ts) := by
  refine head?_append_ne ?_ h
  intro t ht
  cases v with
  | none => cases ht
  | some v =>
    have hfirst : t = .punctuator '=' := (Option.some.inj ht).symm
    rw [hfirst]
    simpa using Ne.symm hc

/-- A list in brackets begins with a bracket. -/
theorem Avoids.bracketed {α : Type} {c opening closing : Char} (hc : c ≠ opening) (tok : α → List Token) (l : List α)
    {ts : List Token} (h : Avoids c ts) : Avoids c (bracketed tok opening closing l ++ ts) := by
  refine head?_append_ne ?_ h
  intro t ht
  cases l with
  | nil => cases ht
  | cons a l =>
    have hfirst : t = .punctuator opening := (Option.some.inj ht).symm
    rw [hfirst]
    simpa using Ne.symm hc

theorem default_tokens (v : Option Value) {ts : List Token} (h : Avoids '=' ts) :
    optional '=' value (defaultTokens v ++ ts) = some (v, ts) := by
  cases v with
  | none => exact optional_avoids h
  | some v => exact optional_self (value_tokens v ts)

theorem inputValue_tokens (v : InputValue) {ts : List Token} (h : Stops ts) :
    inputValue (v.tokens ++ ts) = some (v, ts) := by
  have hdirectives := directives_tokens v.directives (h.avoids (by decide) (by decide))
    (h.avoids (by decide) (by decide))
  have hdefault := default_tokens v.default
    ((h.avoids (c := '=') (by decide) (by decide)).directives (by decide) v.directives)
  have htype := type_tokens v.type
    (((h.avoids (c := '!') (by decide) (by decide)).directives (by decide) v.directives).default (by decide) v.default)
  have hentry := entry_tokens (e := (v.name, v.type)) htype
  have hdescription := description_tokens v.description v.name
    (.punctuator ':' :: (v.type.tokens ++ (defaultTokens v.default ++ (v.directives.flatMap Directive.tokens ++ ts))))
  simp only [entryTokens, List.cons_append] at hentry
  simp only [inputValue, InputValue.tokens, entryTokens, List.append_assoc, List.cons_append, hdescription, hentry,
    hdefault, hdirectives, bind, pure, Option.bind_some]

/-- With a description or without, an item begins with no punctuator. -/
theorem first_of_described (d : Option StringValue) (n : Name) (ts : List Token) :
    ∃ t ts', descriptionTokens d ++ .name n :: ts = t :: ts' ∧ ∀ c, t ≠ .punctuator c := by
  cases d with
  | none => exact ⟨_, _, rfl, by simp⟩
  | some d => cases d <;> exact ⟨_, _, rfl, by simp [StringValue.token]⟩

theorem InputValue.tokens_first (v : InputValue) : ∃ t ts, v.tokens = t :: ts ∧ ∀ c, t ≠ .punctuator c := by
  rw [tokens, entryTokens, List.append_assoc, List.append_assoc, List.cons_append]
  exact first_of_described _ _ _

theorem Field.tokens_first (f : Field) : ∃ t ts, f.tokens = t :: ts ∧ ∀ c, t ≠ .punctuator c :=
  first_of_described _ _ _

theorem EnumValue.tokens_first (v : EnumValue) : ∃ t ts, v.tokens = t :: ts ∧ ∀ c, t ≠ .punctuator c :=
  first_of_described _ _ _

/-- A list in brackets of items that begin with no punctuator. -/
theorem bracketed_items {α : Type} {p : Parser α} {tok : α → List Token} {l : List α} {opening closing : Char}
    (hitem : ∀ a ∈ l, ∀ ts, Stops ts → p (tok a ++ ts) = some (a, ts))
    (hfirst : ∀ a, ∃ t ts, tok a = t :: ts ∧ ∀ c, t ≠ .punctuator c) (hclose : closing = ')' ∨ closing = '}')
    {ts : List Token} (hts : Avoids opening ts) :
    optionalList opening (items closing p) (bracketed tok opening closing l ++ ts) = some (l, ts) := by
  refine bracketed_tokens hitem ?_ ?_ ?_ hts
  · intro a _
    obtain ⟨t, ts, htok, ht⟩ := hfirst a
    exact ⟨t, ts, htok, ht closing⟩
  · intro a _ ts
    obtain ⟨t, ts', htok, ht⟩ := hfirst a
    rw [htok]
    exact stops_of_not_punctuator ht
  · intro ts c hc
    cases hc
    exact hclose

theorem argumentsDefinition_tokens (arguments : List InputValue) {ts : List Token} (h : Avoids '(' ts) :
    argumentsDefinition (bracketed InputValue.tokens '(' ')' arguments ++ ts) = some (arguments, ts) :=
  bracketed_items (fun v _ _ hts => inputValue_tokens v hts) InputValue.tokens_first (.inl rfl) h

theorem fieldDefinition_tokens (f : Field) {ts : List Token} (h : Stops ts) :
    fieldDefinition (f.tokens ++ ts) = some (f, ts) := by
  have hdirectives := directives_tokens f.directives (h.avoids (by decide) (by decide))
    (h.avoids (by decide) (by decide))
  have htype := type_tokens f.type
    ((h.avoids (c := '!') (by decide) (by decide)).directives (by decide) f.directives)
  have hcolon : Avoids '(' (.punctuator ':' :: (f.type.tokens ++ (f.directives.flatMap Directive.tokens ++ ts))) :=
    avoids_cons (by decide) _
  have harguments := argumentsDefinition_tokens f.arguments hcolon
  have hdescription := description_tokens f.description f.name (bracketed InputValue.tokens '(' ')' f.arguments ++
    .punctuator ':' :: (f.type.tokens ++ (f.directives.flatMap Directive.tokens ++ ts)))
  simp only [fieldDefinition, Field.tokens, List.append_assoc, List.cons_append, hdescription, name, harguments,
    expect_self, htype, hdirectives, bind, pure, Option.bind_some]

theorem enumValueDefinition_tokens (v : EnumValue) (hv : v.name ∉ reserved) {ts : List Token} (h : Stops ts) :
    enumValueDefinition (v.tokens ++ ts) = some (v, ts) := by
  have hdirectives := directives_tokens v.directives (h.avoids (by decide) (by decide))
    (h.avoids (by decide) (by decide))
  have hdescription := description_tokens v.description v.name (v.directives.flatMap Directive.tokens ++ ts)
  simp only [enumValueDefinition, EnumValue.tokens, List.append_assoc, List.cons_append, hdescription, name,
    hdirectives, if_neg hv, bind, Option.bind_some]

/-- What may stand behind a definition. -/
structure Follows (ts : List Token) : Prop where
  stops : Stops ts
  notImplements : ts.head? ≠ some (.name (word "implements"))

theorem follows_nil : Follows [] where
  stops := fun _ hc => by cases hc
  notImplements := by simp

theorem name_tokens (n : Name) (ts : List Token) : name ([.name n] ++ ts) = some (n, ts) := rfl

theorem implements_tokens (interfaces : List Name) {ts : List Token} (h : Avoids '&' ts)
    (hw : ts.head? ≠ some (.name (word "implements"))) :
    implements (implementsTokens interfaces ++ ts) = some (interfaces, ts) := by
  cases interfaces with
  | nil =>
    rw [implementsTokens, List.isEmpty_nil, if_pos rfl, List.nil_append]
    unfold implements
    split
    · rename_i n ts
      have hne : n ≠ word "implements" := fun heq => hw (by rw [heq]; rfl)
      rw [if_neg hne]
    · rfl
  | cons n ns =>
    have hseparated := separated_tokens (List.cons_ne_nil n ns) (fun m _ ts => name_tokens m ts)
      (fun m _ => ⟨.name m, [], rfl, by simp⟩) h
    rw [implementsTokens, List.isEmpty_cons, if_neg Bool.false_ne_true, List.cons_append, implements, if_pos rfl,
      hseparated]

/-- What stands behind the name of a type with fields. -/
theorem composite_tokens (body : List Name → List Field → TypeBody) (n : Name) (interfaces : List Name)
    (ds : List Directive) (fields : List Field) {ts : List Token} (h : Follows ts) :
    composite body n (implementsTokens interfaces ++ ds.flatMap Directive.tokens ++
      bracketed Field.tokens '{' '}' fields ++ ts) = some ((.type n (body interfaces fields), ds), ts) := by
  have hfields := bracketed_items (l := fields) (fun f _ ts hts => fieldDefinition_tokens f hts) Field.tokens_first
    (.inr rfl) (h.stops.avoids (c := '{') (by decide) (by decide))
  have havoids : ∀ c, c ≠ ')' → c ≠ '}' → c ≠ '{' → Avoids c (bracketed Field.tokens '{' '}' fields ++ ts) :=
    fun c hp hb ho => (h.stops.avoids hp hb).bracketed ho Field.tokens fields
  have hdirectives := directives_tokens ds (havoids '@' (by decide) (by decide) (by decide))
    (havoids '(' (by decide) (by decide) (by decide))
  have hamp := (havoids '&' (by decide) (by decide) (by decide)).directives (by decide) ds
  have hword : (ds.flatMap Directive.tokens ++ (bracketed Field.tokens '{' '}' fields ++ ts)).head? ≠
      some (.name (word "implements")) := by
    refine head?_append_ne ?_ (head?_append_ne ?_ h.notImplements)
    · intro t ht
      cases ds with
      | nil => cases ht
      | cons d ds =>
        rw [List.flatMap_cons, Directive.tokens] at ht
        cases ht
        simp
    · intro t ht
      cases fields with
      | nil => cases ht
      | cons f fields =>
        cases ht
        simp
  have himplements := implements_tokens interfaces hamp hword
  simp only [composite, List.append_assoc, himplements, hdirectives, hfields, bind, pure, Option.bind_some]

/-- What stands behind the name of a type with a list in braces. -/
theorem listed_braces {α : Type} {p : Parser α} {tok : α → List Token} (body : List α → TypeBody) (n : Name)
    (ds : List Directive) {l : List α} (hitem : ∀ a ∈ l, ∀ ts, Stops ts → p (tok a ++ ts) = some (a, ts))
    (hfirst : ∀ a, ∃ t ts, tok a = t :: ts ∧ ∀ c, t ≠ .punctuator c) {ts : List Token} (h : Stops ts) :
    listed body '{' (items '}' p) n (ds.flatMap Directive.tokens ++ bracketed tok '{' '}' l ++ ts) =
      some ((.type n (body l), ds), ts) := by
  have hitems := bracketed_items hitem hfirst (.inr rfl) (h.avoids (c := '{') (by decide) (by decide))
  have havoids : ∀ c, c ≠ ')' → c ≠ '}' → c ≠ '{' → Avoids c (bracketed tok '{' '}' l ++ ts) :=
    fun c hp hb ho => (h.avoids hp hb).bracketed ho tok l
  have hdirectives := directives_tokens ds (havoids '@' (by decide) (by decide) (by decide))
    (havoids '(' (by decide) (by decide) (by decide))
  simp only [listed, List.append_assoc, hdirectives, hitems, bind, pure, Option.bind_some]

/-- What stands behind the name of a union. -/
theorem listed_members (n : Name) (ds : List Directive) (members : List Name) {ts : List Token} (h : Stops ts) :
    listed .union '=' (separated '|' name) n (ds.flatMap Directive.tokens ++
      (if members.isEmpty then [] else .punctuator '=' :: separatedTokens (fun n => [.name n]) '|' members) ++ ts) =
      some ((.type n (.union members), ds), ts) := by
  cases members with
  | nil =>
    have hdirectives := directives_tokens ds (h.avoids (by decide) (by decide)) (h.avoids (by decide) (by decide))
    have hnone : optionalList '=' (separated '|' name) ts = some ([], ts) := by
      rw [optionalList, optional_avoids (h.avoids (by decide) (by decide))]
      rfl
    simp only [listed, List.isEmpty_nil, if_true, List.append_nil, hdirectives, hnone, bind, pure, Option.bind_some]
  | cons m ms =>
    have hseparated := separated_tokens (List.cons_ne_nil m ms) (fun m _ ts => name_tokens m ts)
      (fun m _ => ⟨.name m, [], rfl, by simp⟩) (h.avoids (c := '|') (by decide) (by decide))
    have hsome : optionalList '=' (separated '|' name)
        (.punctuator '=' :: (separatedTokens (fun n => [.name n]) '|' (m :: ms) ++ ts)) = some (m :: ms, ts) := by
      rw [optionalList, optional_self hseparated]
      rfl
    have havoids : ∀ c, c ≠ '=' →
        Avoids c (.punctuator '=' :: (separatedTokens (fun n => [.name n]) '|' (m :: ms) ++ ts)) :=
      fun c hc => avoids_cons hc _
    have hdirectives := directives_tokens ds (havoids '@' (by decide)) (havoids '(' (by decide))
    simp only [listed, List.isEmpty_cons, Bool.false_eq_true, if_false, List.append_assoc, List.cons_append,
      hdirectives, hsome, bind, pure, Option.bind_some]

theorem rootOperation_tokens (r : Operation × Name) (ts : List Token) :
    rootOperation ([.name r.1.word, .punctuator ':', .name r.2] ++ ts) = some (r, ts) := by
  obtain ⟨o, n⟩ := r
  have hword : Operation.all.find? (fun w => w.word = o.word) = some o := by
    cases o <;> rfl
  simp only [rootOperation, List.cons_append, List.nil_append, oneOf, hword, Option.map_some, expect_self, name, bind,
    pure, Option.bind_some]

theorem schemaDefinition_tokens (ds : List Directive) {roots : List (Operation × Name)} (hroots : roots ≠ [])
    (ts : List Token) :
    schemaDefinition (ds.flatMap Directive.tokens ++
      bracketed (fun r => [.name r.1.word, .punctuator ':', .name r.2]) '{' '}' roots ++ ts) =
      some ((.schema roots, ds), ts) := by
  cases roots with
  | nil => exact absurd rfl hroots
  | cons r rs =>
    have hfirst : ∀ q ∈ r :: rs, ∃ t ts,
        [.name q.1.word, .punctuator ':', .name q.2] = t :: ts ∧ t ≠ Token.punctuator '}' :=
      fun q _ => ⟨.name q.1.word, _, rfl, by simp⟩
    have hmany := many_expect_tokens (F := fun _ => True) (fun q _ ts _ => rootOperation_tokens q ts) hfirst
      (fun _ _ _ => trivial) (fun _ => trivial) ts
    have havoids : ∀ c, c ≠ '{' → Avoids c (.punctuator '{' ::
        ((r :: rs).flatMap (fun r => [.name r.1.word, .punctuator ':', .name r.2]) ++ .punctuator '}' :: ts)) :=
      fun c hc => avoids_cons hc _
    have hdirectives := directives_tokens ds (havoids '@' (by decide)) (havoids '(' (by decide))
    simp only [schemaDefinition, bracketed, List.isEmpty_cons, Bool.false_eq_true, if_false, List.append_assoc,
      List.cons_append, List.nil_append, hdirectives, expect_self, items, hmany, bind, pure, Option.bind_some]

theorem location_tokens (l : Location) (ts : List Token) :
    oneOf Location.all Location.word ([.name l.word] ++ ts) = some (l, ts) := by
  have hword : Location.all.find? (fun w => w.word = l.word) = some l := by
    cases l <;> rfl
  simp only [List.cons_append, List.nil_append, oneOf, hword, Option.map_some]

theorem flag_tokens (w n : Name) (b : Bool) (hn : n ≠ w) (ts : List Token) :
    flag w ((if b then [.name w] else []) ++ .name n :: ts) = (b, .name n :: ts) := by
  cases b with
  | true => simp [flag]
  | false => simp [flag, hn]

theorem directiveDefinition_tokens (n : Name) (arguments : List InputValue) (repeatable : Bool)
    {locations : List Location} (hlocations : locations ≠ []) {ts : List Token} (h : Stops ts) :
    directiveDefinition (.punctuator '@' :: .name n :: (bracketed InputValue.tokens '(' ')' arguments ++
      ((if repeatable then [.name (word "repeatable")] else []) ++
        .name (word "on") :: separatedTokens (fun l => [.name l.word]) '|' locations)) ++ ts) =
      some ((.directive n arguments repeatable locations, []), ts) := by
  have hlist := separated_tokens hlocations (fun l _ ts => location_tokens l ts)
    (fun l _ => ⟨.name l.word, [], rfl, by simp⟩) (h.avoids (c := '|') (by decide) (by decide))
  have hflag := flag_tokens (word "repeatable") (word "on") repeatable (by decide)
    (separatedTokens (fun l => [.name l.word]) '|' locations ++ ts)
  have hon : flag (word "on") (.name (word "on") :: (separatedTokens (fun l => [.name l.word]) '|' locations ++ ts)) =
      (true, separatedTokens (fun l => [.name l.word]) '|' locations ++ ts) := by
    rw [flag, if_pos rfl]
  have hparen : Avoids '(' ((if repeatable then [.name (word "repeatable")] else []) ++
      .name (word "on") :: (separatedTokens (fun l => [.name l.word]) '|' locations ++ ts)) := by
    cases repeatable <;> simp [Avoids]
  have harguments := argumentsDefinition_tokens arguments hparen
  simp only [directiveDefinition, List.append_assoc, List.cons_append, expect_self, name, harguments, hflag, hon,
    if_true, hlist, bind, pure, Option.bind_some]

/-- A definition begins with the word that says what it is, and what stands behind that is read back. -/
theorem definitionOf_tokens {d : Described} (hd : d.WellFormed) {ts : List Token} (h : Follows ts) :
    ∃ keyword rest, d.definition.tokens d.directives = .name keyword :: rest ∧ keyword ≠ word "implements" ∧
      definitionOf keyword (rest ++ ts) = some ((d.definition, d.directives), ts) := by
  obtain ⟨description, definition, ds⟩ := d
  cases definition with
  | schema roots => exact ⟨_, _, rfl, by decide, schemaDefinition_tokens ds hd ts⟩
  | directive n arguments repeatable locations =>
    obtain ⟨hlocations, hnone⟩ := hd
    obtain rfl : ds = [] := hnone
    exact ⟨_, _, rfl, by decide, directiveDefinition_tokens n arguments repeatable hlocations h.stops⟩
  | type n body =>
    cases body with
    | scalar =>
      have hdirectives := directives_tokens ds (h.stops.avoids (by decide) (by decide))
        (h.stops.avoids (by decide) (by decide))
      refine ⟨_, _, rfl, by decide, ?_⟩
      rw [definitionOf, if_neg (by decide), if_neg (by decide)]
      simp only [List.cons_append, name, hdirectives, if_true, bind, pure, Option.bind_some]
    | object interfaces fields =>
      exact ⟨_, _, rfl, by decide, composite_tokens .object n interfaces ds fields h⟩
    | interface interfaces fields =>
      exact ⟨_, _, rfl, by decide, composite_tokens .interface n interfaces ds fields h⟩
    | union members => exact ⟨_, _, rfl, by decide, listed_members n ds members h.stops⟩
    | enum values =>
      exact ⟨_, _, rfl, by decide, listed_braces .enum n ds
        (fun v hv _ hts => enumValueDefinition_tokens v (hd v hv) hts) EnumValue.tokens_first h.stops⟩
    | input fields =>
      exact ⟨_, _, rfl, by decide, listed_braces .input n ds (fun v _ _ hts => inputValue_tokens v hts)
        InputValue.tokens_first h.stops⟩

theorem definition_tokens {d : Described} (hd : d.WellFormed) {ts : List Token} (h : Follows ts) :
    definition (d.tokens ++ ts) = some (d, ts) := by
  obtain ⟨keyword, rest, htokens, -, hof⟩ := definitionOf_tokens hd h
  have hdescription := description_tokens d.description keyword (rest ++ ts)
  simp only [definition, Described.tokens, htokens, List.append_assoc, List.cons_append, hdescription, name, hof, bind,
    pure, Option.bind_some]

/-- A definition may stand behind a definition. -/
theorem follows_tokens {d : Described} (hd : d.WellFormed) (ts : List Token) : Follows (d.tokens ++ ts) := by
  obtain ⟨keyword, rest, htokens, hne, -⟩ := definitionOf_tokens hd follows_nil
  rw [Described.tokens, htokens]
  cases hdescription : d.description with
  | none =>
    refine ⟨stops_of_not_punctuator (by simp), ?_⟩
    intro hhead
    exact hne (Token.name.inj (Option.some.inj hhead))
  | some s =>
    refine ⟨stops_of_not_punctuator ?_, ?_⟩
    · intro c
      cases s <;> simp [StringValue.token]
    · cases s <;> simp [StringValue.token, descriptionTokens]

/-- The tokens of a document are read as that document. -/
theorem document_tokens {doc : Document} (hne : doc ≠ []) (h : ∀ d ∈ doc, d.WellFormed) :
    document (doc.flatMap Described.tokens) = some doc := by
  have hmany : many (fun ts => if ts.isEmpty then some [] else none) definition
      (doc.flatMap Described.tokens ++ []) = some (doc, []) := by
    have htokens : ∀ d ∈ doc, d.tokens ≠ [] := by
      intro d hd hnil
      have hfollows := follows_tokens (h d hd) [.name (word "implements")]
      rw [hnil] at hfollows
      exact hfollows.notImplements rfl
    refine many_tokens (fun d hd ts hts => definition_tokens (h d hd) hts) ?_ htokens
      (fun d hd ts => follows_tokens (h d hd) ts) follows_nil rfl
    intro d hd ts
    rw [if_neg]
    rw [List.isEmpty_iff, List.append_eq_nil_iff]
    exact fun hnil => htokens d hd hnil.1
  rw [List.append_nil] at hmany
  rw [document, hmany]
  cases doc with
  | nil => exact absurd rfl hne
  | cons d doc => rfl

end G2way.Lib.GraphQl.Sdl
