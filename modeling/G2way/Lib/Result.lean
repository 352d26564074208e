import Mathlib.Data.List.Forall2
import Mathlib.Data.Option.Basic

/-!
# Computations that can fail

`Except` as early returns use it: a missing value or a failed guard ends the
computation with an error. The lemmas say what a computation that returned has
passed, one for each way it can go on; they are a `simp` set. Two computations
`Agree` that fail with the same error, or return related values.
-/

namespace G2way.Lib.Result

universe u v

variable {ε : Type u} {α β : Type v}

/-- The value, or the error where there is none. -/
def okOr (o : Option α) (e : ε) : Except ε α :=
  match o with
  | some a => .ok a
  | none => .error e

/-- The guard that ends with `e` unless `cond`. -/
def ensure (cond : Bool) (e : ε) : Except ε Unit := if cond then .ok () else .error e

theorem ok_bind {a : α} {f : α → Except ε β} : (Except.ok a >>= f) = f a := rfl

theorem error_bind {e : ε} {f : α → Except ε β} : (Except.error e >>= f) = .error e := rfl

/-- A sequence returned if both of its parts did. -/
@[simp]
theorem bind_eq_ok {x : Except ε α} {f : α → Except ε β} {b : β} :
    (x >>= f) = .ok b ↔ ∃ a, x = .ok a ∧ f a = .ok b := by
  cases x with
  | error e => simp [bind, Except.bind]
  | ok a => simp [bind, Except.bind]

/-- Changing the value does not make a computation fail or succeed. -/
@[simp]
theorem map_eq_ok {x : Except ε α} {f : α → β} {b : β} : (f <$> x) = .ok b ↔ ∃ a, x = .ok a ∧ f a = b := by
  cases x with
  | error e => simp [Functor.map, Except.map]
  | ok a => simp [Functor.map, Except.map]

@[simp]
theorem pure_eq_ok {a b : α} : (pure a : Except ε α) = .ok b ↔ a = b := by
  simp [pure, Except.pure]

@[simp]
theorem okOr_eq_ok {o : Option α} {e : ε} {a : α} : okOr o e = .ok a ↔ o = some a := by
  cases o with
  | none => simp [okOr]
  | some b => simp [okOr]

@[simp]
theorem ensure_eq_ok {cond : Bool} {e : ε} {u : Unit} : ensure cond e = .ok u ↔ cond = true := by
  cases cond with
  | false => simp [ensure]
  | true => simp [ensure]

/-- Changing the error does not make a computation fail or succeed. -/
@[simp]
theorem mapError_eq_ok {ε' : Type u} {x : Except ε α} {f : ε → ε'} {a : α} :
    x.mapError f = .ok a ↔ x = .ok a := by
  cases x with
  | error e => simp [Except.mapError]
  | ok b => simp [Except.mapError]

/-- A computation leaves a value if it returned. -/
@[simp]
theorem toOption_eq_some {x : Except ε α} {a : α} : x.toOption = some a ↔ x = .ok a := by
  cases x with
  | error e => simp [Except.toOption]
  | ok b => simp [Except.toOption]

/-- A loop returned if every round did. -/
@[simp]
theorem forM_eq_ok {γ : Type*} {l : List γ} {f : γ → Except ε PUnit} {u : PUnit} :
    forM l f = .ok u ↔ ∀ a ∈ l, f a = .ok u := by
  induction l with
  | nil => simp
  | cons a l ih =>
    simp only [List.forM_cons, bind_eq_ok, ih, List.mem_cons, forall_eq_or_imp]
    exact ⟨fun ⟨_, ha, hl⟩ => ⟨ha, hl⟩, fun ⟨ha, hl⟩ => ⟨u, ha, hl⟩⟩

/-- Loops whose rounds are the same are the same. -/
theorem mapM_congr {γ : Type*} {l : List γ} {f g : γ → Except ε α} (h : ∀ a ∈ l, f a = g a) : l.mapM f = l.mapM g := by
  induction l with
  | nil => rfl
  | cons a l ih =>
    obtain ⟨ha, hl⟩ := List.forall_mem_cons.1 h
    rw [List.mapM_cons, List.mapM_cons, ha, ih hl]

/-- A loop that makes a list returned if every round did, in order. -/
theorem mapM_eq_ok {γ : Type*} {l : List γ} {f : γ → Except ε α} {as : List α} :
    l.mapM f = .ok as ↔ List.Forall₂ (fun a b => f a = .ok b) l as := by
  induction l generalizing as with
  | nil =>
    rw [List.mapM_nil, pure_eq_ok, List.forall₂_nil_left_iff]
    exact eq_comm
  | cons a l ih =>
    simp only [List.mapM_cons, bind_eq_ok, pure_eq_ok, ih]
    constructor
    · rintro ⟨b, hb, bs, hbs, rfl⟩
      exact .cons hb hbs
    · rintro (_ | ⟨hb, hbs⟩)
      exact ⟨_, hb, _, hbs, rfl⟩

/-- The same of a loop that stops at a missing value. -/
theorem mapM_eq_some {γ : Type*} {l : List γ} {f : γ → Option α} {as : List α} :
    l.mapM f = some as ↔ List.Forall₂ (fun a b => f a = some b) l as := by
  induction l generalizing as with
  | nil =>
    rw [List.mapM_nil, Option.pure_def, Option.some.injEq, List.forall₂_nil_left_iff]
    exact eq_comm
  | cons a l ih =>
    simp only [List.mapM_cons, Option.bind_eq_bind, Option.bind_eq_some_iff, Option.pure_def, Option.some.injEq, ih]
    constructor
    · rintro ⟨b, hb, bs, hbs, rfl⟩
      exact .cons hb hbs
    · rintro (_ | ⟨hb, hbs⟩)
      exact ⟨_, hb, _, hbs, rfl⟩

/-- What is in the second of two related lists has its like in the first, -/
theorem exists_of_mem_right {γ : Type*} {R : γ → α → Prop} {l : List γ} {as : List α} {b : α}
    (h : List.Forall₂ R l as) (hb : b ∈ as) : ∃ a ∈ l, R a b := by
  induction h with
  | nil => cases hb
  | @cons a' b' l as ha _ ih =>
    rcases List.mem_cons.1 hb with rfl | hb
    · exact ⟨a', List.mem_cons_self, ha⟩
    · obtain ⟨a, ha, hrel⟩ := ih hb
      exact ⟨a, List.mem_cons_of_mem _ ha, hrel⟩

/-- and the other way around. -/
theorem exists_of_mem_left {γ : Type*} {R : γ → α → Prop} {l : List γ} {as : List α} {a : γ}
    (h : List.Forall₂ R l as) (ha : a ∈ l) : ∃ b ∈ as, R a b := exists_of_mem_right h.flip ha

/-- What is related through a third list is related. -/
theorem forall₂_comp {γ δ : Type*} {R : γ → α → Prop} {Q : α → δ → Prop} {l : List γ} {as : List α} {l' : List δ}
    (h : List.Forall₂ R l as) (h' : List.Forall₂ Q as l') : List.Forall₂ (fun c d => ∃ a, R c a ∧ Q a d) l l' := by
  induction h generalizing l' with
  | nil =>
    cases h'
    exact .nil
  | cons hrel _ ih =>
    cases h' with
    | cons hrel' htail => exact .cons ⟨_, hrel, hrel'⟩ (ih htail)

/-- What such a loop makes comes from one of its rounds. -/
theorem exists_mem_of_mapM_eq_some {γ : Type*} {l : List γ} {f : γ → Option α} {as : List α} {b : α}
    (h : l.mapM f = some as) (hb : b ∈ as) : ∃ a ∈ l, f a = some b :=
  exists_of_mem_right (R := fun a b => f a = some b) (mapM_eq_some.1 h) hb

/-- Such a loop returns if every round does. -/
theorem exists_mapM_eq_ok {γ : Type*} {l : List γ} {f : γ → Except ε α} :
    (∃ as, l.mapM f = .ok as) ↔ ∀ a ∈ l, ∃ b, f a = .ok b := by
  induction l with
  | nil => simp
  | cons a l ih =>
    simp only [List.mapM_cons, bind_eq_ok, pure_eq_ok, List.forall_mem_cons, ← ih]
    constructor
    · rintro ⟨-, b, hb, bs, hbs, rfl⟩
      exact ⟨⟨b, hb⟩, bs, hbs⟩
    · rintro ⟨⟨b, hb⟩, bs, hbs⟩
      exact ⟨_, b, hb, bs, hbs, rfl⟩

/-- The list such a loop makes, given what each round returns. -/
theorem mapM_map_eq_ok {γ δ : Type*} {l : List γ} {f : δ → Except ε α} {g : γ → δ} {h : γ → α}
    (hf : ∀ c ∈ l, f (g c) = .ok (h c)) : (l.map g).mapM f = .ok (l.map h) := by
  rw [mapM_eq_ok, List.forall₂_map_left_iff, List.forall₂_map_right_iff, List.forall₂_same]
  exact hf

/-- What is so of the list it makes is so of what the rounds return. -/
theorem forall_mem_mapM {γ : Type*} {l : List γ} {f : γ → Except ε α} {as : List α} {P : α → Prop}
    (h : l.mapM f = .ok as) : (∀ a ∈ as, P a) ↔ ∀ c ∈ l, ∀ a, f c = .ok a → P a := by
  induction mapM_eq_ok.1 h with
  | nil => simp
  | @cons c a l as hc htail ih =>
    rw [List.forall_mem_cons, List.forall_mem_cons, ih (mapM_eq_ok.2 htail)]
    refine and_congr_left fun _ => ⟨fun ha b hb => ?_, fun hall => hall a hc⟩
    rw [hc] at hb
    exact Except.ok.inj hb ▸ ha

/-- The list it makes has what the rounds return. -/
theorem mem_mapM {γ : Type*} {l : List γ} {f : γ → Except ε α} {as : List α} (h : l.mapM f = .ok as) {b : α} :
    b ∈ as ↔ ∃ c ∈ l, f c = .ok b := by
  have hall := forall_mem_mapM (P := (· ≠ b)) h
  constructor
  · intro hb
    by_contra hnone
    push Not at hnone
    exact hall.2 (fun c hc a ha heq => hnone c hc (heq ▸ ha)) b hb rfl
  · rintro ⟨c, hc, hb⟩
    by_contra hnot
    exact hall.1 (fun a ha heq => hnot (heq ▸ ha)) c hc b hb rfl

/-- The first match in the list it makes comes from the first round that a predicate picks out, if the predicates say
the same of each round and of what it returns. -/
theorem find?_mapM {γ : Type*} {l : List γ} {f : γ → Except ε α} {as : List α} {p : α → Bool} {q : γ → Prop}
    (h : l.mapM f = .ok as) (hpq : ∀ c ∈ l, ∀ a, f c = .ok a → (p a = true ↔ q c)) :
    (as.find? p = none ↔ ∀ c ∈ l, ¬ q c) ∧
      ∀ a, as.find? p = some a →
        ∃ before c later, l = before ++ c :: later ∧ f c = .ok a ∧ q c ∧ ∀ x ∈ before, ¬ q x := by
  induction mapM_eq_ok.1 h with
  | nil => simp
  | @cons c a l as hc htail ih =>
    obtain ⟨hnone, hsome⟩ := ih (mapM_eq_ok.2 htail) fun x hx => hpq x (List.mem_cons_of_mem _ hx)
    have hhead : p a = true ↔ q c := hpq c List.mem_cons_self a hc
    by_cases hp : p a = true
    · have hfind : (a :: as).find? p = some a := List.find?_cons_of_pos hp
      rw [hfind]
      constructor
      · simp [hhead.1 hp]
      · rintro b hb
        obtain rfl := Option.some.inj hb
        exact ⟨[], c, l, rfl, hc, hhead.1 hp, by simp⟩
    · have hfind : (a :: as).find? p = as.find? p := List.find?_cons_of_neg hp
      rw [hfind, hnone, List.forall_mem_cons]
      refine ⟨(and_iff_right (mt hhead.2 hp)).symm, fun b hb => ?_⟩
      obtain ⟨before, x, later, rfl, hx, hqx, hbefore⟩ := hsome b hb
      exact ⟨c :: before, x, later, rfl, hx, hqx, List.forall_mem_cons.2 ⟨mt hhead.2 hp, hbefore⟩⟩

/-- What a loop that skips returns comes from the rounds that did not. -/
theorem mem_filterMapM {γ : Type*} {f : γ → Except ε (Option α)} {as : List γ} {bs : List α}
    (h : as.filterMapM f = .ok bs) {b : α} (hb : b ∈ bs) : ∃ a ∈ as, f a = .ok (some b) := by
  induction as generalizing bs with
  | nil =>
    rw [List.filterMapM_nil, pure_eq_ok] at h
    subst h
    cases hb
  | cons a as ih =>
    rw [List.filterMapM_cons, bind_eq_ok] at h
    obtain ⟨o, ho, hrest⟩ := h
    cases o with
    | none =>
      obtain ⟨a', ha', hf⟩ := ih hrest hb
      exact ⟨a', List.mem_cons_of_mem _ ha', hf⟩
    | some b' =>
      simp only [bind_eq_ok, pure_eq_ok] at hrest
      obtain ⟨rest, hrest, rfl⟩ := hrest
      rcases List.mem_cons.mp hb with rfl | hb
      · exact ⟨a, List.mem_cons_self .., ho⟩
      · obtain ⟨a', ha', hf⟩ := ih hrest hb
        exact ⟨a', List.mem_cons_of_mem _ ha', hf⟩

/-! ### Computations side by side -/

/-- The same error, or related values. -/
inductive Agree (R : α → β → Prop) : Except ε α → Except ε β → Prop where
  | error (e : ε) : Agree R (.error e) (.error e)
  | ok {a : α} {b : β} (h : R a b) : Agree R (.ok a) (.ok b)

section Agree

variable {α' β' : Type v} {R : α → β → Prop} {Q : α' → β' → Prop} {x : Except ε α} {y : Except ε β}

theorem Agree.refl (x : Except ε α) : Agree Eq x x := by
  cases x with
  | error e => exact .error e
  | ok a => exact .ok rfl

/-- What goes on alike from related values agrees. -/
theorem Agree.bind (h : Agree R x y) {f : α → Except ε α'} {g : β → Except ε β'}
    (hfg : ∀ a b, R a b → Agree Q (f a) (g b)) : Agree Q (x >>= f) (y >>= g) := by
  cases h with
  | error e => exact .error e
  | ok hab => exact hfg _ _ hab

/-- Where the one goes on, the other can have returned. -/
theorem Agree.bind_right {Q : α → β' → Prop} (h : Agree R x y) {g : β → Except ε β'}
    (hg : ∀ a b, R a b → Agree Q (.ok a) (g b)) : Agree Q x (y >>= g) := by
  cases h with
  | error e => exact .error e
  | ok hab => exact hg _ _ hab

/-- Loops over related lists agree. -/
theorem Agree.mapM {γ δ : Type*} {P : γ → δ → Prop} {l : List γ} {l' : List δ} (h : List.Forall₂ P l l')
    {f : γ → Except ε α} {g : δ → Except ε β} (hfg : ∀ c d, P c d → Agree R (f c) (g d)) :
    Agree (List.Forall₂ R) (l.mapM f) (l'.mapM g) := by
  induction h with
  | nil => exact .ok .nil
  | cons hcd _ ih =>
    rw [List.mapM_cons, List.mapM_cons]
    refine (hfg _ _ hcd).bind fun a b hab => ih.bind fun as bs habs => ?_
    exact .ok (.cons hab habs)

end Agree

end G2way.Lib.Result
