import Mathlib.Logic.Function.Defs

/-!
# Layers around a service

A handler answers a request in a world that it may change. A layer wraps one handler
into another; a chain of layers around a handler is a handler.

Most layers do not look at the handler they wrap: they answer a request themselves, or
pass one on and then add something to the answer. Such a layer is given by its `Stage`,
and stages compose: a chain of them is one stage. So the whole of a chain is known from
what each stage `Passes`, one after the other, and from what it answers when it does not:
the handler inside is called with the request that comes out of the last stage, or not at
all.
-/

namespace G2way.Lib

variable {σ α ρ : Type*}

/-- A service: its answer to a request, and the world after it. -/
abbrev Handler (σ α ρ : Type*) := α → σ → ρ × σ

/-- What a layer does by itself: it answers, or it passes on a request and says what it makes of the answer. -/
structure Stage (σ α ρ : Type*) where
  enter : α → σ → Except ρ (α × (ρ → ρ)) × σ

namespace Stage

/-- A stage as a layer. -/
def layer (g : Stage σ α ρ) (inner : Handler σ α ρ) : Handler σ α ρ := fun a s =>
  match g.enter a s with
  | (.error r, s) => (r, s)
  | (.ok (a, dress), s) => (dress (inner a s).1, (inner a s).2)

/-- The stage that does nothing. -/
def pass : Stage σ α ρ := ⟨fun a s => (.ok (a, id), s)⟩

/-- A stage that only looks at the request. -/
def ofCall (call : α → Except ρ α) : Stage σ α ρ := ⟨fun a s => ((call a).map fun b => (b, id), s)⟩

/-- One stage around another. -/
def around (g h : Stage σ α ρ) : Stage σ α ρ where
  enter a s :=
    match g.enter a s with
    | (.error r, s) => (.error r, s)
    | (.ok (a, dress), s) =>
      match h.enter a s with
      | (.error r, s) => (.error (dress r), s)
      | (.ok (a, dress'), s) => (.ok (a, dress ∘ dress'), s)

/-- Stages around each other, the outermost one first. -/
def chain (gs : List (Stage σ α ρ)) : Stage σ α ρ := gs.foldr around pass

/-- A stage that may be absent. -/
def optional (g : Option (Stage σ α ρ)) : Stage σ α ρ := g.getD pass

/-- The stage passes a request on as another, in the world it leaves. -/
def Passes (g : Stage σ α ρ) (a : α) (s : σ) (b : α) (t : σ) : Prop := ∃ dress, g.enter a s = (.ok (b, dress), t)

/-- It answers the request. -/
def Answers (g : Stage σ α ρ) (a : α) (s : σ) (r : ρ) (t : σ) : Prop := g.enter a s = (.error r, t)

variable {g h : Stage σ α ρ} {gs : List (Stage σ α ρ)} {a b : α} {r : ρ} {s t : σ} {dress : ρ → ρ}

/-! ### One stage -/

theorem layer_of_enter (henter : g.enter a s = (.ok (b, dress), t)) (inner : Handler σ α ρ) :
    g.layer inner a s = (dress (inner b t).1, (inner b t).2) := by
  rw [layer, henter]

/-- A stage that answers does not call the handler inside. -/
theorem layer_of_answers (hanswers : g.Answers a s r t) (inner : Handler σ α ρ) : g.layer inner a s = (r, t) := by
  rw [layer, show g.enter a s = (.error r, t) from hanswers]

theorem passes_or_answers (g : Stage σ α ρ) (a : α) (s : σ) :
    (∃ b t, g.Passes a s b t) ∨ ∃ r t, g.Answers a s r t := by
  rcases henter : g.enter a s with ⟨r | ⟨b, dress⟩, t⟩
  · exact .inr ⟨r, t, henter⟩
  · exact .inl ⟨b, t, dress, henter⟩

@[simp]
theorem passes_pass : (pass : Stage σ α ρ).Passes a s b t ↔ b = a ∧ t = s := by
  constructor
  · rintro ⟨dress, henter⟩
    cases henter
    exact ⟨rfl, rfl⟩
  · rintro ⟨rfl, rfl⟩
    exact ⟨id, rfl⟩

@[simp]
theorem not_answers_pass : ¬ (pass : Stage σ α ρ).Answers a s r t := by
  intro hanswers
  cases hanswers

@[simp]
theorem layer_pass (inner : Handler σ α ρ) : (pass : Stage σ α ρ).layer inner = inner := rfl

section OfCall

variable {call : α → Except ρ α}

@[simp]
theorem passes_ofCall : (ofCall call).Passes a s b t ↔ call a = .ok b ∧ t = s := by
  cases hcall : call a with
  | error r => simp [Passes, ofCall, hcall, Except.map]
  | ok c => simp [Passes, ofCall, hcall, Except.map, eq_comm]

@[simp]
theorem answers_ofCall : (ofCall call).Answers a s r t ↔ call a = .error r ∧ t = s := by
  cases hcall : call a with
  | error r' => simp [Answers, ofCall, hcall, Except.map, eq_comm]
  | ok c => simp [Answers, ofCall, hcall, Except.map]

end OfCall

section Optional

variable {β : Type*} {o : Option β} {f : β → Stage σ α ρ}

theorem passes_optional : (optional (o.map f)).Passes a s b t ↔
    (o = none ∧ b = a ∧ t = s) ∨ ∃ x, o = some x ∧ (f x).Passes a s b t := by
  cases o with
  | none => simp [optional]
  | some x => simp [optional]

theorem answers_optional : (optional (o.map f)).Answers a s r t ↔ ∃ x, o = some x ∧ (f x).Answers a s r t := by
  cases o with
  | none => simp [optional]
  | some x => simp [optional]

end Optional

/-! ### Stages around each other -/

section Around

variable {c : α} {u : σ} {dress' : ρ → ρ}

theorem enter_around_of_error (hg : g.enter a s = (.error r, t)) (h : Stage σ α ρ) :
    (g.around h).enter a s = (.error r, t) := by
  simp only [around, hg]

theorem enter_around_of_ok_error (hg : g.enter a s = (.ok (b, dress), t)) (hh : h.enter b t = (.error r, u)) :
    (g.around h).enter a s = (.error (dress r), u) := by
  simp only [around, hg, hh]

theorem enter_around_of_ok_ok (hg : g.enter a s = (.ok (b, dress), t)) (hh : h.enter b t = (.ok (c, dress'), u)) :
    (g.around h).enter a s = (.ok (c, dress ∘ dress'), u) := by
  simp only [around, hg, hh]

/-- The layer of a stage around another is the one layer around the other. -/
theorem layer_around (g h : Stage σ α ρ) (inner : Handler σ α ρ) :
    (g.around h).layer inner = g.layer (h.layer inner) := by
  funext a s
  rcases hg : g.enter a s with ⟨r | ⟨b, dress⟩, t⟩
  · rw [layer, enter_around_of_error hg, layer, hg]
  · rw [layer_of_enter hg]
    rcases hh : h.enter b t with ⟨r | ⟨c, dress'⟩, u⟩
    · rw [layer, enter_around_of_ok_error hg hh, layer, hh]
    · rw [layer_of_enter (enter_around_of_ok_ok hg hh), layer_of_enter hh]
      rfl

/-- A chain of stages is the chain of their layers. -/
theorem layer_chain (gs : List (Stage σ α ρ)) (inner : Handler σ α ρ) :
    (chain gs).layer inner = gs.foldr layer inner := by
  induction gs with
  | nil => rfl
  | cons g gs ih => rw [chain, List.foldr_cons, layer_around, List.foldr_cons, ← ih, chain]

theorem passes_around : (g.around h).Passes a s c u ↔ ∃ b t, g.Passes a s b t ∧ h.Passes b t c u := by
  constructor
  · rintro ⟨dress, henter⟩
    rcases hg : g.enter a s with ⟨r | ⟨b, d⟩, t⟩
    · rw [enter_around_of_error hg] at henter
      cases henter
    · rcases hh : h.enter b t with ⟨r | ⟨c', d'⟩, u'⟩
      · rw [enter_around_of_ok_error hg hh] at henter
        cases henter
      · rw [enter_around_of_ok_ok hg hh] at henter
        cases henter
        exact ⟨b, t, ⟨d, hg⟩, d', hh⟩
  · rintro ⟨b, t, ⟨d, hg⟩, d', hh⟩
    exact ⟨d ∘ d', enter_around_of_ok_ok hg hh⟩

/-- A chain is answered by the outer stage, or by the inner one when the outer one passes the request on. -/
theorem answers_around : (g.around h).Answers a s r u ↔
    g.Answers a s r u ∨ ∃ b dress t r', g.enter a s = (.ok (b, dress), t) ∧ h.Answers b t r' u ∧ r = dress r' := by
  constructor
  · intro hanswers
    rcases hg : g.enter a s with ⟨r₀ | ⟨b, d⟩, t⟩
    · rw [Answers, enter_around_of_error hg] at hanswers
      exact .inl (hg.trans hanswers)
    · rcases hh : h.enter b t with ⟨r₁ | ⟨c', d'⟩, u'⟩
      · rw [Answers, enter_around_of_ok_error hg hh] at hanswers
        cases hanswers
        exact .inr ⟨b, d, t, r₁, rfl, hh, rfl⟩
      · rw [Answers, enter_around_of_ok_ok hg hh] at hanswers
        cases hanswers
  · rintro (hanswers | ⟨b, d, t, r', hg, hanswers, rfl⟩)
    · exact enter_around_of_error hanswers h
    · exact enter_around_of_ok_error hg hanswers

end Around

@[simp]
theorem chain_nil : chain ([] : List (Stage σ α ρ)) = pass := rfl

theorem chain_cons (g : Stage σ α ρ) (gs : List (Stage σ α ρ)) : chain (g :: gs) = g.around (chain gs) := rfl

/-- What passes a chain passes each of its stages in turn. -/
theorem passes_chain_cons {c : α} {u : σ} :
    (chain (g :: gs)).Passes a s c u ↔ ∃ b t, g.Passes a s b t ∧ (chain gs).Passes b t c u := passes_around

theorem pass_around (h : Stage σ α ρ) : pass.around h = h := by
  have henter : (pass.around h).enter = h.enter := by
    funext a s
    have hpass : (pass : Stage σ α ρ).enter a s = (.ok (a, id), s) := rfl
    rcases hh : h.enter a s with ⟨r | ⟨b, dress⟩, t⟩
    · rw [enter_around_of_ok_error hpass hh]
      rfl
    · rw [enter_around_of_ok_ok hpass hh]
      rfl
  exact congrArg Stage.mk henter

theorem around_assoc (g h k : Stage σ α ρ) : (g.around h).around k = g.around (h.around k) := by
  have henter : ((g.around h).around k).enter = (g.around (h.around k)).enter := by
    funext a s
    rcases hg : g.enter a s with ⟨r | ⟨b, d⟩, t⟩
    · rw [enter_around_of_error hg, enter_around_of_error (enter_around_of_error hg h)]
    · rcases hh : h.enter b t with ⟨r | ⟨c, d'⟩, u⟩
      · rw [enter_around_of_error (enter_around_of_ok_error hg hh), enter_around_of_ok_error hg (enter_around_of_error hh k)]
      · rcases hk : k.enter c u with ⟨r | ⟨e, d''⟩, v⟩
        · rw [enter_around_of_ok_error (enter_around_of_ok_ok hg hh) hk,
            enter_around_of_ok_error hg (enter_around_of_ok_error hh hk)]
          rfl
        · rw [enter_around_of_ok_ok (enter_around_of_ok_ok hg hh) hk,
            enter_around_of_ok_ok hg (enter_around_of_ok_ok hh hk)]
          rfl
  exact congrArg Stage.mk henter

/-- A chain can be cut anywhere. -/
theorem chain_append (gs hs : List (Stage σ α ρ)) : chain (gs ++ hs) = (chain gs).around (chain hs) := by
  induction gs with
  | nil => rw [List.nil_append, chain_nil, pass_around]
  | cons g gs ih => rw [List.cons_append, chain_cons, ih, chain_cons, around_assoc]

/-! ### What stages keep -/

/-- A stage that never changes the world. -/
def Pure (g : Stage σ α ρ) : Prop := ∀ a s, (g.enter a s).2 = s

theorem pure_pass : (pass : Stage σ α ρ).Pure := fun _ _ => rfl

theorem pure_ofCall (call : α → Except ρ α) : (ofCall call : Stage σ α ρ).Pure := fun _ _ => rfl

theorem pure_optional {β : Type*} {o : Option β} {f : β → Stage σ α ρ} (h : ∀ x, o = some x → (f x).Pure) :
    (optional (o.map f)).Pure := by
  cases o with
  | none => exact pure_pass
  | some x => exact h x rfl

theorem Pure.around (hg : g.Pure) (hh : h.Pure) : (g.around h).Pure := by
  intro a s
  have hgs := hg a s
  rcases henter : g.enter a s with ⟨r | ⟨b, d⟩, t⟩
  · rw [enter_around_of_error henter, ← hgs, henter]
  · have hhs := hh b t
    rcases hinner : h.enter b t with ⟨r | ⟨c, d'⟩, u⟩
    · rw [enter_around_of_ok_error henter hinner, ← hgs, henter, ← hhs, hinner]
    · rw [enter_around_of_ok_ok henter hinner, ← hgs, henter, ← hhs, hinner]

theorem pure_chain (hgs : ∀ g ∈ gs, g.Pure) : (chain gs).Pure := by
  induction gs with
  | nil => exact pure_pass
  | cons g gs ih =>
    exact (hgs g List.mem_cons_self).around (ih fun g' hg' => hgs g' (List.mem_cons_of_mem _ hg'))

theorem Pure.of_answers (hg : g.Pure) (hanswers : g.Answers a s r t) : t = s := by
  have hworld := hg a s
  rw [show g.enter a s = (.error r, t) from hanswers] at hworld
  exact hworld

end Stage

end G2way.Lib
