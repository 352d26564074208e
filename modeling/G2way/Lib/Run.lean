import Mathlib.Data.List.Basic

/-!
# Runs of a transition system

A system is a partial step function: `step s a` is the state after the action `a`,
or `none` when `a` is not possible in `s`. The run of a list of actions is the
list of its steps, each with the state before it and the state after it; it ends
at the first action that is not possible. A safety property of a system is a
property of every step of every run, and it is proved from what one step does.

`runs` is the state a list of actions leads to, if all of them are possible.
-/

namespace G2way.Lib

/-- One step of a run. -/
structure Event (σ α : Type*) where
  /-- The state before. -/
  pre : σ
  /-- The action taken. -/
  act : α
  /-- The state after. -/
  post : σ
  deriving DecidableEq

variable {σ α : Type*} (step : σ → α → Option σ)

/-- The steps of the run of `as` from `s`. -/
def trace : σ → List α → List (Event σ α)
  | _, [] => []
  | s, a :: as =>
    match step s a with
    | none => []
    | some t => ⟨s, a, t⟩ :: trace t as

variable {step}

theorem mem_trace_cons {s : σ} {a : α} {as : List α} {e : Event σ α} :
    e ∈ trace step s (a :: as) ↔
      ∃ t, step s a = some t ∧ (e = ⟨s, a, t⟩ ∨ e ∈ trace step t as) := by
  cases h : step s a <;> simp [trace, h]

/-- Each step of a run is a step of the system. -/
theorem step_of_mem_trace {s : σ} {as : List α} {e : Event σ α} (h : e ∈ trace step s as) :
    step e.pre e.act = some e.post := by
  induction as generalizing s with
  | nil => simp [trace] at h
  | cons a as ih =>
    obtain ⟨t, ht, rfl | h⟩ := mem_trace_cons.mp h
    · exact ht
    · exact ih h

/-- **The invariant rule**: what holds at the start and is kept by every step holds
before every step of every run. -/
theorem inv_of_mem_trace {Inv : σ → Prop} (hstep : ∀ s a t, Inv s → step s a = some t → Inv t)
    {s : σ} (hs : Inv s) {as : List α} {e : Event σ α} (h : e ∈ trace step s as) : Inv e.pre := by
  induction as generalizing s with
  | nil => simp [trace] at h
  | cons a as ih =>
    obtain ⟨t, ht, rfl | h⟩ := mem_trace_cons.mp h
    · exact hs
    · exact ih (hstep s a t hs ht) h

/-- **The history rule**: what relates the steps taken so far to the state, at the start and after
every step, relates them before every step of every run. -/
theorem history_of_trace {Inv : List (Event σ α) → σ → Prop}
    (hstep : ∀ past s a t, Inv past s → step s a = some t → Inv (past ++ [⟨s, a, t⟩]) t)
    {past : List (Event σ α)} {s : σ} (hs : Inv past s) {as : List α} {before after : List (Event σ α)}
    {e : Event σ α} (h : trace step s as = before ++ e :: after) : Inv (past ++ before) e.pre := by
  induction before generalizing past s as with
  | nil =>
    cases as with
    | nil => simp [trace] at h
    | cons a as =>
      cases hstep' : step s a with
      | none => simp [trace, hstep'] at h
      | some t =>
        simp only [trace, hstep', List.nil_append, List.cons.injEq] at h
        rw [← h.1, List.append_nil]
        exact hs
  | cons b before ih =>
    cases as with
    | nil => simp [trace] at h
    | cons a as =>
      cases hstep' : step s a with
      | none => simp [trace, hstep'] at h
      | some t =>
        simp only [trace, hstep', List.cons_append, List.cons.injEq] at h
        obtain ⟨rfl, h⟩ := h
        have htail := ih (hstep past s a t hs hstep') h
        rwa [List.append_assoc, List.singleton_append] at htail

/-! ### The state a run leads to -/

/-- The state after all of the actions, if they are possible one after the other. -/
def runs (step : σ → α → Option σ) : σ → List α → Option σ
  | s, [] => some s
  | s, a :: as => (step s a).bind fun t => runs step t as

theorem runs_cons {s t : σ} {a : α} {as : List α} :
    runs step s (a :: as) = some t ↔ ∃ u, step s a = some u ∧ runs step u as = some t := by
  rw [runs, Option.bind_eq_some_iff]

theorem runs_append {s t : σ} {as bs : List α} :
    runs step s (as ++ bs) = some t ↔ ∃ u, runs step s as = some u ∧ runs step u bs = some t := by
  induction as generalizing s with
  | nil => simp [runs]
  | cons a as ih =>
    rw [List.cons_append, runs_cons]
    constructor
    · rintro ⟨u, hu, h⟩
      obtain ⟨v, hv, h⟩ := ih.1 h
      exact ⟨v, runs_cons.2 ⟨u, hu, hv⟩, h⟩
    · rintro ⟨v, hv, h⟩
      obtain ⟨u, hu, hv⟩ := runs_cons.1 hv
      exact ⟨u, hu, ih.2 ⟨v, hv, h⟩⟩

/-- **The invariant rule for the state a run leads to**; a step is one of the actions of the run. -/
theorem inv_of_runs (Inv : σ → Prop) {s t : σ} {as : List α}
    (hstep : ∀ s, ∀ a ∈ as, ∀ t, Inv s → step s a = some t → Inv t) (hs : Inv s) (h : runs step s as = some t) :
    Inv t := by
  induction as generalizing s with
  | nil => exact Option.some.inj h ▸ hs
  | cons a as ih =>
    obtain ⟨u, hu, h⟩ := runs_cons.1 h
    exact ih (fun s b hb => hstep s b (List.mem_cons_of_mem _ hb)) (hstep s a List.mem_cons_self u hs hu) h

/-- **The history rule for the state a run leads to**: the invariant sees the actions so far. -/
theorem history_of_runs (Inv : List α → σ → Prop)
    (hstep : ∀ past s a t, Inv past s → step s a = some t → Inv (past ++ [a]) t) {past : List α} {s t : σ}
    {as : List α} (hs : Inv past s) (h : runs step s as = some t) : Inv (past ++ as) t := by
  induction as generalizing past s with
  | nil =>
    rw [List.append_nil]
    exact Option.some.inj h ▸ hs
  | cons a as ih =>
    obtain ⟨u, hu, h⟩ := runs_cons.1 h
    have htail := ih (hstep past s a u hs hu) h
    rwa [List.append_assoc, List.singleton_append] at htail

end G2way.Lib
