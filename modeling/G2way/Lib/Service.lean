import Mathlib.Data.List.Induction

/-!
# Services

A service is a total system that answers each call: `serve s a` is its answer to
the call `a` in the state `s`, and the state it is in after that. A run is a list
of calls. `answered` is what a client of the service sees of a run, the calls with
their answers, in order; `after` is the state the run leaves.

What holds of every run is proved one call at a time: `inv_after` for an invariant
that ties the state to what was answered, and `answered_eq_of_sim` for two services
that give the same answers.
-/

namespace G2way.Lib

variable {σ τ α ρ : Type*}

section

variable (serve : σ → α → ρ × σ)

/-- The state after the calls. -/
def after (s : σ) : List α → σ
  | [] => s
  | a :: as => after (serve s a).2 as

/-- The calls with their answers. -/
def answered (s : σ) : List α → List (α × ρ)
  | [] => []
  | a :: as => (a, (serve s a).1) :: answered (serve s a).2 as

end

variable {serve : σ → α → ρ × σ} {serve' : τ → α → ρ × τ}

theorem after_append (s : σ) (as bs : List α) :
    after serve s (as ++ bs) = after serve (after serve s as) bs := by
  induction as generalizing s with
  | nil => rfl
  | cons a as ih => exact ih _

theorem after_concat (s : σ) (as : List α) (a : α) :
    after serve s (as ++ [a]) = (serve (after serve s as) a).2 := after_append s as [a]

theorem answered_append (s : σ) (as bs : List α) :
    answered serve s (as ++ bs) = answered serve s as ++ answered serve (after serve s as) bs := by
  induction as generalizing s with
  | nil => rfl
  | cons a as ih => exact congrArg _ (ih _)

theorem answered_concat (s : σ) (as : List α) (a : α) :
    answered serve s (as ++ [a]) = answered serve s as ++ [(a, (serve (after serve s as) a).1)] :=
  answered_append s as [a]

theorem map_fst_answered (s : σ) (as : List α) : (answered serve s as).map Prod.fst = as := by
  induction as generalizing s with
  | nil => rfl
  | cons a as ih => exact congrArg (a :: ·) (ih _)

theorem mem_of_mem_answered {s : σ} {as : List α} {e : α × ρ} (h : e ∈ answered serve s as) : e.1 ∈ as := by
  have hmem := List.mem_map_of_mem (f := Prod.fst) h
  rwa [map_fst_answered] at hmem

/-- An answered call splits the run: what was answered before it, its answer, what was
answered after it. -/
theorem answered_eq_append_cons {s : σ} {as : List α} {before later : List (α × ρ)} {a : α} {r : ρ}
    (h : answered serve s as = before ++ (a, r) :: later) :
    ∃ past rest, as = past ++ a :: rest ∧ before = answered serve s past ∧
      r = (serve (after serve s past) a).1 ∧ later = answered serve (after serve s (past ++ [a])) rest := by
  induction before generalizing s as with
  | nil =>
    cases as with
    | nil => cases h
    | cons b bs =>
      cases h
      exact ⟨[], bs, rfl, rfl, rfl, rfl⟩
  | cons e before ih =>
    cases as with
    | nil => cases h
    | cons b bs =>
      obtain ⟨rfl, htail⟩ := List.cons.inj h
      obtain ⟨past, rest, rfl, rfl, rfl, rfl⟩ := ih htail
      exact ⟨b :: past, rest, rfl, rfl, rfl, rfl⟩

/-- Two services that answer a run alike answer each of its calls alike. -/
theorem answer_eq_of_answered_eq {s : σ} {t : τ} {past rest : List α} {a : α}
    (h : answered serve s (past ++ a :: rest) = answered serve' t (past ++ a :: rest)) :
    (serve (after serve s past) a).1 = (serve' (after serve' t past) a).1 := by
  induction past generalizing s t with
  | nil => exact (Prod.mk.inj (List.cons.inj h).1).2
  | cons b past ih => exact ih (List.cons.inj h).2

/-- Two services that answer a run alike answer it alike when it is read off other calls. -/
theorem answered_comap {β : Type*} (f : β → α) {s : σ} {t : τ} {bs : List β}
    (h : answered serve s (bs.map f) = answered serve' t (bs.map f)) :
    answered (fun s b => serve s (f b)) s bs = answered (fun t b => serve' t (f b)) t bs := by
  induction bs generalizing s t with
  | nil => rfl
  | cons b bs ih =>
    obtain ⟨hans, htail⟩ := List.cons.inj h
    simp only [answered]
    rw [ih htail, (Prod.mk.inj hans).2]

/-- **The invariant rule**: what ties the state to what was answered, at the start and after
every call that the run may make, holds after every run. -/
theorem inv_after {P : List α → Prop} {I : List (α × ρ) → σ → Prop} {s : σ} (hinit : I [] s)
    (hpre : ∀ as a, P (as ++ [a]) → P as)
    (hstep : ∀ as a, P (as ++ [a]) → I (answered serve s as) (after serve s as) →
      I (answered serve s as ++ [(a, (serve (after serve s as) a).1)]) (serve (after serve s as) a).2)
    {as : List α} (h : P as) : I (answered serve s as) (after serve s as) := by
  induction as using List.reverseRecOn with
  | nil => exact hinit
  | append_singleton as a ih =>
    rw [answered_concat, after_concat]
    exact hstep as a h (ih (hpre as a h))

/-- **The simulation rule**: two services whose states stay related, and that give the same
answer in related states, give the same answers in every run. -/
theorem answered_eq_of_sim {P : List α → Prop} {R : List α → σ → τ → Prop} {s : σ} {t : τ}
    (hinit : R [] s t) (hpre : ∀ as a, P (as ++ [a]) → P as)
    (hstep : ∀ as a s t, P (as ++ [a]) → R as s t →
      (serve s a).1 = (serve' t a).1 ∧ R (as ++ [a]) (serve s a).2 (serve' t a).2)
    {as : List α} (h : P as) :
    answered serve s as = answered serve' t as ∧ R as (after serve s as) (after serve' t as) := by
  induction as using List.reverseRecOn with
  | nil => exact ⟨rfl, hinit⟩
  | append_singleton as a ih =>
    obtain ⟨heq, hR⟩ := ih (hpre as a h)
    obtain ⟨hans, hR'⟩ := hstep as a _ _ h hR
    rw [answered_concat, answered_concat, after_concat, after_concat, heq, hans]
    exact ⟨rfl, hR'⟩

end G2way.Lib
