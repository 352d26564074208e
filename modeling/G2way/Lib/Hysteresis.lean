import Mathlib.Data.List.Basic
import Mathlib.Tactic.Common

/-!
# A flag with hysteresis

A flag follows a sequence of outcomes with a delay: it turns to `b` at the outcome that
completes `thr b` outcomes `b` in a row, all of them while the flag was the other way
(`Hysteresis`). The outcomes and the thresholds determine it (`Hysteresis.unique`).

An implementation counts streaks and never looks back. `hysteresis_of_streak` says that
this is enough: a flag that turns when the streak of the last outcome has reached the
threshold of that outcome has the hysteresis.
-/

namespace G2way.Lib

variable {thr : Bool → ℕ} {o o' flag flag' : ℕ → Bool}

/-- How many of the first `n` outcomes, from the last one back, are `b` in a row. -/
def streak (b : Bool) (o : ℕ → Bool) : ℕ → ℕ
  | 0 => 0
  | n + 1 => if o n = b then streak b o n + 1 else 0

/-- A streak is as long as the outcomes it is made of. -/
theorem le_streak_iff {b : Bool} {n m : ℕ} :
    m ≤ streak b o n ↔ m ≤ n ∧ ∀ k < m, o (n - 1 - k) = b := by
  induction n generalizing m with
  | zero =>
    simp only [streak, Nat.le_zero]
    constructor
    · rintro rfl
      exact ⟨rfl, fun k hk => absurd hk (Nat.not_lt_zero k)⟩
    · exact And.left
  | succ n ih =>
    cases m with
    | zero => simp
    | succ m =>
      simp only [streak]
      by_cases ho : o n = b
      · rw [if_pos ho, Nat.add_le_add_iff_right, ih, Nat.add_le_add_iff_right]
        refine and_congr_right fun _ => ⟨fun h k hk => ?_, fun h k hk => ?_⟩
        · cases k with
          | zero => exact ho
          | succ k =>
            rw [show n + 1 - 1 - (k + 1) = n - 1 - k by omega]
            exact h k (by omega)
        · rw [show n - 1 - k = n + 1 - 1 - (k + 1) by omega]
          exact h (k + 1) (by omega)
      · rw [if_neg ho]
        exact ⟨fun h => absurd h (by omega), fun h => absurd (h.2 0 (by omega)) ho⟩

/-- **The specification**: the flag starts up, and it turns to `b` exactly at an outcome that
completes `thr b` outcomes `b` in a row, all of them while it was the other way. -/
structure Hysteresis (thr : Bool → ℕ) (o flag : ℕ → Bool) : Prop where
  /-- The flag before the first outcome. -/
  start : flag 0 = true
  /-- When the flag turns: `flag n` is the flag before the outcome `o n`, `flag (n + 1)` after it. -/
  turn : ∀ n b, flag n = (!b) →
    (flag (n + 1) = b ↔ thr b ≤ n + 1 ∧ ∀ k < thr b, o (n - k) = b ∧ flag (n - k) = !b)

/-- The first `n` outcomes determine the flag behind them. -/
theorem Hysteresis.unique (h : Hysteresis thr o flag) (h' : Hysteresis thr o' flag') {n : ℕ}
    (ho : ∀ m < n, o m = o' m) : flag n = flag' n := by
  induction n using Nat.strongRecOn with
  | ind n ih =>
    cases n with
    | zero => rw [h.start, h'.start]
    | succ n =>
      have hpast : ∀ m ≤ n, flag m = flag' m := fun m hm => ih m (by omega) fun l hl => ho l (by omega)
      have hb : flag n = !!flag n := (Bool.not_not _).symm
      have hturn := h.turn n _ hb
      have hturn' := h'.turn n _ ((hpast n (Nat.le_refl n)).symm.trans hb)
      have hsame : flag (n + 1) = (!flag n) ↔ flag' (n + 1) = !flag n := by
        rw [hturn, hturn']
        refine and_congr_right fun hle => forall_congr' fun k => imp_congr_right fun hk => ?_
        rw [ho (n - k) (by omega), hpast (n - k) (by omega)]
      revert hsame
      cases flag (n + 1) <;> cases flag' (n + 1) <;> cases flag n <;> simp

/-- An outcome does not turn the flag away from it. -/
theorem eq_of_streak_step (hstep : ∀ n, flag (n + 1) = if thr (o n) ≤ streak (o n) o (n + 1) then o n else flag n)
    {n : ℕ} (h : flag (n + 1) = !o n) : flag n = !o n := by
  rw [hstep n] at h
  split_ifs at h
  · exact absurd h (by cases o n <;> decide)
  · exact h

/-- **Streaks are enough**: a flag that takes the last outcome once its streak has reached the
threshold, and keeps its value before, has the hysteresis. -/
theorem hysteresis_of_streak (hthr : ∀ b, 1 ≤ thr b) (hstart : flag 0 = true)
    (hstep : ∀ n, flag (n + 1) = if thr (o n) ≤ streak (o n) o (n + 1) then o n else flag n) :
    Hysteresis thr o flag := by
  refine ⟨hstart, fun n b hflag => ⟨fun hturn => ?_, fun ⟨hle, hall⟩ => ?_⟩⟩
  · have hb : o n = b ∧ thr b ≤ streak b o (n + 1) := by
      have h := hstep n
      rw [hturn] at h
      split_ifs at h with hreached
      · exact ⟨h.symm, h ▸ hreached⟩
      · exact absurd (h.trans hflag) (by cases b <;> decide)
    obtain ⟨hle, hrow⟩ := le_streak_iff.mp hb.2
    refine ⟨hle, fun k hk => ⟨hrow k hk, ?_⟩⟩
    -- back along the streak, whose outcomes cannot have turned the flag away from `b`
    induction k with
    | zero => exact hflag
    | succ k ih =>
      have ho : o (n - (k + 1)) = b := hrow (k + 1) hk
      have hlater : flag (n - (k + 1) + 1) = !b := by
        rw [show n - (k + 1) + 1 = n - k by omega]
        exact ih (by omega)
      rw [← ho] at hlater ⊢
      exact eq_of_streak_step hstep hlater
  · have ho : o n = b := (hall 0 (hthr b)).1
    have hreached : thr b ≤ streak b o (n + 1) := le_streak_iff.mpr ⟨hle, fun k hk => (hall k hk).1⟩
    rw [hstep n, ho, if_pos hreached]

end G2way.Lib
