import Mathlib.Data.List.Basic
import Mathlib.Algebra.Order.Group.Nat

/-!
# Sliding windows

A log is a list of the times at which something was recorded, oldest first. What
counts at `now` is the part of it that was recorded less than a window ago: the
times `t` with `now < t + window`.
-/

namespace G2way.Lib

/-- The part of the log that still counts. -/
def live (window now : ℕ) (log : List ℕ) : List ℕ := log.filter fun t => now < t + window

theorem mem_live {window now t : ℕ} {log : List ℕ} : t ∈ live window now log ↔ t ∈ log ∧ now < t + window := by
  simp [live]

theorem live_append (window now : ℕ) (log log' : List ℕ) :
    live window now (log ++ log') = live window now log ++ live window now log' := List.filter_append ..

/-- What no longer counts never counts again. -/
theorem live_live {window now later : ℕ} (h : now ≤ later) (log : List ℕ) :
    live window later (live window now log) = live window later log := by
  unfold live
  rw [List.filter_filter]
  refine List.filter_congr fun t _ => ?_
  rw [Bool.and_eq_left_iff_imp]
  simp only [decide_eq_true_eq]
  omega

theorem live_of_forall {window now : ℕ} {log : List ℕ} (h : ∀ t ∈ log, now < t + window) :
    live window now log = log := List.filter_eq_self.mpr fun t ht => decide_eq_true (h t ht)

/-- In a log in order, what no longer counts is at the front. -/
theorem dropWhile_eq_live {window now : ℕ} {log : List ℕ} (h : log.Pairwise (· ≤ ·)) :
    log.dropWhile (fun t => t + window ≤ now) = live window now log := by
  induction log with
  | nil => rfl
  | cons t log ih =>
    obtain ⟨hle, hlog⟩ := List.pairwise_cons.mp h
    by_cases ht : t + window ≤ now
    · have hgone : live window now (t :: log) = live window now log :=
        List.filter_cons_of_neg (by simpa using ht)
      rw [List.dropWhile_cons_of_pos (by simpa using ht), ih hlog, hgone]
    · have hall : ∀ u ∈ t :: log, now < u + window := by
        intro u hu
        rcases List.mem_cons.mp hu with rfl | hu
        · omega
        · have := hle u hu
          omega
      rw [List.dropWhile_cons_of_neg (by simpa using ht), live_of_forall hall]

/-- Once the oldest entry that counts has slid out, fewer entries count. -/
theorem length_live_lt {window now later oldest : ℕ} {log : List ℕ} (hle : now ≤ later)
    (h : (live window now log).head? = some oldest) (hout : oldest + window ≤ later) :
    (live window later log).length < (live window now log).length := by
  rw [← live_live hle]
  cases hlive : live window now log with
  | nil => simp [hlive] at h
  | cons t rest =>
    obtain rfl : t = oldest := by simpa [hlive] using h
    have hgone : live window later (t :: rest) = live window later rest :=
      List.filter_cons_of_neg (by simpa using hout)
    rw [hgone]
    exact Nat.lt_succ_of_le (List.length_filter_le _ _)

end G2way.Lib
