import G2way.Lib.Service
import G2way.Lib.Window
import Mathlib.Logic.Function.Basic

/-!
# The sliding window log

What `Storage::check_rate` of `g2-storage/src/lib.rs` is for: "each allowed
request is remembered with its timestamp and counts against the limit until
exactly `window` has passed". "Denied requests are not recorded and never consume
a slot."

## The model

`SlidingLog.check` is that contract without any of the storage: for each key it
remembers every allowed request for ever, and counts those that are less than a
window old. The two backends keep less than that; `G2way.Storage.Memory` and
`G2way.Storage.Redis` show that they give the same answers.

## What is proved

`Exact` says what it means that the answers of a run are those of an exact sliding
window: each decision is the one the window calls for, no interval of a window's
length holds more than the limit, a call that was denied or that is on another key
could as well not have been made, and who waits as long as a denial says is let
through. `exact_check`: the sliding window log is exact.
-/

namespace G2way.Storage

open G2way.Lib

/-- `LimitDecision`: the outcome of one limit check. -/
structure LimitDecision where
  /-- Whether the request fit inside the limit. -/
  allowed : Bool
  /-- Requests left after this one. -/
  remaining : ℕ
  /-- Time until the limit frees up. -/
  resetAfter : ℕ
  deriving DecidableEq, Repr

/-- A call of `check_rate`, and the time it is made at. -/
structure RateCall where
  /-- The key. -/
  key : String
  /-- At most so many requests, -/
  limit : ℕ
  /-- in a window of this length. -/
  window : ℕ
  /-- The time of the call. -/
  now : ℕ
  deriving DecidableEq, Repr

/-- The calls of a run are made in the order of their times. -/
def InOrder (calls : List RateCall) : Prop := calls.Pairwise fun c d => c.now ≤ d.now

instance (calls : List RateCall) : Decidable (InOrder calls) :=
  inferInstanceAs (Decidable (List.Pairwise _ _))

/-- When the oldest request that counts slides out. -/
def untilFree (window now : ℕ) (counting : List ℕ) : ℕ :=
  match counting.head? with
  | none => window
  | some oldest => oldest + window - now

/-- The decision, given the requests that count. -/
def decision (limit window now : ℕ) (counting : List ℕ) : LimitDecision :=
  if counting.length < limit then ⟨true, limit - counting.length - 1, untilFree window now counting⟩
  else ⟨false, 0, untilFree window now counting⟩

@[simp] theorem decision_allowed {limit window now : ℕ} {counting : List ℕ} :
    (decision limit window now counting).allowed = true ↔ counting.length < limit := by
  unfold decision
  split_ifs with h <;> simp [h]

@[simp] theorem decision_resetAfter (limit window now : ℕ) (counting : List ℕ) :
    (decision limit window now counting).resetAfter = untilFree window now counting := by
  unfold decision
  split_ifs <;> rfl

theorem decision_remaining (limit window now : ℕ) (counting : List ℕ) :
    (decision limit window now counting).remaining =
      if (decision limit window now counting).allowed = true then limit - (counting.length + 1) else 0 := by
  unfold decision
  by_cases h : counting.length < limit
  · simp [h, Nat.sub_sub]
  · simp [h]

/-- The sliding window log: the times of the allowed requests of each key. -/
abbrev SlidingLog := String → List ℕ

/-- Nothing was allowed yet. -/
def SlidingLog.empty : SlidingLog := fun _ => []

/-- The contract of `check_rate`. -/
def SlidingLog.check (log : SlidingLog) (c : RateCall) : LimitDecision × SlidingLog :=
  let d := decision c.limit c.window c.now (live c.window c.now (log c.key))
  (d, if d.allowed then Function.update log c.key (log c.key ++ [c.now]) else log)

/-- An allowed call is added to the log of its key. -/
theorem SlidingLog.check_snd (log : SlidingLog) (c : RateCall) (k : String) :
    (log.check c).2 k = if c.key = k ∧ (log.check c).1.allowed = true then log k ++ [c.now] else log k := by
  show (if (log.check c).1.allowed then Function.update log c.key (log c.key ++ [c.now]) else log) k = _
  by_cases hd : (log.check c).1.allowed = true
  · rw [if_pos hd]
    by_cases hk : c.key = k
    · subst hk
      simp [hd]
    · simp [hk, Function.update_of_ne (Ne.symm hk)]
  · simp [hd]

/-! ### What a run allowed -/

/-- The times of the requests of a run that were allowed on a key. -/
def recorded (k : String) (run : List (RateCall × LimitDecision)) : List ℕ :=
  (run.filter fun e => e.1.key = k ∧ e.2.allowed).map fun e => e.1.now

/-- How many requests a run allowed on a key at times in `I`. -/
def allowedIn (k : String) (I : ℕ → Prop) [DecidablePred I] (run : List (RateCall × LimitDecision)) : ℕ :=
  run.countP fun e => e.1.key = k ∧ e.2.allowed ∧ I e.1.now

theorem recorded_append (k : String) (run run' : List (RateCall × LimitDecision)) :
    recorded k (run ++ run') = recorded k run ++ recorded k run' := by
  simp [recorded]

theorem recorded_singleton (k : String) (c : RateCall) (d : LimitDecision) :
    recorded k [(c, d)] = if c.key = k ∧ d.allowed then [c.now] else [] := by
  unfold recorded
  split_ifs with h <;> simp [h]

theorem allowedIn_eq (k : String) (I : ℕ → Prop) [DecidablePred I] (run : List (RateCall × LimitDecision)) :
    allowedIn k I run = ((recorded k run).filter I).length := by
  rw [allowedIn, recorded, List.filter_map, List.length_map, List.filter_filter, List.countP_eq_length_filter]
  congr 2
  ext e
  simp only [Function.comp, Bool.decide_and, Bool.and_comm, Bool.and_assoc]

/-- The log is what the run allowed. -/
theorem after_check (calls : List RateCall) (k : String) :
    after SlidingLog.check .empty calls k = recorded k (answered SlidingLog.check .empty calls) := by
  refine inv_after (P := fun _ => True) (I := fun run (log : SlidingLog) => log k = recorded k run)
    rfl (fun _ _ h => h) ?_ trivial
  intro as c _ ih
  rw [recorded_append, recorded_singleton, ← ih, SlidingLog.check_snd]
  split_ifs
  · rfl
  · rw [List.append_nil]

theorem mem_recorded {run : List (RateCall × LimitDecision)} {k : String} {t : ℕ} (h : t ∈ recorded k run) :
    ∃ e ∈ run, e.1.now = t := by
  obtain ⟨e, he, rfl⟩ := List.mem_map.mp h
  exact ⟨e, List.mem_of_mem_filter he, rfl⟩

/-- Of what was recorded up to now, what counts is what lies in the window that ends now. -/
theorem length_live_recorded {run : List (RateCall × LimitDecision)} {k : String} {window now : ℕ}
    (h : ∀ e ∈ run, e.1.now ≤ now) :
    (live window now (recorded k run)).length = allowedIn k (fun t => now < t + window ∧ t ≤ now) run := by
  rw [allowedIn_eq, live]
  congr 1
  refine List.filter_congr fun t ht => ?_
  obtain ⟨e, he, rfl⟩ := mem_recorded ht
  simp [h e he]

/-! ### Exactness -/

/-- The answers of a run of calls, `answer calls`, are those of an exact sliding window, where
a key `k` is always checked with the limit `L k` and the window `W k`. -/
structure Exact (L W : String → ℕ) (answer : List RateCall → List (RateCall × LimitDecision))
    (calls : List RateCall) : Prop where
  /-- A call at `t` is allowed exactly when fewer than the limit were allowed in `(t - W, t]`. -/
  decides : ∀ before c d later, answer calls = before ++ (c, d) :: later →
    (d.allowed = true ↔ allowedIn c.key (fun t => c.now < t + W c.key ∧ t ≤ c.now) before < L c.key)
  /-- What remains is the limit less what was allowed in the window, this call included. -/
  remaining : ∀ before c d later, answer calls = before ++ (c, d) :: later →
    d.remaining = if d.allowed then
      L c.key - (allowedIn c.key (fun t => c.now < t + W c.key ∧ t ≤ c.now) before + 1) else 0
  /-- No half-open interval of a window's length holds more than the limit. -/
  bounded : ∀ k a, allowedIn k (fun t => a < t ∧ t ≤ a + W k) (answer calls) ≤ L k ∧
    allowedIn k (fun t => a ≤ t ∧ t < a + W k) (answer calls) ≤ L k
  /-- A denied call changes no answer: without it the answers are the others. -/
  denied : ∀ before c d later, answer calls = before ++ (c, d) :: later → d.allowed = false →
    answer ((before ++ later).map Prod.fst) = before ++ later
  /-- The calls on other keys change no answer. -/
  others : ∀ k, answer (calls.filter fun c => c.key = k) = (answer calls).filter fun e => e.1.key = k
  /-- Who was denied and waits as long as the denial says is let through, unless another
  request on the key was. -/
  resets : ∀ before c d mid c' d' later, answer calls = before ++ (c, d) :: (mid ++ (c', d') :: later) →
    d.allowed = false → 1 ≤ L c.key → c'.key = c.key →
    (∀ e ∈ mid, e.1.key = c.key → e.2.allowed = false) → c.now + d.resetAfter ≤ c'.now → d'.allowed = true

/-- Exactness is a property of the answers to the run and to the runs left when calls are
taken out of it. -/
theorem Exact.congr {L W : String → ℕ} {answer answer' : List RateCall → List (RateCall × LimitDecision)}
    {calls : List RateCall} (h : Exact L W answer calls) (hmap : (answer calls).map Prod.fst = calls)
    (heq : ∀ calls', List.Sublist calls' calls → answer calls' = answer' calls') : Exact L W answer' calls := by
  have hself : answer calls = answer' calls := heq calls (List.Sublist.refl _)
  constructor
  case decides => exact hself ▸ h.decides
  case remaining => exact hself ▸ h.remaining
  case bounded => exact hself ▸ h.bounded
  case denied =>
    intro before c d later hrun hd
    rw [← hself] at hrun
    rw [← heq, h.denied before c d later hrun hd]
    rw [← hmap, hrun]
    exact ((List.Sublist.refl before).append (List.sublist_cons_self ..)).map Prod.fst
  case others =>
    intro k
    rw [← hself, ← heq _ List.filter_sublist]
    exact h.others k
  case resets => exact hself ▸ h.resets

/-- Each key is always checked with its own window, in order. -/
structure Windowed (W : String → ℕ) (calls : List RateCall) : Prop where
  /-- One window for each key. -/
  window : ∀ c ∈ calls, c.window = W c.key
  /-- In order. -/
  order : InOrder calls

/-- Each key is always checked with its own limit too. -/
structure Steady (L W : String → ℕ) (calls : List RateCall) : Prop extends Windowed W calls where
  /-- One limit for each key. -/
  limit : ∀ c ∈ calls, c.limit = L c.key

/-! ### The sliding window log is exact -/

theorem Windowed.sublist {W : String → ℕ} {calls calls' : List RateCall} (h : Windowed W calls)
    (hsub : List.Sublist calls' calls) : Windowed W calls' where
  window c hc := h.window c (hsub.subset hc)
  order := List.Pairwise.sublist hsub h.order

theorem Steady.sublist {L W : String → ℕ} {calls calls' : List RateCall} (h : Steady L W calls)
    (hsub : List.Sublist calls' calls) : Steady L W calls' where
  toWindowed := h.toWindowed.sublist hsub
  limit c hc := h.limit c (hsub.subset hc)

section

variable {L W : String → ℕ} {calls : List RateCall}

/-- The answer to a call in a run: the decision that what was recorded before calls for. -/
theorem eq_decision (h : Steady L W calls) {before later : List (RateCall × LimitDecision)} {c : RateCall}
    {d : LimitDecision} (hrun : answered SlidingLog.check .empty calls = before ++ (c, d) :: later) :
    d = decision (L c.key) (W c.key) c.now (live (W c.key) c.now (recorded c.key before)) ∧
      ∀ e ∈ before, e.1.now ≤ c.now := by
  obtain ⟨past, rest, rfl, rfl, rfl, -⟩ := answered_eq_append_cons hrun
  have hc : c ∈ past ++ c :: rest := List.mem_append_right _ (List.mem_cons_self ..)
  constructor
  · rw [← after_check, ← h.limit c hc, ← h.window c hc]
    rfl
  · intro e he
    have hmem : e.1 ∈ past := mem_of_mem_answered he
    exact (List.pairwise_append.mp h.order).2.2 e.1 hmem c (List.mem_cons_self ..)

/-- A call is allowed exactly when fewer than the limit were in its window. -/
theorem allowed_iff (h : Steady L W calls) {before later : List (RateCall × LimitDecision)} {c : RateCall}
    {d : LimitDecision} (hrun : answered SlidingLog.check .empty calls = before ++ (c, d) :: later) :
    d.allowed = true ↔ allowedIn c.key (fun t => c.now < t + W c.key ∧ t ≤ c.now) before < L c.key := by
  obtain ⟨rfl, hle⟩ := eq_decision h hrun
  rw [decision_allowed, length_live_recorded hle]

theorem allowedIn_concat (k : String) (I : ℕ → Prop) [DecidablePred I] (run : List (RateCall × LimitDecision))
    (c : RateCall) (d : LimitDecision) :
    allowedIn k I (run ++ [(c, d)]) =
      allowedIn k I run + if c.key = k ∧ d.allowed = true ∧ I c.now then 1 else 0 := by
  rw [allowedIn, List.countP_append, List.countP_singleton]
  simp [allowedIn]

/-- Times that are less than a window apart hold no more than the limit. -/
theorem allowedIn_le {k : String} {I : ℕ → Prop} [DecidablePred I]
    (hI : ∀ t u, I t → I u → t ≤ u → u < t + W k) (h : Steady L W calls) :
    allowedIn k I (answered SlidingLog.check .empty calls) ≤ L k := by
  induction calls using List.reverseRecOn with
  | nil => exact Nat.zero_le _
  | append_singleton calls c ih =>
    have hrun : answered SlidingLog.check .empty (calls ++ [c]) = _ := answered_concat _ calls c
    obtain ⟨-, hle⟩ := eq_decision h hrun
    have hiff := allowed_iff h hrun
    rw [hrun, allowedIn_concat]
    split_ifs with hc
    · obtain ⟨rfl, hd, hIc⟩ := hc
      -- whatever is in `I` lies in the window that ends at this call
      have hmono : allowedIn c.key I (answered SlidingLog.check .empty calls) ≤
          allowedIn c.key (fun t => c.now < t + W c.key ∧ t ≤ c.now) (answered SlidingLog.check .empty calls) := by
        refine List.countP_mono_left fun e he hp => ?_
        simp only [decide_eq_true_eq] at hp ⊢
        exact ⟨hp.1, hp.2.1, hI _ _ hp.2.2 hIc (hle e he), hle e he⟩
      have := hiff.mp hd
      omega
    · exact ih (h.sublist (List.sublist_append_left ..))

/-- Logs that agree on a key answer the calls on it alike, whatever else is called. -/
theorem answered_filter {k : String} {log log' : SlidingLog} (hk : log k = log' k) (calls : List RateCall) :
    answered SlidingLog.check log (calls.filter fun c => c.key = k) =
      (answered SlidingLog.check log' calls).filter fun e => e.1.key = k := by
  induction calls generalizing log log' with
  | nil => rfl
  | cons c calls ih =>
    by_cases hc : c.key = k
    · have hans : (log.check c).1 = (log'.check c).1 := by
        subst hc
        simp only [SlidingLog.check, hk]
      have hnext : (log.check c).2 k = (log'.check c).2 k := by
        rw [SlidingLog.check_snd, SlidingLog.check_snd, hans, hk]
      rw [List.filter_cons_of_pos (by simpa using hc), answered, answered,
        List.filter_cons_of_pos (by simpa using hc), ih hnext, hans]
    · have hnext : log k = (log'.check c).2 k := by
        rw [SlidingLog.check_snd, if_neg (fun h => hc h.1), hk]
      rw [List.filter_cons_of_neg (by simpa using hc), answered,
        List.filter_cons_of_neg (by simpa using hc), ih hnext]

/-- What is not allowed on a key is not recorded. -/
theorem recorded_of_denied {k : String} {run : List (RateCall × LimitDecision)}
    (h : ∀ e ∈ run, e.1.key = k → e.2.allowed = false) : recorded k run = [] := by
  rw [recorded, List.filter_eq_nil_iff.mpr, List.map_nil]
  intro e he
  simp only [decide_eq_true_eq, not_and, Bool.not_eq_true]
  exact h e he

/-- Once the oldest request that counted at a denial has slid out, a slot is free. -/
theorem allowed_of_reset (h : Steady L W calls) {before mid later : List (RateCall × LimitDecision)}
    {c c' : RateCall} {d d' : LimitDecision}
    (hrun : answered SlidingLog.check .empty calls = before ++ (c, d) :: (mid ++ (c', d') :: later))
    (hd : d.allowed = false) (hL : 1 ≤ L c.key) (hkey : c'.key = c.key)
    (hmid : ∀ e ∈ mid, e.1.key = c.key → e.2.allowed = false) (hwait : c.now + d.resetAfter ≤ c'.now) :
    d'.allowed = true := by
  have hrun' : answered SlidingLog.check .empty calls = (before ++ (c, d) :: mid) ++ (c', d') :: later := by
    rw [hrun, List.append_assoc, List.cons_append]
  obtain ⟨hd_eq, hle⟩ := eq_decision h hrun
  obtain ⟨hd_eq', hle'⟩ := eq_decision h hrun'
  have hnow : c.now ≤ c'.now := hle' (c, d) (List.mem_append_right _ (List.mem_cons_self ..))
  have hnone : recorded c.key ((c, d) :: mid) = [] := by
    refine recorded_of_denied fun e he => ?_
    rcases List.mem_cons.mp he with rfl | he
    · exact fun _ => hd
    · exact hmid e he
  -- the window at the denial was full, and no fuller than the limit
  have hfull : L c.key ≤ (live (W c.key) c.now (recorded c.key before)).length := by
    by_contra hlt
    rw [hd_eq, decision_allowed.mpr (not_le.mp hlt)] at hd
    cases hd
  have hcap : (live (W c.key) c.now (recorded c.key before)).length ≤ L c.key := by
    obtain ⟨past, rest, rfl, rfl, -, -⟩ := answered_eq_append_cons hrun
    rw [length_live_recorded hle]
    exact allowedIn_le (fun t u ht hu _ => by omega) (h.sublist (List.sublist_append_left ..))
  obtain ⟨oldest, hold⟩ : ∃ oldest, (live (W c.key) c.now (recorded c.key before)).head? = some oldest := by
    cases hlive : live (W c.key) c.now (recorded c.key before) with
    | nil => rw [hlive, List.length_nil] at hfull; omega
    | cons oldest rest => exact ⟨oldest, rfl⟩
  have hout : oldest + W c.key ≤ c'.now := by
    simp only [hd_eq, decision_resetAfter, untilFree, hold] at hwait
    omega
  have hlt := length_live_lt hnow hold hout
  rw [hd_eq', decision_allowed, hkey, recorded_append, hnone, List.append_nil]
  omega

/-- **The sliding window log is exact.** -/
theorem exact_check (h : Steady L W calls) : Exact L W (answered SlidingLog.check .empty) calls where
  decides before c d later hrun := allowed_iff h hrun
  remaining before c d later hrun := by
    obtain ⟨rfl, hle⟩ := eq_decision h hrun
    rw [← length_live_recorded hle, ← decision_remaining]
  bounded k a := by
    constructor
    · exact allowedIn_le (fun t u ht hu _ => by omega) h
    · exact allowedIn_le (fun t u ht hu _ => by omega) h
  denied before c d later hrun hd := by
    obtain ⟨past, rest, rfl, rfl, rfl, rfl⟩ := answered_eq_append_cons hrun
    have hstay : after SlidingLog.check .empty (past ++ [c]) = after SlidingLog.check .empty past := by
      funext k
      rw [after_concat, SlidingLog.check_snd, if_neg (by simp [hd])]
    rw [List.map_append, map_fst_answered, map_fst_answered, answered_append, hstay]
  others k := answered_filter rfl calls
  resets before c d mid c' d' later := allowed_of_reset h

end

/-! ### Forgetting what no longer counts -/

/-- What a backend keeps of the log of each key after the calls `past`: all of it, less requests
that no longer count. -/
structure Forgets (W : String → ℕ) (past : List RateCall) (kept full : SlidingLog) : Prop where
  /-- What is not kept has slid out. -/
  gone : ∀ k, ∃ gone, full k = gone ++ kept k ∧ ∀ t ∈ gone, ∃ c ∈ past, t + W k ≤ c.now
  /-- The log is in order. -/
  order : ∀ k, (full k).Pairwise (· ≤ ·)
  /-- And made by the calls. -/
  made : ∀ k, ∀ t ∈ full k, ∃ c ∈ past, c.now = t

theorem Forgets.init (W : String → ℕ) : Forgets W [] .empty .empty where
  gone _ := ⟨[], rfl, fun _ h => by cases h⟩
  order _ := List.Pairwise.nil
  made _ _ h := by cases h

section

variable {W : String → ℕ} {past : List RateCall} {kept kept' full : SlidingLog} {c : RateCall}

theorem Forgets.kept_order (h : Forgets W past kept full) (k : String) : (kept k).Pairwise (· ≤ ·) := by
  obtain ⟨gone, hsplit, -⟩ := h.gone k
  have := h.order k
  rw [hsplit] at this
  exact (List.pairwise_append.mp this).2.1

/-- What is kept was recorded before. -/
theorem Forgets.le_now (h : Forgets W past kept full) (hnow : ∀ d ∈ past, d.now ≤ c.now) {k : String} {t : ℕ}
    (ht : t ∈ kept k) : t ≤ c.now := by
  obtain ⟨gone, hsplit, -⟩ := h.gone k
  obtain ⟨d, hd, rfl⟩ := h.made k t (hsplit ▸ List.mem_append_right _ ht)
  exact hnow d hd

/-- What counts of the whole log is what counts of the part that is kept. -/
theorem Forgets.live_eq (h : Forgets W past kept full) {k : String} {now : ℕ} (hnow : ∀ c ∈ past, c.now ≤ now) :
    live (W k) now (full k) = live (W k) now (kept k) := by
  obtain ⟨gone, hsplit, hgone⟩ := h.gone k
  have hnone : live (W k) now gone = [] := by
    rw [List.eq_nil_iff_forall_not_mem]
    intro t ht
    obtain ⟨c, hc, hle⟩ := hgone t (mem_live.mp ht).1
    have := hnow c hc
    have := (mem_live.mp ht).2
    omega
  rw [hsplit, live_append, hnone, List.nil_append]

/-- The answer to a call, from what is kept. -/
theorem Forgets.check_fst (h : Forgets W past kept full) (hwin : c.window = W c.key)
    (hnow : ∀ d ∈ past, d.now ≤ c.now) :
    (full.check c).1 = decision c.limit c.window c.now (live c.window c.now (kept c.key)) := by
  rw [hwin, ← h.live_eq hnow, ← hwin]
  rfl

/-- A backend that drops from its own key what has slid out, adds the request when it is
allowed and leaves the other keys alone keeps what it needs. -/
theorem Forgets.next (h : Forgets W past kept full) (hnow : ∀ d ∈ past, d.now ≤ c.now)
    (hself : ∃ dropped rest, kept c.key = dropped ++ rest ∧ (∀ t ∈ dropped, t + W c.key ≤ c.now) ∧
      kept' c.key = rest ++ if (full.check c).1.allowed = true then [c.now] else [])
    (hother : ∀ k, k ≠ c.key → kept' k = kept k) : Forgets W (past ++ [c]) kept' (full.check c).2 where
  gone k := by
    have hlast : c ∈ past ++ [c] := List.mem_append_right _ (List.mem_singleton_self c)
    obtain ⟨gone, hsplit, hgone⟩ := h.gone k
    have hpast : ∀ t ∈ gone, ∃ d ∈ past ++ [c], t + W k ≤ d.now := fun t ht =>
      (hgone t ht).imp fun d hd => ⟨List.mem_append_left _ hd.1, hd.2⟩
    rw [SlidingLog.check_snd]
    by_cases hk : c.key = k
    · subst hk
      obtain ⟨dropped, rest, hkept, hdropped, hkept'⟩ := hself
      refine ⟨gone ++ dropped, ?_, fun t ht => ?_⟩
      · rw [hkept', hsplit, hkept]
        split_ifs <;> simp_all
      · rcases List.mem_append.mp ht with ht | ht
        · exact hpast t ht
        · exact ⟨c, hlast, hdropped t ht⟩
    · rw [hother k (Ne.symm hk), if_neg (fun h => hk h.1)]
      exact ⟨gone, hsplit, hpast⟩
  order k := by
    rw [SlidingLog.check_snd]
    split_ifs
    · refine List.pairwise_append.mpr ⟨h.order k, List.pairwise_singleton .., fun t ht u hu => ?_⟩
      obtain ⟨d, hd, rfl⟩ := h.made k t ht
      rw [List.mem_singleton.mp hu]
      exact hnow d hd
    · exact h.order k
  made k t ht := by
    rw [SlidingLog.check_snd] at ht
    have hlast : c ∈ past ++ [c] := List.mem_append_right _ (List.mem_singleton_self c)
    have hold : t ∈ full k → ∃ d ∈ past ++ [c], d.now = t := fun ht =>
      (h.made k t ht).imp fun d hd => ⟨List.mem_append_left _ hd.1, hd.2⟩
    split_ifs at ht
    · rcases List.mem_append.mp ht with ht | ht
      · exact hold ht
      · exact ⟨c, hlast, (List.mem_singleton.mp ht).symm⟩
    · exact hold ht

end

theorem Windowed.le_last {W : String → ℕ} {past : List RateCall} {c : RateCall} (h : Windowed W (past ++ [c])) :
    ∀ d ∈ past, d.now ≤ c.now := fun d hd =>
  (List.pairwise_append.mp h.order).2.2 d hd c (List.mem_singleton_self c)

theorem Windowed.window_last {W : String → ℕ} {past : List RateCall} {c : RateCall} (h : Windowed W (past ++ [c])) :
    c.window = W c.key := h.window c (List.mem_append_right _ (List.mem_singleton_self c))

end G2way.Storage
