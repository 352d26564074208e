import G2way.Storage.SlidingLog
import Mathlib.Data.List.TakeWhile

/-!
# The in-memory storage

`MemoryStorage` of `g2-storage/src/memory.rs`, "a process-local `Storage` backed by
a `HashMap`": the sliding-window logs behind `check_rate`, the fixed-period
counters behind `check_quota`, and the lists behind `list_append` and
`list_drain`.

## The model

Each hash map is a partial function of the key. An operation takes the write lock
of its map for as long as it runs, so it is one step of the state. The time
`Instant::now()` reads is part of the call.

## What is proved

`checkRate_refines`: `check_rate` answers as the sliding window log does, though it
forgets a request as soon as it no longer counts. So it is exact
(`memory_checkRate_exact`).
-/

namespace G2way.Storage

open G2way.Lib

/-- A call of `check_quota`, and the time it is made at. -/
structure QuotaCall where
  /-- The key. -/
  key : String
  /-- At most so many requests, -/
  max : ℕ
  /-- in a period of this length. -/
  period : ℕ
  /-- The time of the call. -/
  now : ℕ
  deriving DecidableEq, Repr

/-- `QuotaEntry`: requests so far, and when the period renews. -/
structure QuotaEntry where
  /-- The requests counted in this period. -/
  count : ℕ
  /-- When it renews. -/
  resetsAt : ℕ
  deriving DecidableEq, Repr

/-- The part of `MemoryStorage` that counts and queues. -/
structure MemoryStorage where
  /-- The request logs of `check_rate`, oldest first. -/
  windows : String → Option (List ℕ)
  /-- The counters of `check_quota`. -/
  quotas : String → Option QuotaEntry
  /-- The lists of `list_append` and `list_drain`. -/
  lists : String → Option (List String)

namespace MemoryStorage

/-- `MemoryStorage::new`. -/
def new : MemoryStorage := ⟨fun _ => none, fun _ => none, fun _ => none⟩

/-! ### The quota check -/

/-- `check_quota`. The counter is a `u64`. -/
def checkQuota (s : MemoryStorage) (c : QuotaCall) : LimitDecision × MemoryStorage :=
  let entry := (s.quotas c.key).getD ⟨0, c.now + c.period⟩
  let entry := if entry.resetsAt ≤ c.now then ⟨0, c.now + c.period⟩ else entry
  let entry := { entry with count := (entry.count + 1) % 2 ^ 64 }
  let resetAfter := entry.resetsAt - c.now
  (if c.max < entry.count then ⟨false, 0, resetAfter⟩ else ⟨true, c.max - entry.count, resetAfter⟩,
    { s with quotas := Function.update s.quotas c.key (some entry) })

/-! ### The lists -/

/-- `while list.len() > max { list.pop_front(); }`. -/
def popFront (max : ℕ) : List String → List String
  | [] => []
  | v :: rest => if max < (v :: rest).length then popFront max rest else v :: rest

/-- `list_append`. -/
def listAppend (s : MemoryStorage) (key : String) (values : List String) (maxLen : Option ℕ) : MemoryStorage :=
  if values = [] then s
  else
    let list := (s.lists key).getD [] ++ values
    let list := maxLen.elim list fun max => popFront max list
    { s with lists := Function.update s.lists key (some list) }

/-- `list_drain`. A list that becomes empty is removed. -/
def listDrain (s : MemoryStorage) (key : String) (max : ℕ) : List String × MemoryStorage :=
  match s.lists key with
  | none => ([], s)
  | some list =>
    let rest := list.drop (min max list.length)
    (list.take (min max list.length),
      { s with lists := Function.update s.lists key (if rest = [] then none else some rest) })

/-! ### The rate check -/

/-- Drop requests that have slid out of the window. -/
def slide (window now : ℕ) (log : List ℕ) : List ℕ := log.dropWhile fun t => window ≤ now - t

/-- Until when the oldest recorded request keeps counting. -/
def resetAfter (window now : ℕ) (log : List ℕ) : ℕ :=
  match log.head? with
  | none => window
  | some oldest => window - (now - oldest)

/-- `check_rate`. A log that is empty when the request is denied is removed. -/
def checkRate (s : MemoryStorage) (c : RateCall) : LimitDecision × MemoryStorage :=
  let log := slide c.window c.now ((s.windows c.key).getD [])
  if log.length < c.limit then
    (⟨true, c.limit - log.length - 1, resetAfter c.window c.now log⟩,
      { s with windows := Function.update s.windows c.key (some (log ++ [c.now])) })
  else
    (⟨false, 0, resetAfter c.window c.now log⟩,
      { s with windows := Function.update s.windows c.key (if log = [] then none else some log) })

/-- The log kept for a key. -/
def log (s : MemoryStorage) (k : String) : List ℕ := (s.windows k).getD []

/-- What one call of `check_rate` does when the window has room. -/
theorem checkRate_of_lt {s : MemoryStorage} {c : RateCall}
    (h : (slide c.window c.now (s.log c.key)).length < c.limit) :
    s.checkRate c =
      (⟨true, c.limit - (slide c.window c.now (s.log c.key)).length - 1,
        resetAfter c.window c.now (slide c.window c.now (s.log c.key))⟩,
      { s with windows := Function.update s.windows c.key (some (slide c.window c.now (s.log c.key) ++ [c.now])) }) :=
  if_pos h

/-- And when it is full. -/
theorem checkRate_of_not_lt {s : MemoryStorage} {c : RateCall}
    (h : ¬ (slide c.window c.now (s.log c.key)).length < c.limit) :
    s.checkRate c =
      (⟨false, 0, resetAfter c.window c.now (slide c.window c.now (s.log c.key))⟩,
      { s with
        windows := Function.update s.windows c.key <|
          if slide c.window c.now (s.log c.key) = [] then none else some (slide c.window c.now (s.log c.key)) }) :=
  if_neg h

/-- What `check_rate` keeps of its own key: what still counts, and the request when it is
allowed. -/
theorem log_checkRate_self (s : MemoryStorage) (c : RateCall) :
    (s.checkRate c).2.log c.key =
      slide c.window c.now (s.log c.key) ++ if (s.checkRate c).1.allowed = true then [c.now] else [] := by
  by_cases h : (slide c.window c.now (s.log c.key)).length < c.limit
  · rw [checkRate_of_lt h]
    simp [log]
  · rw [checkRate_of_not_lt h]
    generalize slide c.window c.now (s.log c.key) = kept
    cases kept <;> simp [log]

/-- And of any other key: what was there. -/
theorem log_checkRate_of_ne {c : RateCall} {k : String} (h : k ≠ c.key) (s : MemoryStorage) :
    (s.checkRate c).2.log k = s.log k := by
  by_cases hlt : (slide c.window c.now (s.log c.key)).length < c.limit
  · rw [checkRate_of_lt hlt]
    simp [log, Function.update_of_ne h]
  · rw [checkRate_of_not_lt hlt]
    simp [log, Function.update_of_ne h]

theorem slide_eq_live {window now : ℕ} (hw : 0 < window) {log : List ℕ} (h : log.Pairwise (· ≤ ·)) :
    slide window now log = live window now log := by
  rw [← dropWhile_eq_live h, slide]
  congr 1
  funext t
  rw [decide_eq_decide]
  omega

/-- The decision is the one that what still counts calls for. -/
theorem checkRate_fst {s : MemoryStorage} {c : RateCall} (hw : 0 < c.window)
    (hlog : (s.log c.key).Pairwise (· ≤ ·)) (hpast : ∀ t ∈ s.log c.key, t ≤ c.now) :
    (s.checkRate c).1 = decision c.limit c.window c.now (live c.window c.now (s.log c.key)) := by
  have hreset : resetAfter c.window c.now (live c.window c.now (s.log c.key)) =
      untilFree c.window c.now (live c.window c.now (s.log c.key)) := by
    unfold resetAfter untilFree
    cases hlive : live c.window c.now (s.log c.key) with
    | nil => rfl
    | cons oldest rest =>
      have hmem : oldest ∈ live c.window c.now (s.log c.key) := hlive ▸ List.mem_cons_self ..
      have := hpast oldest (mem_live.mp hmem).1
      simp only [List.head?_cons]
      omega
  rw [decision, ← hreset, ← slide_eq_live hw hlog]
  split_ifs with h
  · rw [checkRate_of_lt h]
  · rw [checkRate_of_not_lt h]

/-- **The memory answers as the sliding window log does.** -/
theorem checkRate_refines {W : String → ℕ} (hW : ∀ k, 0 < W k) {calls : List RateCall} (h : Windowed W calls) :
    answered checkRate new calls = answered SlidingLog.check .empty calls := by
  refine (answered_eq_of_sim (P := Windowed W) (R := fun past s full => Forgets W past s.log full)
    (Forgets.init W) (fun as a h => h.sublist (List.sublist_append_left ..)) ?_ h).1
  intro past c s full hP hR
  have hans : (s.checkRate c).1 = (full.check c).1 := by
    rw [hR.check_fst hP.window_last hP.le_last]
    exact checkRate_fst (hP.window_last ▸ hW _) (hR.kept_order _) fun t => hR.le_now hP.le_last
  refine ⟨hans, hR.next hP.le_last ?_ fun k hk => log_checkRate_of_ne hk s⟩
  refine ⟨_, _, (List.takeWhile_append_dropWhile (p := fun t => c.window ≤ c.now - t)).symm, fun t ht => ?_, ?_⟩
  · have hle := List.mem_takeWhile_imp ht
    have hpos := hW c.key
    rw [decide_eq_true_eq, hP.window_last] at hle
    omega
  · rw [log_checkRate_self, hans]
    rfl

/-- **`check_rate` of the memory backend is an exact sliding window.** -/
theorem memory_checkRate_exact {L W : String → ℕ} (hW : ∀ k, 0 < W k) {calls : List RateCall}
    (h : Steady L W calls) : Exact L W (answered checkRate new) calls := by
  refine (exact_check h).congr (map_fst_answered ..) fun calls' hsub => ?_
  exact (checkRate_refines hW (h.toWindowed.sublist hsub)).symm

/-- One request a second on one key: the second is denied, and told to wait out the first. -/
theorem memory_checkRate_exact_pair :
    Exact (fun _ => 1) (fun _ => 1000) (answered checkRate new) [⟨"k", 1, 1000, 0⟩, ⟨"k", 1, 1000, 400⟩] ∧
      answered checkRate new [⟨"k", 1, 1000, 0⟩, ⟨"k", 1, 1000, 400⟩] =
        [(⟨"k", 1, 1000, 0⟩, ⟨true, 0, 1000⟩), (⟨"k", 1, 1000, 400⟩, ⟨false, 0, 600⟩)] :=
  ⟨memory_checkRate_exact (fun _ => by decide) ⟨⟨by decide, by decide⟩, by decide⟩, by decide⟩

end MemoryStorage

end G2way.Storage
