import G2way.Storage.Redis

/-!
# The list queues

`Storage::list_append` and `Storage::list_drain`: "a bounded buffer where the oldest
entries fall off", which "gives FIFO queue semantics — how an analytics pump drains
records".

## The model

`Fifo.serve` is the contract: a non-empty append leaves the newest `max_len` of what
was there and what was added, a drain takes the oldest `max` away. `ListCall` is a
call of either backend; a call that fails answers `none`.

## What is proved

The memory backend is the bounded queue (`memory_lists_refine`). The Redis backend
writes the cap as an `LTRIM` from `-max_len`, and an index `-0` counts from the head:
a cap of zero keeps the whole list (`zero_cap_keeps_all`). Its counts and caps are
`i64`, so that a drain of `2^63` or more fails where the memory backend drains all.
`lists_are_fifo_iff` says that these are all the differences.
-/

namespace G2way.Storage

open G2way.Lib

/-- A call on the lists. -/
inductive ListCall where
  /-- `list_append(key, values, max_len)`. -/
  | append (key : String) (values : List String) (maxLen : Option ℕ)
  /-- `list_drain(key, max)`. -/
  | drain (key : String) (max : ℕ)
  deriving DecidableEq, Repr

/-! ### The contract -/

/-- The newest elements of a list, up to a cap. -/
def newest (maxLen : Option ℕ) (list : List String) : List String :=
  maxLen.elim list fun max => list.drop (list.length - max)

/-- A queue for each key. -/
abbrev Fifo := String → List String

/-- Empty queues. -/
def Fifo.empty : Fifo := fun _ => []

/-- The bounded queue. -/
def Fifo.serve (q : Fifo) : ListCall → Option (List String) × Fifo
  | .append k values maxLen =>
    (some [], if values = [] then q else Function.update q k (newest maxLen (q k ++ values)))
  | .drain k max => (some ((q k).take max), Function.update q k ((q k).drop max))

/-! ### The memory backend -/

namespace MemoryStorage

/-- A call on the memory backend. -/
def serveList (s : MemoryStorage) : ListCall → Option (List String) × MemoryStorage
  | .append k values maxLen => (some [], s.listAppend k values maxLen)
  | .drain k max => (some (s.listDrain k max).1, (s.listDrain k max).2)

/-- The list at a key. -/
def contents (s : MemoryStorage) (k : String) : List String := (s.lists k).getD []

theorem popFront_eq_drop (max : ℕ) (list : List String) : popFront max list = list.drop (list.length - max) := by
  induction list with
  | nil => simp [popFront]
  | cons v rest ih =>
    rw [popFront]
    split_ifs with hlong
    · have : (v :: rest).length - max = rest.length - max + 1 := by
        rw [List.length_cons] at hlong ⊢
        omega
      rw [this, List.drop_succ_cons, ih]
    · rw [Nat.sub_eq_zero_of_le (not_lt.mp hlong), List.drop_zero]

/-- One call on the memory backend is one call on the queues. -/
theorem serveList_eq {s : MemoryStorage} {q : Fifo} (h : s.contents = q) (call : ListCall) :
    (s.serveList call).1 = (q.serve call).1 ∧ (s.serveList call).2.contents = (q.serve call).2 := by
  subst h
  cases call with
  | append k values maxLen =>
    refine ⟨rfl, ?_⟩
    by_cases hnil : values = []
    · simp [serveList, listAppend, Fifo.serve, hnil]
    · simp only [serveList, listAppend, Fifo.serve, if_neg hnil]
      funext k'
      by_cases hk : k' = k
      · subst hk
        cases maxLen with
        | none => simp [contents, newest]
        | some max => simp [contents, newest, popFront_eq_drop]
      · simp [contents, Function.update_of_ne hk]
  | drain k max =>
    simp only [serveList, listDrain, Fifo.serve]
    cases hlist : s.lists k with
    | none =>
      have hempty : s.contents k = [] := by rw [contents, hlist]; rfl
      have hsame : Function.update s.contents k ((s.contents k).drop max) = s.contents := by
        rw [hempty, List.drop_nil, ← hempty, Function.update_eq_self]
      exact ⟨by rw [hempty, List.take_nil], hsame.symm⟩
    | some list =>
      have hself : s.contents k = list := by rw [contents, hlist]; rfl
      have htake : list.take (min max list.length) = list.take max := List.take_eq_take_min.symm
      have hdrop : list.drop (min max list.length) = list.drop max := List.drop_eq_drop_min.symm
      rw [hself]
      refine ⟨congrArg some htake, ?_⟩
      funext k'
      by_cases hk : k' = k
      · subst hk
        simp only [contents, Function.update_self, hdrop]
        split_ifs with hnil
        · exact hnil.symm
        · rfl
      · simp [contents, Function.update_of_ne hk]

end MemoryStorage

/-! ### The Redis backend -/

namespace RedisStorage

/-- A call on the Redis backend. -/
def serveList (r : RedisStorage) : ListCall → Option (List String) × RedisStorage
  | .append k values maxLen => (some [], r.listAppend k values maxLen)
  | .drain k max => r.listDrain k max

/-- The list at a key. -/
def contents (r : RedisStorage) (k : String) : List String := (r.lists k).getD []

theorem getD_store (list : List String) : (store list).getD [] = list := by
  unfold store
  split_ifs with h
  · exact h.symm
  · rfl

/-- `LTRIM` from an index to the last element. -/
theorem ltrim_last {start : ℤ} {i : ℕ} {list : List String} (hlist : list ≠ [])
    (hstart : (if (if start < 0 then start + list.length else start) < 0 then 0
      else if start < 0 then start + list.length else start) = (i : ℤ)) (hi : i < list.length) :
    ltrim start (-1) list = list.drop i := by
  have hpos : 0 < list.length := List.length_pos_iff.mpr hlist
  have hstop : ((-1 : ℤ) + list.length + 1).toNat = list.length := by omega
  simp only [ltrim, hstart]
  rw [if_neg (by simp only [show ((-1 : ℤ) < 0) by decide, if_true]; omega),
    if_pos (show (-1 : ℤ) < 0 by decide), hstop, List.take_length, Int.toNat_natCast]

/-- `LTRIM` from minus a positive number keeps that many. -/
theorem ltrim_neg {n : ℕ} (hn : 0 < n) (list : List String) :
    ltrim (-(n : ℤ)) (-1) list = list.drop (list.length - n) := by
  by_cases hlist : list = []
  · subst hlist
    simp [ltrim]
  · have hpos : 0 < list.length := List.length_pos_iff.mpr hlist
    refine ltrim_last hlist ?_ (by omega)
    split_ifs <;> omega

/-- `LTRIM` from minus zero keeps all. -/
theorem ltrim_zero (list : List String) : ltrim (-((0 : ℕ) : ℤ)) (-1) list = list := by
  by_cases hlist : list = []
  · subst hlist
    simp [ltrim]
  · exact ltrim_last hlist (i := 0) (by simp) (List.length_pos_iff.mpr hlist)

/-- The trim keeps the newest exactly when the cap is not zero and fits an `i64`, or no cap that
does not fit is needed. -/
theorem ltrim_eq_newest_iff {max : ℕ} {list : List String} (hlist : list ≠ []) :
    ltrim (-(min max (2 ^ 63 - 1) : ℕ)) (-1) list = newest (some max) list ↔
      max ≠ 0 ∧ (max < 2 ^ 63 ∨ list.length < 2 ^ 63) := by
  have hpos : 0 < list.length := List.length_pos_iff.mpr hlist
  rw [newest, Option.elim_some]
  by_cases hzero : max = 0
  · subst hzero
    rw [Nat.zero_min, ltrim_zero, Nat.sub_zero, List.drop_length]
    simp [hlist]
  · rw [ltrim_neg (by omega)]
    constructor
    · intro heq
      have hlen := congrArg List.length heq
      simp only [List.length_drop] at hlen
      omega
    · rintro ⟨-, hfit⟩
      congr 1
      omega

/-- The calls on which Redis is a bounded queue. -/
def Fits (q : Fifo) : ListCall → Prop
  | .append k values maxLen =>
    values = [] ∨ ∀ max, maxLen = some max → max ≠ 0 ∧ (max < 2 ^ 63 ∨ (q k ++ values).length < 2 ^ 63)
  | .drain _ max => max < 2 ^ 63

theorem contents_append {r : RedisStorage} {k : String} {values : List String} {maxLen : Option ℕ}
    (hnil : values ≠ []) :
    (r.listAppend k values maxLen).contents = Function.update r.contents k
      (maxLen.elim (r.contents k ++ values) fun max =>
        ltrim (-(min max (2 ^ 63 - 1) : ℕ)) (-1) (r.contents k ++ values)) := by
  funext k'
  simp only [listAppend, if_neg hnil, contents]
  by_cases hk : k' = k
  · subst hk
    simp only [Function.update_self, getD_store]
  · simp only [Function.update_of_ne hk]
    rfl

/-- **One call on Redis is one call on the queues** exactly when it fits. -/
theorem serveList_eq_iff {r : RedisStorage} {q : Fifo} (h : r.contents = q) (call : ListCall) :
    ((r.serveList call).1 = (q.serve call).1 ∧ (r.serveList call).2.contents = (q.serve call).2) ↔ Fits q call := by
  subst h
  cases call with
  | append k values maxLen =>
    by_cases hnil : values = []
    · simp [serveList, listAppend, Fifo.serve, Fits, hnil]
    · have hlist : r.contents k ++ values ≠ [] := by simp [hnil]
      simp only [serveList, Fifo.serve, Fits, contents_append hnil, hnil, true_and, false_or, if_false]
      rw [(Function.update_injective _ _).eq_iff]
      cases maxLen with
      | none => simp [newest]
      | some max => simp only [Option.elim_some, ltrim_eq_newest_iff hlist, Option.some.injEq, forall_eq']
  | drain k max =>
    simp only [serveList, listDrain, Fifo.serve, Fits]
    split_ifs with hzero hbig
    · simp [hzero]
    · simp
      omega
    · refine iff_of_true ⟨rfl, ?_⟩ (by omega)
      funext k'
      by_cases hk : k' = k
      · subst hk
        simp only [contents, Function.update_self, getD_store]
      · simp only [contents, Function.update_of_ne hk]

end RedisStorage

/-! ### Runs -/

/-- A backend behaves as the bounded queue in a run: it answers every call as the queue does, and
after every call its lists are the queues. -/
def BehavesAsFifo {σ : Type*} (serve : σ → ListCall → Option (List String) × σ) (contents : σ → Fifo) (s : σ)
    (calls : List ListCall) : Prop :=
  answered serve s calls = answered Fifo.serve .empty calls ∧
    ∀ past rest, calls = past ++ rest → contents (after serve s past) = after Fifo.serve .empty past

/-- A backend whose calls are calls on the queues behaves as the bounded queue. -/
theorem behavesAsFifo_of_step {σ : Type*} {serve : σ → ListCall → Option (List String) × σ} {contents : σ → Fifo}
    {s : σ} {calls : List ListCall} (hinit : contents s = .empty)
    (hstep : ∀ past c rest, calls = past ++ c :: rest →
      contents (after serve s past) = after Fifo.serve .empty past →
      (serve (after serve s past) c).1 = (Fifo.serve (after Fifo.serve .empty past) c).1 ∧
        contents (serve (after serve s past) c).2 = (Fifo.serve (after Fifo.serve .empty past) c).2) :
    BehavesAsFifo serve contents s calls := by
  have hsim : ∀ past, (∃ rest, calls = past ++ rest) →
      answered serve s past = answered Fifo.serve .empty past ∧
        (after serve s past = after serve s past ∧ after Fifo.serve .empty past = after Fifo.serve .empty past ∧
          contents (after serve s past) = after Fifo.serve .empty past) := by
    intro past hpast
    refine answered_eq_of_sim (P := fun past => ∃ rest, calls = past ++ rest)
      (R := fun past u q => u = after serve s past ∧ q = after Fifo.serve .empty past ∧ contents u = q)
      ⟨rfl, rfl, hinit⟩ ?_ ?_ hpast
    · rintro as a ⟨rest, heq⟩
      exact ⟨a :: rest, by rw [heq, List.append_assoc, List.singleton_append]⟩
    · rintro as a _ _ ⟨rest, heq⟩ ⟨rfl, rfl, hsame⟩
      rw [List.append_assoc, List.singleton_append] at heq
      obtain ⟨hans, hnext⟩ := hstep as a rest heq hsame
      exact ⟨hans, (after_concat ..).symm, (after_concat ..).symm, hnext⟩
  exact ⟨(hsim calls ⟨[], (List.append_nil _).symm⟩).1, fun past rest heq => (hsim past ⟨rest, heq⟩).2.2.2⟩

/-- **The memory backend is the bounded queue.** -/
theorem memory_lists_refine (calls : List ListCall) :
    BehavesAsFifo MemoryStorage.serveList MemoryStorage.contents .new calls :=
  behavesAsFifo_of_step rfl fun _ c _ _ h => MemoryStorage.serveList_eq h c

/-- Both backends behave as the one bounded queue, and so they answer alike. -/
structure QueueContract (calls : List ListCall) : Prop where
  /-- The memory backend is the queue. -/
  memory : BehavesAsFifo MemoryStorage.serveList MemoryStorage.contents .new calls
  /-- The Redis backend is the queue. -/
  redis : BehavesAsFifo RedisStorage.serveList RedisStorage.contents .new calls
  /-- They hand out the same values. -/
  same : answered MemoryStorage.serveList .new calls = answered RedisStorage.serveList .new calls

/-- **Both backends are the bounded queue exactly when** every call fits Redis. -/
theorem lists_are_fifo_iff (calls : List ListCall) :
    QueueContract calls ↔
    ∀ past c rest, calls = past ++ c :: rest → RedisStorage.Fits (after Fifo.serve .empty past) c := by
  constructor
  · rintro ⟨-, ⟨hans, hcontents⟩, -⟩ past c rest rfl
    refine (RedisStorage.serveList_eq_iff (hcontents past (c :: rest) rfl) c).mp ⟨?_, ?_⟩
    · exact answer_eq_of_answered_eq hans
    · have hnext := hcontents (past ++ [c]) rest (by simp)
      rwa [after_concat, after_concat] at hnext
  · intro hfits
    have hredis : BehavesAsFifo RedisStorage.serveList RedisStorage.contents .new calls :=
      behavesAsFifo_of_step rfl fun past c rest heq h =>
        (RedisStorage.serveList_eq_iff h c).mpr (hfits past c rest heq)
    exact ⟨memory_lists_refine calls, hredis, (memory_lists_refine calls).1.trans hredis.1.symm⟩

/-- A cap of zero keeps the whole list on Redis: the next drain hands out what the queue, and the
memory backend, have dropped. -/
theorem zero_cap_keeps_all : ¬ ∀ calls : List ListCall, QueueContract calls := by
  intro h
  have hsame := (h [.append "k" ["a"] (some 0), .drain "k" 10]).same
  exact absurd hsame (by decide +kernel)

end G2way.Storage
