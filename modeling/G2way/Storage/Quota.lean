import G2way.Storage.Redis

/-!
# Fixed-period quotas

`Storage::check_quota`: "the counter starts with the first request of a period and
resets `period` after it — the reset timestamp is part of the contract". The memory
backend keeps the reset instant beside the counter; the Redis backend is "a plain
counter whose TTL is the period".

## The model

`opening` reads off the times of the calls on a key when the period it is in began:
at the first call, and again at the first call at or after the end of the period
before. `Metered` says that a run of calls was answered by such a quota: the calls of
a period are allowed up to the maximum, and every answer in it names the same end.

## What is proved

Both backends keep, for each key, the calls of the period and its end (`entryAfter`).
The memory backend does so always. Redis does so unless a call falls into the very
millisecond in which the period ends: the memory backend then starts a new period,
but a key in Redis is still there at its deadline, so the call counts towards the old
period and is told to wait no time at all (`renewal_instant_denied`).
`backends_checkQuota_agree` says that the backends agree in every run without such a
call, as long as the numbers of the script are exact.
-/

namespace G2way.Storage

open G2way.Lib

/-! ### Periods -/

/-- When the period began that a key is in after calls at these times. -/
def opening (T : ℕ) (times : List ℕ) : Option ℕ :=
  times.foldl (fun s t => some (s.elim t fun s => if s + T ≤ t then t else s)) none

theorem opening_concat (T : ℕ) (times : List ℕ) (t : ℕ) :
    opening T (times ++ [t]) = some ((opening T times).elim t fun s => if s + T ≤ t then t else s) := by
  simp [opening]

/-- A call begins a period, when there was none or it is over, or falls into the one it finds. -/
theorem opening_cases {T : ℕ} {times : List ℕ} {t s : ℕ} (h : opening T (times ++ [t]) = some s) :
    (s = t ∧ ∀ s', opening T times = some s' → s' + T ≤ t) ∨ (opening T times = some s ∧ t < s + T) := by
  rw [opening_concat, Option.some.injEq] at h
  cases hopen : opening T times with
  | none =>
    rw [hopen] at h
    exact .inl ⟨h.symm, fun _ h' => by cases h'⟩
  | some s' =>
    rw [hopen, Option.elim_some] at h
    split_ifs at h with hle
    · exact .inl ⟨h.symm, fun _ h' => Option.some.inj h' ▸ hle⟩
    · exact .inr ⟨congrArg some h, by omega⟩

theorem opening_eq_none {T : ℕ} {times : List ℕ} (h : opening T times = none) : times = [] := by
  cases times using List.reverseRecOn with
  | nil => rfl
  | append_singleton times t =>
    rw [opening_concat] at h
    cases h

/-- A period begins with a call. -/
theorem mem_of_opening {T : ℕ} {times : List ℕ} {s : ℕ} (h : opening T times = some s) : s ∈ times := by
  induction times using List.reverseRecOn generalizing s with
  | nil => cases h
  | append_singleton times t ih =>
    rcases opening_cases h with ⟨rfl, -⟩ | ⟨hopen, -⟩
    · exact List.mem_append_right _ (List.mem_singleton_self _)
    · exact List.mem_append_left _ (ih hopen)

/-- Every call so far was made before the end of the period. -/
theorem lt_of_opening {T : ℕ} (hT : 0 < T) {times : List ℕ} {s : ℕ} (h : opening T times = some s) :
    ∀ t ∈ times, t < s + T := by
  induction times using List.reverseRecOn generalizing s with
  | nil => cases h
  | append_singleton times u ih =>
    intro t ht
    rcases List.mem_append.mp ht with hold | hnew
    · rcases opening_cases h with ⟨rfl, hover⟩ | ⟨hopen, -⟩
      · cases hopen : opening T times with
        | none =>
          rw [opening_eq_none hopen] at hold
          cases hold
        | some s' =>
          have := ih hopen t hold
          have := hover s' hopen
          omega
      · exact ih hopen t hold
    · rw [List.mem_singleton.mp hnew]
      rcases opening_cases h with ⟨rfl, -⟩ | ⟨-, hlt⟩
      · omega
      · exact hlt

/-- Calls before the end of the period do not begin another. -/
theorem opening_append {T : ℕ} {times times' : List ℕ} {s : ℕ} (h : opening T times = some s)
    (hlt : ∀ t ∈ times', t < s + T) : opening T (times ++ times') = some s := by
  induction times' using List.reverseRecOn with
  | nil => rwa [List.append_nil]
  | append_singleton times' t ih =>
    have hbefore := ih fun u hu => hlt u (List.mem_append_left _ hu)
    have ht := hlt t (List.mem_append_right _ (List.mem_singleton_self _))
    rw [← List.append_assoc, opening_concat, hbefore, Option.elim_some, if_neg (by omega)]

/-- The times of the calls on a key. -/
def times (k : String) (calls : List QuotaCall) : List ℕ := (calls.filter fun c => c.key = k).map QuotaCall.now

theorem times_append (k : String) (as bs : List QuotaCall) : times k (as ++ bs) = times k as ++ times k bs := by
  simp [times]

theorem times_self (c : QuotaCall) : times c.key [c] = [c.now] := by
  simp [times]

theorem times_of_ne {c : QuotaCall} {k : String} (h : k ≠ c.key) : times k [c] = [] := by
  simp [times, Ne.symm h]

theorem mem_times {k : String} {calls : List QuotaCall} {t : ℕ} (h : t ∈ times k calls) : ∃ c ∈ calls, c.now = t := by
  obtain ⟨c, hc, rfl⟩ := List.mem_map.mp h
  exact ⟨c, List.mem_of_mem_filter hc, rfl⟩

/-- The calls on a key so far in the period that began at `s`. -/
def callsSince (k : String) (s : ℕ) (calls : List QuotaCall) : ℕ := (times k calls).countP fun t => s ≤ t

/-- The period of a key after the calls: how many were made in it, and when it ends. -/
def entryAfter (T : String → ℕ) (k : String) (calls : List QuotaCall) : Option QuotaEntry :=
  (opening (T k) (times k calls)).map fun s => ⟨callsSince k s calls, s + T k⟩

/-- A run of quota checks: one period for each key, in the order of the times. -/
structure Periodic (T : String → ℕ) (calls : List QuotaCall) : Prop where
  /-- One period for each key. -/
  period : ∀ c ∈ calls, c.period = T c.key
  /-- In order. -/
  order : calls.Pairwise fun c d => c.now ≤ d.now

/-- What a call adds to the period of its key: it is the next one in it, or the first of a new
one. -/
theorem entryAfter_self {T : String → ℕ} {past : List QuotaCall} {c : QuotaCall} (hT : 0 < T c.key)
    (hnow : ∀ d ∈ past, d.now ≤ c.now) :
    entryAfter T c.key (past ++ [c]) = some (
      match entryAfter T c.key past with
      | none => ⟨1, c.now + T c.key⟩
      | some e => if e.resetsAt ≤ c.now then ⟨1, c.now + T c.key⟩ else ⟨e.count + 1, e.resetsAt⟩) := by
  simp only [entryAfter, callsSince, times_append, times_self, opening_concat, Option.map_some]
  cases hopen : opening (T c.key) (times c.key past) with
  | none => simp [opening_eq_none hopen]
  | some s =>
    simp only [Option.elim_some, Option.map_some]
    split_ifs with hover
    · have hzero : (times c.key past).countP (fun t => c.now ≤ t) = 0 := by
        rw [List.countP_eq_zero]
        intro t ht
        have := lt_of_opening hT hopen t ht
        simp only [decide_eq_true_eq]
        omega
      rw [List.countP_append, hzero]
      simp
    · obtain ⟨d, hd, rfl⟩ := mem_times (mem_of_opening hopen)
      have := hnow d hd
      rw [List.countP_append]
      simp [this]

theorem entryAfter_of_ne (T : String → ℕ) {k : String} (past : List QuotaCall) {c : QuotaCall} (h : k ≠ c.key) :
    entryAfter T k (past ++ [c]) = entryAfter T k past := by
  simp only [entryAfter, callsSince, times_append, times_of_ne h, List.append_nil]

/-! ### The quota -/

/-- The decision, given the period with this call counted in. -/
def verdict (max now : ℕ) (e : QuotaEntry) : LimitDecision :=
  if max < e.count then ⟨false, 0, e.resetsAt - now⟩ else ⟨true, max - e.count, e.resetsAt - now⟩

/-- The contract of `check_quota`: remember all calls, and count those of the period. -/
def meter (T : String → ℕ) (past : List QuotaCall) (c : QuotaCall) : Option LimitDecision × List QuotaCall :=
  ((entryAfter T c.key (past ++ [c])).map (verdict c.max c.now), past ++ [c])

theorem after_meter (T : String → ℕ) (calls : List QuotaCall) : after (meter T) [] calls = calls := by
  induction calls using List.reverseRecOn with
  | nil => rfl
  | append_singleton calls c ih =>
    rw [after_concat, ih]
    rfl

theorem Periodic.append_left {T : String → ℕ} {as bs : List QuotaCall} (h : Periodic T (as ++ bs)) :
    Periodic T as where
  period c hc := h.period c (List.mem_append_left _ hc)
  order := (List.pairwise_append.mp h.order).1

theorem Periodic.le_last {T : String → ℕ} {past : List QuotaCall} {c : QuotaCall} (h : Periodic T (past ++ [c])) :
    ∀ d ∈ past, d.now ≤ c.now := fun d hd =>
  (List.pairwise_append.mp h.order).2.2 d hd c (List.mem_singleton_self c)

theorem Periodic.period_last {T : String → ℕ} {past : List QuotaCall} {c : QuotaCall}
    (h : Periodic T (past ++ [c])) : c.period = T c.key :=
  h.period c (List.mem_append_right _ (List.mem_singleton_self c))

/-- No more calls count than were made. -/
theorem count_le_length {T : String → ℕ} {k : String} {calls : List QuotaCall} {e : QuotaEntry}
    (h : entryAfter T k calls = some e) : e.count ≤ calls.length := by
  obtain ⟨s, -, rfl⟩ := Option.map_eq_some_iff.mp h
  calc callsSince k s calls ≤ (times k calls).length := List.countP_le_length
    _ = (calls.filter fun c => c.key = k).length := List.length_map ..
    _ ≤ calls.length := List.length_filter_le ..

/-- The call that was just made counts. -/
theorem count_pos {T : String → ℕ} {k : String} {calls : List QuotaCall} {e : QuotaEntry}
    (h : entryAfter T k calls = some e) : 0 < e.count := by
  obtain ⟨s, hs, rfl⟩ := Option.map_eq_some_iff.mp h
  exact List.countP_pos_iff.mpr ⟨s, mem_of_opening hs, by simp⟩

section

variable {T : String → ℕ} {past : List QuotaCall} {c : QuotaCall}

/-- **`check_quota` in memory**, when the entries are the periods of the run. -/
theorem MemoryStorage.checkQuota_eq {s : MemoryStorage} (hs : ∀ k, s.quotas k = entryAfter T k past)
    (hT : 0 < T c.key) (h : Periodic T (past ++ [c])) (hfew : past.length + 1 < 2 ^ 64) :
    ∃ e, entryAfter T c.key (past ++ [c]) = some e ∧
      s.checkQuota c = (verdict c.max c.now e, { s with quotas := Function.update s.quotas c.key (some e) }) := by
  refine ⟨_, entryAfter_self hT h.le_last, ?_⟩
  simp only [checkQuota, hs, h.period_last]
  cases hentry : entryAfter T c.key past with
  | none =>
    have hlater : ¬ c.now + T c.key ≤ c.now := by omega
    simp only [Option.getD_none, if_neg hlater]
    rfl
  | some e =>
    have hcount := count_le_length hentry
    by_cases hover : e.resetsAt ≤ c.now
    · simp only [Option.getD_some, if_pos hover]
      rfl
    · simp only [Option.getD_some, if_neg hover, Nat.mod_eq_of_lt (show e.count + 1 < 2 ^ 64 by omega)]
      rfl

/-- A counter with its deadline. -/
def counter (e : QuotaEntry) : Keyed ℕ := ⟨e.count, some e.resetsAt⟩

/-- What `QUOTA_SCRIPT` does when it finds no counter: a period begins. -/
theorem RedisStorage.quotaScript_none {srv : Server} (hmax : c.max ≤ 2 ^ 53) (hperiod : c.period ≤ 2 ^ 53) :
    quotaScript srv c.now none c.max c.period =
      let d := verdict c.max c.now ⟨1, c.now + c.period⟩
      (some (d.allowed, d.remaining, d.resetAfter), some (counter ⟨1, c.now + c.period⟩)) := by
  have hone : srv.number 1 = 1 := srv.number_exact (by decide)
  have htakes : pexpireTakes c.period = true := decide_eq_true (by omega)
  simp only [quotaScript, verdict, Option.elim_none, Nat.zero_add, hone, if_true, srv.number_exact hmax,
    srv.number_exact hperiod, htakes, Bool.true_eq_false, and_false, if_false, Option.elim_some, Option.getD_some,
    Nat.add_sub_cancel_left]
  rw [if_neg (by decide), srv.number_exact (n := c.max - 1) (by omega)]
  split_ifs <;> rfl

/-- What it does when it finds one: the call is counted in. -/
theorem RedisStorage.quotaScript_some {srv : Server} {e : QuotaEntry} (hmax : c.max ≤ 2 ^ 53)
    (hperiod : c.period ≤ 2 ^ 53) (hpos : 0 < e.count) (hcount : e.count < 2 ^ 53)
    (hleft : e.resetsAt ≤ c.now + c.period) :
    quotaScript srv c.now (some (counter e)) c.max c.period =
      let d := verdict c.max c.now ⟨e.count + 1, e.resetsAt⟩
      (some (d.allowed, d.remaining, d.resetAfter), some (counter ⟨e.count + 1, e.resetsAt⟩)) := by
  have hnum : srv.number (e.count + 1) = e.count + 1 := srv.number_exact (by omega)
  have hnot : ¬ e.count + 1 = 1 := by omega
  have hfit : ¬ 2 ^ 63 ≤ e.count + 1 := by omega
  -- The counter has its expiry, so no `PEXPIRE` is due.
  simp only [quotaScript, counter, verdict, Option.elim_some, hnum, if_neg hfit, Option.bind_some,
    srv.number_exact hmax, hnot, reduceCtorEq, or_self, false_and, if_false, Option.getD_some]
  rw [srv.number_exact (n := e.resetsAt - c.now) (by omega), srv.number_exact (n := c.max - (e.count + 1)) (by omega)]
  split_ifs <;> rfl

/-- The call does not fall into the millisecond in which the period of its key ends, unless the
server has dropped the counter by then. -/
def Renews (srv : Server) (T : String → ℕ) (past : List QuotaCall) (c : QuotaCall) : Prop :=
  ∀ s, opening (T c.key) (times c.key past) = some s → c.now = s + T c.key →
    srv.expired c.now (s + T c.key) = true

/-- The counter the script finds: that of the period, while it lasts. -/
theorem find_counter {srv : Server} {counters : String → Option (Keyed ℕ)}
    (hr : counters c.key = (entryAfter T c.key past).map counter) (hrenew : Renews srv T past c) :
    srv.find c.now counters c.key =
      (entryAfter T c.key past).bind fun e => if e.resetsAt ≤ c.now then none else some (counter e) := by
  rw [Server.find, hr]
  cases hentry : entryAfter T c.key past with
  | none => rfl
  | some e =>
    obtain ⟨s, hs, rfl⟩ := Option.map_eq_some_iff.mp hentry
    have hover : srv.expired c.now (s + T c.key) = decide (s + T c.key ≤ c.now) := by
      rcases Nat.lt_trichotomy c.now (s + T c.key) with hlt | heq | hgt
      · rw [srv.expired_before hlt, decide_eq_false (by omega)]
      · rw [hrenew s hs heq, decide_eq_true (by omega)]
      · rw [srv.expired_after hgt, decide_eq_true (by omega)]
    simp only [Option.map_some, Option.filter, counter, Option.any_some, hover, Option.bind_some]
    by_cases hle : s + T c.key ≤ c.now
    · simp [hle]
    · simp [hle]

/-- **`check_quota` on Redis**, when the counters are the periods of the run. -/
theorem RedisStorage.checkQuota_eq {srv : Server} {r : RedisStorage}
    (hr : ∀ k, r.counters k = (entryAfter T k past).map counter) (hT : 0 < T c.key) (h : Periodic T (past ++ [c]))
    (hrenew : Renews srv T past c) (hmax : c.max ≤ 2 ^ 53) (hperiod : c.period ≤ 2 ^ 53)
    (hfew : past.length < 2 ^ 53) :
    ∃ e, entryAfter T c.key (past ++ [c]) = some e ∧
      r.checkQuota srv c = (some (verdict c.max c.now e),
        { r with counters := Function.update r.counters c.key (some (counter e)) }) := by
  refine ⟨_, entryAfter_self hT h.le_last, ?_⟩
  have hper := h.period_last
  have hclamp : max (min c.period (2 ^ 64 - 1)) 1 = c.period := by omega
  simp only [checkQuota, hclamp, find_counter (hr c.key) hrenew]
  cases hentry : entryAfter T c.key past with
  | none => simp only [Option.bind_none, quotaScript_none hmax hperiod, Option.map_some, ← hper]
  | some e =>
    by_cases hover : e.resetsAt ≤ c.now
    · simp only [Option.bind_some, if_pos hover, quotaScript_none hmax hperiod, Option.map_some, ← hper]
    · have hcount := count_le_length hentry
      have hleft : e.resetsAt ≤ c.now + c.period := by
        obtain ⟨s, hs, rfl⟩ := Option.map_eq_some_iff.mp hentry
        obtain ⟨d, hd, hds⟩ := mem_times (mem_of_opening hs)
        have := h.le_last d hd
        simp only
        omega
      simp only [Option.bind_some, if_neg hover,
        quotaScript_some hmax hperiod (count_pos hentry) (by omega) hleft, Option.map_some]

/-- An entry for the key of the call, and the others as they were. -/
theorem entryAfter_update {α : Type*} {table : String → Option α} {f : QuotaEntry → α}
    (htable : ∀ k, table k = (entryAfter T k past).map f) {e : QuotaEntry}
    (he : entryAfter T c.key (past ++ [c]) = some e) (k : String) :
    Function.update table c.key (some (f e)) k = (entryAfter T k (past ++ [c])).map f := by
  by_cases hk : k = c.key
  · subst hk
    rw [Function.update_self, he]
    rfl
  · rw [Function.update_of_ne hk, entryAfter_of_ne T past hk, htable]

end

/-- What keeps the two backends together: no call falls into the millisecond in which a period
ends while its counter is still there, and the numbers of the script are exact. -/
structure Untroubled (srv : Server) (T : String → ℕ) (calls : List QuotaCall) : Prop where
  /-- No call at a deadline that the server has not acted on. -/
  renews : ∀ past c rest, calls = past ++ c :: rest → Renews srv T past c
  /-- Maxima and periods up to `2^53`. -/
  small : ∀ c ∈ calls, c.max ≤ 2 ^ 53 ∧ c.period ≤ 2 ^ 53
  /-- Counts up to `2^53`. -/
  few : calls.length ≤ 2 ^ 53

theorem Untroubled.append_left {srv : Server} {T : String → ℕ} {as bs : List QuotaCall}
    (h : Untroubled srv T (as ++ bs)) : Untroubled srv T as where
  renews past c rest heq := h.renews past c (rest ++ bs) (by rw [heq, List.append_assoc, List.cons_append])
  small c hc := h.small c (List.mem_append_left _ hc)
  few := by
    have := h.few
    rw [List.length_append] at this
    omega

/-- `check_quota` of the memory backend, which never fails. -/
def MemoryStorage.serveQuota (s : MemoryStorage) (c : QuotaCall) : Option LimitDecision × MemoryStorage :=
  (some (s.checkQuota c).1, (s.checkQuota c).2)

/-- **The memory backend is a fixed-period quota.** -/
theorem MemoryStorage.checkQuota_refines {T : String → ℕ} (hT : ∀ k, 1 ≤ T k) {calls : List QuotaCall}
    (h : Periodic T calls) (hfew : calls.length < 2 ^ 64) :
    answered serveQuota new calls = answered (meter T) [] calls := by
  refine (answered_eq_of_sim (P := fun calls => Periodic T calls ∧ calls.length < 2 ^ 64)
    (R := fun past (s : MemoryStorage) full => full = past ∧ ∀ k, s.quotas k = (entryAfter T k past).map id)
    ⟨rfl, fun _ => rfl⟩ ?_ ?_ ⟨h, hfew⟩).1
  · rintro as a ⟨hP, hlen⟩
    rw [List.length_append] at hlen
    exact ⟨hP.append_left, by omega⟩
  · rintro _ c s past ⟨hP, hlen⟩ ⟨rfl, hs⟩
    rw [List.length_append, List.length_singleton] at hlen
    obtain ⟨e, he, heq⟩ := checkQuota_eq (fun k => (hs k).trans (Option.map_id' ..)) (hT c.key) hP hlen
    refine ⟨?_, rfl, fun k => ?_⟩
    · rw [serveQuota, meter, heq, he]
      rfl
    · rw [serveQuota, heq]
      exact entryAfter_update hs he k

/-- **Redis is a fixed-period quota** in an untroubled run. -/
theorem RedisStorage.checkQuota_refines {srv : Server} {T : String → ℕ} (hT : ∀ k, 1 ≤ T k)
    {calls : List QuotaCall} (h : Periodic T calls) (hun : Untroubled srv T calls) :
    answered (checkQuota srv) new calls = answered (meter T) [] calls := by
  refine (answered_eq_of_sim (P := fun calls => Periodic T calls ∧ Untroubled srv T calls)
    (R := fun past (r : RedisStorage) full => full = past ∧ ∀ k, r.counters k = (entryAfter T k past).map counter)
    ⟨rfl, fun _ => rfl⟩ (fun as a h => ⟨h.1.append_left, h.2.append_left⟩) ?_ ⟨h, hun⟩).1
  rintro _ c r past ⟨hP, hun⟩ ⟨rfl, hr⟩
  obtain ⟨hmax, hperiod⟩ := hun.small c (List.mem_append_right _ (List.mem_singleton_self c))
  have hlen := hun.few
  rw [List.length_append, List.length_singleton] at hlen
  obtain ⟨e, he, heq⟩ := checkQuota_eq hr (hT c.key) hP (hun.renews past c [] rfl) hmax hperiod (by omega)
  refine ⟨?_, rfl, fun k => ?_⟩
  · rw [heq, meter, he]
    rfl
  · rw [heq]
    exact entryAfter_update hr he k

/-! ### What a quota grants -/

/-- A run of calls that was answered by quotas of `M k` calls in each period of `T k`. -/
structure Metered (M T : String → ℕ) (run : List (QuotaCall × Option LimitDecision)) : Prop where
  /-- The calls of a period are allowed up to the maximum, and told how many are left and when
  the period ends. -/
  first : ∀ before c d later, run = before ++ (c, d) :: later →
    ∃ s dec, opening (T c.key) (times c.key (before.map Prod.fst ++ [c])) = some s ∧ d = some dec ∧
      (dec.allowed = true ↔ callsSince c.key s (before.map Prod.fst ++ [c]) ≤ M c.key) ∧
      dec.remaining = M c.key - callsSince c.key s (before.map Prod.fst ++ [c]) ∧
      c.now + dec.resetAfter = s + T c.key
  /-- No call before the end of the period moves it. -/
  fixed : ∀ before c d mid c' d' later, run = before ++ (c, some d) :: (mid ++ (c', some d') :: later) →
    c'.key = c.key → c'.now < c.now + d.resetAfter → c'.now + d'.resetAfter = c.now + d.resetAfter

theorem verdict_allowed {max now : ℕ} {e : QuotaEntry} : (verdict max now e).allowed = true ↔ e.count ≤ max := by
  unfold verdict
  split_ifs with h
  · simp [h]
  · simpa using h

theorem verdict_remaining (max now : ℕ) (e : QuotaEntry) : (verdict max now e).remaining = max - e.count := by
  unfold verdict
  split_ifs with h
  · simp only
    omega
  · rfl

theorem verdict_resetAfter (max now : ℕ) (e : QuotaEntry) : (verdict max now e).resetAfter = e.resetsAt - now := by
  unfold verdict
  split_ifs <;> rfl

section

variable {M T : String → ℕ} {calls : List QuotaCall}

/-- The answer to a call, from the period it falls into. -/
theorem first_of_meter (hT : ∀ k, 1 ≤ T k) (hM : ∀ c ∈ calls, c.max = M c.key)
    {before later : List (QuotaCall × Option LimitDecision)} {c : QuotaCall} {d : Option LimitDecision}
    (hrun : answered (meter T) [] calls = before ++ (c, d) :: later) :
    ∃ s dec, opening (T c.key) (times c.key (before.map Prod.fst ++ [c])) = some s ∧ d = some dec ∧
      (dec.allowed = true ↔ callsSince c.key s (before.map Prod.fst ++ [c]) ≤ M c.key) ∧
      dec.remaining = M c.key - callsSince c.key s (before.map Prod.fst ++ [c]) ∧
      c.now + dec.resetAfter = s + T c.key := by
  obtain ⟨past, rest, rfl, rfl, rfl, -⟩ := answered_eq_append_cons hrun
  rw [map_fst_answered]
  have hmax : c.max = M c.key := hM c (List.mem_append_right _ (List.mem_cons_self ..))
  obtain ⟨s, hs⟩ : ∃ s, opening (T c.key) (times c.key (past ++ [c])) = some s := by
    rw [times_append, times_self, opening_concat]
    exact ⟨_, rfl⟩
  have hlt : c.now < s + T c.key := by
    refine lt_of_opening (hT c.key) hs c.now ?_
    rw [times_append, times_self]
    exact List.mem_append_right _ (List.mem_singleton_self _)
  refine ⟨s, verdict c.max c.now ⟨callsSince c.key s (past ++ [c]), s + T c.key⟩, hs, ?_, ?_, ?_, ?_⟩
  · rw [meter, after_meter, entryAfter, hs]
    rfl
  · rw [verdict_allowed, hmax]
  · rw [verdict_remaining, hmax]
  · rw [verdict_resetAfter]
    simp only
    omega

/-- **A fixed-period quota grants what it should.** -/
theorem metered_meter (hT : ∀ k, 1 ≤ T k) (h : Periodic T calls) (hM : ∀ c ∈ calls, c.max = M c.key) :
    Metered M T (answered (meter T) [] calls) where
  first before c d later hrun := first_of_meter hT hM hrun
  fixed before c d mid c' d' later hrun hkey hlt := by
    have hrun' : answered (meter T) [] calls = (before ++ (c, some d) :: mid) ++ (c', some d') :: later := by
      rw [hrun, List.append_assoc, List.cons_append]
    obtain ⟨s, dec, hs, hdec, -, -, hend⟩ := first_of_meter hT hM hrun
    obtain ⟨s', dec', hs', hdec', -, -, hend'⟩ := first_of_meter hT hM hrun'
    cases hdec
    cases hdec'
    -- every call up to `c'` is made before the period of `c` ends, so `c'` is in it too
    have hin : ∀ t ∈ times c.key (mid.map Prod.fst ++ [c']), t < s + T c.key := by
      intro t ht
      obtain ⟨x, hx, rfl⟩ := mem_times ht
      have hle : x.now ≤ c'.now := by
        rcases List.mem_append.mp hx with hx | hx
        · have hcalls : (answered (meter T) [] calls).map Prod.fst = calls := map_fst_answered [] calls
          rw [hrun', List.map_append, List.map_append, List.map_cons, List.map_cons] at hcalls
          have horder := h.order
          rw [← hcalls] at horder
          exact (List.pairwise_append.mp horder).2.2 x
            (List.mem_append_right _ (List.mem_cons_of_mem _ hx)) c' (List.mem_cons_self ..)
        · rw [List.mem_singleton.mp hx]
      omega
    have hsplit : (before ++ (c, some d) :: mid).map Prod.fst ++ [c'] =
        (before.map Prod.fst ++ [c]) ++ (mid.map Prod.fst ++ [c']) := by simp
    rw [hkey, hsplit, times_append, opening_append hs hin] at hs'
    cases hs'
    rw [hkey] at hend'
    omega

end

/-- **The quota checks of the two backends agree and are correct** in every untroubled run. -/
theorem backends_checkQuota_agree {srv : Server} {T : String → ℕ} (hT : ∀ k, 1 ≤ T k) {calls : List QuotaCall}
    (h : Periodic T calls) (hun : Untroubled srv T calls) :
    answered (RedisStorage.checkQuota srv) .new calls = answered MemoryStorage.serveQuota .new calls ∧
      ∀ M : String → ℕ, (∀ c ∈ calls, c.max = M c.key) →
        Metered M T (answered (RedisStorage.checkQuota srv) .new calls) ∧
        Metered M T (answered MemoryStorage.serveQuota .new calls) := by
  have hfew := hun.few
  rw [RedisStorage.checkQuota_refines hT h hun, MemoryStorage.checkQuota_refines hT h (by omega)]
  exact ⟨rfl, fun M hM => ⟨metered_meter hT h hM, metered_meter hT h hM⟩⟩

/-- A quota of one call a second, and a call a millisecond after the period has ended. -/
theorem backends_checkQuota_agree_second :
    answered (RedisStorage.checkQuota RedisStorage.redisServer) .new [⟨"k", 1, 1000, 0⟩, ⟨"k", 1, 1000, 1001⟩] =
        answered MemoryStorage.serveQuota .new [⟨"k", 1, 1000, 0⟩, ⟨"k", 1, 1000, 1001⟩] := by
  refine (backends_checkQuota_agree (T := fun _ => 1000) (fun _ => by decide) ⟨by decide, by decide⟩
    ⟨?_, by decide, by decide⟩).1
  intro past c rest heq s hs hnow
  rcases past with _ | ⟨a, _ | ⟨b, past⟩⟩
  · cases hs
  · simp only [List.cons_append, List.nil_append, List.cons.injEq] at heq
    obtain ⟨rfl, rfl, -⟩ := heq
    obtain rfl : 0 = s := Option.some.inj hs
    cases hnow
  · simp at heq

/-- The second call falls into the millisecond in which the period of the first ends. The memory
backend allows it; Redis counts it towards the old period, denies it, and says that the quota
renews now. -/
theorem renewal_instant_denied :
    ¬ ∀ (T : String → ℕ) (calls : List QuotaCall), (∀ k, 1 ≤ T k) → Periodic T calls →
      answered (RedisStorage.checkQuota RedisStorage.redisServer) .new calls =
        answered MemoryStorage.serveQuota .new calls := by
  intro h
  have := h (fun _ => 1000) [⟨"k", 1, 1000, 0⟩, ⟨"k", 1, 1000, 1000⟩] (fun _ => by decide) ⟨by decide, by decide⟩
  exact absurd this (by decide +kernel)

end G2way.Storage
