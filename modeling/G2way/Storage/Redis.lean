import G2way.Storage.Memory

/-!
# The Redis storage

`RedisStorage` of `g2-storage/src/redis.rs`, the production backend: `check_rate`
and `check_quota` are Lua scripts "executed atomically inside Redis", and the lists
are Redis lists.

## The model

What the gateway relies on of Redis itself is `Server`. A key with a deadline is
there before the deadline and gone after it; at the deadline itself either may be
the case, as Redis documents an error of zero to one millisecond. The numbers of a
Lua script are doubles: `Server.number` is the double that a natural number becomes,
which is the number itself up to `2^53`.

A script runs at one time, what `TIME` reads, in milliseconds. A script that fails has
done what it did before (`quotaScript`); `rateScript` is for windows that `PEXPIRE`
takes. Sorted sets, counters and lists are kept in a table each, as the gateway never
uses one key for two kinds of value. A sorted set is the list of its members in the
order of their scores; of members with one score the script never sees which is first.

## What is proved

`redis_checkRate_refines`: `RATE_SCRIPT` gives the answers of the sliding window log.
The key as a whole expires a window after the last allowed request, when all of its
members have slid out. So the two backends agree (`backends_checkRate_agree`).
-/

namespace G2way.Storage

open G2way.Lib

/-- What the gateway relies on of a Redis server. -/
structure Server where
  /-- Whether a key with this deadline is gone at this time. -/
  expired : (now deadline : ℕ) → Bool
  /-- It is there before its deadline. -/
  expired_before : ∀ {now deadline : ℕ}, now < deadline → expired now deadline = false
  /-- It is gone after it. -/
  expired_after : ∀ {now deadline : ℕ}, deadline < now → expired now deadline = true
  /-- The double a natural number becomes in a script. -/
  number : ℕ → ℕ
  /-- Up to `2^53` it is the number itself. -/
  number_exact : ∀ {n : ℕ}, n ≤ 2 ^ 53 → number n = n

/-- A value with the deadline of its key. -/
structure Keyed (α : Type*) where
  /-- The value. -/
  value : α
  /-- When the key expires. -/
  deadline : Option ℕ
  deriving DecidableEq, Repr

/-- What a command finds at a key. -/
def Server.find {α : Type*} (srv : Server) (now : ℕ) (table : String → Option (Keyed α)) (k : String) :
    Option (Keyed α) :=
  (table k).filter fun e => !e.deadline.any (srv.expired now)

/-- A member of a sorted set: its score, and its name, `now .. '-' .. ARGV[3]`. -/
structure ZEntry where
  /-- The score. -/
  score : ℕ
  /-- The name. -/
  member : ℕ × ℕ
  deriving DecidableEq, Repr

/-- The tables of a Redis server that the gateway uses. -/
structure RedisStorage where
  /-- The sorted sets. -/
  zsets : String → Option (Keyed (List ZEntry))
  /-- The counters. -/
  counters : String → Option (Keyed ℕ)
  /-- The lists. -/
  lists : String → Option (List String)

namespace RedisStorage

/-- Nothing stored yet. -/
def new : RedisStorage := ⟨fun _ => none, fun _ => none, fun _ => none⟩

/-! ### The quota check -/

/-- Whether `PEXPIRE` takes a number of milliseconds: it has to fit an `i64`. -/
def pexpireTakes (ms : ℕ) : Bool := ms < 2 ^ 63

/-- `QUOTA_SCRIPT`, on what it finds at its key: its answer, and what it leaves there. There is no answer
when `INCR` would overflow, or a `PEXPIRE` fails; the call is counted by then. The second `PEXPIRE` is the
defensive one, for a counter that lost its expiry. -/
def quotaScript (srv : Server) (time : ℕ) (found : Option (Keyed ℕ)) (maxArg periodArg : ℕ) :
    Option (Bool × ℕ × ℕ) × Option (Keyed ℕ) :=
  let max := srv.number maxArg
  let period := srv.number periodArg
  let value := found.elim 0 Keyed.value + 1
  if 2 ^ 63 ≤ value then (none, found)
  else
    let count := srv.number value
    let expiry := found.bind Keyed.deadline
    if (count = 1 ∨ expiry = none) ∧ pexpireTakes period = false then (none, some ⟨value, expiry⟩)
    else
      let deadline := if count = 1 then some (time + period) else expiry
      let ttl := deadline.elim period fun d => srv.number (d - time)
      (some (if max < count then (false, 0, ttl) else (true, srv.number (max - count), ttl)),
        some ⟨value, some (deadline.getD (time + period))⟩)

/-- `check_quota`: `none` is the error of a script that failed. -/
def checkQuota (srv : Server) (r : RedisStorage) (c : QuotaCall) : Option LimitDecision × RedisStorage :=
  let periodMs := max (min c.period (2 ^ 64 - 1)) 1
  let result := quotaScript srv c.now (srv.find c.now r.counters c.key) c.max periodMs
  (result.1.map fun answer => ⟨answer.1, answer.2.1, answer.2.2⟩,
    { r with counters := Function.update r.counters c.key result.2 })

/-! ### The lists -/

/-- `LTRIM`: a negative index counts from the tail, and what is left of the list is what lies
between the two. -/
def ltrim (start stop : ℤ) (list : List String) : List String :=
  let start := if start < 0 then start + list.length else start
  let stop := if stop < 0 then stop + list.length else stop
  let start := if start < 0 then 0 else start
  if stop < start ∨ list.length ≤ start then []
  else (list.take (stop + 1).toNat).drop start.toNat

/-- A list that becomes empty is deleted. -/
def store (list : List String) : Option (List String) := if list = [] then none else some list

/-- `list_append`: `RPUSH`, and `LTRIM` to the last `max_len`, which is clamped to an `i64`. -/
def listAppend (r : RedisStorage) (key : String) (values : List String) (maxLen : Option ℕ) : RedisStorage :=
  if values = [] then r
  else
    let list := (r.lists key).getD [] ++ values
    let list := maxLen.elim list fun max => ltrim (-(min max (2 ^ 63 - 1) : ℕ)) (-1) list
    { r with lists := Function.update r.lists key (store list) }

/-- `list_drain`: `LPOP` with a count, which has to fit an `i64`; `none` is its error. -/
def listDrain (r : RedisStorage) (key : String) (max : ℕ) : Option (List String) × RedisStorage :=
  if max = 0 then (some [], r)
  else if 2 ^ 63 ≤ max then (none, r)
  else
    let list := (r.lists key).getD []
    (some (list.take max), { r with lists := Function.update r.lists key (store (list.drop max)) })

/-! ### The rate check -/

/-- `ZADD`: a member that is there gets the new score, another is added, each in its place. -/
def zadd (e : ZEntry) (z : List ZEntry) : List ZEntry :=
  let z := z.filter fun e' => e'.member ≠ e.member
  z.takeWhile (fun e' => e'.score ≤ e.score) ++ e :: z.dropWhile (fun e' => e'.score ≤ e.score)

/-- A rate check with the random suffix that tells its member from others. -/
structure TaggedCall extends RateCall where
  /-- `member_suffix`. -/
  suffix : ℕ
  deriving DecidableEq, Repr

/-- `ZREMRANGEBYSCORE key -inf (now - window)`. -/
def zremBefore (srv : Server) (now window : ℕ) (z : List ZEntry) : List ZEntry :=
  if window ≤ now then z.filter fun e => srv.number (now - window) < e.score else z

/-- `reset` of the script: the window, or what is left of it for the oldest member. -/
def scriptReset (srv : Server) (now window : ℕ) (z : List ZEntry) : ℕ :=
  match z.head? with
  | none => window
  | some oldest => srv.number (srv.number (oldest.score + window) - now)

/-- `RATE_SCRIPT`, on what it finds at its key. A sorted set that becomes empty is deleted. -/
def rateScript (srv : Server) (time : ℕ) (found : Option (Keyed (List ZEntry))) (windowArg limitArg suffix : ℕ) :
    (Bool × ℕ × ℕ) × Option (Keyed (List ZEntry)) :=
  let now := srv.number time
  let window := srv.number windowArg
  let limit := srv.number limitArg
  let z := zremBefore srv now window (found.elim [] Keyed.value)
  let reset := scriptReset srv now window z
  if z.length < limit then
    ((true, srv.number (srv.number (limit - z.length) - 1), reset),
      some ⟨zadd ⟨now, now, suffix⟩ z, some (time + window)⟩)
  else
    ((false, 0, reset), if z = [] then none else found.map fun e => ⟨z, e.deadline⟩)

/-- `check_rate`: the window is clamped to the milliseconds of a `u64`, at least one. -/
def checkRate (srv : Server) (r : RedisStorage) (c : TaggedCall) : LimitDecision × RedisStorage :=
  let windowMs := max (min c.window (2 ^ 64 - 1)) 1
  let ((allowed, remaining, resetMs), entry) :=
    rateScript srv c.now (srv.find c.now r.zsets c.key) windowMs c.limit c.suffix
  (⟨allowed, remaining, resetMs⟩, { r with zsets := Function.update r.zsets c.key entry })

section

variable {srv : Server} {now window limit : ℕ} {z : List ZEntry}

/-- The members that still count. -/
def counting (window now : ℕ) (z : List ZEntry) : List ZEntry := z.filter fun e => now < e.score + window

theorem map_score_counting : (counting window now z).map ZEntry.score = live window now (z.map ZEntry.score) := by
  rw [counting, live, List.filter_map]
  rfl

/-- What `ZREMRANGEBYSCORE` leaves is what still counts. -/
theorem zremBefore_eq (hnow : now ≤ 2 ^ 53) (hwindow : 0 < window) :
    zremBefore srv now window z = counting window now z := by
  unfold zremBefore counting
  split_ifs with hle
  · rw [srv.number_exact (by omega)]
    refine List.filter_congr fun e _ => ?_
    rw [decide_eq_decide]
    omega
  · refine (List.filter_eq_self.mpr fun e _ => ?_).symm
    rw [decide_eq_true_eq]
    omega

theorem scriptReset_eq (hsmall : now + window ≤ 2 ^ 53) (hz : ∀ e ∈ z, e.score ≤ now) :
    scriptReset srv now window z = untilFree window now (z.map ZEntry.score) := by
  unfold scriptReset untilFree
  cases z with
  | nil => rfl
  | cons oldest rest =>
    have := hz oldest (List.mem_cons_self ..)
    simp only [List.head?_cons, List.map_cons]
    rw [srv.number_exact (n := oldest.score + window) (by omega), srv.number_exact (by omega)]

/-- A member with a new name and the highest score comes last. -/
theorem zadd_eq {e : ZEntry} (hscore : ∀ e' ∈ z, e'.score ≤ e.score) (hmember : ∀ e' ∈ z, e'.member ≠ e.member) :
    zadd e z = z ++ [e] := by
  have hall : ∀ e' ∈ z, decide (e'.score ≤ e.score) = true := fun e' he' => decide_eq_true (hscore e' he')
  have hkeep : z.filter (fun e' => e'.member ≠ e.member) = z :=
    List.filter_eq_self.mpr fun e' he' => decide_eq_true (hmember e' he')
  rw [zadd, hkeep, List.takeWhile_eq_self_iff.mpr hall, List.dropWhile_eq_nil_iff.mpr hall]

end

/-- The sorted set the script leaves at its key, given the members that count. -/
def kept (c : TaggedCall) (found : Option (Keyed (List ZEntry))) (z : List ZEntry) : Option (Keyed (List ZEntry)) :=
  if z.length < c.limit then some ⟨z ++ [⟨c.now, c.now, c.suffix⟩], some (c.now + c.window)⟩
  else if z = [] then none
  else found.map fun e => ⟨z, e.deadline⟩

/-- **What `RATE_SCRIPT` does**, when its numbers are below `2^53`. -/
theorem rateScript_eq {srv : Server} {c : TaggedCall} {found : Option (Keyed (List ZEntry))}
    (hlimit : c.limit < 2 ^ 53) (hsmall : c.now + c.window < 2 ^ 53) (hwindow : 0 < c.window)
    (hscore : ∀ e ∈ found.elim [] Keyed.value, e.score ≤ c.now)
    (hmember : ∀ e ∈ found.elim [] Keyed.value, e.member.2 ≠ c.suffix) {z : List ZEntry}
    (hz : z = counting c.window c.now (found.elim [] Keyed.value)) {d : LimitDecision}
    (hd : d = decision c.limit c.window c.now (z.map ZEntry.score)) :
    rateScript srv c.now found c.window c.limit c.suffix = ((d.allowed, d.remaining, d.resetAfter), kept c found z) := by
  have hsub : ∀ e ∈ z, e ∈ found.elim [] Keyed.value := fun e he => List.mem_of_mem_filter (hz ▸ he)
  have hlast : zadd ⟨c.now, c.now, c.suffix⟩ z = z ++ [⟨c.now, c.now, c.suffix⟩] :=
    zadd_eq (fun e he => hscore e (hsub e he)) fun e he heq => hmember e (hsub e he) (congrArg Prod.snd heq)
  have hreset : scriptReset srv c.now c.window z = untilFree c.window c.now (z.map ZEntry.score) :=
    scriptReset_eq (by omega) fun e he => hscore e (hsub e he)
  simp only [rateScript, srv.number_exact (n := c.now) (by omega),
    srv.number_exact (n := c.window) (by omega), srv.number_exact (n := c.limit) (by omega)]
  rw [zremBefore_eq (by omega) hwindow, ← hz, hreset, hlast, hd, decision, List.length_map, kept]
  split_ifs with hroom
  · rw [srv.number_exact (n := c.limit - z.length) (by omega), srv.number_exact (by omega)]
  · rfl
  · rfl

/-! ### Against the sliding window log -/

/-- The members stored at a key, expired or not. -/
def members (r : RedisStorage) (k : String) : List ZEntry := (r.zsets k).elim [] Keyed.value

/-- The log stored at a key. -/
def log (r : RedisStorage) (k : String) : List ℕ := (r.members k).map ZEntry.score

/-- A run of rate checks on Redis: one window for each key, distinct suffixes, and numbers
below `2^53`. -/
structure Checkable (W : String → ℕ) (calls : List TaggedCall) : Prop where
  /-- One window for each key, in order. -/
  windowed : Windowed W (calls.map TaggedCall.toRateCall)
  /-- Distinct suffixes. -/
  suffixes : (calls.map TaggedCall.suffix).Nodup
  /-- The limit, and the end of the window, are below `2^53`. -/
  small : ∀ c ∈ calls, c.limit < 2 ^ 53 ∧ c.now + c.window < 2 ^ 53

theorem Checkable.append_left {W : String → ℕ} {as bs : List TaggedCall} (h : Checkable W (as ++ bs)) :
    Checkable W as where
  windowed := h.windowed.sublist ((List.sublist_append_left as bs).map _)
  suffixes := h.suffixes.sublist ((List.sublist_append_left as bs).map _)
  small c hc := h.small c (List.mem_append_left _ hc)

/-- The tables against the sliding window log after the calls `past`. -/
structure Holds (W : String → ℕ) (past : List TaggedCall) (r : RedisStorage) (full : SlidingLog) : Prop where
  /-- The sorted sets keep what may still count. -/
  forgets : Forgets W (past.map TaggedCall.toRateCall) r.log full
  /-- A key expires when all of its members have slid out. -/
  deadline : ∀ k e d, r.zsets k = some e → e.deadline = some d → ∀ m ∈ e.value, m.score + W k ≤ d
  /-- The names of the members end in the suffixes of earlier calls. -/
  named : ∀ k, ∀ m ∈ r.members k, ∃ c ∈ past, m.member.2 = c.suffix

theorem Holds.init (W : String → ℕ) : Holds W [] new .empty where
  forgets := Forgets.init W
  deadline _ _ _ h := by cases h
  named _ _ h := by cases h

section

variable {srv : Server} {W : String → ℕ} {past : List TaggedCall} {r : RedisStorage} {full : SlidingLog}
  {c : TaggedCall}

/-- What a command finds at a key is the sorted set stored there, or nothing. -/
theorem find_cases (srv : Server) (r : RedisStorage) (now : ℕ) (k : String) :
    srv.find now r.zsets k = r.zsets k ∨
      (srv.find now r.zsets k = none ∧
        ∃ e d, r.zsets k = some e ∧ e.deadline = some d ∧ srv.expired now d = true) := by
  unfold Server.find
  cases hk : r.zsets k with
  | none => exact .inl rfl
  | some e =>
    cases hd : e.deadline with
    | none => exact .inl (by simp [Option.filter, hd])
    | some d =>
      cases hexp : srv.expired now d with
      | false => exact .inl (by simp [Option.filter, hd, hexp])
      | true => exact .inr ⟨by simp [Option.filter, hd, hexp], e, d, rfl, hd, hexp⟩

/-- What is found at a key is stored there. -/
theorem mem_members_of_mem_find {now : ℕ} {k : String} {m : ZEntry}
    (h : m ∈ (srv.find now r.zsets k).elim [] Keyed.value) : m ∈ r.members k := by
  rcases find_cases srv r now k with hfind | ⟨hfind, -⟩
  · rwa [hfind] at h
  · rw [hfind] at h
    cases h

/-- **Expiry discards nothing that counts**: what counts of the members that are found is what
counts of the members that are stored. -/
theorem Holds.counting_find (h : Holds W past r full) (srv : Server) (now : ℕ) (k : String) :
    counting (W k) now ((srv.find now r.zsets k).elim [] Keyed.value) = counting (W k) now (r.members k) := by
  rcases find_cases srv r now k with hfind | ⟨hfind, e, d, he, hd, hexp⟩
  · rw [hfind, members]
  · have hpast : d ≤ now := by
      by_contra hlt
      rw [srv.expired_before (not_le.mp hlt)] at hexp
      cases hexp
    rw [hfind, members, he, Option.elim_none, Option.elim_some]
    refine (List.filter_eq_nil_iff.mpr fun m hm => ?_).symm
    have := h.deadline k e d he hd m hm
    simp only [decide_eq_true_eq]
    omega

/-- The members the script leaves: those that count, and the request when there is room. -/
theorem kept_value {found : Option (Keyed (List ZEntry))} {z : List ZEntry} (hz : found = none → z = []) :
    (kept c found z).elim [] Keyed.value =
      z ++ if z.length < c.limit then [⟨c.now, c.now, c.suffix⟩] else [] := by
  unfold kept
  split_ifs with hroom hnil
  · rfl
  · rw [hnil]
    rfl
  · cases found with
    | none => exact absurd (hz rfl) hnil
    | some e => exact (List.append_nil z).symm

theorem Checkable.windowed_concat (hP : Checkable W (past ++ [c])) :
    Windowed W (past.map TaggedCall.toRateCall ++ [c.toRateCall]) := by
  have := hP.windowed
  rwa [List.map_append] at this

/-- The answer of the sliding window log, from the members stored at the key. -/
theorem Holds.check_fst (h : Holds W past r full) (hP : Checkable W (past ++ [c])) :
    (full.check c.toRateCall).1 = decision c.limit c.window c.now
      ((counting (W c.key) c.now (r.members c.key)).map ZEntry.score) := by
  have hwin : c.window = W c.key := hP.windowed_concat.window_last
  rw [h.forgets.check_fst hwin hP.windowed_concat.le_last, map_score_counting, ← hwin]
  rfl

/-- **One call of `check_rate`** in a run: it gives the answer of the sliding window log. -/
theorem Holds.checkRate_eq (h : Holds W past r full) (hW : ∀ k, 0 < W k) (hP : Checkable W (past ++ [c])) :
    r.checkRate srv c = ((full.check c.toRateCall).1,
      { r with
        zsets := Function.update r.zsets c.key
          (kept c (srv.find c.now r.zsets c.key) (counting (W c.key) c.now (r.members c.key))) }) := by
  have hP' := hP.windowed_concat
  obtain ⟨hlimit, hsmall⟩ := hP.small c (List.mem_append_right _ (List.mem_singleton_self c))
  have hwin : c.window = W c.key := hP'.window_last
  have hpos := hW c.key
  have hclamp : max (min c.window (2 ^ 64 - 1)) 1 = c.window := by omega
  have hscore : ∀ m ∈ (srv.find c.now r.zsets c.key).elim [] Keyed.value, m.score ≤ c.now := fun m hm =>
    h.forgets.le_now hP'.le_last (List.mem_map_of_mem (mem_members_of_mem_find hm))
  have hmember : ∀ m ∈ (srv.find c.now r.zsets c.key).elim [] Keyed.value, m.member.2 ≠ c.suffix := by
    intro m hm heq
    obtain ⟨d, hd, hsuffix⟩ := h.named c.key m (mem_members_of_mem_find hm)
    have hnodup := hP.suffixes
    rw [List.map_append, List.nodup_append] at hnodup
    exact hnodup.2.2 _ (List.mem_map_of_mem hd) _ (List.mem_singleton_self c.suffix) (hsuffix ▸ heq)
  have hcount : counting (W c.key) c.now (r.members c.key) =
      counting c.window c.now ((srv.find c.now r.zsets c.key).elim [] Keyed.value) := by
    rw [hwin, h.counting_find]
  simp only [checkRate, hclamp]
  rw [rateScript_eq hlimit hsmall (by omega) hscore hmember hcount (h.check_fst hP)]

theorem members_checkRate_self (h : Holds W past r full) (hW : ∀ k, 0 < W k) (hP : Checkable W (past ++ [c])) :
    (r.checkRate srv c).2.members c.key =
      counting (W c.key) c.now (r.members c.key) ++
        if (full.check c.toRateCall).1.allowed = true then [⟨c.now, c.now, c.suffix⟩] else [] := by
  have hallowed : (full.check c.toRateCall).1.allowed = true ↔
      (counting (W c.key) c.now (r.members c.key)).length < c.limit := by
    rw [h.check_fst hP, decision_allowed, List.length_map]
  have hnone : srv.find c.now r.zsets c.key = none → counting (W c.key) c.now (r.members c.key) = [] := by
    intro hfind
    rw [← h.counting_find srv, hfind]
    rfl
  rw [h.checkRate_eq hW hP, members]
  simp only [Function.update_self, kept_value hnone, hallowed]

theorem members_checkRate_of_ne (h : Holds W past r full) (hW : ∀ k, 0 < W k) (hP : Checkable W (past ++ [c]))
    {k : String} (hk : k ≠ c.key) : (r.checkRate srv c).2.members k = r.members k := by
  rw [h.checkRate_eq hW hP]
  simp only [members, Function.update_of_ne hk]

/-- The tables keep what may still count. -/
theorem Holds.next (h : Holds W past r full) (hW : ∀ k, 0 < W k) (hP : Checkable W (past ++ [c])) :
    Holds W (past ++ [c]) (r.checkRate srv c).2 (full.check c.toRateCall).2 := by
  have hP' := hP.windowed_concat
  have hlast : c ∈ past ++ [c] := List.mem_append_right _ (List.mem_singleton_self c)
  have hle : ∀ m ∈ r.members c.key, m.score ≤ c.now := fun m hm =>
    h.forgets.le_now hP'.le_last (List.mem_map_of_mem hm)
  constructor
  case forgets =>
    rw [List.map_append]
    refine h.forgets.next hP'.le_last ⟨_, _,
      (List.takeWhile_append_dropWhile (p := fun t => t + W c.key ≤ c.now)).symm, fun t ht => ?_, ?_⟩ fun k hk => ?_
    · simpa using List.mem_takeWhile_imp ht
    · rw [dropWhile_eq_live (h.forgets.kept_order _), log, members_checkRate_self h hW hP, List.map_append,
        map_score_counting]
      split_ifs <;> rfl
    · rw [log, members_checkRate_of_ne h hW hP hk]
      rfl
  case deadline =>
    intro k e d he hd m hm
    rw [h.checkRate_eq hW hP] at he
    by_cases hk : k = c.key
    · subst hk
      simp only [Function.update_self, kept] at he
      split_ifs at he with hroom hnil
      · cases he
        cases hd
        have hwin := hP'.window_last
        rcases List.mem_append.mp hm with hm | hm
        · have := hle m (List.mem_of_mem_filter hm)
          omega
        · rw [List.mem_singleton.mp hm, ← hwin]
      · obtain ⟨e₀, he₀, rfl⟩ := Option.map_eq_some_iff.mp he
        rcases find_cases srv r c.now c.key with hfind | ⟨hfind, -⟩
        · rw [hfind] at he₀
          refine h.deadline c.key e₀ d he₀ hd m ?_
          have hm' : m ∈ r.members c.key := List.mem_of_mem_filter hm
          rwa [members, he₀] at hm'
        · rw [hfind] at he₀
          cases he₀
    · simp only [Function.update_of_ne hk] at he
      exact h.deadline k e d he hd m hm
  case named =>
    intro k m hm
    have hold : m ∈ r.members k → ∃ d ∈ past ++ [c], m.member.2 = d.suffix := fun hm =>
      (h.named k m hm).imp fun d hd => ⟨List.mem_append_left _ hd.1, hd.2⟩
    by_cases hk : k = c.key
    · subst hk
      rw [members_checkRate_self h hW hP] at hm
      rcases List.mem_append.mp hm with hm | hm
      · exact hold (List.mem_of_mem_filter hm)
      · split_ifs at hm
        · exact ⟨c, hlast, by rw [List.mem_singleton.mp hm]⟩
        · cases hm
    · rw [members_checkRate_of_ne h hW hP hk] at hm
      exact hold hm

end

/-- **Redis answers as the sliding window log does.** -/
theorem redis_checkRate_refines (srv : Server) {W : String → ℕ} (hW : ∀ k, 0 < W k) {calls : List TaggedCall}
    (h : Checkable W calls) :
    answered (checkRate srv) new calls =
      answered (fun full (c : TaggedCall) => SlidingLog.check full c.toRateCall) .empty calls := by
  refine (answered_eq_of_sim (P := Checkable W) (R := Holds W) (Holds.init W)
    (fun as a h => h.append_left) ?_ h).1
  intro past c r full hP hR
  exact ⟨by rw [hR.checkRate_eq hW hP], hR.next hW hP⟩

/-- **The rate checks of the two backends agree.** -/
theorem backends_checkRate_agree (srv : Server) {W : String → ℕ} (hW : ∀ k, 1 ≤ W k) {calls : List TaggedCall}
    (h : Checkable W calls) :
    answered (checkRate srv) new calls =
      answered (fun s (c : TaggedCall) => MemoryStorage.checkRate s c.toRateCall) MemoryStorage.new calls := by
  rw [redis_checkRate_refines srv hW h]
  exact (answered_comap _ (MemoryStorage.checkRate_refines hW h.windowed)).symm

/-- The double nearest to a natural number, the even one of two. -/
def toDouble (n : ℕ) : ℕ :=
  let unit := 2 ^ (n.log2 - 52)
  if n ≤ 2 ^ 53 then n
  else if 2 * (n % unit) < unit ∨ 2 * (n % unit) = unit ∧ n / unit % 2 = 0 then n / unit * unit
  else (n / unit + 1) * unit

/-- A server as Redis is: a key is there up to and including its deadline. -/
def redisServer : Server where
  expired now deadline := decide (deadline < now)
  expired_before h := decide_eq_false (by omega)
  expired_after h := decide_eq_true h
  number := toDouble
  number_exact h := if_pos h

/-- A limit that is raised and lowered again: the request at `1000` finds the first one gone. -/
theorem backends_checkRate_agree_limits :
    answered (checkRate redisServer) new
        [⟨⟨"k", 1, 1000, 0⟩, 7⟩, ⟨⟨"k", 2, 1000, 400⟩, 8⟩, ⟨⟨"k", 1, 1000, 1000⟩, 9⟩] =
      answered (fun s (c : TaggedCall) => MemoryStorage.checkRate s c.toRateCall) MemoryStorage.new
        [⟨⟨"k", 1, 1000, 0⟩, 7⟩, ⟨⟨"k", 2, 1000, 400⟩, 8⟩, ⟨⟨"k", 1, 1000, 1000⟩, 9⟩] ∧
      (answered (checkRate redisServer) new
        [⟨⟨"k", 1, 1000, 0⟩, 7⟩, ⟨⟨"k", 2, 1000, 400⟩, 8⟩, ⟨⟨"k", 1, 1000, 1000⟩, 9⟩]).map Prod.snd =
        [⟨true, 0, 1000⟩, ⟨true, 0, 600⟩, ⟨false, 0, 400⟩] :=
  ⟨backends_checkRate_agree redisServer (W := fun _ => 1000) (fun _ => by decide)
    ⟨⟨by decide, by decide⟩, by decide, by decide⟩, by decide +kernel⟩

end RedisStorage

end G2way.Storage
