import G2way.Core.Records
import G2way.Storage.Memory
import G2way.Storage.TtlMap

/-!
# Limits and lifetimes in the storage

A window, a renewal period and a time to live are seconds in the records they come
from, "any u64" that is not zero. The gateway makes a `Duration` of them and calls
`check_rate`, `check_quota` and `set`. The memory adds a duration to the current
`Instant`, and `Instant + Duration` panics when the seconds do not fit; Redis is given
milliseconds, clamped to a `u64` "like `set` does for `PX`".

## The model

`checkQuota?`, `checkRate?` and `TtlMap.Call.begin` are the operations of the memory
with their panics, in nanoseconds. A check has the arithmetic of the source in the
order of the source: `or_insert` is given `now + period` whether or not the key has a
counter. Redis takes an expiry whose end its clock of signed 64-bit milliseconds
can show (`RedisAccepts`).

## What is proved

`calls_unbroken_iff`: what validation accepts is carried out on both backends exactly
when its seconds are few enough for the clocks. No validator has such a bound, so a
quota with the longest period is accepted and panics (`longest_quota_panics`).
-/

namespace G2way.Storage

open G2way.Core G2way.Lib G2way.Lib.Result

/-- `Duration::from_secs`, in nanoseconds. -/
def fromSecs (secs : ℕ) : ℕ := secs * 10 ^ 9

/-- `Duration::as_millis`. -/
def asMillis (d : ℕ) : ℕ := d / 10 ^ 6

/-! ### The memory, with its panics -/

namespace MemoryStorage

/-- `check_quota`; `none` is a panic. -/
def checkQuota? (s : MemoryStorage) (c : QuotaCall) : Option (LimitDecision × MemoryStorage) := do
  let inserted ← instantAdd c.now c.period
  let entry := (s.quotas c.key).getD ⟨0, inserted⟩
  let entry ← if entry.resetsAt ≤ c.now then (instantAdd c.now c.period).map (⟨0, ·⟩) else some entry
  guard (entry.count + 1 < 2 ^ 64)
  let entry : QuotaEntry := { entry with count := entry.count + 1 }
  let resetAfter := entry.resetsAt - c.now
  return (if c.max < entry.count then ⟨false, 0, resetAfter⟩ else ⟨true, c.max - entry.count, resetAfter⟩,
    { s with quotas := Function.update s.quotas c.key (some entry) })

/-- The requests counted in the period under way. -/
def counted (s : MemoryStorage) (key : String) (now : ℕ) : ℕ :=
  match s.quotas key with
  | none => 0
  | some e => if e.resetsAt ≤ now then 0 else e.count

/-- `check_quota` panics when its period does not end at an instant, or the counter is at its end. -/
theorem checkQuota?_eq (s : MemoryStorage) (c : QuotaCall) :
    s.checkQuota? c =
      if c.now + c.period < instantBound ∧ s.counted c.key c.now + 1 < 2 ^ 64 then some (s.checkQuota c) else none := by
  by_cases hfit : c.now + c.period < instantBound
  · have hadd : instantAdd c.now c.period = some (c.now + c.period) := if_pos hfit
    simp only [checkQuota?, checkQuota, hadd, Option.bind_eq_bind, Option.bind_some, counted, hfit, true_and]
    cases hq : s.quotas c.key with
    | none => simp [guard]
    | some e =>
      simp only [Option.getD_some]
      by_cases hover : e.resetsAt ≤ c.now
      · simp [hover, guard]
      · by_cases hcount : e.count + 1 < 2 ^ 64
        · simp only [if_neg hover, guard, if_pos hcount, Nat.mod_eq_of_lt hcount]
          rfl
        · simp only [if_neg hover, guard, if_neg hcount]
          rfl
  · have hadd : instantAdd c.now c.period = none := if_neg hfit
    simp [checkQuota?, hadd, hfit]

/-- `u64 - u64`; `none` is the overflow. -/
def checkedSub (a b : ℕ) : Option ℕ := if b ≤ a then some (a - b) else none

/-- `check_rate`; `none` is a panic. A difference of instants or of durations saturates. -/
def checkRate? (s : MemoryStorage) (c : RateCall) : Option (LimitDecision × MemoryStorage) :=
  let log := slide c.window c.now ((s.windows c.key).getD [])
  if log.length < c.limit then do
    let room ← checkedSub c.limit log.length
    let remaining ← checkedSub room 1
    return (⟨true, remaining, resetAfter c.window c.now log⟩,
      { s with windows := Function.update s.windows c.key (some (log ++ [c.now])) })
  else
    some (⟨false, 0, resetAfter c.window c.now log⟩,
      { s with windows := Function.update s.windows c.key (if log = [] then none else some log) })

/-- `check_rate` never panics. -/
theorem checkRate?_eq (s : MemoryStorage) (c : RateCall) : s.checkRate? c = some (s.checkRate c) := by
  unfold checkRate? checkRate
  simp only
  split_ifs with hroom
  · have hsub : checkedSub c.limit (slide c.window c.now ((s.windows c.key).getD [])).length =
        some (c.limit - (slide c.window c.now ((s.windows c.key).getD [])).length) := if_pos (by omega)
    have hone : checkedSub (c.limit - (slide c.window c.now ((s.windows c.key).getD [])).length) 1 =
        some (c.limit - (slide c.window c.now ((s.windows c.key).getD [])).length - 1) := if_pos (by omega)
    rw [hsub, Option.bind_eq_bind, Option.bind_some, hone]
    rfl
  · rfl
  · rfl

end MemoryStorage

/-! ### Redis -/

/-- The milliseconds `RedisStorage` passes for a duration. -/
def redisMillis (d : ℕ) : ℕ := max (min (asMillis d) (2 ^ 64 - 1)) 1

/-- Redis takes an expiry in this many milliseconds: its end fits a signed 64-bit clock. -/
def RedisAccepts (nowMs ms : ℕ) : Prop := 0 < ms ∧ nowMs + ms < 2 ^ 63

theorem redisAccepts_iff {nowMs secs : ℕ} (h : secs ≠ 0) :
    RedisAccepts nowMs (redisMillis (fromSecs secs)) ↔ nowMs + secs * 1000 < 2 ^ 63 := by
  have hms : asMillis (fromSecs secs) = secs * 1000 := by
    unfold asMillis fromSecs
    omega
  rw [RedisAccepts, redisMillis, hms]
  omega

/-! ### What the records ask for -/

/-- A call of the storage with a duration in seconds. -/
inductive TimedCall where
  /-- `check_rate`. -/
  | rate (requests perSeconds : ℕ)
  /-- `check_quota`. -/
  | quota (max renewalRateSecs : ℕ)
  /-- `set` with a time to live. -/
  | set (ttlSecs : ℕ)
  deriving DecidableEq, Repr

/-- Its seconds. -/
def TimedCall.secs : TimedCall → ℕ
  | .rate _ perSeconds => perSeconds
  | .quota _ renewalRateSecs => renewalRateSecs
  | .set ttlSecs => ttlSecs

/-- A record that sets limits or lifetimes. -/
inductive Limits where
  | session (s : KeySession)
  | policy (p : Policy)
  | endpoint (rule : EndpointRateLimit) (index : ℕ)
  | cache (config : CacheConfig) (fieldPrefix : String)

/-- Its `validate`. -/
def Limits.validate {B : Type} (c : Crates B) : Limits → Except String Unit
  | .session s => s.validate
  | .policy p => p.validate
  | .endpoint rule index => rule.validate c index
  | .cache config fieldPrefix => config.validate fieldPrefix

/-- The calls of an allowance (`enforce`). -/
def allowanceCalls (rate : Option RateLimit) (quota : Option Quota) : List TimedCall :=
  (rate.map fun r => .rate r.requests r.perSeconds).toList ++ (quota.map fun q => .quota q.max q.renewalRateSecs).toList

/-- The calls the gateway makes for it. -/
def Limits.calls : Limits → List TimedCall
  | .session s => allowanceCalls s.rate s.quota
  | .policy p => allowanceCalls p.rate p.quota
  | .endpoint rule _ => [.rate rule.rate.requests rule.rate.perSeconds]
  | .cache config _ => [.set config.ttlSecs]

/-- No call of what is accepted has a duration of zero. -/
theorem Limits.secs_ne_zero {B : Type} {c : Crates B} {l : Limits} (h : l.validate c = .ok ()) :
    ∀ call ∈ l.calls, call.secs ≠ 0 := by
  have hallow {rate : Option RateLimit} {quota : Option Quota} (h : validateAllowance rate quota = .ok ()) :
      ∀ call ∈ allowanceCalls rate quota, call.secs ≠ 0 := by
    simp only [validateAllowance, bind_eq_ok] at h
    obtain ⟨_, hrate, hquota⟩ := h
    intro call hcall
    rw [allowanceCalls, List.mem_append] at hcall
    rcases hcall with hcall | hcall
    · cases rate with
      | none => cases hcall
      | some r =>
        obtain rfl := List.mem_singleton.mp hcall
        simp only [ifSome, bind_eq_ok, ensure_eq_ok, decide_eq_true_eq] at hrate
        obtain ⟨_, -, hsecs⟩ := hrate
        exact hsecs
    · cases quota with
      | none => cases hcall
      | some q =>
        obtain rfl := List.mem_singleton.mp hcall
        simp only [ifSome, bind_eq_ok, ensure_eq_ok, decide_eq_true_eq] at hquota
        obtain ⟨_, -, hsecs⟩ := hquota
        exact hsecs
  cases l with
  | session s =>
    simp only [validate, KeySession.validate, bind_eq_ok] at h
    obtain ⟨_, -, _, hallowance, -⟩ := h
    exact hallow hallowance
  | policy p =>
    simp only [validate, Policy.validate, bind_eq_ok] at h
    obtain ⟨_, -, _, -, _, -, _, hallowance, -⟩ := h
    exact hallow hallowance
  | endpoint rule index =>
    simp only [validate, EndpointRateLimit.validate, bind_eq_ok, ensure_eq_ok, decide_eq_true_eq] at h
    obtain ⟨_, -, _, -, _, -, hsecs⟩ := h
    intro call hcall
    obtain rfl := List.mem_singleton.mp hcall
    exact hsecs
  | cache config fieldPrefix =>
    simp only [validate, CacheConfig.validate, bind_eq_ok, ensure_eq_ok, decide_eq_true_eq] at h
    obtain ⟨_, hsecs, -⟩ := h
    intro call hcall
    obtain rfl := List.mem_singleton.mp hcall
    exact hsecs

/-! ### On both backends -/

/-- Where and when a call is made: the state and the instant of the memory, in nanoseconds, and the
milliseconds of Redis. -/
structure Moment where
  memory : MemoryStorage
  now : ℕ
  nowMs : ℕ

/-- The memory carries the call out, on this key. -/
def TimedCall.Runs (m : Moment) (key value : String) : TimedCall → Prop
  | .rate requests perSeconds => (m.memory.checkRate? ⟨key, requests, fromSecs perSeconds, m.now⟩).isSome = true
  | .quota max renewalRateSecs => (m.memory.checkQuota? ⟨key, max, fromSecs renewalRateSecs, m.now⟩).isSome = true
  | .set ttlSecs => (TtlMap.Call.set key value (some (fromSecs ttlSecs))).begin m.now ≠ .done .panicked

/-- The call breaks neither backend. -/
def TimedCall.Unbroken (m : Moment) (key value : String) (call : TimedCall) : Prop :=
  call.Runs m key value ∧ RedisAccepts m.nowMs (redisMillis (fromSecs call.secs))

/-- The seconds of a call are few enough for the clocks, and the counter of a quota is not at its end. -/
def TimedCall.Fits (m : Moment) (key : String) : TimedCall → Prop
  | .rate _ perSeconds => m.nowMs + perSeconds * 1000 < 2 ^ 63
  | .quota _ renewalRateSecs =>
    m.now + renewalRateSecs * 10 ^ 9 < 2 ^ 63 * 10 ^ 9 ∧ m.nowMs + renewalRateSecs * 1000 < 2 ^ 63 ∧
      m.memory.counted key m.now + 1 < 2 ^ 64
  | .set ttlSecs => m.now + ttlSecs * 10 ^ 9 < 2 ^ 63 * 10 ^ 9 ∧ m.nowMs + ttlSecs * 1000 < 2 ^ 63

/-- A `set` panics when its expiry is no instant. -/
theorem begin_set_ne_panicked_iff {key value : String} {now ttl : ℕ} :
    (TtlMap.Call.set key value (some ttl)).begin now ≠ .done .panicked ↔ now + ttl < instantBound := by
  by_cases h : now + ttl < instantBound
  · simp [TtlMap.Call.begin, instantAdd, h]
  · simp [TtlMap.Call.begin, instantAdd, h]

theorem TimedCall.unbroken_iff {m : Moment} {key value : String} {call : TimedCall} (h : call.secs ≠ 0) :
    call.Unbroken m key value ↔ call.Fits m key := by
  rw [Unbroken, redisAccepts_iff h]
  cases call with
  | rate requests perSeconds =>
    rw [Runs, MemoryStorage.checkRate?_eq, Fits, secs]
    exact and_iff_right rfl
  | quota max renewalRateSecs =>
    have hruns : Runs m key value (.quota max renewalRateSecs) ↔
        m.now + fromSecs renewalRateSecs < instantBound ∧ m.memory.counted key m.now + 1 < 2 ^ 64 := by
      rw [Runs, MemoryStorage.checkQuota?_eq]
      simp only
      split_ifs with hfit
      · exact iff_of_true rfl hfit
      · exact iff_of_false Bool.false_ne_true hfit
    rw [hruns, Fits, secs, fromSecs, instantBound]
    tauto
  | set ttlSecs =>
    rw [Runs, begin_set_ne_panicked_iff, Fits, secs, fromSecs, instantBound]

/-- **What validation accepts is carried out on both backends exactly when its seconds are few enough
for the clocks.** -/
theorem calls_unbroken_iff {B : Type} {c : Crates B} {l : Limits} (h : l.validate c = .ok ()) (m : Moment)
    (key value : String) :
    (∀ call ∈ l.calls, call.Unbroken m key value) ↔ ∀ call ∈ l.calls, call.Fits m key := by
  refine forall₂_congr fun call hcall => ?_
  exact TimedCall.unbroken_iff (Limits.secs_ne_zero h call hcall)

/-- A session with a minute's rate and an hour's quota. -/
def mobileApp : KeySession := { rate := some ⟨100, 60⟩, quota := some ⟨10000, 3600⟩ }

/-- A day after boot, in the year 2025. -/
def today : Moment := ⟨.new, 86400 * 10 ^ 9, 1750000000000⟩

/-- The crates, for records that ask nothing of them. -/
def noCrates : Crates Unit where
  parseUri _ := .error "empty string"
  compileRegex _ := .ok ()
  blocks _ := .ok ()
  graphqlBlocks _ _ _ := .ok false

theorem calls_unbroken_iff_mobileApp :
    (Limits.session mobileApp).validate noCrates = .ok () ∧
      ∀ call ∈ (Limits.session mobileApp).calls, call.Unbroken today "k" "" := by
  have hvalid : (Limits.session mobileApp).validate noCrates = .ok () := by decide
  refine ⟨hvalid, (calls_unbroken_iff hvalid today "k" "").mpr ?_⟩
  intro call hcall
  have hcases : call = .rate 100 60 ∨ call = .quota 10000 3600 := by
    simpa [Limits.calls, allowanceCalls, mobileApp] using hcall
  rcases hcases with rfl | rfl
  · exact (by decide : 1750000000000 + 60 * 1000 < 2 ^ 63)
  · exact (by decide : 86400 * 10 ^ 9 + 3600 * 10 ^ 9 < 2 ^ 63 * 10 ^ 9 ∧ 1750000000000 + 3600 * 1000 < 2 ^ 63 ∧ 0 + 1 < 2 ^ 64)

/-- A session whose quota renews after as many seconds as a `u64` can say. -/
def longestQuota : KeySession := { quota := some ⟨10000, 2 ^ 64 - 1⟩ }

/-- It is accepted, and its first check panics in the memory and is refused by Redis, at any time. -/
theorem longest_quota_panics :
    longestQuota.validate = .ok () ∧ longestQuota.quota = some ⟨10000, 2 ^ 64 - 1⟩ ∧
      ∀ now nowMs key, MemoryStorage.new.checkQuota? ⟨key, 10000, fromSecs (2 ^ 64 - 1), now⟩ = none ∧
        ¬ RedisAccepts nowMs (redisMillis (fromSecs (2 ^ 64 - 1))) := by
  refine ⟨by decide, rfl, fun now nowMs key => ⟨?_, ?_⟩⟩
  · rw [MemoryStorage.checkQuota?_eq, if_neg]
    rintro ⟨hfit, -⟩
    simp only [fromSecs, instantBound] at hfit
    omega
  · rw [redisAccepts_iff (by decide)]
    omega

end G2way.Storage
