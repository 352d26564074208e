import G2way.Lib.Service
import G2way.Proxy.Breaker

/-!
# The circuit breaker as a three-state machine

"The state machine is the classic three-state breaker", says
`g2-proxy/src/breaker.rs` of the packed word and the separate counter that
`G2way.Proxy.Breaker` models. Here the classic breaker is written down, and the
packed one is shown to be it.

## The model

`Circuit` is the specification: a closed circuit with its streak of failures, an
open one with the time it opened at, a half-open one with the time its trial was
granted. `Circuit.perform` says what each call of the forwarder does to it.
`Circuit.encode` is the breaker that stands for a circuit.

What the claims of the source are about is read off the calls themselves:
`streak` counts the failures since the last success, and `lastStamp` is the time
of the last call that opened the circuit or was given the trial slot.

## What is proved

`encode_perform`: in a valid circuit one call of the breaker is one call of the
specification. So the breaker's word and counter always stand for a circuit
(`after_perform`), and `breaker_refines_circuit` reads off what that means for
the tag, the counter, the trip point and the cooldown over every run.
-/

namespace G2way.Proxy.Breaker

open G2way.Lib

/-! ### Calls -/

/-- A call of the forwarder. -/
inductive Call where
  /-- `try_acquire_at`. -/
  | acquire (nowMs : ℕ)
  /-- `record_success`. -/
  | success
  /-- `record_failure_at`. -/
  | failure (nowMs : ℕ)
  deriving DecidableEq, Repr

/-- The time of a call that has one. -/
def Call.time : Call → Option ℕ
  | .acquire nowMs => some nowMs
  | .success => none
  | .failure nowMs => some nowMs

/-- What one call answers, and the breaker after it. -/
def CircuitBreaker.perform (b : CircuitBreaker) : Call → Option Bool × CircuitBreaker
  | .acquire nowMs => (some (b.tryAcquireAt nowMs).1, (b.tryAcquireAt nowMs).2)
  | .success => (none, b.recordSuccess)
  | .failure nowMs => (none, b.recordFailureAt nowMs)

/-- The times of a run never decrease and stay below `2^62`, as `now_ms` masks them. -/
def Timely (calls : List Call) : Prop :=
  (calls.filterMap Call.time).Pairwise (· ≤ ·) ∧ ∀ t ∈ calls.filterMap Call.time, t < 2 ^ 62

instance (calls : List Call) : Decidable (Timely calls) := inferInstanceAs (Decidable (_ ∧ _))

theorem Timely.append_left {as bs : List Call} (h : Timely (as ++ bs)) : Timely as := by
  rw [Timely, List.filterMap_append] at h
  exact ⟨(List.pairwise_append.mp h.1).1, fun t ht => h.2 t (List.mem_append_left _ ht)⟩

/-- A later call has no earlier time. -/
theorem Timely.time_le {past rest : List Call} {c d : Call} (h : Timely (past ++ c :: rest)) {t u : ℕ}
    (hc : c.time = some t) (hd : d ∈ rest) (hu : d.time = some u) : t ≤ u := by
  rw [Timely, List.filterMap_append, List.filterMap_cons_some hc] at h
  have hrest := (List.pairwise_append.mp h.1).2.1
  exact List.rel_of_pairwise_cons hrest (List.mem_filterMap.mpr ⟨d, hd, hu⟩)

/-- The failures since the last success. Only a success closes a circuit, so they are also
the failures since the last close. -/
def streak : List Call → ℕ := List.foldl (fun n c =>
  match c with
  | .acquire _ => n
  | .success => 0
  | .failure _ => n + 1) 0

theorem streak_concat (calls : List Call) (c : Call) :
    streak (calls ++ [c]) =
      match c with
      | .acquire _ => streak calls
      | .success => 0
      | .failure _ => streak calls + 1 := by
  cases c <;> simp [streak]

/-- The time of the call, when it opens the circuit or is given the trial slot. -/
def CircuitBreaker.stamp (b : CircuitBreaker) : Call → Option ℕ
  | .acquire nowMs => if b.tag ≠ closed ∧ (b.tryAcquireAt nowMs).1 = true then some nowMs else none
  | .success => none
  | .failure nowMs => if b.tag ≠ opened ∧ (b.recordFailureAt nowMs).tag = opened then some nowMs else none

/-- When the circuit last opened or gave out the trial slot. -/
def lastStamp (b : CircuitBreaker) : List Call → Option ℕ
  | [] => none
  | c :: cs => (lastStamp (b.perform c).2 cs).or (b.stamp c)

theorem lastStamp_concat (b : CircuitBreaker) (calls : List Call) (c : Call) :
    lastStamp b (calls ++ [c]) =
      ((after CircuitBreaker.perform b calls).stamp c).or (lastStamp b calls) := by
  induction calls generalizing b with
  | nil => simp [lastStamp, after]
  | cons d ds ih => simp only [List.cons_append, lastStamp, ih, after, Option.or_assoc]

/-! ### The specification -/

/-- The classic three-state breaker. -/
inductive Circuit where
  /-- Requests pass; so many failed in a row. -/
  | closed (streak : ℕ)
  /-- Requests are rejected; it opened then. -/
  | opened (since : ℕ)
  /-- One trial is out; it was granted then. -/
  | halfOpen (since : ℕ)
  deriving DecidableEq, Repr

namespace Circuit

/-- When the circuit opened or gave out the trial slot. -/
def since : Circuit → Option ℕ
  | closed _ => none
  | opened s => some s
  | halfOpen s => some s

/-- A call on a circuit that opens after `threshold` failures in a row and grants a trial
once `cooldownMs` passed. -/
def perform (threshold cooldownMs : ℕ) : Circuit → Call → Option Bool × Circuit
  | closed n, .acquire _ => (some true, closed n)
  | closed _, .success => (none, closed 0)
  | closed n, .failure t => (none, if n + 1 = threshold then opened t else closed (n + 1))
  | opened s, .acquire t => if s + cooldownMs ≤ t then (some true, halfOpen t) else (some false, opened s)
  | opened s, .success => (none, opened s)
  | opened s, .failure _ => (none, opened s)
  | halfOpen s, .acquire t => if s + cooldownMs ≤ t then (some true, halfOpen t) else (some false, halfOpen s)
  | halfOpen _, .success => (none, closed 0)
  | halfOpen _, .failure t => (none, opened t)

/-- A streak stays below the threshold, a timestamp below `2^62`. -/
def Valid (threshold : ℕ) : Circuit → Prop
  | closed n => n < threshold
  | opened s => s < 2 ^ 62
  | halfOpen s => s < 2 ^ 62

/-- The tag of the state. -/
def tag : Circuit → ℕ
  | closed _ => Breaker.closed
  | opened _ => Breaker.opened
  | halfOpen _ => Breaker.halfOpen

/-- The failures counted so far: none unless the circuit is closed. -/
def failures : Circuit → ℕ
  | closed n => n
  | opened _ => 0
  | halfOpen _ => 0

/-- The breaker that stands for the circuit. -/
def encode (threshold cooldownMs : ℕ) (c : Circuit) : CircuitBreaker :=
  ⟨pack c.tag (c.since.getD 0), c.failures, threshold, cooldownMs⟩

theorem tag_lt_four (c : Circuit) : c.tag < 4 := by
  cases c <;> simp [tag, Breaker.closed, Breaker.opened, Breaker.halfOpen]

variable {threshold cooldownMs : ℕ}

@[simp] theorem tag_encode (c : Circuit) : (c.encode threshold cooldownMs).tag = c.tag :=
  tag_mk_pack c.tag_lt_four ..

theorem since_encode {c : Circuit} (hc : c.Valid threshold) {s : ℕ} (h : c.since = some s) :
    (c.encode threshold cooldownMs).since = s := by
  have hs : s < 2 ^ 62 := by
    cases c with
    | closed n => cases h
    | opened s' => cases h; exact hc
    | halfOpen s' => cases h; exact hc
  rw [CircuitBreaker.since, encode, unpack_pack c.tag_lt_four, h]
  exact Nat.mod_eq_of_lt hs

/-- A circuit with a timestamp is not closed and counts no failures. -/
theorem of_since {c : Circuit} {s : ℕ} (h : c.since = some s) : c.tag ≠ Breaker.closed ∧ c.failures = 0 := by
  cases c with
  | closed n => cases h
  | opened _ => exact ⟨Breaker.closed_ne_opened.symm, rfl⟩
  | halfOpen _ => exact ⟨Breaker.closed_ne_halfOpen.symm, rfl⟩

/-- Below `2^62` the saturated sum is passed exactly when the sum is. -/
theorem saturatingAdd_le_iff {a b t : ℕ} (ht : t < 2 ^ 62) : saturatingAdd a b ≤ t ↔ a + b ≤ t := by
  unfold saturatingAdd
  omega

/-- A circuit that is not closed grants the trial slot once the cooldown is over. -/
theorem tryAcquireAt_encode {c : Circuit} (hc : c.Valid threshold) {s t : ℕ} (h : c.since = some s)
    (ht : t < 2 ^ 62) :
    (c.encode threshold cooldownMs).tryAcquireAt t =
      if s + cooldownMs ≤ t then (true, (halfOpen t).encode threshold cooldownMs)
      else (false, c.encode threshold cooldownMs) := by
  obtain ⟨hne, hfail⟩ := of_since h
  have hover : t < saturatingAdd s cooldownMs ↔ ¬ s + cooldownMs ≤ t := by
    rw [← saturatingAdd_le_iff ht, not_le]
  rw [CircuitBreaker.tryAcquireAt, tag_encode, if_neg hne, since_encode hc h]
  simp only [encode, hover, ite_not, hfail]
  rfl

/-- A failure on a closed circuit counts, and opens it at the threshold. -/
theorem recordFailureAt_encode_closed (hth : threshold < 2 ^ 32) {n : ℕ} (hn : n < threshold) (t : ℕ) :
    ((closed n).encode threshold cooldownMs).recordFailureAt t =
      (if n + 1 = threshold then opened t else closed (n + 1)).encode threshold cooldownMs := by
  have htag : ((closed n).encode threshold cooldownMs).tag = Breaker.closed := tag_encode _
  rw [CircuitBreaker.recordFailureAt, htag, if_neg Breaker.closed_ne_halfOpen, if_pos rfl]
  by_cases hlast : n + 1 = threshold
  · have hle : threshold ≤ min (n + 1) (2 ^ 32 - 1) := by omega
    rw [if_pos hlast]
    exact if_pos hle
  · have hgt : ¬ threshold ≤ min (n + 1) (2 ^ 32 - 1) := by omega
    have hmod : (n + 1) % 2 ^ 32 = n + 1 := by omega
    rw [if_neg hlast]
    refine (if_neg hgt).trans ?_
    simp only [encode, failures, hmod]
    rfl

/-- **One call of the breaker is one call of the specification.** -/
theorem encode_perform (hth : threshold < 2 ^ 32) {c : Circuit} (hc : c.Valid threshold) {call : Call}
    (ht : ∀ t, call.time = some t → t < 2 ^ 62) :
    (c.encode threshold cooldownMs).perform call =
      ((c.perform threshold cooldownMs call).1,
        (c.perform threshold cooldownMs call).2.encode threshold cooldownMs) := by
  cases call with
  | acquire t =>
    cases c with
    | closed n =>
      have h : ((closed n).encode threshold cooldownMs).tryAcquireAt t =
          (true, (closed n).encode threshold cooldownMs) := by
        rw [CircuitBreaker.tryAcquireAt, tag_encode]
        exact if_pos rfl
      simp only [CircuitBreaker.perform, h, perform]
    | opened s =>
      simp only [CircuitBreaker.perform, tryAcquireAt_encode hc rfl (ht t rfl), perform]
      split_ifs <;> rfl
    | halfOpen s =>
      simp only [CircuitBreaker.perform, tryAcquireAt_encode hc rfl (ht t rfl), perform]
      split_ifs <;> rfl
  | success =>
    cases c with
    | closed n =>
      simp only [CircuitBreaker.perform, CircuitBreaker.recordSuccess, tag_encode, perform]
      rw [if_neg (show (closed n).tag ≠ Breaker.halfOpen from Breaker.closed_ne_halfOpen)]
      rfl
    | opened s =>
      simp only [CircuitBreaker.perform, CircuitBreaker.recordSuccess, tag_encode, perform]
      rw [if_neg (show (opened s).tag ≠ Breaker.halfOpen from Breaker.opened_ne_halfOpen)]
      rfl
    | halfOpen s =>
      simp only [CircuitBreaker.perform, CircuitBreaker.recordSuccess, tag_encode, perform]
      exact congrArg (Prod.mk none) (if_pos rfl)
  | failure t =>
    cases c with
    | closed n => exact congrArg (Prod.mk none) (recordFailureAt_encode_closed hth hc t)
    | opened s =>
      simp only [CircuitBreaker.perform, CircuitBreaker.recordFailureAt, tag_encode, perform]
      rw [if_neg (show (opened s).tag ≠ Breaker.halfOpen from Breaker.opened_ne_halfOpen),
        if_neg (show (opened s).tag ≠ Breaker.closed from Breaker.closed_ne_opened.symm)]
    | halfOpen s =>
      simp only [CircuitBreaker.perform, CircuitBreaker.recordFailureAt, tag_encode, perform]
      exact congrArg (Prod.mk none) (if_pos rfl)

/-- The specification keeps its bounds. -/
theorem Valid.perform {c : Circuit} (hc : c.Valid threshold) (hpos : 1 ≤ threshold) {call : Call}
    (ht : ∀ t, call.time = some t → t < 2 ^ 62) : (c.perform threshold cooldownMs call).2.Valid threshold := by
  cases call with
  | acquire t =>
    cases c with
    | closed n => exact hc
    | opened s =>
      simp only [Circuit.perform]
      split_ifs
      · exact ht t rfl
      · exact hc
    | halfOpen s =>
      simp only [Circuit.perform]
      split_ifs
      · exact ht t rfl
      · exact hc
  | success =>
    cases c with
    | closed n => exact hpos
    | opened s => exact hc
    | halfOpen s => exact hpos
  | failure t =>
    cases c with
    | closed n =>
      simp only [Circuit.perform]
      split_ifs with hlast
      · exact ht t rfl
      · show n + 1 < threshold
        have : n < threshold := hc
        omega
    | opened s => exact hc
    | halfOpen s => exact ht t rfl

/-- A call moves the timestamp to its own time or leaves it. -/
theorem since_perform {c : Circuit} {call : Call} {s : ℕ}
    (h : (c.perform threshold cooldownMs call).2.since = some s) : call.time = some s ∨ c.since = some s := by
  cases call with
  | acquire t =>
    cases c with
    | closed n => cases h
    | opened s' =>
      simp only [Circuit.perform] at h
      split_ifs at h
      · exact .inl h
      · exact .inr h
    | halfOpen s' =>
      simp only [Circuit.perform] at h
      split_ifs at h
      · exact .inl h
      · exact .inr h
  | success =>
    cases c with
    | closed n => cases h
    | opened s' => exact .inr h
    | halfOpen s' => cases h
  | failure t =>
    cases c with
    | closed n =>
      simp only [Circuit.perform] at h
      split_ifs at h
      · exact .inl h
      · cases h
    | opened s' => exact .inr h
    | halfOpen s' => exact .inl h

theorem stamp_encode_acquire {c : Circuit} (hc : c.Valid threshold) {s t : ℕ} (h : c.since = some s)
    (ht : t < 2 ^ 62) :
    (c.encode threshold cooldownMs).stamp (.acquire t) = if s + cooldownMs ≤ t then some t else none := by
  rw [CircuitBreaker.stamp, tryAcquireAt_encode hc h ht, tag_encode]
  by_cases hle : s + cooldownMs ≤ t
  · rw [if_pos hle, if_pos hle, if_pos ⟨(of_since h).1, rfl⟩]
  · rw [if_neg hle, if_neg hle, if_neg (fun hg => Bool.false_ne_true hg.2)]

theorem stamp_encode_failure (hth : threshold < 2 ^ 32) {c : Circuit} (hc : c.Valid threshold) {t : ℕ}
    (ht : t < 2 ^ 62) :
    (c.encode threshold cooldownMs).stamp (.failure t) =
      if c.tag ≠ Breaker.opened ∧ (c.perform threshold cooldownMs (.failure t)).2.tag = Breaker.opened
      then some t else none := by
  have hstep : (c.encode threshold cooldownMs).perform (.failure t) = _ :=
    encode_perform hth hc fun _ h => (Option.some.inj h) ▸ ht
  have htag := congrArg (fun p => CircuitBreaker.tag p.2) hstep
  simp only [CircuitBreaker.perform, tag_encode] at htag
  rw [CircuitBreaker.stamp, tag_encode, htag]

/-- When the timestamp moves, the breaker's call is one that opens the circuit or is given
the trial slot. -/
theorem stamp_encode (hth : threshold < 2 ^ 32) {c : Circuit} (hc : c.Valid threshold) {call : Call}
    (ht : ∀ t, call.time = some t → t < 2 ^ 62) {s : ℕ}
    (h : (c.perform threshold cooldownMs call).2.since = some s) :
    ((c.encode threshold cooldownMs).stamp call).or c.since = some s := by
  cases call with
  | acquire t =>
    cases c with
    | closed n => cases h
    | opened s' =>
      rw [stamp_encode_acquire hc rfl (ht t rfl)]
      simp only [Circuit.perform] at h
      split_ifs at h ⊢ <;> exact h
    | halfOpen s' =>
      rw [stamp_encode_acquire hc rfl (ht t rfl)]
      simp only [Circuit.perform] at h
      split_ifs at h ⊢ <;> exact h
  | success =>
    cases c with
    | closed n => cases h
    | opened s' => exact h
    | halfOpen s' => cases h
  | failure t =>
    rw [stamp_encode_failure hth hc (ht t rfl)]
    cases c with
    | closed n =>
      simp only [Circuit.perform] at h ⊢
      split_ifs at h ⊢ with hlast hopen
      · exact h
      · exact absurd ⟨Breaker.closed_ne_opened, rfl⟩ hopen
      · cases h
      · cases h
    | opened s' =>
      rw [if_neg (fun hne => hne.1 rfl)]
      exact h
    | halfOpen s' =>
      rw [if_pos ⟨Breaker.opened_ne_halfOpen.symm, rfl⟩]
      exact h

/-- A circuit has a timestamp unless it is closed. -/
theorem tag_ne_closed_iff {c : Circuit} : c.tag ≠ Breaker.closed ↔ ∃ s, c.since = some s := by
  cases c with
  | closed n => simp [tag, since]
  | opened s => simp [tag, since, Breaker.opened, Breaker.closed]
  | halfOpen s => simp [tag, since, Breaker.halfOpen, Breaker.closed]

end Circuit

/-! ### Runs -/

section

variable {threshold cooldownMs : ℕ}

/-- The circuit after the calls. -/
def circuitAfter (threshold cooldownMs : ℕ) : List Call → Circuit :=
  after (Circuit.perform threshold cooldownMs) (.closed 0)

/-- The breaker after the calls. -/
def breakerAfter (threshold cooldownMs : ℕ) : List Call → CircuitBreaker :=
  after CircuitBreaker.perform (CircuitBreaker.new threshold cooldownMs)

theorem Timely.time_lt {calls : List Call} {c : Call} (h : Timely (calls ++ [c])) {t : ℕ}
    (ht : c.time = some t) : t < 2 ^ 62 := by
  refine h.2 t ?_
  rw [List.mem_filterMap]
  exact ⟨c, List.mem_append_right _ (List.mem_singleton_self c), ht⟩

/-- **The breaker always stands for the circuit**, and answers every call as it does. -/
theorem breaker_simulates_circuit (hpos : 1 ≤ threshold) (hth : threshold < 2 ^ 32) {calls : List Call}
    (h : Timely calls) :
    answered CircuitBreaker.perform (CircuitBreaker.new threshold cooldownMs) calls =
        answered (Circuit.perform threshold cooldownMs) (.closed 0) calls ∧
      (breakerAfter threshold cooldownMs calls =
          (circuitAfter threshold cooldownMs calls).encode threshold cooldownMs ∧
        (circuitAfter threshold cooldownMs calls).Valid threshold) := by
  unfold breakerAfter circuitAfter
  have hinit : (Circuit.closed 0).Valid threshold := hpos
  refine answered_eq_of_sim (P := Timely)
    (R := fun _ b c => b = Circuit.encode threshold cooldownMs c ∧ c.Valid threshold)
    ⟨rfl, hinit⟩ (fun _ _ h => h.append_left) ?_ h
  rintro as call _ c hP ⟨rfl, hc⟩
  have ht : ∀ t, call.time = some t → t < 2 ^ 62 := fun t ht => hP.time_lt ht
  rw [Circuit.encode_perform hth hc ht]
  exact ⟨rfl, rfl, hc.perform hpos ht⟩

theorem breakerAfter_eq (hpos : 1 ≤ threshold) (hth : threshold < 2 ^ 32) {calls : List Call} (h : Timely calls) :
    breakerAfter threshold cooldownMs calls =
        (circuitAfter threshold cooldownMs calls).encode threshold cooldownMs ∧
      (circuitAfter threshold cooldownMs calls).Valid threshold :=
  (breaker_simulates_circuit hpos hth h).2

theorem circuitAfter_concat (calls : List Call) (c : Call) :
    circuitAfter threshold cooldownMs (calls ++ [c]) =
      ((circuitAfter threshold cooldownMs calls).perform threshold cooldownMs c).2 := after_concat ..

/-- A closed circuit counts the failures since the last success. -/
theorem streak_of_closed {calls : List Call} {n : ℕ}
    (h : circuitAfter threshold cooldownMs calls = .closed n) : n = streak calls := by
  induction calls using List.reverseRecOn generalizing n with
  | nil =>
    cases h
    rfl
  | append_singleton calls c ih =>
    rw [circuitAfter_concat] at h
    rw [streak_concat]
    generalize hc : circuitAfter threshold cooldownMs calls = circuit at h ih
    cases circuit with
    | closed m =>
      obtain rfl := ih rfl
      cases c with
      | acquire t => cases h; rfl
      | success => cases h; rfl
      | failure t =>
        simp only [Circuit.perform] at h
        split_ifs at h
        cases h
        rfl
    | opened s =>
      cases c with
      | acquire t =>
        simp only [Circuit.perform] at h
        split_ifs at h
      | success => cases h
      | failure t => cases h
    | halfOpen s =>
      cases c with
      | acquire t =>
        simp only [Circuit.perform] at h
        split_ifs at h
      | success => cases h; rfl
      | failure t => cases h

/-- The circuit's timestamp is the time of the last call that opened it or was given the
trial slot. -/
theorem lastStamp_of_since (hpos : 1 ≤ threshold) (hth : threshold < 2 ^ 32) {calls : List Call}
    (ht : Timely calls) {s : ℕ} (h : (circuitAfter threshold cooldownMs calls).since = some s) :
    lastStamp (CircuitBreaker.new threshold cooldownMs) calls = some s := by
  induction calls using List.reverseRecOn generalizing s with
  | nil => cases h
  | append_singleton calls c ih =>
    obtain ⟨hb, hv⟩ := breakerAfter_eq hpos hth ht.append_left
    rw [circuitAfter_concat] at h
    have hstamp := Circuit.stamp_encode hth hv (fun _ => ht.time_lt) h
    rw [← hb] at hstamp
    rw [lastStamp_concat]
    rcases Option.or_eq_some_iff.mp hstamp with hs | ⟨hnone, hs⟩
    · exact Option.or_eq_some_iff.mpr (.inl hs)
    · exact Option.or_eq_some_iff.mpr (.inr ⟨hnone, ih ht.append_left hs⟩)

/-- A call closes the circuit. -/
def ClosedBy (b : CircuitBreaker) (c : Call) : Prop := b.tag ≠ closed ∧ (b.perform c).2.tag = closed

/-- A request at `t` is given the trial slot. -/
def GrantsTrial (b : CircuitBreaker) (t : ℕ) : Prop := b.tag ≠ closed ∧ (b.tryAcquireAt t).1 = true

/-- What a run of calls says of the breaker it leaves. -/
structure ThreeState (threshold cooldownMs : ℕ) (calls : List Call) : Prop where
  /-- The word unpacks to one of the three tags. -/
  valid : (breakerAfter threshold cooldownMs calls).tag = closed ∨
    (breakerAfter threshold cooldownMs calls).tag = opened ∨
    (breakerAfter threshold cooldownMs calls).tag = halfOpen
  /-- While closed, the counter is the number of failures since the last success, and it is
  below the threshold. -/
  counts : (breakerAfter threshold cooldownMs calls).tag = closed →
    (breakerAfter threshold cooldownMs calls).failures = streak calls ∧ streak calls < threshold
  /-- A closed circuit opens exactly with the failure that completes the streak. -/
  opens : (breakerAfter threshold cooldownMs calls).tag = closed → ∀ c, Timely (calls ++ [c]) →
    ((breakerAfter threshold cooldownMs (calls ++ [c])).tag ≠ closed ↔
      (∃ t, c = .failure t) ∧ streak (calls ++ [c]) = threshold)
  /-- Any other circuit grants a trial exactly when the cooldown is over, counted from the
  last call that opened it or was given the trial slot. -/
  trials : (breakerAfter threshold cooldownMs calls).tag ≠ closed →
    ∃ since, lastStamp (CircuitBreaker.new threshold cooldownMs) calls = some since ∧
      ∀ t, Timely (calls ++ [.acquire t]) →
        (((breakerAfter threshold cooldownMs calls).tryAcquireAt t).1 = true ↔
          saturatingAdd since cooldownMs ≤ t)
  /-- Two trials with no close between them are a cooldown apart. -/
  spaced : ∀ past t₁ mid t₂, calls = past ++ .acquire t₁ :: (mid ++ [.acquire t₂]) →
    GrantsTrial (breakerAfter threshold cooldownMs past) t₁ →
    GrantsTrial (breakerAfter threshold cooldownMs (past ++ .acquire t₁ :: mid)) t₂ →
    (∀ m c m', mid = m ++ c :: m' → ¬ ClosedBy (breakerAfter threshold cooldownMs (past ++ .acquire t₁ :: m)) c) →
    t₁ + cooldownMs ≤ t₂

/-- The call after the run `calls`. -/
theorem breakerAfter_concat (calls : List Call) (c : Call) :
    breakerAfter threshold cooldownMs (calls ++ [c]) =
      ((breakerAfter threshold cooldownMs calls).perform c).2 := after_concat ..

section

variable (hpos : 1 ≤ threshold) (hth : threshold < 2 ^ 32)
include hpos hth

theorem tag_breakerAfter {calls : List Call} (h : Timely calls) :
    (breakerAfter threshold cooldownMs calls).tag = (circuitAfter threshold cooldownMs calls).tag := by
  rw [(breakerAfter_eq hpos hth h).1, Circuit.tag_encode]

/-- A closed breaker stands for a closed circuit with the streak of the run. -/
theorem circuitAfter_of_closed {calls : List Call} (h : Timely calls)
    (hc : (breakerAfter threshold cooldownMs calls).tag = closed) :
    circuitAfter threshold cooldownMs calls = .closed (streak calls) := by
  rw [tag_breakerAfter hpos hth h] at hc
  cases hcirc : circuitAfter threshold cooldownMs calls with
  | closed n => rw [streak_of_closed hcirc]
  | opened s => exact absurd hc (by simp [hcirc, Circuit.tag, opened, closed])
  | halfOpen s => exact absurd hc (by simp [hcirc, Circuit.tag, halfOpen, closed])

/-- A breaker that is not closed stands for a circuit with the timestamp of the run. -/
theorem since_of_not_closed {calls : List Call} (h : Timely calls)
    (hc : (breakerAfter threshold cooldownMs calls).tag ≠ closed) :
    ∃ s, (circuitAfter threshold cooldownMs calls).since = some s := by
  rwa [tag_breakerAfter hpos hth h, Circuit.tag_ne_closed_iff] at hc

theorem opens_iff {calls : List Call} {c : Call} (h : Timely (calls ++ [c]))
    (hc : (breakerAfter threshold cooldownMs calls).tag = closed) :
    (breakerAfter threshold cooldownMs (calls ++ [c])).tag ≠ closed ↔
      (∃ t, c = .failure t) ∧ streak (calls ++ [c]) = threshold := by
  have hcirc := circuitAfter_of_closed hpos hth h.append_left hc
  rw [tag_breakerAfter hpos hth h, circuitAfter_concat, hcirc, streak_concat]
  cases c with
  | acquire t => simp [Circuit.perform, Circuit.tag]
  | success => simp [Circuit.perform, Circuit.tag]
  | failure t =>
    by_cases hlast : streak calls + 1 = threshold
    · simp [Circuit.perform, Circuit.tag, hlast, opened, closed]
    · simp [Circuit.perform, Circuit.tag, hlast]

theorem grants_iff {calls : List Call} {s t : ℕ} (h : Timely (calls ++ [.acquire t]))
    (hs : (circuitAfter threshold cooldownMs calls).since = some s) :
    ((breakerAfter threshold cooldownMs calls).tryAcquireAt t).1 = true ↔ s + cooldownMs ≤ t := by
  obtain ⟨hb, hv⟩ := breakerAfter_eq hpos hth h.append_left
  rw [hb, Circuit.tryAcquireAt_encode hv hs (h.time_lt rfl)]
  split_ifs with hle
  · simp [hle]
  · simp [hle]

/-- From a trial on, the timestamp never falls behind the trial while the circuit does not close. -/
theorem since_after_trial {past : List Call} {t₁ : ℕ} {mid : List Call}
    (h : Timely (past ++ .acquire t₁ :: mid))
    (htrial : GrantsTrial (breakerAfter threshold cooldownMs past) t₁)
    (hopen : ∀ m c m', mid = m ++ c :: m' →
      ¬ ClosedBy (breakerAfter threshold cooldownMs (past ++ .acquire t₁ :: m)) c) :
    ∃ s, (circuitAfter threshold cooldownMs (past ++ .acquire t₁ :: mid)).since = some s ∧ t₁ ≤ s := by
  induction mid using List.reverseRecOn with
  | nil =>
    obtain ⟨s, hs⟩ := since_of_not_closed hpos hth h.append_left htrial.1
    have hle := (grants_iff hpos hth h hs).mp htrial.2
    refine ⟨t₁, ?_, le_rfl⟩
    rw [circuitAfter_concat]
    cases hcirc : circuitAfter threshold cooldownMs past with
    | closed n => rw [hcirc] at hs; cases hs
    | opened s' => rw [hcirc] at hs; cases hs; simp [Circuit.perform, hle, Circuit.since]
    | halfOpen s' => rw [hcirc] at hs; cases hs; simp [Circuit.perform, hle, Circuit.since]
  | append_singleton mid c ih =>
    have hsplit : past ++ Call.acquire t₁ :: (mid ++ [c]) = (past ++ .acquire t₁ :: mid) ++ [c] := by simp
    obtain ⟨s, hs, hle⟩ := ih (hsplit ▸ h).append_left fun m c' m' hm =>
      hopen m c' (m' ++ [c]) (by rw [hm, List.append_assoc, List.cons_append])
    have hstay : (breakerAfter threshold cooldownMs (past ++ .acquire t₁ :: (mid ++ [c]))).tag ≠ closed := by
      intro hclosed
      refine hopen mid c [] rfl ⟨?_, ?_⟩
      · rw [tag_breakerAfter hpos hth (hsplit ▸ h).append_left, Circuit.tag_ne_closed_iff]
        exact ⟨s, hs⟩
      · rwa [← breakerAfter_concat, ← hsplit]
    obtain ⟨s', hs'⟩ := since_of_not_closed hpos hth h hstay
    refine ⟨s', hs', ?_⟩
    rw [hsplit, circuitAfter_concat] at hs'
    rcases Circuit.since_perform hs' with hcall | hold
    · exact h.time_le rfl (List.mem_append_right _ (List.mem_singleton_self c)) hcall
    · rw [hs] at hold
      exact Option.some.inj hold ▸ hle

end

/-- **The breaker is the three-state breaker.** -/
theorem breaker_refines_circuit (hpos : 1 ≤ threshold) (hth : threshold < 2 ^ 32) {calls : List Call}
    (h : Timely calls) :
    answered CircuitBreaker.perform (CircuitBreaker.new threshold cooldownMs) calls =
        answered (Circuit.perform threshold cooldownMs) (.closed 0) calls ∧
      ThreeState threshold cooldownMs calls := by
  refine ⟨(breaker_simulates_circuit hpos hth h).1, ?_⟩
  constructor
  case valid =>
    rw [tag_breakerAfter hpos hth h]
    cases circuitAfter threshold cooldownMs calls with
    | closed n => exact .inl rfl
    | opened s => exact .inr (.inl rfl)
    | halfOpen s => exact .inr (.inr rfl)
  case counts =>
    intro hc
    have hcirc := circuitAfter_of_closed hpos hth h hc
    obtain ⟨hb, hv⟩ := breakerAfter_eq hpos hth h
    rw [hcirc] at hb hv
    exact ⟨congrArg CircuitBreaker.failures hb, hv⟩
  case opens => exact fun hc c hc' => opens_iff hpos hth hc' hc
  case trials =>
    intro hc
    obtain ⟨s, hs⟩ := since_of_not_closed hpos hth h hc
    refine ⟨s, lastStamp_of_since hpos hth h hs, fun t ht => ?_⟩
    rw [Circuit.saturatingAdd_le_iff (ht.time_lt rfl), grants_iff hpos hth ht hs]
  case spaced =>
    rintro past t₁ mid t₂ rfl htrial htrial' hopen
    rw [← List.cons_append, ← List.append_assoc] at h
    obtain ⟨s, hs, hle⟩ := since_after_trial hpos hth h.append_left htrial hopen
    have := (grants_iff hpos hth h hs).mp htrial'.2
    omega

/-- Two failures open a circuit with threshold two, and a trial is granted a second later. -/
theorem breaker_refines_circuit_trial :
    Timely [.failure 0, .failure 5, .acquire 1005] ∧
      ThreeState 2 1000 [.failure 0, .failure 5, .acquire 1005] ∧
      GrantsTrial (breakerAfter 2 1000 [.failure 0, .failure 5]) 1005 :=
  ⟨by decide, (breaker_refines_circuit (by decide) (by decide) (by decide)).2, by decide +kernel, by decide +kernel⟩

end

end G2way.Proxy.Breaker
