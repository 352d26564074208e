import G2way.Lib.Run
import Mathlib.Data.Nat.Bitwise
import Mathlib.Data.List.Nodup

/-!
# The circuit breaker

The per-route breaker of `g2-proxy/src/breaker.rs`: "the state tag and its
transition timestamp are packed into one `AtomicU64` so every transition is a
single CAS, and the consecutive-failure count lives in a separate relaxed
counter". The forwarder calls `try_acquire` before it contacts the upstream and
reports the outcome with `record_success` or `record_failure`.

## The model

`CircuitBreaker` keeps the packed word and the failure counter as the naturals
below `2^64` and `2^32` that they are. Each operation is one atomic step, so a
compare-and-exchange on the word it has just read succeeds, and the retry loop of
`try_acquire_at` runs once.

The breaker "keeps no identity of the trial". To say who reported, `Sys` puts
the requests around it: the requests that were let through and have not reported
yet, each with the state the circuit was in when it was admitted, and the request
that was last given the trial slot. The breaker never reads these.

## What is proved

The comments of the source say what the trial is for: "Only a half-open trial's
success closes the circuit; a straggler success from a request admitted before
the trip is stale evidence and must not close an open circuit." While the circuit
is open that is so. While it is half-open the breaker cannot tell the trial's
report from another, and `straggler_closes_half_open` is a run in which a request
admitted before the trip closes the circuit while the trial is still in flight.
`trial_discipline_iff` says exactly when a run keeps the discipline: when nobody
but the holder of the trial slot reports while the circuit is half-open.
-/

namespace G2way.Proxy.Breaker

open G2way.Lib

/-! ### The packed word -/

/-- `CLOSED`. -/
def closed : ℕ := 0
/-- `OPEN`. -/
def opened : ℕ := 1
/-- `HALF_OPEN`. -/
def halfOpen : ℕ := 2

theorem closed_ne_opened : closed ≠ opened := Nat.zero_ne_one

theorem closed_ne_halfOpen : closed ≠ halfOpen := by decide

theorem opened_ne_halfOpen : opened ≠ halfOpen := by decide

/-- `SINCE_BITS`: the bits of the word that carry the timestamp. -/
def sinceBits : ℕ := 62

/-- `SINCE_MASK`. -/
def sinceMask : ℕ := (1 <<< sinceBits) - 1

/-- `pack`: the tag in the high bits, the timestamp in the low ones. -/
def pack (state sinceMs : ℕ) : ℕ := (state <<< sinceBits) % 2 ^ 64 ||| (sinceMs &&& sinceMask)

/-- `unpack`: the tag and the timestamp. -/
def unpack (word : ℕ) : ℕ × ℕ := (word >>> sinceBits, word &&& sinceMask)

theorem and_sinceMask (n : ℕ) : n &&& sinceMask = n % 2 ^ 62 := by
  simp only [sinceMask, sinceBits, Nat.shiftLeft_eq, Nat.one_mul]
  exact Nat.and_two_pow_sub_one_eq_mod n 62

/-- A tag of two bits and a timestamp come back from the word they are packed in. -/
theorem unpack_pack {state : ℕ} (h : state < 4) (sinceMs : ℕ) :
    unpack (pack state sinceMs) = (state, sinceMs % 2 ^ 62) := by
  have hlt : sinceMs % 2 ^ 62 < 2 ^ 62 := Nat.mod_lt _ (by decide)
  have hword : pack state sinceMs = state * 2 ^ 62 + sinceMs % 2 ^ 62 := by
    rw [pack, and_sinceMask, sinceBits, Nat.mod_eq_of_lt (by rw [Nat.shiftLeft_eq]; omega),
      ← Nat.shiftLeft_add_eq_or_of_lt hlt, Nat.shiftLeft_eq]
  rw [unpack, and_sinceMask, hword, sinceBits, Nat.shiftRight_eq_div_pow]
  congr 1 <;> omega

/-! ### The breaker -/

/-- The live circuit state of one route target. -/
structure CircuitBreaker where
  /-- The packed state and timestamp. -/
  state : ℕ
  /-- Consecutive failures seen while closed. -/
  failures : ℕ
  /-- How many of them open the circuit. -/
  threshold : ℕ
  /-- How long an open circuit rejects. -/
  cooldownMs : ℕ
  deriving DecidableEq, Repr

/-- `CircuitBreaker::new`: closed. -/
def CircuitBreaker.new (threshold cooldownMs : ℕ) : CircuitBreaker :=
  ⟨pack closed 0, 0, threshold, cooldownMs⟩

/-- The state tag. -/
def CircuitBreaker.tag (b : CircuitBreaker) : ℕ := (unpack b.state).1

/-- When the circuit opened, or gave out the trial slot. -/
def CircuitBreaker.since (b : CircuitBreaker) : ℕ := (unpack b.state).2

/-- `u64::saturating_add`. -/
def saturatingAdd (a b : ℕ) : ℕ := min (a + b) (2 ^ 64 - 1)

/-- `try_acquire_at`: whether a request may be forwarded now. -/
def CircuitBreaker.tryAcquireAt (b : CircuitBreaker) (nowMs : ℕ) : Bool × CircuitBreaker :=
  if b.tag = closed then
    (true, b)
  else if nowMs < saturatingAdd b.since b.cooldownMs then
    (false, b)
  else
    (true, { b with state := pack halfOpen nowMs })

/-- `record_success`. -/
def CircuitBreaker.recordSuccess (b : CircuitBreaker) : CircuitBreaker :=
  let b' := { b with failures := 0 }
  if b.tag = halfOpen then { b' with state := pack closed 0 } else b'

/-- `record_failure_at`. The counter wraps, as `fetch_add` does; what is compared with
the threshold is the old count and one, saturated. -/
def CircuitBreaker.recordFailureAt (b : CircuitBreaker) (nowMs : ℕ) : CircuitBreaker :=
  if b.tag = halfOpen then
    { b with state := pack opened nowMs }
  else if b.tag = closed then
    if b.threshold ≤ min (b.failures + 1) (2 ^ 32 - 1) then
      { b with state := pack opened nowMs, failures := 0 }
    else
      { b with failures := (b.failures + 1) % 2 ^ 32 }
  else
    -- already open: stragglers neither extend nor shorten the cooldown
    b

@[simp] theorem tag_mk_pack {state : ℕ} (h : state < 4) (since failures threshold cooldownMs : ℕ) :
    (CircuitBreaker.mk (pack state since) failures threshold cooldownMs).tag = state := by
  simp only [CircuitBreaker.tag, unpack_pack h]

/-- A success moves a half-open circuit to closed and leaves the word of any other alone. -/
theorem recordSuccess_state (b : CircuitBreaker) :
    b.recordSuccess.state = if b.tag = halfOpen then pack closed 0 else b.state := by
  unfold CircuitBreaker.recordSuccess
  split_ifs <;> rfl

/-- A failure moves a half-open circuit to open, and leaves the word of an open one alone. -/
theorem recordFailureAt_state {b : CircuitBreaker} (hb : b.tag ≠ closed) (nowMs : ℕ) :
    (b.recordFailureAt nowMs).state = if b.tag = halfOpen then pack opened nowMs else b.state := by
  unfold CircuitBreaker.recordFailureAt
  split_ifs <;> rfl

/-- No failure closes a circuit. -/
theorem recordFailureAt_tag {b : CircuitBreaker} (hb : b.tag = halfOpen) (nowMs : ℕ) :
    (b.recordFailureAt nowMs).tag = opened := by
  have h := recordFailureAt_state (b := b) (by rw [hb]; decide) nowMs
  rw [if_pos hb] at h
  rw [CircuitBreaker.tag, h, unpack_pack (by decide)]

theorem recordSuccess_tag {b : CircuitBreaker} (hb : b.tag = halfOpen) :
    b.recordSuccess.tag = closed := by
  have h := recordSuccess_state b
  rw [if_pos hb] at h
  rw [CircuitBreaker.tag, h, unpack_pack (by decide)]

/-- Asking for a slot never closes a circuit. -/
theorem tryAcquireAt_tag {b : CircuitBreaker} (hb : b.tag = halfOpen) (nowMs : ℕ) :
    (b.tryAcquireAt nowMs).2.tag = halfOpen := by
  unfold CircuitBreaker.tryAcquireAt
  split_ifs with h₁ h₂
  · exact hb
  · exact hb
  · exact tag_mk_pack (by decide) ..

/-! ### The requests around it -/

/-- The state the circuit was in when a request was let through. -/
inductive Admission where
  /-- The circuit was closed. -/
  | whileClosed
  /-- The request was given the trial slot. -/
  | asTrial
  deriving DecidableEq, Repr

/-- The breaker and the requests it let through. Requests are numbered. -/
structure Sys where
  /-- The breaker. -/
  breaker : CircuitBreaker
  /-- The requests let through that have not reported yet. -/
  inFlight : List (ℕ × Admission)
  /-- The request that holds the trial slot, while the circuit is half-open. -/
  holder : Option ℕ
  /-- The latest time an operation ran at. -/
  clock : ℕ
  deriving DecidableEq, Repr

/-- A fresh breaker, nobody in flight. -/
def Sys.init (threshold cooldownMs : ℕ) : Sys :=
  ⟨CircuitBreaker.new threshold cooldownMs, [], none, 0⟩

/-- What a request does: it asks to be let through, and if it was, it reports once. -/
inductive Op where
  /-- `try_acquire_at`, by request `r`. -/
  | acquire (r nowMs : ℕ)
  /-- `record_success`, by request `r`. -/
  | success (r : ℕ)
  /-- `record_failure_at`, by request `r`. -/
  | failure (r nowMs : ℕ)
  deriving DecidableEq, Repr

/-- The request an operation reports for. -/
def Op.reporter : Op → Option ℕ
  | .acquire _ _ => none
  | .success r => some r
  | .failure r _ => some r

/-- A time an operation may run at: not before the last one, and below `2^62`, as
`now_ms` masks it. -/
def Sys.Timely (s : Sys) (nowMs : ℕ) : Prop := s.clock ≤ nowMs ∧ nowMs < 2 ^ 62

instance (s : Sys) (nowMs : ℕ) : Decidable (s.Timely nowMs) := inferInstanceAs (Decidable (_ ∧ _))

/-- The request is in flight. -/
def Sys.InFlight (s : Sys) (r : ℕ) : Prop := r ∈ s.inFlight.map Prod.fst

instance (s : Sys) (r : ℕ) : Decidable (s.InFlight r) := inferInstanceAs (Decidable (_ ∈ _))

/-- After request `r` reported and left the breaker as `b`: it is no longer in flight, and
the trial slot has a holder only while the circuit is half-open. -/
def Sys.report (s : Sys) (r : ℕ) (b : CircuitBreaker) (clock : ℕ) : Sys :=
  { breaker := b
    inFlight := s.inFlight.filter fun p => p.1 ≠ r
    holder := if b.tag = halfOpen then s.holder else none
    clock }

/-- One operation of one request. A request that is in flight does not ask again, and
only a request in flight reports. -/
def Sys.step (s : Sys) : Op → Option Sys
  | .acquire r nowMs =>
    if s.InFlight r ∨ ¬ s.Timely nowMs then none
    else
      let (ok, b) := s.breaker.tryAcquireAt nowMs
      if ok then
        if s.breaker.tag = closed then
          some { s with breaker := b, clock := nowMs, inFlight := (r, .whileClosed) :: s.inFlight }
        else
          some { breaker := b, clock := nowMs, inFlight := (r, .asTrial) :: s.inFlight, holder := some r }
      else some { s with breaker := b, clock := nowMs }
  | .success r =>
    if s.InFlight r then some (s.report r s.breaker.recordSuccess s.clock) else none
  | .failure r nowMs =>
    if s.InFlight r ∧ s.Timely nowMs then some (s.report r (s.breaker.recordFailureAt nowMs) nowMs)
    else none

/-! ### The discipline -/

/-- A request admitted before the circuit opened, while it is not closed again. -/
def Sys.Straggler (s : Sys) (r : ℕ) : Prop :=
  (r, Admission.whileClosed) ∈ s.inFlight ∧ s.breaker.tag ≠ closed

/-- An earlier trial, whose slot was given to another request. -/
def Sys.Abandoned (s : Sys) (r : ℕ) : Prop :=
  (r, Admission.asTrial) ∈ s.inFlight ∧ s.breaker.tag ≠ closed ∧ s.holder ≠ some r

/-- The step closes the circuit. -/
def Closes (e : Event Sys Op) : Prop := e.pre.breaker.tag ≠ closed ∧ e.post.breaker.tag = closed

/-- The step moves the timestamp the cooldown is counted from. -/
def RestartsCooldown (e : Event Sys Op) : Prop :=
  e.pre.breaker.tag ≠ closed ∧ e.post.breaker.tag ≠ closed ∧ e.post.breaker.state ≠ e.pre.breaker.state

/-- **The trial discipline**, of one step: the circuit goes from half-open to closed only
because the holder of the trial slot reported success, and the report of a straggler or of
an abandoned trial neither closes it nor restarts the cooldown. -/
structure Disciplined (e : Event Sys Op) : Prop where
  /-- Only the holder closes. -/
  closes : e.pre.breaker.tag = halfOpen → e.post.breaker.tag = closed →
    ∃ r, e.act = .success r ∧ e.pre.holder = some r
  /-- Stale reports change nothing. -/
  stale : ∀ r, e.act.reporter = some r → e.pre.Straggler r ∨ e.pre.Abandoned r →
    ¬ Closes e ∧ ¬ RestartsCooldown e

/-- The condition on one step: whoever reports while the circuit is half-open holds the
trial slot. -/
def HolderReports (e : Event Sys Op) : Prop :=
  ∀ r, e.act.reporter = some r → e.pre.breaker.tag = halfOpen → e.pre.holder = some r

/-- What one operation does. -/
theorem step_cases {s t : Sys} {op : Op} (h : s.step op = some t) :
    (∃ r nowMs, op = .acquire r nowMs ∧ ¬ s.InFlight r ∧ (s.breaker.tryAcquireAt nowMs).1 = false ∧
      t = { s with breaker := (s.breaker.tryAcquireAt nowMs).2, clock := nowMs }) ∨
    (∃ r nowMs, op = .acquire r nowMs ∧ ¬ s.InFlight r ∧ s.breaker.tag = closed ∧
      t = { s with clock := nowMs, inFlight := (r, .whileClosed) :: s.inFlight }) ∨
    (∃ r nowMs, op = .acquire r nowMs ∧ ¬ s.InFlight r ∧ s.breaker.tag ≠ closed ∧
      t = ⟨{ s.breaker with state := pack halfOpen nowMs }, (r, .asTrial) :: s.inFlight, some r, nowMs⟩) ∨
    (∃ r, op = .success r ∧ s.InFlight r ∧ t = s.report r s.breaker.recordSuccess s.clock) ∨
    (∃ r nowMs, op = .failure r nowMs ∧ s.InFlight r ∧
      t = s.report r (s.breaker.recordFailureAt nowMs) nowMs) := by
  cases op with
  | acquire r nowMs =>
    simp only [Sys.step] at h
    split_ifs at h with hno hok hclosed
    · rw [not_or] at hno
      refine .inr (.inl ⟨r, nowMs, rfl, hno.1, hclosed, ?_⟩)
      rw [← Option.some.inj h, CircuitBreaker.tryAcquireAt, if_pos hclosed]
    · rw [not_or] at hno
      refine .inr (.inr (.inl ⟨r, nowMs, rfl, hno.1, hclosed, ?_⟩))
      rw [← Option.some.inj h]
      -- the slot was granted though the circuit is not closed, so the cooldown is over
      unfold CircuitBreaker.tryAcquireAt at hok ⊢
      rw [if_neg hclosed] at hok ⊢
      split_ifs at hok ⊢ with hcool
      · rfl
    · rw [not_or] at hno
      exact .inl ⟨r, nowMs, rfl, hno.1, by simpa using hok, (Option.some.inj h).symm⟩
  | success r =>
    simp only [Sys.step] at h
    split_ifs at h with hin
    exact .inr (.inr (.inr (.inl ⟨r, rfl, hin, (Option.some.inj h).symm⟩)))
  | failure r nowMs =>
    simp only [Sys.step] at h
    split_ifs at h with hin
    exact .inr (.inr (.inr (.inr ⟨r, nowMs, rfl, hin.1, (Option.some.inj h).symm⟩)))

/-- What holds of every reachable state: the trial slot has a holder exactly while the
circuit is half-open, and the holder is in flight as a trial. -/
structure Sys.Inv (s : Sys) : Prop where
  /-- A request is in flight once. -/
  nodup : (s.inFlight.map Prod.fst).Nodup
  /-- The holder was admitted as a trial. -/
  trial : ∀ r, s.holder = some r → (r, Admission.asTrial) ∈ s.inFlight
  /-- The slot is held while the circuit is half-open, and only then. -/
  held : s.holder.isSome ↔ s.breaker.tag = halfOpen

theorem inv_init (threshold cooldownMs : ℕ) : (Sys.init threshold cooldownMs).Inv where
  nodup := List.nodup_nil
  trial := by intro r h; cases h
  held := by
    simp only [Sys.init, CircuitBreaker.new, Option.isSome_none, Bool.false_eq_true, false_iff]
    rw [tag_mk_pack (by decide)]
    decide

/-- A report leaves no circuit half-open. -/
theorem recordSuccess_tag_ne (b : CircuitBreaker) : b.recordSuccess.tag ≠ halfOpen := by
  by_cases hb : b.tag = halfOpen
  · rw [recordSuccess_tag hb]
    decide
  · rwa [CircuitBreaker.tag, recordSuccess_state, if_neg hb]

theorem recordFailureAt_tag_ne (b : CircuitBreaker) (nowMs : ℕ) :
    (b.recordFailureAt nowMs).tag ≠ halfOpen := by
  unfold CircuitBreaker.recordFailureAt
  split_ifs with h₁ h₂
  · rw [tag_mk_pack (by decide)]
    decide
  · rw [tag_mk_pack (by decide)]
    decide
  · exact h₁
  · exact h₁

/-- A report that leaves the circuit not half-open keeps the invariant. -/
theorem Sys.Inv.report {s : Sys} (hs : s.Inv) (r clock : ℕ) {b : CircuitBreaker} (hb : b.tag ≠ halfOpen) :
    (s.report r b clock).Inv where
  nodup := hs.nodup.sublist (List.filter_sublist.map _)
  trial := by simp [Sys.report, hb]
  held := by simp [Sys.report, hb]

theorem inv_step (s : Sys) (op : Op) (t : Sys) (hs : s.Inv) (h : s.step op = some t) : t.Inv := by
  obtain ⟨r, nowMs, -, -, hdenied, rfl⟩ | ⟨r, nowMs, -, hin, hclosed, rfl⟩ |
    ⟨r, nowMs, -, hin, -, rfl⟩ | ⟨r, -, -, rfl⟩ | ⟨r, nowMs, -, -, rfl⟩ := step_cases h
  · -- a denied request leaves the breaker as it was
    have hb : (s.breaker.tryAcquireAt nowMs).2 = s.breaker := by
      unfold CircuitBreaker.tryAcquireAt at hdenied ⊢
      split_ifs at hdenied ⊢
      rfl
    rw [hb]
    exact ⟨hs.nodup, hs.trial, hs.held⟩
  · refine ⟨List.nodup_cons.mpr ⟨hin, hs.nodup⟩, fun r' h' => ?_, hs.held⟩
    exact List.mem_cons_of_mem _ (hs.trial r' h')
  · refine ⟨List.nodup_cons.mpr ⟨hin, hs.nodup⟩, fun r' h' => ?_, ?_⟩
    · cases h'
      exact List.mem_cons_self ..
    · rw [tag_mk_pack (by decide)]
      simp
  · exact hs.report r s.clock (recordSuccess_tag_ne _)
  · exact hs.report r nowMs (recordFailureAt_tag_ne _ _)

/-- A step keeps the discipline exactly when nobody but the holder of the trial slot
reports while the circuit is half-open. -/
theorem disciplined_iff_holderReports {e : Event Sys Op} (hinv : e.pre.Inv)
    (h : e.pre.step e.act = some e.post) : Disciplined e ↔ HolderReports e := by
  obtain ⟨s, op, t⟩ := e
  simp only at hinv h
  constructor
  · rintro ⟨-, hstale⟩ r hr hhalf
    simp only at hr hhalf hstale ⊢
    by_contra hne
    have hnc : s.breaker.tag ≠ closed := by rw [hhalf]; decide
    -- whoever is in flight and not the holder is a straggler or an abandoned trial
    have stale : s.InFlight r → s.Straggler r ∨ s.Abandoned r := by
      intro hin
      obtain ⟨⟨r', adm⟩, hmem, rfl⟩ := List.mem_map.mp hin
      cases adm with
      | whileClosed => exact .inl ⟨hmem, hnc⟩
      | asTrial => exact .inr ⟨hmem, hnc, hne⟩
    obtain ⟨_, _, rfl, -⟩ | ⟨_, _, rfl, -⟩ | ⟨_, _, rfl, -⟩ | ⟨r', rfl, hin, rfl⟩ |
      ⟨r', nowMs, rfl, hin, rfl⟩ := step_cases h <;> cases hr
    · exact (hstale r rfl (stale hin)).1 ⟨hnc, recordSuccess_tag hhalf⟩
    · have htag : (s.breaker.recordFailureAt nowMs).tag = opened := recordFailureAt_tag hhalf nowMs
      refine (hstale r rfl (stale hin)).2 ⟨hnc, ?_, fun heq => ?_⟩
      · show (s.breaker.recordFailureAt nowMs).tag ≠ closed
        rw [htag]
        decide
      · replace heq : (s.breaker.recordFailureAt nowMs).state = s.breaker.state := heq
        have := congrArg (fun w => (unpack w).1) heq
        change (s.breaker.recordFailureAt nowMs).tag = s.breaker.tag at this
        rw [htag, hhalf] at this
        exact opened_ne_halfOpen this
  · intro hcond
    constructor
    · intro hhalf hclosed
      simp only at hhalf hclosed ⊢
      obtain ⟨r, nowMs, rfl, -, -, rfl⟩ | ⟨r, nowMs, rfl, -, hc, rfl⟩ | ⟨r, nowMs, rfl, -, -, rfl⟩ |
        ⟨r, rfl, -, rfl⟩ | ⟨r, nowMs, rfl, -, rfl⟩ := step_cases h
      · rw [tryAcquireAt_tag hhalf] at hclosed
        exact absurd hclosed closed_ne_halfOpen.symm
      · rw [hc] at hhalf
        exact absurd hhalf closed_ne_halfOpen
      · rw [tag_mk_pack (by decide)] at hclosed
        exact absurd hclosed closed_ne_halfOpen.symm
      · exact ⟨r, rfl, hcond r rfl hhalf⟩
      · replace hclosed : (s.breaker.recordFailureAt nowMs).tag = closed := hclosed
        rw [recordFailureAt_tag hhalf] at hclosed
        exact absurd hclosed closed_ne_opened.symm
    · intro r hr hst
      simp only at hr hst
      have hnc : s.breaker.tag ≠ closed := by
        rcases hst with hst | hst
        · exact hst.2
        · exact hst.2.1
      -- the reporter is not the holder, so the circuit is not half-open: it is open
      have hnh : s.breaker.tag ≠ halfOpen := by
        intro hhalf
        have hholder : s.holder = some r := hcond r hr hhalf
        rcases hst with hst | hst
        · have heq := List.inj_on_of_nodup_map hinv.nodup hst.1 (hinv.trial r hholder) rfl
          cases heq
        · exact hst.2.2 hholder
      have hword : t.breaker.state = s.breaker.state := by
        obtain ⟨_, _, rfl, -⟩ | ⟨_, _, rfl, -⟩ | ⟨_, _, rfl, -⟩ | ⟨r', rfl, -, rfl⟩ |
          ⟨r', nowMs, rfl, -, rfl⟩ := step_cases h <;> cases hr
        · exact (recordSuccess_state _).trans (if_neg hnh)
        · exact (recordFailureAt_state hnc nowMs).trans (if_neg hnh)
      have htag : t.breaker.tag = s.breaker.tag := by rw [CircuitBreaker.tag, hword]; rfl
      exact ⟨fun hc => hnc (htag ▸ hc.2), fun hc => hc.2.2 hword⟩

/-- **The trial discipline holds of a run exactly when** nobody but the holder of the trial
slot reports while the circuit is half-open. -/
theorem trial_discipline_iff (threshold cooldownMs : ℕ) (ops : List Op) :
    (∀ e ∈ trace Sys.step (Sys.init threshold cooldownMs) ops, Disciplined e) ↔
      ∀ e ∈ trace Sys.step (Sys.init threshold cooldownMs) ops, HolderReports e := by
  refine forall₂_congr fun e he => ?_
  exact disciplined_iff_holderReports (inv_of_mem_trace inv_step (inv_init _ _) he) (step_of_mem_trace he)

/-- Requests `1` and `2` are let through; `1` fails and opens the circuit; `3` is given the
trial slot; then `2`, admitted before the circuit opened, reports success. -/
def stragglerRun : List Op := [.acquire 1 0, .acquire 2 0, .failure 1 0, .acquire 3 1000, .success 2]

/-- The straggler's success closes the circuit while the trial is in flight. -/
theorem straggler_closes_half_open :
    ¬ ∀ (threshold cooldownMs : ℕ) (ops : List Op),
      ∀ e ∈ trace Sys.step (Sys.init threshold cooldownMs) ops, Disciplined e := by
  intro h
  let pre : Sys := ⟨⟨pack halfOpen 1000, 0, 1, 1000⟩, [(3, .asTrial), (2, .whileClosed)], some 3, 1000⟩
  let post : Sys := ⟨⟨pack closed 0, 0, 1, 1000⟩, [(3, .asTrial)], none, 1000⟩
  have hmem : (⟨pre, .success 2, post⟩ : Event Sys Op) ∈ trace Sys.step (Sys.init 1 1000) stragglerRun := by
    decide +kernel
  obtain ⟨r, hact, hholder⟩ := (h 1 1000 stragglerRun _ hmem).closes (by decide +kernel) (by decide +kernel)
  cases hact
  exact absurd hholder (by decide)

end G2way.Proxy.Breaker
