import G2way.Proxy.Circuit
import G2way.Proxy.Forward
import G2way.Proxy.Routing

/-!
# Attempts

`run_attempts` of `g2-proxy/src/forward.rs` and what `forward` does around it: "Only transport
failures are retried; any upstream response — whatever its status — ends the sequence", and
"retrying is safe only when the attempt can be replayed: an idempotent method (after any
transform) whose body is already fully drained — i.e. empty".

## The model

What the attempts of a request meet is its `Weather`: the address that each picks from the
rotation, whatever other requests, health checks and discovery do to that meanwhile, and what
the client makes of each request it is given. The timeout over all attempts ends the one that
is under way.

`Event` is what a route sees of its requests: one arrives, or the attempts of one end. They
come in any order.

## What is proved

* `attempts_replayable`: a request is sent again only if that is safe, at most as often as
  configured, each time as a whole, to the address the rotation yields, and only after a
  transport failure.
* `open_circuit_spares_upstream`: while the circuit is not closed and nothing succeeds, what
  the upstream gets of the requests that arrive is bounded by the time that passes.
-/

namespace G2way.Proxy.Attempts

open G2way.Core G2way.Lib G2way.Middleware G2way.Proxy.Breaker G2way.Proxy.Routing

/-! ### One request -/

/-- A request, and what its body says of itself before it is read. -/
structure Streamed extends Request where
  /-- `is_end_stream`. -/
  endStream : Bool
  drained : endStream = true → body = []

/-- A request the client is given, for an address. -/
structure Attempt where
  addr : UpstreamAddr
  pathAndQuery : String
  request : Request
  deriving DecidableEq, Repr

/-- What the client makes of it. -/
inductive ClientAnswer where
  | response (status : ℕ) (headers : HeaderMap)
  /-- A transport failure; the request's body may have failed from the inside (`is_request_too_large`). -/
  | failed (tooLarge : Bool)
  /-- None yet, when the timeout passed. -/
  | elapsed
  deriving DecidableEq, Repr

/-- What the attempts of a request meet, each by its number. -/
structure Weather where
  picked : ℕ → UpstreamAddr
  answer : ℕ → Attempt → ClientAnswer

/-- What a route forwards to. -/
structure Upstream where
  target : Proxy.UpstreamTarget
  paths : Routing.UpstreamTarget
  /-- `Uri::builder` takes this path and query for the address. -/
  uriBuilds : UpstreamAddr → String → Bool

/-- `is_idempotent`: "idempotent per RFC 9110 §9.2.2 and therefore safe to send again". -/
def isIdempotent (method : String) : Bool := ["GET", "HEAD", "PUT", "DELETE", "OPTIONS", "TRACE"].contains method

/-- How a sequence ends with this answer. -/
def ClientAnswer.exchange : ClientAnswer → Exchange
  | .response status headers => .response status headers
  | .failed true => .requestTooLarge
  | .failed false => .clientError
  | .elapsed => .elapsed

section

variable (u : Upstream) (w : Weather) (req : Request)

/-- The request of an attempt: "the last attempt takes the real body", earlier ones an empty one. -/
def attemptAt (last : Bool) (attempt : ℕ) : Option Attempt :=
  let addr := w.picked attempt
  let pathAndQuery := upstreamPathAndQuery u.paths addr req.path req.query
  if u.uriBuilds addr pathAndQuery then
    some ⟨addr, pathAndQuery, if last then req else { req with body := [] }⟩
  else none

/-- `run_attempts`, where `further` attempts may follow the one at hand: the requests that were sent, and how the
sequence ended. -/
def runAttempts : (further attempt : ℕ) → List Attempt × Exchange
  | 0, attempt =>
    match attemptAt u w req true attempt with
    | none => ([], .badUri)
    | some sent => ([sent], (w.answer attempt sent).exchange)
  | further + 1, attempt =>
    match attemptAt u w req false attempt with
    | none => ([], .badUri)
    | some sent =>
      match w.answer attempt sent with
      | .failed false =>
        let rest := runAttempts further (attempt + 1)
        (sent :: rest.1, rest.2)
      | answer => ([sent], answer.exchange)

end

/-- How many attempts there may be after the first one (`max_attempts`, less one). -/
def furtherAttempts (target : Proxy.UpstreamTarget) (req : Streamed) : ℕ :=
  if 0 < target.retries ∧ isIdempotent (upstreamRequest target req.toRequest).method ∧ req.endStream then
    min (target.retries + 1) (2 ^ 32 - 1) - 1
  else 0

/-- What `forward` sends for a request that was admitted, and how that ended. -/
def exchange (u : Upstream) (w : Weather) (req : Streamed) : List Attempt × Exchange :=
  runAttempts u w (upstreamRequest u.target req.toRequest) (furtherAttempts u.target req) 0

/-! ### What is sent -/

section Sent

variable {u : Upstream} {w : Weather} {req : Request}

/-- What a sequence that begins with this attempt is like. -/
structure Sequence (u : Upstream) (w : Weather) (req : Request) (further attempt : ℕ)
    (run : List Attempt × Exchange) : Prop where
  /-- There are not too many requests. -/
  bounded : run.1.length ≤ further + 1
  /-- Each goes to the address that its attempt picked. -/
  addressed : ∀ i a, run.1[i]? = some a → a.addr = w.picked (attempt + i) ∧
    a.pathAndQuery = upstreamPathAndQuery u.paths a.addr req.path req.query
  /-- The last possible one has the body, and every other one all but the body. -/
  whole : ∀ i a, run.1[i]? = some a → a.request = if i = further then req else { req with body := [] }
  /-- One follows only on a transport failure. -/
  failed : ∀ i a, run.1[i]? = some a → i + 1 < run.1.length → w.answer (attempt + i) a = .failed false
  /-- The last answer ends the sequence, unless there is no address for the next request. -/
  ended : run.2 = .badUri ∨
    ∃ i a, run.1[i]? = some a ∧ i + 1 = run.1.length ∧ run.2 = (w.answer (attempt + i) a).exchange

theorem attemptAt_eq_some {last : Bool} {attempt : ℕ} {a : Attempt} (h : attemptAt u w req last attempt = some a) :
    a.addr = w.picked attempt ∧ a.pathAndQuery = upstreamPathAndQuery u.paths a.addr req.path req.query ∧
      a.request = if last then req else { req with body := [] } := by
  simp only [attemptAt, Option.ite_none_right_eq_some, Option.some.injEq] at h
  obtain ⟨-, rfl⟩ := h
  exact ⟨rfl, rfl, rfl⟩

theorem Sequence.badUri (further attempt : ℕ) : Sequence u w req further attempt ([], .badUri) where
  bounded := Nat.zero_le _
  addressed i a h := by cases h
  whole i a h := by cases h
  failed i a h := by cases h
  ended := .inl rfl

/-- A sequence that ends with its first request. -/
theorem Sequence.single {further attempt : ℕ} {a : Attempt} (h : attemptAt u w req (further = 0) attempt = some a) :
    Sequence u w req further attempt ([a], (w.answer attempt a).exchange) := by
  obtain ⟨haddr, hpath, hwhole⟩ := attemptAt_eq_some h
  have hfirst {i : ℕ} {b : Attempt} (hb : [a][i]? = some b) : i = 0 ∧ b = a := by
    cases i with
    | zero => exact ⟨rfl, (Option.some.inj hb).symm⟩
    | succ i => cases hb
  constructor
  case bounded => exact Nat.le_add_left 1 further
  case addressed =>
    intro i b hb
    obtain ⟨rfl, rfl⟩ := hfirst hb
    exact ⟨haddr, hpath⟩
  case whole =>
    intro i b hb
    obtain ⟨rfl, rfl⟩ := hfirst hb
    simpa [eq_comm] using hwhole
  case failed =>
    intro i b hb hlt
    obtain ⟨rfl, rfl⟩ := hfirst hb
    simp at hlt
  case ended => exact .inr ⟨0, a, rfl, rfl, rfl⟩

/-- A sequence that goes on after a transport failure. -/
theorem Sequence.cons {further attempt : ℕ} {a : Attempt} {run : List Attempt × Exchange}
    (h : attemptAt u w req false attempt = some a) (hfailed : w.answer attempt a = .failed false)
    (hrun : Sequence u w req further (attempt + 1) run) :
    Sequence u w req (further + 1) attempt (a :: run.1, run.2) := by
  obtain ⟨haddr, hpath, hwhole⟩ := attemptAt_eq_some h
  have hshift (i : ℕ) : attempt + (i + 1) = attempt + 1 + i := by omega
  constructor
  case bounded => exact Nat.succ_le_succ hrun.bounded
  case addressed =>
    intro i b hb
    cases i with
    | zero =>
      obtain rfl := Option.some.inj hb
      exact ⟨haddr, hpath⟩
    | succ i =>
      rw [hshift]
      exact hrun.addressed i b hb
  case whole =>
    intro i b hb
    cases i with
    | zero =>
      obtain rfl := Option.some.inj hb
      simpa using hwhole
    | succ i =>
      rw [hrun.whole i b hb]
      simp
  case failed =>
    intro i b hb hlt
    cases i with
    | zero =>
      obtain rfl := Option.some.inj hb
      exact hfailed
    | succ i =>
      rw [hshift]
      exact hrun.failed i b hb (Nat.lt_of_succ_lt_succ hlt)
  case ended =>
    rcases hrun.ended with hbad | ⟨i, b, hb, hlast, hend⟩
    · exact .inl hbad
    · exact .inr ⟨i + 1, b, hb, congrArg (· + 1) hlast, by rw [hshift]; exact hend⟩

theorem sequence_runAttempts (further attempt : ℕ) :
    Sequence u w req further attempt (runAttempts u w req further attempt) := by
  induction further generalizing attempt with
  | zero =>
    rw [runAttempts]
    cases ha : attemptAt u w req true attempt with
    | none => exact .badUri _ _
    | some a => exact .single (by simpa using ha)
  | succ further ih =>
    rw [runAttempts]
    cases ha : attemptAt u w req false attempt with
    | none => exact .badUri _ _
    | some a =>
      have hsingle : Sequence u w req (further + 1) attempt ([a], (w.answer attempt a).exchange) :=
        .single (by simpa using ha)
      cases hanswer : w.answer attempt a with
      | response status headers => simpa only [hanswer] using hsingle
      | elapsed => simpa only [hanswer] using hsingle
      | failed tooLarge =>
        cases tooLarge with
        | true => simpa only [hanswer] using hsingle
        | false => simpa only [hanswer] using Sequence.cons ha hanswer (ih (attempt + 1))

end Sent

theorem furtherAttempts_le (target : Proxy.UpstreamTarget) (req : Streamed) :
    furtherAttempts target req ≤ target.retries := by
  rw [furtherAttempts]
  split_ifs <;> omega

theorem sequence_exchange (u : Upstream) (w : Weather) (req : Streamed) :
    Sequence u w (upstreamRequest u.target req.toRequest) (furtherAttempts u.target req) 0 (exchange u w req) :=
  sequence_runAttempts _ 0

/-- A request is sent no more often than configured. -/
theorem length_exchange_le (u : Upstream) (w : Weather) (req : Streamed) :
    (exchange u w req).1.length ≤ u.target.retries + 1 :=
  (sequence_exchange u w req).bounded.trans (Nat.succ_le_succ (furtherAttempts_le u.target req))

/-- What the upstreams get of a request that was admitted. -/
structure Replayable (u : Upstream) (w : Weather) (req : Streamed) (run : List Attempt × Exchange) : Prop where
  /-- No more often than configured. -/
  bounded : run.1.length ≤ u.target.retries + 1
  /-- More than once only what can be sent again. -/
  safe : 1 < run.1.length →
    isIdempotent (upstreamRequest u.target req.toRequest).method = true ∧ req.endStream = true
  /-- Each time as a whole. -/
  whole : ∀ a ∈ run.1, a.request = upstreamRequest u.target req.toRequest
  /-- To the address the rotation yields, -/
  addressed : ∀ i a, run.1[i]? = some a → a.addr = w.picked i ∧
    a.pathAndQuery = upstreamPathAndQuery u.paths a.addr req.path req.query
  /-- and again only on a transport failure. -/
  failed : ∀ i a, run.1[i]? = some a → i + 1 < run.1.length → w.answer i a = .failed false
  /-- The last answer decides, unless there is no address for the next request. -/
  ended : run.2 = .badUri ∨
    ∃ i a, run.1[i]? = some a ∧ i + 1 = run.1.length ∧ run.2 = (w.answer i a).exchange

/-- **A request is sent again only where that is safe.** Whatever the rotation yields and the upstreams answer: nothing
is sent twice but an idempotent request without a body, nothing after an answer, and each request that is sent is all
of the client's. -/
theorem attempts_replayable (u : Upstream) (w : Weather) (req : Streamed) : Replayable u w req (exchange u w req) := by
  have h := sequence_exchange u w req
  have hbounded := length_exchange_le u w req
  have haddressed := h.addressed
  have hfailed := h.failed
  have hended := h.ended
  simp only [Nat.zero_add] at haddressed hfailed hended
  by_cases hagain : 0 < u.target.retries ∧ isIdempotent (upstreamRequest u.target req.toRequest).method = true ∧
      req.endStream = true
  · have hempty : { upstreamRequest u.target req.toRequest with body := [] } =
        upstreamRequest u.target req.toRequest := by
      have hbody : (upstreamRequest u.target req.toRequest).body = [] := req.drained hagain.2.2
      rw [← hbody]
    refine ⟨hbounded, fun _ => hagain.2, fun a ha => ?_, haddressed, hfailed, hended⟩
    obtain ⟨i, hi⟩ := List.mem_iff_getElem?.1 ha
    rw [h.whole i a hi, hempty, ite_self]
  · have hfurther : furtherAttempts u.target req = 0 := if_neg hagain
    have hsingle : (exchange u w req).1.length ≤ 1 := by
      have hfew := h.bounded
      omega
    refine ⟨hbounded, fun hmore => absurd hsingle (Nat.not_le.2 hmore), fun a ha => ?_, haddressed, hfailed, hended⟩
    obtain ⟨i, hi⟩ := List.mem_iff_getElem?.1 ha
    have hlt : i < (exchange u w req).1.length := (List.getElem?_eq_some_iff.1 hi).1
    rw [h.whole i a hi, if_pos (by omega)]

/-! ### The circuit of a route -/

/-- What a route sees: a request arrives, or the attempts of one have ended. -/
inductive Event where
  | arrive (req : Streamed) (w : Weather) (nowMs : ℕ)
  | finish (ended : Exchange) (nowMs : ℕ)

/-- "The breaker judges the exchange's final outcome": what it is told of it, if anything. A body over its limit is
"the client's fault", and a request without a URI is "not upstream weather". -/
def judged (nowMs : ℕ) : Exchange → Option Call
  | .response status _ => some (if 500 ≤ status ∧ status < 600 then .failure nowMs else .success)
  | .clientError | .elapsed => some (.failure nowMs)
  | .requestTooLarge | .badUri => none

/-- The call of the breaker that an event makes. -/
def Event.call : Event → Option Call
  | .arrive _ _ nowMs => some (.acquire nowMs)
  | .finish ended nowMs => judged nowMs ended

/-- What is sent at an event, and the breaker after it: "circuit open: shed the request without contacting the
upstream". -/
def serve (u : Upstream) (b : CircuitBreaker) : Event → List Attempt × CircuitBreaker
  | .arrive req w nowMs =>
    let acquired := b.tryAcquireAt nowMs
    (if acquired.1 then (exchange u w req).1 else [], acquired.2)
  | .finish ended nowMs =>
    ([], match judged nowMs ended with
      | some call => (b.perform call).2
      | none => b)

/-- The calls of the breaker in a run. -/
def calls (events : List Event) : List Call := events.filterMap Event.call

/-- What is sent for the requests that arrive in a run: all attempts of a request stand at its arrival. -/
def sent (u : Upstream) (b : CircuitBreaker) (events : List Event) : List Attempt :=
  (answered (serve u) b events).flatMap Prod.snd

section Circuit

variable {u : Upstream} {threshold cooldownMs : ℕ}

theorem calls_append (as bs : List Event) : calls (as ++ bs) = calls as ++ calls bs := List.filterMap_append

theorem calls_concat (events : List Event) (e : Event) : calls (events ++ [e]) = calls events ++ e.call.toList := by
  rw [calls_append, calls, calls, List.filterMap_cons, List.filterMap_nil]
  cases e.call <;> rfl

/-- An event does to the breaker what its call does. -/
theorem serve_breaker (b : CircuitBreaker) (e : Event) :
    (serve u b e).2 = after CircuitBreaker.perform b e.call.toList := by
  cases e with
  | arrive req w nowMs => rfl
  | finish ended nowMs =>
    simp only [serve, Event.call]
    cases judged nowMs ended <;> rfl

theorem after_serve (b : CircuitBreaker) (events : List Event) :
    after (serve u) b events = after CircuitBreaker.perform b (calls events) := by
  induction events using List.reverseRecOn with
  | nil => rfl
  | append_singleton events e ih => rw [after_concat, calls_concat, after_append, ← ih, serve_breaker]

/-- An end of a sequence is no call for admission. -/
theorem judged_ne_acquire (nowMs t : ℕ) (ended : Exchange) : judged nowMs ended ≠ some (.acquire t) := by
  cases ended with
  | response status headers =>
    simp only [judged]
    split_ifs <;> simp
  | requestTooLarge => simp [judged]
  | clientError => simp [judged]
  | badUri => simp [judged]
  | elapsed => simp [judged]

/-- What the last event of a run sends. -/
theorem sent_concat (b : CircuitBreaker) (events : List Event) (e : Event) :
    sent u b (events ++ [e]) =
      sent u b events ++ (serve u (after CircuitBreaker.perform b (calls events)) e).1 := by
  rw [sent, answered_concat, List.flatMap_append, after_serve (u := u)]
  simp [sent]

/-- The timestamp of a circuit is the time of a call. -/
theorem since_mem {cs : List Call} {s : ℕ} (h : (circuitAfter threshold cooldownMs cs).since = some s) :
    s ∈ cs.filterMap Call.time := by
  induction cs using List.reverseRecOn generalizing s with
  | nil => cases h
  | append_singleton cs c ih =>
    rw [List.filterMap_append, List.mem_append]
    rw [circuitAfter_concat] at h
    rcases Circuit.since_perform h with hc | hs
    · exact .inr (List.mem_filterMap.2 ⟨c, List.mem_singleton_self c, hc⟩)
    · exact .inl (ih hs)

/-- A circuit with a timestamp grants once the cooldown is over. -/
theorem acquire_of_since {c : Circuit} {s t : ℕ} (h : c.since = some s) :
    (c.perform threshold cooldownMs (.acquire t)).2 = if s + cooldownMs ≤ t then .halfOpen t else c := by
  cases c with
  | closed n => cases h
  | opened s' =>
    obtain rfl := Option.some.inj h
    simp only [Circuit.perform]
    split_ifs <;> rfl
  | halfOpen s' =>
    obtain rfl := Option.some.inj h
    simp only [Circuit.perform]
    split_ifs <;> rfl

/-- A failure does not close it. -/
theorem failure_of_since (threshold cooldownMs t : ℕ) {c : Circuit} {s : ℕ} (h : c.since = some s) :
    (c.perform threshold cooldownMs (.failure t)).2.since = some s ∨
      (c.perform threshold cooldownMs (.failure t)).2.since = some t := by
  cases c with
  | closed n => cases h
  | opened s' => exact .inl h
  | halfOpen s' => exact .inr rfl

section

variable (hpos : 1 ≤ threshold) (hth : threshold < 2 ^ 32)
include hpos hth

/-- While nothing succeeds, the circuit stays with a timestamp, and each request that passes moves it by a cooldown. -/
theorem sent_mul_le {past later : List Event} (h : Timely (calls (past ++ later))) {s : ℕ}
    (hs : (circuitAfter threshold cooldownMs (calls past)).since = some s)
    (hdown : ∀ e ∈ later, e.call ≠ some .success) :
    ∃ s', (circuitAfter threshold cooldownMs (calls (past ++ later))).since = some s' ∧ s ≤ s' ∧
      (sent u (breakerAfter threshold cooldownMs (calls past)) later).length * cooldownMs ≤
        (u.target.retries + 1) * (s' - s) := by
  induction later using List.reverseRecOn with
  | nil => exact ⟨s, by rwa [List.append_nil], le_rfl, by simp [sent, answered]⟩
  | append_singleton later e ih =>
    rw [← List.append_assoc, calls_concat] at h ⊢
    obtain ⟨s', hs', hle, hsent⟩ := ih h.append_left fun e' he' => hdown e' (List.mem_append_left _ he')
    obtain ⟨hb, hv⟩ : breakerAfter threshold cooldownMs (calls (past ++ later)) = _ ∧ _ :=
      breakerAfter_eq hpos hth h.append_left
    have hnow : after CircuitBreaker.perform (breakerAfter threshold cooldownMs (calls past)) (calls later) =
        (circuitAfter threshold cooldownMs (calls (past ++ later))).encode threshold cooldownMs := by
      rw [← hb, calls_append]
      exact (after_append ..).symm
    rw [sent_concat, hnow]
    cases e with
    | arrive req w t =>
      have ht : t < 2 ^ 62 := h.time_lt rfl
      have hcircuit : circuitAfter threshold cooldownMs (calls (past ++ later) ++ [.acquire t]) =
          if s' + cooldownMs ≤ t then .halfOpen t else circuitAfter threshold cooldownMs (calls (past ++ later)) := by
        rw [circuitAfter_concat, acquire_of_since hs']
      show ∃ s'', (circuitAfter threshold cooldownMs (calls (past ++ later) ++ [.acquire t])).since = some s'' ∧ _
      simp only [serve, Circuit.tryAcquireAt_encode hv hs' ht, hcircuit]
      by_cases hgrant : s' + cooldownMs ≤ t
      · rw [if_pos hgrant, if_pos hgrant]
        refine ⟨t, rfl, by omega, ?_⟩
        have hbound := length_exchange_le u w req
        calc (sent u (breakerAfter threshold cooldownMs (calls past)) later ++ (exchange u w req).1).length * cooldownMs
            ≤ (u.target.retries + 1) * (s' - s) + (u.target.retries + 1) * cooldownMs := by
              rw [List.length_append, Nat.add_mul]
              exact Nat.add_le_add hsent (Nat.mul_le_mul_right _ hbound)
          _ = (u.target.retries + 1) * (s' - s + cooldownMs) := (Nat.mul_add ..).symm
          _ ≤ (u.target.retries + 1) * (t - s) := Nat.mul_le_mul_left _ (by omega)
      · rw [if_neg hgrant, if_neg hgrant]
        exact ⟨s', hs', hle, by simpa using hsent⟩
    | finish ended t =>
      have hnothing : (sent u (breakerAfter threshold cooldownMs (calls past)) later ++ []).length * cooldownMs ≤
          (u.target.retries + 1) * (s' - s) := by rwa [List.append_nil]
      cases hcall : judged t ended with
      | none => exact ⟨s', by simpa [Event.call, hcall] using hs', hle, hnothing⟩
      | some c =>
        cases c with
        | acquire t' => exact absurd hcall (judged_ne_acquire t t' ended)
        | success =>
          exact absurd hcall (hdown (.finish ended t) (List.mem_append_right _ (List.mem_singleton_self _)))
        | failure t' =>
          have hlater : s' ≤ t' := by
            have htimes := h.1
            simp only [Event.call, hcall, Option.toList_some, List.filterMap_append] at htimes
            exact (List.pairwise_append.1 htimes).2.2 s' (since_mem hs') t' (by simp [Call.time])
          simp only [Event.call, hcall, Option.toList_some, circuitAfter_concat]
          rcases failure_of_since threshold cooldownMs t' hs' with hsince | hsince
          · exact ⟨s', hsince, hle, hnothing⟩
          · exact ⟨t', hsince, hle.trans hlater, hnothing.trans (Nat.mul_le_mul_left _ (by omega))⟩

/-- **An open circuit spares the upstream.** From any point of a run at which the circuit is not closed, and as long as
no exchange succeeds, the upstream gets no more of the requests that arrive from then on than one round of attempts for
each cooldown that has passed since the circuit opened or gave out its trial slot: in whatever order requests arrive and
end. What is still to be sent for those admitted earlier is not counted. -/
theorem open_circuit_spares_upstream {past later : List Event} {now : ℕ} (h : Timely (calls (past ++ later)))
    (hopen : (breakerAfter threshold cooldownMs (calls past)).tag ≠ closed)
    (hdown : ∀ e ∈ later, e.call ≠ some .success)
    (hnow : ∀ t ∈ (calls (past ++ later)).filterMap Call.time, t ≤ now) :
    (sent u (breakerAfter threshold cooldownMs (calls past)) later).length * cooldownMs ≤
      (u.target.retries + 1) * (now - (breakerAfter threshold cooldownMs (calls past)).since) := by
  have hpast : Timely (calls past) := by
    rw [calls_append] at h
    exact h.append_left
  obtain ⟨s, hs⟩ := since_of_not_closed hpos hth hpast hopen
  obtain ⟨hb, hv⟩ : breakerAfter threshold cooldownMs (calls past) = _ ∧ _ := breakerAfter_eq hpos hth hpast
  obtain ⟨s', hs', -, hsent⟩ := sent_mul_le (u := u) hpos hth h hs hdown
  have hsince : (breakerAfter threshold cooldownMs (calls past)).since = s := by
    rw [hb, Circuit.since_encode hv hs]
  rw [hsince]
  exact hsent.trans (Nat.mul_le_mul_left _ (Nat.sub_le_sub_right (hnow s' (since_mem hs')) s))

end

end Circuit

/-- A route with two retries, to one address. -/
def retryingUpstream : Upstream where
  target := ⟨"users", false, none, 2, false, false⟩
  paths := ⟨"/users", true, []⟩
  uriBuilds _ _ := true

/-- Nobody answers there. -/
def deadWeather : Weather := ⟨fun _ => ⟨.http, "users.internal", ""⟩, fun _ _ => .failed false⟩

/-- A `GET` without a body. -/
def plainGet : Streamed := { path := "/users/7", endStream := true, drained := fun _ => rfl }

/-- One arrives while the circuit is open, and one a cooldown after it opened. -/
def whileOpen : List Event := [.arrive plainGet deadWeather 500, .arrive plainGet deadWeather 1000, .finish .elapsed 1200]

theorem open_circuit_spares_upstream_trial :
    (sent retryingUpstream (breakerAfter 1 1000 (calls [.finish .clientError 0])) whileOpen).length = 3 ∧
      (sent retryingUpstream (breakerAfter 1 1000 (calls [.finish .clientError 0])) whileOpen).length * 1000 ≤
        3 * (1200 - (breakerAfter 1 1000 (calls [.finish .clientError 0])).since) := by
  refine ⟨by decide +kernel, open_circuit_spares_upstream (u := retryingUpstream) (by decide) (by decide) ?_ ?_ ?_ ?_⟩
  · decide
  · decide +kernel
  · simp [whileOpen, Event.call, judged]
  · decide

end G2way.Proxy.Attempts
