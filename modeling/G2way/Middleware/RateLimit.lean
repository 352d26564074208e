import G2way.Middleware.Context
import G2way.Middleware.Spike
import G2way.Storage.SlidingLog

/-!
# Rate limits and quotas

`enforce` of `g2-middleware/src/rate_limit.rs`: "turn an API's endpoint limits and a
session's allowances into `429`/`403` rejections". Its checks run in an order, "cheapest
shared state first": the endpoint limit, the spike guard, the session's rate, the session's
quota. "If the storage backend errors, the request is allowed and the failure logged
loudly."

## The model

The storage is a parameter: any two operations that take the counter of a key to an answer,
or to an error, and to the counter after it (`Backend`). What the storage decides by (the
time, whether it can be reached) is `ε`. `World` is what the checks count in: a rate counter
and a quota counter for each key, and the buckets of the spike guard.

`enforce` answers the rejection, if there is one, and the counters after it; with them it
lists the checks it performed, with what each of them said. Nothing reads that list but the
theorems.

## What is proved

`enforce_charges_in_order`: the checks that a request calls for (`due`) are performed in the order
above, to the first that denies; the request is rejected exactly when one denied; and no counter
changes but those of the checks that were performed. So a quota counter counts only requests that every other
gate let pass (`counts` and `passed`), and an error at a gate is an allow (`enforce_alike`).
-/

namespace G2way.Middleware.RateLimit

open G2way.Core G2way.Lib G2way.Storage G2way.Middleware.Spike

/-! ### Configuration -/

/-- `CompiledEndpointLimit`. -/
structure CompiledEndpointLimit where
  /-- Whether the rule's regex is found in a path. -/
  regex : String → Bool
  /-- The methods it applies to; none is every method. -/
  methods : List String
  requests : ℕ
  /-- The window, in milliseconds. -/
  window : ℕ
  storageKey : String

/-- `matches`. -/
def CompiledEndpointLimit.matches (rule : CompiledEndpointLimit) (method path : String) : Bool :=
  (rule.methods.isEmpty || rule.methods.contains method) && rule.regex path

/-- `EndpointLimits::first_match`. -/
def firstMatch (rules : List CompiledEndpointLimit) (method path : String) : Option CompiledEndpointLimit :=
  rules.find? fun rule => rule.matches method path

/-- `RateLimitState`: the compiled endpoint rules of an API, if it declares any. -/
structure RateLimitState where
  endpointLimits : Option (List CompiledEndpointLimit)

/-- `rate_limit_storage_key`. -/
def rateLimitStorageKey (orgId keyHash : String) : String := "g2:" ++ orgId ++ ":ratelimit:" ++ keyHash

/-- `quota_storage_key`. -/
def quotaStorageKey (orgId keyHash : String) : String := "g2:" ++ orgId ++ ":quota:" ++ keyHash

/-! ### What the checks count in -/

/-- The two checks of a storage, on the counter of one key. `none` is an error. -/
structure Backend (ε ρ κ : Type*) where
  /-- `check_rate`. -/
  checkRate : ε → ρ → (limit window : ℕ) → Option LimitDecision × ρ
  /-- `check_quota`. -/
  checkQuota : ε → κ → (max period : ℕ) → Option LimitDecision × κ

/-- The counters. -/
structure World (ρ κ : Type*) where
  /-- The rate counters, by key. -/
  rates : String → ρ
  /-- The quota counters, by key. -/
  quotas : String → κ
  /-- The spike guard, where it is enabled. -/
  guard : Option SpikeGuard

/-- When a request arrives: the second of the spike guard's clock, the second of the Unix clock,
and what the storage decides by. -/
structure Moment (ε : Type*) where
  nowSecs : ℕ
  unixNowSecs : ℕ
  storage : ε

/-! ### Rejections -/

/-- A denial, with the numbers of its headers. -/
structure LimitResponse extends Rejection where
  headers : List (String × ℕ)
  deriving DecidableEq, Repr

/-- `limit_response`: the reset in whole seconds, rounded up, at least one. -/
def limitResponse (unixNowSecs status : ℕ) (message : String) (limit : ℕ) (decision : LimitDecision) :
    LimitResponse :=
  let resetSecs := max (min ((decision.resetAfter + 999) / 1000) (2 ^ 64 - 1)) 1
  { status, message
    headers := [("x-ratelimit-limit", limit), ("x-ratelimit-remaining", decision.remaining),
      ("x-ratelimit-reset", min (unixNowSecs + resetSecs) (2 ^ 64 - 1)), ("retry-after", resetSecs)] }

/-! ### The checks -/

/-- The gates, in order. -/
inductive Gate where
  | endpoint
  | spike
  | rate
  | quota
  deriving DecidableEq, Repr

/-- What a check said. -/
inductive Verdict where
  | allowed
  | denied
  | failed
  deriving DecidableEq, Repr

/-- A check that was performed: at a gate, on the counter of a key. -/
structure Check where
  gate : Gate
  key : String
  verdict : Verdict
  deriving DecidableEq, Repr

/-- What the answer of the storage says. -/
def verdictOf : Option LimitDecision → Verdict
  | none => .failed
  | some d => if d.allowed then .allowed else .denied

/-- What an answer of the storage rejects with: a denial does, an error does not. -/
def denial (response : LimitDecision → LimitResponse) : Option LimitDecision → Option LimitResponse
  | some decision => if decision.allowed then none else some (response decision)
  | none => none

/-- The end of some checks: the rejection, the counters, and the checks performed. -/
structure Step (ρ κ : Type*) where
  rejection : Option LimitResponse
  world : World ρ κ
  performed : List Check

section

variable {ε ρ κ : Type*}

/-- Nothing to check. -/
def Step.pass (w : World ρ κ) : Step ρ κ := ⟨none, w, []⟩

/-- Go on, unless the request was rejected. -/
def Step.andThen (s : Step ρ κ) (next : World ρ κ → Step ρ κ) : Step ρ κ :=
  match s.rejection with
  | some _ => s
  | none => { next s.world with performed := s.performed ++ (next s.world).performed }

/-- A `check_rate` at a gate: a denial rejects with `429`, and an error passes. -/
def checkRate (b : Backend ε ρ κ) (moment : Moment ε) (gate : Gate) (key : String) (requests window : ℕ)
    (w : World ρ κ) : Step ρ κ :=
  let (answer, counter) := b.checkRate moment.storage (w.rates key) requests window
  { rejection := denial (limitResponse moment.unixNowSecs 429 "rate limit exceeded" requests) answer
    world := { w with rates := Function.update w.rates key counter }
    performed := [⟨gate, key, verdictOf answer⟩] }

/-- A `check_quota`: a denial rejects with `403`, and an error passes. -/
def checkQuota (b : Backend ε ρ κ) (moment : Moment ε) (key : String) (max period : ℕ) (w : World ρ κ) : Step ρ κ :=
  let (answer, counter) := b.checkQuota moment.storage (w.quotas key) max period
  { rejection := denial (limitResponse moment.unixNowSecs 403 "quota exceeded" max) answer
    world := { w with quotas := Function.update w.quotas key counter }
    performed := [⟨.quota, key, verdictOf answer⟩] }

/-- The spike guard, where it is enabled: a denial rejects with `429` and a hint of one second. -/
def checkSpike (moment : Moment ε) (identity : String) (limit : ℕ) (w : World ρ κ) : Step ρ κ :=
  match w.guard with
  | none => .pass w
  | some guard =>
    let (granted, guard) := guard.tryAcquireAt identity moment.nowSecs
    { rejection := if granted then none
        else some (limitResponse moment.unixNowSecs 429 "rate limit exceeded" limit ⟨false, 0, 1000⟩)
      world := { w with guard := some guard }
      performed := [⟨.spike, identity, if granted then .allowed else .denied⟩] }

/-- The endpoint limit: the first rule that matches the request, if any. -/
def checkEndpoint (b : Backend ε ρ κ) (state : RateLimitState) (moment : Moment ε) (req : Request) (w : World ρ κ) :
    Step ρ κ :=
  match state.endpointLimits.bind fun rules => firstMatch rules req.method req.path with
  | none => .pass w
  | some rule => checkRate b moment .endpoint rule.storageKey rule.requests rule.window w

/-- The limits of a session: nothing is checked when it has neither a rate nor a quota. -/
def checkSession (b : Backend ε ρ κ) (moment : Moment ε) (ctx : SessionContext) (w : World ρ κ) : Step ρ κ :=
  let rate := ctx.session.rate
  let quota := ctx.session.quota
  if rate.isNone && quota.isNone then .pass w
  else
    let limit := rate.elim (quota.elim 0 Quota.max) Core.RateLimit.requests
    (checkSpike moment ctx.keyHash limit w).andThen fun w =>
      (rate.elim (.pass w) fun rate =>
        checkRate b moment .rate (rateLimitStorageKey ctx.session.orgId ctx.keyHash) rate.requests
          (rate.perSeconds * 1000) w).andThen fun w =>
        quota.elim (.pass w) fun quota =>
          checkQuota b moment (quotaStorageKey ctx.session.orgId ctx.keyHash) quota.max
            (quota.renewalRateSecs * 1000) w

/-- What is left to check after the endpoint limit. -/
def laterChecks (b : Backend ε ρ κ) (moment : Moment ε) (req : Request) (w : World ρ κ) : Step ρ κ :=
  match req.extensions.session with
  | none => .pass w
  | some ctx => checkSession b moment ctx w

/-- `enforce`. -/
def enforce (b : Backend ε ρ κ) (state : RateLimitState) (moment : Moment ε) (req : Request) (w : World ρ κ) :
    Step ρ κ :=
  (checkEndpoint b state moment req w).andThen (laterChecks b moment req)

/-! ### The checks that are due -/

/-- A check that a request calls for: at a gate, on the counter of a key. -/
structure Due (ρ κ : Type*) where
  gate : Gate
  key : String
  /-- What it says of the counters it finds, and how it leaves them. -/
  perform : World ρ κ → Verdict × World ρ κ

/-- A check of a rate. -/
def Due.ofRate (b : Backend ε ρ κ) (moment : Moment ε) (gate : Gate) (key : String) (requests window : ℕ) : Due ρ κ where
  gate
  key
  perform w :=
    let answer := b.checkRate moment.storage (w.rates key) requests window
    (verdictOf answer.1, { w with rates := Function.update w.rates key answer.2 })

/-- A check of a quota. -/
def Due.ofQuota (b : Backend ε ρ κ) (moment : Moment ε) (key : String) (max period : ℕ) : Due ρ κ where
  gate := .quota
  key
  perform w :=
    let answer := b.checkQuota moment.storage (w.quotas key) max period
    (verdictOf answer.1, { w with quotas := Function.update w.quotas key answer.2 })

/-- A question to the spike guard. -/
def Due.ofSpike (moment : Moment ε) (identity : String) : Due ρ κ where
  gate := .spike
  key := identity
  perform w :=
    w.guard.elim (.allowed, w) fun guard =>
      let answer := guard.tryAcquireAt identity moment.nowSecs
      (if answer.1 then .allowed else .denied, { w with guard := some answer.2 })

/-- The checks that a session calls for: none without a rate or a quota, else the spike guard, where it is enabled, and
those that the session has. -/
def sessionDue (b : Backend ε ρ κ) (moment : Moment ε) (guarded : Bool) (ctx : SessionContext) : List (Due ρ κ) :=
  let session := ctx.session
  if session.rate.isNone && session.quota.isNone then []
  else
    (if guarded then [Due.ofSpike moment ctx.keyHash] else []) ++
      (session.rate.toList.map fun rate =>
        Due.ofRate b moment .rate (rateLimitStorageKey session.orgId ctx.keyHash) rate.requests (rate.perSeconds * 1000)) ++
      session.quota.toList.map fun quota =>
        Due.ofQuota b moment (quotaStorageKey session.orgId ctx.keyHash) quota.max (quota.renewalRateSecs * 1000)

/-- The checks that a request calls for: the first endpoint rule that matches it, and those of its session. -/
def due (b : Backend ε ρ κ) (state : RateLimitState) (moment : Moment ε) (req : Request) (guarded : Bool) :
    List (Due ρ κ) :=
  ((state.endpointLimits.bind fun rules => firstMatch rules req.method req.path).toList.map fun rule =>
    Due.ofRate b moment .endpoint rule.storageKey rule.requests rule.window) ++
    req.extensions.session.toList.flatMap (sessionDue b moment guarded)

/-- Checks one after the other, to the first that denies. -/
def untilDenied : List (Due ρ κ) → World ρ κ → List Check × World ρ κ
  | [], w => ([], w)
  | d :: later, w =>
    let found := d.perform w
    let check : Check := ⟨d.gate, d.key, found.1⟩
    if found.1 = .denied then ([check], found.2)
    else (check :: (untilDenied later found.2).1, (untilDenied later found.2).2)

/-- Some checks are those that are due, each made of the counters as the one before left them, to the first that
denies. -/
structure Performs (due : List (Due ρ κ)) (w : World ρ κ) (s : Step ρ κ) : Prop where
  performed : s.performed = (untilDenied due w).1
  world : s.world = (untilDenied due w).2
  rejects : s.rejection.isSome = true ↔ ∃ c ∈ (untilDenied due w).1, c.verdict = .denied

theorem untilDenied_singleton (d : Due ρ κ) (w : World ρ κ) :
    untilDenied [d] w = ([⟨d.gate, d.key, (d.perform w).1⟩], (d.perform w).2) := by
  simp only [untilDenied]
  split_ifs <;> rfl

theorem untilDenied_append_of_denied {ds : List (Due ρ κ)} {w : World ρ κ}
    (h : ∃ c ∈ (untilDenied ds w).1, c.verdict = .denied) (ds' : List (Due ρ κ)) :
    untilDenied (ds ++ ds') w = untilDenied ds w := by
  induction ds generalizing w with
  | nil => simp [untilDenied] at h
  | cons d ds ih =>
    by_cases hd : (d.perform w).1 = .denied
    · simp [untilDenied, hd]
    · have hlater : ∃ c ∈ (untilDenied ds (d.perform w).2).1, c.verdict = .denied := by
        simpa [untilDenied, hd] using h
      simp [untilDenied, hd, ih hlater]

theorem untilDenied_append_of_passed {ds : List (Due ρ κ)} {w : World ρ κ}
    (h : ∀ c ∈ (untilDenied ds w).1, c.verdict ≠ .denied) (ds' : List (Due ρ κ)) :
    untilDenied (ds ++ ds') w =
      ((untilDenied ds w).1 ++ (untilDenied ds' (untilDenied ds w).2).1, (untilDenied ds' (untilDenied ds w).2).2) := by
  induction ds generalizing w with
  | nil => rfl
  | cons d ds ih =>
    by_cases hd : (d.perform w).1 = .denied
    · simp [untilDenied, hd] at h
    · have hlater : ∀ c ∈ (untilDenied ds (d.perform w).2).1, c.verdict ≠ .denied := by
        simp only [untilDenied, hd, if_false, List.forall_mem_cons] at h
        exact h.2
      simp [untilDenied, hd, ih hlater]

theorem Performs.pass (w : World ρ κ) : Performs [] w (.pass w) where
  performed := rfl
  world := rfl
  rejects := by simp [Step.pass, untilDenied]

/-- Checks in sequence: the later ones are performed unless one of the earlier ones denied. -/
theorem Performs.andThen {ds ds' : List (Due ρ κ)} {w : World ρ κ} {s : Step ρ κ} {next : World ρ κ → Step ρ κ}
    (h : Performs ds w s) (hnext : Performs ds' s.world (next s.world)) :
    Performs (ds ++ ds') w (s.andThen next) := by
  cases hrej : s.rejection with
  | some r =>
    have hdenied : ∃ c ∈ (untilDenied ds w).1, c.verdict = .denied := h.rejects.mp (by rw [hrej]; rfl)
    have hthen : s.andThen next = s := by simp [Step.andThen, hrej]
    have happend := untilDenied_append_of_denied hdenied ds'
    rw [hthen]
    exact ⟨happend ▸ h.performed, happend ▸ h.world, happend ▸ h.rejects⟩
  | none =>
    have hpassed : ∀ c ∈ (untilDenied ds w).1, c.verdict ≠ .denied := fun c hc hd => by
      have hsome := h.rejects.mpr ⟨c, hc, hd⟩
      rw [hrej] at hsome
      cases hsome
    have hthen : s.andThen next =
        { next s.world with performed := s.performed ++ (next s.world).performed } := by simp [Step.andThen, hrej]
    have happend := untilDenied_append_of_passed hpassed ds'
    rw [← h.performed, ← h.world] at happend
    rw [hthen]
    refine ⟨?_, ?_, ?_⟩
    · rw [happend, hnext.performed]
    · rw [happend, hnext.world]
    · rw [happend]
      refine hnext.rejects.trans ⟨fun ⟨c, hc, hd⟩ => ⟨c, List.mem_append_right _ hc, hd⟩, ?_⟩
      rintro ⟨c, hc, hd⟩
      rcases List.mem_append.mp hc with hc | hc
      · exact absurd hd (hpassed c (h.performed ▸ hc))
      · exact ⟨c, hc, hd⟩

/-- An answer of the storage rejects exactly when it denies. -/
theorem isSome_denial_iff (response : LimitDecision → LimitResponse) (answer : Option LimitDecision) :
    (denial response answer).isSome = true ↔ verdictOf answer = .denied := by
  cases answer with
  | none => simp [denial, verdictOf]
  | some d => cases hd : d.allowed <;> simp [denial, verdictOf, hd]

theorem performs_checkRate (b : Backend ε ρ κ) (moment : Moment ε) (gate : Gate) (key : String) (requests window : ℕ)
    (w : World ρ κ) :
    Performs [Due.ofRate b moment gate key requests window] w (checkRate b moment gate key requests window w) := by
  refine ⟨?_, ?_, ?_⟩ <;> rw [untilDenied_singleton]
  · rfl
  · rfl
  · simp only [List.mem_singleton, exists_eq_left]
    exact isSome_denial_iff ..

theorem performs_checkQuota (b : Backend ε ρ κ) (moment : Moment ε) (key : String) (max period : ℕ) (w : World ρ κ) :
    Performs [Due.ofQuota b moment key max period] w (checkQuota b moment key max period w) := by
  refine ⟨?_, ?_, ?_⟩ <;> rw [untilDenied_singleton]
  · rfl
  · rfl
  · simp only [List.mem_singleton, exists_eq_left]
    exact isSome_denial_iff ..

theorem performs_checkSpike (moment : Moment ε) (identity : String) (limit : ℕ) (w : World ρ κ) :
    Performs (if w.guard.isSome then [Due.ofSpike moment identity] else []) w (checkSpike moment identity limit w) := by
  cases hguard : w.guard with
  | none =>
    have hpass : checkSpike moment identity limit w = .pass w := by simp [checkSpike, hguard]
    rw [hpass]
    exact Performs.pass w
  | some g =>
    rw [Option.isSome_some, if_pos rfl]
    refine ⟨?_, ?_, ?_⟩ <;> rw [untilDenied_singleton]
    · simp [checkSpike, Due.ofSpike, hguard]
    · simp [checkSpike, Due.ofSpike, hguard]
    · cases h : (g.tryAcquireAt identity moment.nowSecs).1 <;> simp [checkSpike, Due.ofSpike, hguard, h]

theorem performs_checkSession (b : Backend ε ρ κ) (moment : Moment ε) (ctx : SessionContext) (w : World ρ κ) :
    Performs (sessionDue b moment w.guard.isSome ctx) w (checkSession b moment ctx w) := by
  simp only [checkSession, sessionDue]
  by_cases hnone : (ctx.session.rate.isNone && ctx.session.quota.isNone) = true
  · rw [if_pos hnone, if_pos hnone]
    exact Performs.pass w
  · rw [if_neg hnone, if_neg hnone, List.append_assoc]
    refine Performs.andThen (performs_checkSpike ..) ?_
    refine Performs.andThen ?_ ?_
    · cases ctx.session.rate with
      | none => exact Performs.pass _
      | some rate => exact performs_checkRate ..
    · cases ctx.session.quota with
      | none => exact Performs.pass _
      | some quota => exact performs_checkQuota ..

/-- **The checks of `enforce` are those that are due.** -/
theorem performs_enforce (b : Backend ε ρ κ) (state : RateLimitState) (moment : Moment ε) (req : Request)
    (w : World ρ κ) : Performs (due b state moment req w.guard.isSome) w (enforce b state moment req w) := by
  have hguard : (checkEndpoint b state moment req w).world.guard = w.guard := by
    unfold checkEndpoint
    split <;> rfl
  refine Performs.andThen ?_ ?_
  · unfold checkEndpoint
    cases state.endpointLimits.bind fun rules => firstMatch rules req.method req.path with
    | none => exact Performs.pass w
    | some rule => exact performs_checkRate ..
  · unfold laterChecks
    cases req.extensions.session with
    | none => exact Performs.pass _
    | some ctx =>
      rw [Option.toList_some, List.flatMap_singleton, ← hguard]
      exact performs_checkSession ..

/-! ### What the checks do -/

/-- What some checks do to the counters of a request: they are performed in the order of `gates`
and end with the first that denies, they reject exactly when one denied, and no counter changes
but those that were checked. A quota counter that was checked is charged by `charge`. -/
structure Orderly (charge : κ → κ) (gates : List Gate) (w : World ρ κ) (s : Step ρ κ) : Prop where
  /-- In the order of the gates. -/
  order : List.Sublist (s.performed.map Check.gate) gates
  /-- A rejection is a denial. -/
  rejects : s.rejection.isSome = true ↔ ∃ c ∈ s.performed, c.verdict = .denied
  /-- Nothing is checked after a denial. -/
  stops : ∀ before c later, s.performed = before ++ c :: later → c.verdict = .denied → later = []
  /-- The rate counters that were not checked. -/
  rates : ∀ k, (∀ c ∈ s.performed, c.gate = .endpoint ∨ c.gate = .rate → c.key ≠ k) →
    s.world.rates k = w.rates k
  /-- The spike guard, when it was not asked. -/
  guard : (∀ c ∈ s.performed, c.gate ≠ .spike) → s.world.guard = w.guard
  /-- The quota counters that were not checked, -/
  spared : ∀ k, (∀ c ∈ s.performed, c.gate = .quota → c.key ≠ k) → s.world.quotas k = w.quotas k
  /-- and those that were. -/
  charged : ∀ k, (∃ c ∈ s.performed, c.gate = .quota ∧ c.key = k) → s.world.quotas k = charge (w.quotas k)

variable {charge : κ → κ}

theorem Orderly.pass (charge : κ → κ) (gates : List Gate) (w : World ρ κ) : Orderly charge gates w (.pass w) where
  order := List.nil_sublist _
  rejects := by simp [Step.pass]
  stops before c later h := by simp [Step.pass] at h
  rates _ _ := rfl
  guard _ := rfl
  spared _ _ := rfl
  charged k h := by simp [Step.pass] at h

/-- Checks in sequence. A quota is only checked in the second part. -/
theorem Orderly.andThen {gate : Gate} {gates : List Gate} {w : World ρ κ} {s : Step ρ κ}
    {next : World ρ κ → Step ρ κ} (h : Orderly charge [gate] w s) (hnext : ∀ w', Orderly charge gates w' (next w'))
    (hquota : gate ≠ .quota) : Orderly charge (gate :: gates) w (s.andThen next) := by
  have hno : ∀ c ∈ s.performed, c.gate ≠ .quota := fun c hc heq =>
    hquota (List.mem_singleton.mp (heq ▸ h.order.subset (List.mem_map_of_mem hc))).symm
  have hquotas : s.world.quotas = w.quotas := funext fun k => h.spared k fun c hc heq => absurd heq (hno c hc)
  cases hrej : s.rejection with
  | some r =>
    have hthen : s.andThen next = s := by simp [Step.andThen, hrej]
    rw [hthen]
    exact ⟨h.order.trans (List.singleton_sublist.mpr (List.mem_cons_self ..)), h.rejects, h.stops, h.rates, h.guard, h.spared, h.charged⟩
  | none =>
    have hthen : s.andThen next =
        { next s.world with performed := s.performed ++ (next s.world).performed } := by simp [Step.andThen, hrej]
    have hpassed : ∀ c ∈ s.performed, c.verdict ≠ .denied := by
      intro c hc hd
      have := h.rejects.mpr ⟨c, hc, hd⟩
      rw [hrej] at this
      cases this
    have hn := hnext s.world
    rw [hthen]
    constructor
    case order =>
      rw [List.map_append]
      exact h.order.append hn.order
    case rejects =>
      refine hn.rejects.trans ⟨fun ⟨c, hc, hd⟩ => ⟨c, List.mem_append_right _ hc, hd⟩, ?_⟩
      rintro ⟨c, hc, hd⟩
      rcases List.mem_append.mp hc with hc | hc
      · exact absurd hd (hpassed c hc)
      · exact ⟨c, hc, hd⟩
    case stops =>
      intro before c later heq hd
      rcases List.append_eq_append_iff.mp heq with ⟨as, rfl, hlater⟩ | ⟨bs, hbefore, hlater⟩
      · exact hn.stops as c later hlater hd
      · cases bs with
        | nil => exact hn.stops [] c later hlater.symm hd
        | cons b bs =>
          obtain ⟨rfl, -⟩ := List.cons.inj hlater
          exact absurd hd (hpassed c (by rw [hbefore]; simp))
    case rates =>
      intro k hk
      rw [hn.rates k fun c hc => hk c (List.mem_append_right _ hc)]
      exact h.rates k fun c hc => hk c (List.mem_append_left _ hc)
    case guard =>
      intro hk
      rw [hn.guard fun c hc => hk c (List.mem_append_right _ hc)]
      exact h.guard fun c hc => hk c (List.mem_append_left _ hc)
    case spared =>
      intro k hk
      rw [hn.spared k fun c hc => hk c (List.mem_append_right _ hc), hquotas]
    case charged =>
      rintro k ⟨c, hc, hgate, hkey⟩
      rcases List.mem_append.mp hc with hc | hc
      · exact absurd hgate (hno c hc)
      · rw [hn.charged k ⟨c, hc, hgate, hkey⟩, hquotas]

/-- A single check stops after itself. -/
theorem stops_singleton {x c : Check} {before later : List Check} (h : [x] = before ++ c :: later) : later = [] := by
  cases before with
  | nil => exact (List.cons.inj h).2.symm
  | cons y ys =>
    have := (List.cons.inj h).2
    simp at this

theorem orderly_checkRate (charge : κ → κ) (b : Backend ε ρ κ) (moment : Moment ε) {gate : Gate}
    (hgate : gate = .endpoint ∨ gate = .rate) (key : String) (requests window : ℕ) (w : World ρ κ) :
    Orderly charge [gate] w (checkRate b moment gate key requests window w) where
  order := List.Sublist.refl _
  rejects := by
    simp only [checkRate, List.mem_singleton, exists_eq_left]
    exact isSome_denial_iff ..
  stops before c later h _ := stops_singleton h
  rates k hk := Function.update_of_ne (Ne.symm (hk _ (List.mem_singleton_self _) hgate)) ..
  guard _ := rfl
  spared _ _ := rfl
  charged k h := by
    obtain ⟨c, hc, hquota, -⟩ := h
    rw [List.mem_singleton.mp hc] at hquota
    rcases hgate with rfl | rfl <;> cases hquota

theorem orderly_checkQuota (b : Backend ε ρ κ) (moment : Moment ε) (key : String) (max period : ℕ) (w : World ρ κ) :
    Orderly (fun q => (b.checkQuota moment.storage q max period).2) [.quota] w
      (checkQuota b moment key max period w) where
  order := List.Sublist.refl _
  rejects := by
    simp only [checkQuota, List.mem_singleton, exists_eq_left]
    exact isSome_denial_iff ..
  stops before c later h _ := stops_singleton h
  rates _ _ := rfl
  guard _ := rfl
  spared k hk := Function.update_of_ne (Ne.symm (hk _ (List.mem_singleton_self _) rfl)) ..
  charged k h := by
    obtain ⟨c, hc, -, hkey⟩ := h
    rw [List.mem_singleton.mp hc] at hkey
    subst hkey
    exact Function.update_self ..

theorem orderly_checkSpike (charge : κ → κ) (moment : Moment ε) (identity : String) (limit : ℕ) (w : World ρ κ) :
    Orderly charge [.spike] w (checkSpike moment identity limit w) := by
  cases hguard : w.guard with
  | none =>
    have hpass : checkSpike moment identity limit w = .pass w := by simp [checkSpike, hguard]
    rw [hpass]
    exact Orderly.pass ..
  | some g =>
    constructor
    case order => simp [checkSpike, hguard]
    case rejects => cases h : (g.tryAcquireAt identity moment.nowSecs).1 <;> simp [checkSpike, hguard, h]
    case stops =>
      intro before c later h _
      simp only [checkSpike, hguard] at h
      exact stops_singleton h
    case rates => simp [checkSpike, hguard]
    case guard =>
      intro h
      simp only [checkSpike, hguard] at h
      exact absurd rfl (h _ (List.mem_singleton_self _))
    case spared => simp [checkSpike, hguard]
    case charged => simp [checkSpike, hguard]

/-- The quota of the request's session. -/
def quotaOf (req : Request) : Option Quota := req.extensions.session.bind fun ctx => ctx.session.quota

/-- What the quota check of a request does to its counter. -/
def chargeQuota (b : Backend ε ρ κ) (moment : Moment ε) (req : Request) (q : κ) : κ :=
  (quotaOf req).elim q fun quota => (b.checkQuota moment.storage q quota.max (quota.renewalRateSecs * 1000)).2

theorem orderly_checkEndpoint (charge : κ → κ) (b : Backend ε ρ κ) (state : RateLimitState) (moment : Moment ε)
    (req : Request) (w : World ρ κ) : Orderly charge [.endpoint] w (checkEndpoint b state moment req w) := by
  unfold checkEndpoint
  split
  · exact Orderly.pass ..
  · exact orderly_checkRate _ b moment (.inl rfl) ..

theorem orderly_checkSession (b : Backend ε ρ κ) (moment : Moment ε) {req : Request} {ctx : SessionContext}
    (hctx : req.extensions.session = some ctx) (w : World ρ κ) :
    Orderly (chargeQuota b moment req) [.spike, .rate, .quota] w (checkSession b moment ctx w) := by
  simp only [checkSession]
  split_ifs with hnone
  · exact Orderly.pass ..
  · refine (orderly_checkSpike ..).andThen (fun w => Orderly.andThen ?_ (fun w => ?_) (by decide)) (by decide)
    · cases ctx.session.rate with
      | none => exact Orderly.pass ..
      | some rate => exact orderly_checkRate _ b moment (.inr rfl) ..
    · cases hquota : ctx.session.quota with
      | none => exact Orderly.pass ..
      | some quota =>
        have hcharge : chargeQuota b moment req =
            fun q => (b.checkQuota moment.storage q quota.max (quota.renewalRateSecs * 1000)).2 := by
          funext q
          simp [chargeQuota, quotaOf, hctx, hquota]
        rw [hcharge]
        exact orderly_checkQuota ..

theorem orderly_later (b : Backend ε ρ κ) (moment : Moment ε) (req : Request) (w : World ρ κ) :
    Orderly (chargeQuota b moment req) [.spike, .rate, .quota] w (laterChecks b moment req w) := by
  unfold laterChecks
  cases hctx : req.extensions.session with
  | none => exact Orderly.pass ..
  | some ctx => exact orderly_checkSession b moment hctx w

/-- **The gates of `enforce`.** -/
theorem orderly_enforce (b : Backend ε ρ κ) (state : RateLimitState) (moment : Moment ε) (req : Request)
    (w : World ρ κ) :
    Orderly (chargeQuota b moment req) [.endpoint, .spike, .rate, .quota] w (enforce b state moment req w) :=
  (orderly_checkEndpoint ..).andThen (orderly_later b moment req) (by decide)

/-- A request that an endpoint rule matches is counted under the first one, and not once more by its session. -/
theorem counted_of_firstMatch {b : Backend ε ρ κ} {state : RateLimitState} {moment : Moment ε} {req : Request}
    {w : World ρ κ} {rule : CompiledEndpointLimit}
    (hrule : (state.endpointLimits.bind fun rules => firstMatch rules req.method req.path) = some rule) :
    ∃ later, (enforce b state moment req w).performed =
        ⟨.endpoint, rule.storageKey,
          verdictOf (b.checkRate moment.storage (w.rates rule.storageKey) rule.requests rule.window).1⟩ :: later ∧
      (∀ check ∈ later, check.gate ≠ .endpoint) ∧
      ((∀ check ∈ later, check.gate = .rate → check.key ≠ rule.storageKey) →
        (enforce b state moment req w).world.rates rule.storageKey =
          (b.checkRate moment.storage (w.rates rule.storageKey) rule.requests rule.window).2) := by
  have hendpoint : checkEndpoint b state moment req w =
      checkRate b moment .endpoint rule.storageKey rule.requests rule.window w := by
    simp only [checkEndpoint, hrule]
  rw [enforce, hendpoint]
  cases hrej : (checkRate b moment .endpoint rule.storageKey rule.requests rule.window w).rejection with
  | some r =>
    simp only [Step.andThen, hrej]
    exact ⟨[], rfl, by simp, fun _ => Function.update_self ..⟩
  | none =>
    simp only [Step.andThen, hrej]
    have hlater := orderly_later b moment req
      (checkRate b moment .endpoint rule.storageKey rule.requests rule.window w).world
    have hgates : ∀ check ∈ (laterChecks b moment req
        (checkRate b moment .endpoint rule.storageKey rule.requests rule.window w).world).performed,
        check.gate ≠ .endpoint := fun check hcheck hgate => by
      have hmem := hlater.order.subset (List.mem_map_of_mem hcheck)
      rw [hgate] at hmem
      exact absurd hmem (by decide)
    refine ⟨_, rfl, hgates, fun hkeys => (hlater.rates _ fun check hcheck hgate => ?_).trans (Function.update_self ..)⟩
    exact hkeys check hcheck (hgate.resolve_left (hgates check hcheck))

/-- A request that no endpoint rule matches is counted under none. -/
theorem uncounted_of_firstMatch {b : Backend ε ρ κ} {state : RateLimitState} {moment : Moment ε} {req : Request}
    {w : World ρ κ} (hnone : (state.endpointLimits.bind fun rules => firstMatch rules req.method req.path) = none) :
    ∀ check ∈ (enforce b state moment req w).performed, check.gate ≠ .endpoint := by
  have hendpoint : checkEndpoint b state moment req w = .pass w := by simp only [checkEndpoint, hnone]
  rw [enforce, hendpoint]
  intro check hcheck hgate
  have hmem := (orderly_later b moment req w).order.subset (List.mem_map_of_mem hcheck)
  rw [hgate] at hmem
  exact absurd hmem (by decide)

/-- The place of a gate in the order. -/
def Gate.rank : Gate → ℕ
  | .endpoint => 0
  | .spike => 1
  | .rate => 2
  | .quota => 3

/-- No gate after the one that denies is checked. -/
theorem Orderly.rank_le {w : World ρ κ} {s : Step ρ κ}
    (h : Orderly charge [.endpoint, .spike, .rate, .quota] w s) {c c' : Check} (hc : c ∈ s.performed)
    (hd : c.verdict = .denied) (hc' : c' ∈ s.performed) : c'.gate.rank ≤ c.gate.rank := by
  obtain ⟨before, later, hsplit⟩ := List.append_of_mem hc
  obtain rfl := h.stops before c later hsplit hd
  have hranked : (s.performed.map Check.gate).Pairwise fun g g' => g.rank < g'.rank :=
    List.Pairwise.sublist h.order (by decide)
  rw [hsplit, List.map_append, List.pairwise_append] at hranked
  rw [hsplit] at hc'
  rcases List.mem_append.mp hc' with hc' | hc'
  · exact (hranked.2.2 _ (List.mem_map_of_mem hc') _ (List.mem_singleton_self _)).le
  · rw [List.mem_singleton.mp hc']

/-! ### Errors -/

/-- Two answers of a storage that are the same, or neither of which denies. -/
def SameOutcome (x y : Option LimitDecision) : Prop :=
  x = y ∨ verdictOf x ≠ .denied ∧ verdictOf y ≠ .denied

/-- Two storages that count alike and deny alike: where one errs, the other may allow. -/
structure Backend.Alike (b b' : Backend ε ρ κ) : Prop where
  rate : ∀ e counter limit window, SameOutcome (b.checkRate e counter limit window).1 (b'.checkRate e counter limit window).1 ∧
    (b.checkRate e counter limit window).2 = (b'.checkRate e counter limit window).2
  quota : ∀ e counter max period, SameOutcome (b.checkQuota e counter max period).1 (b'.checkQuota e counter max period).1 ∧
    (b.checkQuota e counter max period).2 = (b'.checkQuota e counter max period).2

/-- Two ends of checks that reject alike, count alike and checked the same. -/
structure Step.Alike (s s' : Step ρ κ) : Prop where
  rejection : s.rejection = s'.rejection
  world : s.world = s'.world
  performed : s.performed.map (fun c => (c.gate, c.key)) = s'.performed.map fun c => (c.gate, c.key)

theorem Step.Alike.refl (s : Step ρ κ) : s.Alike s := ⟨rfl, rfl, rfl⟩

theorem Step.Alike.andThen {s s' : Step ρ κ} {next next' : World ρ κ → Step ρ κ} (h : s.Alike s')
    (hnext : ∀ w, (next w).Alike (next' w)) : (s.andThen next).Alike (s'.andThen next') := by
  unfold Step.andThen
  rw [← h.rejection, ← h.world]
  cases s.rejection with
  | some r => exact h
  | none =>
    obtain ⟨hr, hw, hp⟩ := hnext s.world
    exact ⟨hr, hw, by simp only [List.map_append, h.performed, hp]⟩

/-- The rejection of an answer depends on no more than its outcome. -/
theorem denial_eq_of_sameOutcome {x y : Option LimitDecision} (h : SameOutcome x y)
    (response : LimitDecision → LimitResponse) : denial response x = denial response y := by
  rcases h with rfl | ⟨hx, hy⟩
  · rfl
  · rw [Ne, ← isSome_denial_iff response, Option.not_isSome_iff_eq_none] at hx hy
    rw [hx, hy]

theorem checkRate_alike {b b' : Backend ε ρ κ} (h : b.Alike b') (moment : Moment ε) (gate : Gate) (key : String)
    (requests window : ℕ) (w : World ρ κ) :
    (checkRate b moment gate key requests window w).Alike (checkRate b' moment gate key requests window w) := by
  obtain ⟨hans, hnext⟩ := h.rate moment.storage (w.rates key) requests window
  exact ⟨denial_eq_of_sameOutcome hans _, by simp only [checkRate, hnext], rfl⟩

theorem checkQuota_alike {b b' : Backend ε ρ κ} (h : b.Alike b') (moment : Moment ε) (key : String)
    (max period : ℕ) (w : World ρ κ) :
    (checkQuota b moment key max period w).Alike (checkQuota b' moment key max period w) := by
  obtain ⟨hans, hnext⟩ := h.quota moment.storage (w.quotas key) max period
  exact ⟨denial_eq_of_sameOutcome hans _, by simp only [checkQuota, hnext], rfl⟩

/-- **An error at a gate is an allow at that gate.** -/
theorem enforce_alike {b b' : Backend ε ρ κ} (h : b.Alike b') (state : RateLimitState) (moment : Moment ε)
    (req : Request) (w : World ρ κ) :
    (enforce b state moment req w).Alike (enforce b' state moment req w) := by
  refine Step.Alike.andThen ?_ fun w => ?_
  · unfold checkEndpoint
    split
    · exact Step.Alike.refl _
    · exact checkRate_alike h ..
  · unfold laterChecks
    cases req.extensions.session with
    | none => exact Step.Alike.refl _
    | some ctx =>
      simp only [checkSession]
      split_ifs
      · exact Step.Alike.refl _
      · refine Step.Alike.andThen (Step.Alike.refl _) fun w => Step.Alike.andThen ?_ fun w => ?_
        · cases ctx.session.rate with
          | none => exact Step.Alike.refl _
          | some rate => exact checkRate_alike h ..
        · cases ctx.session.quota with
          | none => exact Step.Alike.refl _
          | some quota => exact checkQuota_alike h ..

/-! ### Runs -/

/-- A request that arrives at an API. -/
structure Arrival (ε : Type*) where
  state : RateLimitState
  moment : Moment ε
  req : Request

/-- What is done with it: the rejection, and the checks that were performed. -/
def serve (b : Backend ε ρ κ) (w : World ρ κ) (a : Arrival ε) : (Option LimitResponse × List Check) × World ρ κ :=
  let s := enforce b a.state a.moment a.req w
  ((s.rejection, s.performed), s.world)

/-- A request whose quota was checked on a key. -/
def checksQuota (k : String) (e : Arrival ε × (Option LimitResponse × List Check)) : Bool :=
  e.2.2.any fun c => c.gate = .quota ∧ c.key = k

/-- What `enforce` does with the counters of its storage. -/
structure ChargesInOrder (b : Backend ε ρ κ) : Prop where
  /-- Every check that a request calls for is performed, unless one before it denied. -/
  performs : ∀ state moment req (w : World ρ κ),
    Performs (due b state moment req w.guard.isSome) w (enforce b state moment req w)
  /-- The checks are performed in the order of the gates. -/
  order : ∀ state moment req (w : World ρ κ),
    List.Sublist ((enforce b state moment req w).performed.map Check.gate) [.endpoint, .spike, .rate, .quota]
  /-- A request is rejected exactly when a check that was performed denied it. -/
  rejects : ∀ state moment req (w : World ρ κ),
    (enforce b state moment req w).rejection.isSome = true ↔
      ∃ c ∈ (enforce b state moment req w).performed, c.verdict = .denied
  /-- A denial at one gate leaves the counters of the later gates alone. -/
  spares : ∀ state moment req (w : World ρ κ), ∀ c ∈ (enforce b state moment req w).performed, c.verdict = .denied →
    (c.gate = .endpoint → (enforce b state moment req w).world.guard = w.guard) ∧
    (c.gate = .endpoint ∨ c.gate = .spike →
      ∀ k, (∀ e ∈ (enforce b state moment req w).performed, e.gate = .endpoint → e.key ≠ k) →
        (enforce b state moment req w).world.rates k = w.rates k) ∧
    (c.gate ≠ .quota → (enforce b state moment req w).world.quotas = w.quotas)
  /-- Over a run, the quota counter of a key is charged by the requests whose quota was checked on
  it, in order, and by nothing else, -/
  counts : ∀ arrivals (w : World ρ κ) k,
    (after (serve b) w arrivals).quotas k =
      ((answered (serve b) w arrivals).filter (checksQuota k)).foldl
        (fun q e => chargeQuota b e.1.moment e.1.req q) (w.quotas k)
  /-- and each of these passed the gates before. -/
  passed : ∀ arrivals (w : World ρ κ) k, ∀ e ∈ answered (serve b) w arrivals, checksQuota k e = true →
    ∀ c ∈ e.2.2, c.gate ≠ .quota → c.verdict ≠ .denied
  /-- An error at a gate is an allow at that gate. -/
  failsOpen : ∀ b' : Backend ε ρ κ, b.Alike b' → ∀ state moment req (w : World ρ κ),
    (enforce b state moment req w).Alike (enforce b' state moment req w)

theorem quotas_serve (b : Backend ε ρ κ) (w : World ρ κ) (a : Arrival ε) (k : String) :
    (serve b w a).2.quotas k =
      if checksQuota k (a, (serve b w a).1) = true then chargeQuota b a.moment a.req (w.quotas k) else w.quotas k := by
  have h := orderly_enforce b a.state a.moment a.req w
  split_ifs with hk
  · refine h.charged k ?_
    simpa [checksQuota, serve] using hk
  · refine h.spared k fun c hc hgate hkey => hk ?_
    simp only [checksQuota, serve, List.any_eq_true, decide_eq_true_eq]
    exact ⟨c, hc, hgate, hkey⟩

/-- **Enforcement charges no later allowance for a request that an earlier gate denied.** -/
theorem enforce_charges_in_order (b : Backend ε ρ κ) : ChargesInOrder b where
  performs := performs_enforce b
  order state moment req w := (orderly_enforce b state moment req w).order
  rejects state moment req w := (orderly_enforce b state moment req w).rejects
  spares state moment req w c hc hd := by
    have h := orderly_enforce b state moment req w
    have hrank : ∀ e ∈ (enforce b state moment req w).performed, e.gate.rank ≤ c.gate.rank :=
      fun e he => h.rank_le hc hd he
    refine ⟨fun hgate => h.guard fun e he hspike => ?_, fun hgate k hk => h.rates k fun e he hrate => ?_,
      fun hgate => funext fun k => h.spared k fun e he hquota => ?_⟩
    · have := hrank e he
      rw [hspike, hgate] at this
      exact absurd this (by decide)
    · rcases hrate with hend | hrate
      · exact hk e he hend
      · have := hrank e he
        rw [hrate] at this
        rcases hgate with hgate | hgate <;> rw [hgate] at this <;> exact absurd this (by decide)
    · have := hrank e he
      rw [hquota] at this
      cases hg : c.gate with
      | quota => exact absurd hg hgate
      | _ => rw [hg] at this; exact absurd this (by decide)
  counts arrivals w k := by
    induction arrivals generalizing w with
    | nil => rfl
    | cons a as ih =>
      rw [after, ih, quotas_serve, answered, List.filter_cons]
      split_ifs <;> rfl
  passed arrivals w k e he hk c hc hgate hd := by
    obtain ⟨before, later, hsplit⟩ := List.append_of_mem he
    obtain ⟨past, rest, -, -, hans, -⟩ := answered_eq_append_cons hsplit
    rw [checksQuota, List.any_eq_true] at hk
    obtain ⟨c', hc', hquota⟩ := hk
    rw [hans] at hc hc'
    have := (orderly_enforce b e.1.state e.1.moment e.1.req (after (serve b) w past)).rank_le hc hd hc'
    rw [(of_decide_eq_true hquota).1] at this
    cases hg : c.gate with
    | quota => exact hgate hg
    | _ => rw [hg] at this; exact absurd this (by decide)
  failsOpen b' h := enforce_alike h

end

end G2way.Middleware.RateLimit
