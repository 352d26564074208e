import G2way.Core.ApiDefinition
import G2way.Lib.Hysteresis
import Mathlib.Algebra.Group.Nat.Defs

/-!
# Health checking

Active health checking, from `g2-proxy/src/health.rs` and `HealthCheckConfig` of
`g2-core/src/api_definition.rs`: "An address failing `unhealthy_threshold` consecutive
probes is evicted from the load-balancing rotation until it passes `healthy_threshold`
consecutive probes again."

## The model

The flags of a target set (`HealthState`) are written by the checker alone. After a round
of probes the checker goes through the results by index, counts the streaks of each address
in saturating `u32`s, which it never resets on a transition, and stores a flag where a
threshold is reached (`applyResults`). An index out of range panics: it is `none`.

## What is proved

`cell_applyResults`: a round does to each address what its own result does. From there
`flag_hysteresis`: the flag of an address has the hysteresis that the documentation
describes, over every sequence of rounds, and the other addresses have no part in it.
-/

namespace G2way.Proxy

open G2way.Core G2way.Lib G2way.Lib.Result

/-! ### The configuration -/

/-- `HealthCheckConfig`. -/
structure HealthCheckConfig where
  path : String := "/"
  intervalMs : ℕ := 10000
  timeoutMs : ℕ := 2000
  unhealthyThreshold : UInt32 := 3
  healthyThreshold : UInt32 := 2
  deriving DecidableEq, Repr

/-- `HealthCheckConfig::validate`, given what the URI crate accepts as a path and query. -/
def HealthCheckConfig.validate (isPathAndQuery : String → Bool) (api : String) (cfg : HealthCheckConfig) :
    Except InvalidApiDefinition Unit := do
  ensure (Text.startsWith "/" cfg.path) ⟨api, s!"`health_check.path` must start with '/', got `{cfg.path}`"⟩
  ensure (isPathAndQuery cfg.path) ⟨api, s!"`health_check.path` is not a valid URL path: `{cfg.path}`"⟩
  ensure (cfg.intervalMs ≠ 0) ⟨api, "`health_check.interval_ms` must be greater than zero"⟩
  ensure (cfg.timeoutMs ≠ 0) ⟨api, "`health_check.timeout_ms` must be greater than zero"⟩
  ensure (cfg.unhealthyThreshold ≠ 0) ⟨api, "`health_check.unhealthy_threshold` must be greater than zero"⟩
  ensure (cfg.healthyThreshold ≠ 0) ⟨api, "`health_check.healthy_threshold` must be greater than zero"⟩

/-- The threshold of an outcome: how many in a row turn the flag to it. -/
def HealthCheckConfig.threshold (cfg : HealthCheckConfig) : Bool → ℕ
  | true => cfg.healthyThreshold.toNat
  | false => cfg.unhealthyThreshold.toNat

/-- A validated configuration has thresholds of at least one. -/
theorem HealthCheckConfig.one_le_threshold {isPathAndQuery : String → Bool} {api : String}
    {cfg : HealthCheckConfig} (h : cfg.validate isPathAndQuery api = .ok ()) (b : Bool) :
    1 ≤ cfg.threshold b := by
  simp only [validate, bind_eq_ok, ensure_eq_ok, decide_eq_true_eq] at h
  obtain ⟨_, _, _, _, _, _, _, _, _, hU, hH⟩ := h
  have hpos : ∀ t : UInt32, t ≠ 0 → 1 ≤ t.toNat := fun t ht =>
    Nat.one_le_iff_ne_zero.mpr fun h0 => ht (UInt32.toNat_inj.mp h0)
  cases b with
  | false => exact hpos _ hU
  | true => exact hpos _ hH

/-! ### Flags and streaks -/

/-- `HealthState`: the live flags, by the index of the address. -/
structure HealthState where
  flags : List Bool
  deriving DecidableEq, Repr

namespace HealthState

/-- `HealthState::new`: every address starts healthy. -/
def new (count : ℕ) : HealthState := ⟨List.replicate count true⟩

/-- `is_healthy`. -/
def isHealthy (s : HealthState) (index : ℕ) : Option Bool := s.flags[index]?

/-- `set_healthy`, for an index in range. -/
def setHealthy (s : HealthState) (index : ℕ) (healthy : Bool) : HealthState := ⟨s.flags.set index healthy⟩

@[simp] theorem length_setHealthy (s : HealthState) (index : ℕ) (healthy : Bool) :
    (s.setHealthy index healthy).flags.length = s.flags.length := List.length_set

end HealthState

/-- `Streak`: consecutive probe outcomes of one address. -/
structure Streak where
  failures : UInt32 := 0
  successes : UInt32 := 0
  deriving DecidableEq, Repr

/-- `saturating_add(1)` of a `u32`. -/
def saturatingSucc (n : UInt32) : UInt32 := UInt32.ofNat (min (n.toNat + 1) (2 ^ 32 - 1))

theorem toNat_saturatingSucc (n : UInt32) : (saturatingSucc n).toNat = min (n.toNat + 1) (2 ^ 32 - 1) :=
  UInt32.toNat_ofNat_of_lt' (show min (n.toNat + 1) (2 ^ 32 - 1) < 2 ^ 32 by omega)

/-- What one probe result does: the new streaks, and the flag that is stored if any is. -/
def observe (cfg : HealthCheckConfig) (healthy : Bool) (s : Streak) (flag : Bool) : Streak × Option Bool :=
  if healthy then
    let s := { failures := 0, successes := saturatingSucc s.successes }
    (s, if !flag ∧ cfg.healthyThreshold ≤ s.successes then some true else none)
  else
    let s := { successes := 0, failures := saturatingSucc s.failures }
    (s, if flag ∧ cfg.unhealthyThreshold ≤ s.failures then some false else none)

/-- The flags of a set and the streaks of the checker. -/
abbrev Probed := HealthState × List Streak

/-- The body of the loop over the results. -/
def applyResult (cfg : HealthCheckConfig) (p : Probed) (index : ℕ) (healthy : Bool) : Option Probed := do
  let streak ← p.2[index]?
  let flag ← p.1.isHealthy index
  let (streak, store) := observe cfg healthy streak flag
  return (store.elim p.1 (p.1.setHealthy index), p.2.set index streak)

/-- The loop over the results of a round, from an index on. -/
def applyResults (cfg : HealthCheckConfig) : ℕ → List Bool → Probed → Option Probed
  | _, [], p => some p
  | index, healthy :: rest, p => do
    let p ← applyResult cfg p index healthy
    applyResults cfg (index + 1) rest p

/-! ### What a round does to each address -/

/-- The streaks and the flag of one address. -/
def cell (p : Probed) (i : ℕ) : Option (Streak × Bool) := do
  let streak ← p.2[i]?
  let flag ← p.1.isHealthy i
  return (streak, flag)

/-- What one probe result leaves of the streaks and the flag. -/
def observed (cfg : HealthCheckConfig) (healthy : Bool) (c : Streak × Bool) : Streak × Bool :=
  ((observe cfg healthy c.1 c.2).1, (observe cfg healthy c.1 c.2).2.getD c.2)

theorem cell_eq_some {p : Probed} {i : ℕ} {c : Streak × Bool} :
    cell p i = some c ↔ p.2[i]? = some c.1 ∧ p.1.flags[i]? = some c.2 := by
  obtain ⟨s, f⟩ := c
  simp only [cell, HealthState.isHealthy, bind, Option.bind_eq_some_iff, pure, Option.some.injEq, Prod.mk.injEq]
  constructor
  · rintro ⟨_, hs, _, hf, rfl, rfl⟩
    exact ⟨hs, hf⟩
  · rintro ⟨hs, hf⟩
    exact ⟨s, hs, f, hf, rfl, rfl⟩

/-- One result changes the address it is about, and no other. -/
theorem applyResult_of_cell (cfg : HealthCheckConfig) {p : Probed} {index : ℕ} {c : Streak × Bool}
    (h : cell p index = some c) (healthy : Bool) :
    ∃ p', applyResult cfg p index healthy = some p' ∧ p'.1.flags.length = p.1.flags.length ∧
      p'.2.length = p.2.length ∧ cell p' index = some (observed cfg healthy c) ∧
      ∀ i, i ≠ index → cell p' i = cell p i := by
  obtain ⟨hs, hf⟩ := cell_eq_some.mp h
  have hslt : index < p.2.length := (List.getElem?_eq_some_iff.mp hs).1
  have hflt : index < p.1.flags.length := (List.getElem?_eq_some_iff.mp hf).1
  have hrun : applyResult cfg p index healthy =
      some ((observe cfg healthy c.1 c.2).2.elim p.1 (p.1.setHealthy index),
        p.2.set index (observe cfg healthy c.1 c.2).1) := by
    simp [applyResult, HealthState.isHealthy, hs, hf]
  refine ⟨_, hrun, ?_, List.length_set, ?_, ?_⟩
  · cases (observe cfg healthy c.1 c.2).2 <;> simp
  · refine cell_eq_some.mpr ⟨by simp [hslt, observed], ?_⟩
    cases hstore : (observe cfg healthy c.1 c.2).2 with
    | none => simp [observed, hstore, hf]
    | some b => simp [observed, hstore, HealthState.setHealthy, hflt]
  · intro i hi
    cases (observe cfg healthy c.1 c.2).2 <;>
      simp [cell, HealthState.isHealthy, HealthState.setHealthy, List.getElem?_set_ne hi.symm]

/-- **A round**: with a cell for each result, the loop ends, and each address has been changed by its
own result alone. -/
theorem cell_applyResults (cfg : HealthCheckConfig) {results : List Bool} {index : ℕ} {p : Probed}
    (h : ∀ k < results.length, ∃ c, cell p (index + k) = some c) :
    ∃ p', applyResults cfg index results p = some p' ∧ p'.1.flags.length = p.1.flags.length ∧
      p'.2.length = p.2.length ∧ (∀ i < index, cell p' i = cell p i) ∧
      ∀ k b, results[k]? = some b → cell p' (index + k) = (cell p (index + k)).map (observed cfg b) := by
  induction results generalizing index p with
  | nil => exact ⟨p, rfl, rfl, rfl, fun _ _ => rfl, by simp⟩
  | cons healthy rest ih =>
    obtain ⟨c, hc⟩ := h 0 (by simp)
    rw [Nat.add_zero] at hc
    obtain ⟨p₁, hrun₁, hflags₁, hstreaks₁, hcell₁, hother₁⟩ := applyResult_of_cell cfg hc healthy
    have hrest : ∀ k < rest.length, ∃ c, cell p₁ (index + 1 + k) = some c := by
      intro k hk
      rw [hother₁ _ (by omega), Nat.add_assoc, Nat.add_comm 1 k]
      exact h (k + 1) (by simpa using hk)
    obtain ⟨p₂, hrun₂, hflags₂, hstreaks₂, hbefore₂, hcell₂⟩ := ih hrest
    refine ⟨p₂, by simp [applyResults, hrun₁, hrun₂], hflags₂.trans hflags₁, hstreaks₂.trans hstreaks₁, ?_, ?_⟩
    · intro i hi
      rw [hbefore₂ i (by omega), hother₁ i (by omega)]
    · intro k b hk
      cases k with
      | zero =>
        obtain rfl : healthy = b := by simpa using hk
        rw [Nat.add_zero, hbefore₂ index (by omega), hcell₁, hc, Option.map_some]
      | succ k =>
        rw [show index + (k + 1) = index + 1 + k by omega, hcell₂ k b (by simpa using hk),
          hother₁ _ (by omega)]

/-! ### Sequences of rounds -/

/-- The flags and the streaks after the first `n` rounds on a fresh set of `count` addresses, where
`rounds n i` is the outcome of the address `i` in round `n`. -/
def afterRounds (cfg : HealthCheckConfig) (count : ℕ) (rounds : ℕ → ℕ → Bool) : ℕ → Option Probed
  | 0 => some (HealthState.new count, List.replicate count {})
  | n + 1 => do
    let p ← afterRounds cfg count rounds n
    applyResults cfg 0 ((List.range count).map (rounds n)) p

/-- The flag of an address after the first `n` rounds. -/
def flagAfter (cfg : HealthCheckConfig) (count : ℕ) (rounds : ℕ → ℕ → Bool) (n i : ℕ) : Option Bool :=
  (afterRounds cfg count rounds n).bind fun p => p.1.isHealthy i

/-- One address alone: its streaks and its flag after the first `n` of its outcomes. -/
def cellAfter (cfg : HealthCheckConfig) (o : ℕ → Bool) : ℕ → Streak × Bool
  | 0 => ({}, true)
  | n + 1 => observed cfg (o n) (cellAfter cfg o n)

/-- In a sequence of rounds each address is on its own. -/
theorem cell_afterRounds (cfg : HealthCheckConfig) (count : ℕ) (rounds : ℕ → ℕ → Bool) (n : ℕ) :
    ∃ p, afterRounds cfg count rounds n = some p ∧
      ∀ i < count, cell p i = some (cellAfter cfg (fun m => rounds m i) n) := by
  induction n with
  | zero =>
    refine ⟨_, rfl, fun i hi => cell_eq_some.mpr ?_⟩
    simp [HealthState.new, cellAfter, hi]
  | succ n ih =>
    obtain ⟨p, hp, hcells⟩ := ih
    have hall : ∀ k < ((List.range count).map (rounds n)).length, ∃ c, cell p (0 + k) = some c := by
      intro k hk
      rw [Nat.zero_add]
      exact ⟨_, hcells k (by simpa using hk)⟩
    obtain ⟨p', hrun, -, -, -, hcell⟩ := cell_applyResults cfg hall
    refine ⟨p', by simp [afterRounds, hp, hrun], fun i hi => ?_⟩
    have hi' := hcell i (rounds n i) (by simp [hi])
    rw [Nat.zero_add, hcells i hi] at hi'
    exact hi'

theorem flagAfter_eq {cfg : HealthCheckConfig} {count : ℕ} {rounds : ℕ → ℕ → Bool} {i : ℕ} (hi : i < count) (n : ℕ) :
    flagAfter cfg count rounds n i = some (cellAfter cfg (fun m => rounds m i) n).2 := by
  obtain ⟨p, hp, hcells⟩ := cell_afterRounds cfg count rounds n
  simp only [flagAfter, hp, Option.bind_some, HealthState.isHealthy]
  exact (cell_eq_some.mp (hcells i hi)).2

/-! ### Hysteresis -/

/-- The counters are the streaks, saturated. -/
theorem streaks_cellAfter (cfg : HealthCheckConfig) (o : ℕ → Bool) (n : ℕ) :
    (cellAfter cfg o n).1.failures.toNat = min (streak false o n) (2 ^ 32 - 1) ∧
      (cellAfter cfg o n).1.successes.toNat = min (streak true o n) (2 ^ 32 - 1) := by
  induction n with
  | zero => exact ⟨rfl, rfl⟩
  | succ n ih =>
    cases ho : o n with
    | false =>
      simp only [cellAfter, observed, observe, ho, Bool.false_eq_true, if_false, toNat_saturatingSucc, ih.1, streak,
        if_true]
      exact ⟨by omega, rfl⟩
    | true =>
      simp only [cellAfter, observed, observe, ho, if_true, toNat_saturatingSucc, ih.2, streak, Bool.true_eq_false,
        if_false]
      exact ⟨rfl, by omega⟩

/-- A threshold is a `u32`, so a saturated streak reaches it when the streak does. -/
theorem threshold_le_min (cfg : HealthCheckConfig) (b : Bool) (n : ℕ) :
    cfg.threshold b ≤ min n (2 ^ 32 - 1) ↔ cfg.threshold b ≤ n := by
  have hlt : cfg.threshold b < 2 ^ 32 := by
    cases b with
    | false => exact cfg.unhealthyThreshold.toNat_lt
    | true => exact cfg.healthyThreshold.toNat_lt
  omega

/-- The flag takes the last outcome once the streak has reached its threshold. -/
theorem flag_cellAfter_succ (cfg : HealthCheckConfig) (o : ℕ → Bool) (n : ℕ) :
    (cellAfter cfg o (n + 1)).2 =
      if cfg.threshold (o n) ≤ streak (o n) o (n + 1) then o n else (cellAfter cfg o n).2 := by
  have hstreaks := streaks_cellAfter cfg o (n + 1)
  cases ho : o n with
  | false =>
    have hreached : cfg.unhealthyThreshold ≤ (cellAfter cfg o (n + 1)).1.failures ↔
        cfg.threshold false ≤ streak false o (n + 1) := by
      rw [UInt32.le_iff_toNat_le, hstreaks.1]
      exact threshold_le_min cfg false _
    rw [← if_congr hreached rfl rfl]
    simp only [cellAfter, observed, observe, ho, Bool.false_eq_true, if_false]
    cases (cellAfter cfg o n).2 <;> split_ifs <;> simp_all
  | true =>
    have hreached : cfg.healthyThreshold ≤ (cellAfter cfg o (n + 1)).1.successes ↔
        cfg.threshold true ≤ streak true o (n + 1) := by
      rw [UInt32.le_iff_toNat_le, hstreaks.2]
      exact threshold_le_min cfg true _
    rw [← if_congr hreached rfl rfl]
    simp only [cellAfter, observed, observe, ho, if_true]
    cases (cellAfter cfg o n).2 <;> split_ifs <;> simp_all

/-- The flag of one address has the hysteresis of the thresholds. -/
theorem hysteresis_cellAfter {cfg : HealthCheckConfig} (h : ∀ b, 1 ≤ cfg.threshold b) (o : ℕ → Bool) :
    Hysteresis cfg.threshold o fun n => (cellAfter cfg o n).2 :=
  hysteresis_of_streak h rfl (flag_cellAfter_succ cfg o)

/-- **Health hysteresis**: over every sequence of rounds, the flag of an address starts healthy, is
evicted exactly at a round that completes `unhealthy_threshold` failures in a row while healthy, and is
reinstated exactly at a round that completes `healthy_threshold` successes in a row while evicted; on
whatever set, it is the same flag after the same outcomes of this address. -/
theorem flag_hysteresis (cfg : HealthCheckConfig) (hU : 1 ≤ cfg.unhealthyThreshold) (hH : 1 ≤ cfg.healthyThreshold)
    (count : ℕ) (rounds : ℕ → ℕ → Bool) (i : ℕ) (hi : i < count) :
    (∃ flag : ℕ → Bool, (∀ n, flagAfter cfg count rounds n i = some (flag n)) ∧
      Hysteresis cfg.threshold (fun n => rounds n i) flag) ∧
    ∀ (count' : ℕ) (rounds' : ℕ → ℕ → Bool) (j : ℕ), j < count' → ∀ n, (∀ m < n, rounds' m j = rounds m i) →
      flagAfter cfg count' rounds' n j = flagAfter cfg count rounds n i := by
  have hthr : ∀ b, 1 ≤ cfg.threshold b := by
    intro b
    cases b with
    | false => exact UInt32.le_iff_toNat_le.mp hU
    | true => exact UInt32.le_iff_toNat_le.mp hH
  refine ⟨⟨_, flagAfter_eq hi, hysteresis_cellAfter hthr _⟩, ?_⟩
  intro count' rounds' j hj n hsame
  rw [flagAfter_eq hi, flagAfter_eq hj]
  congr 1
  exact (hysteresis_cellAfter hthr _).unique (hysteresis_cellAfter hthr _) hsame

/-- With a threshold of two, an address that fails every round is evicted in the second one. -/
theorem flag_hysteresis_evicted :
    (∃ flag : ℕ → Bool, (∀ n, flagAfter { unhealthyThreshold := 2 } 2 (fun _ i => i == 1) n 0 = some (flag n)) ∧
      Hysteresis ({ unhealthyThreshold := 2 } : HealthCheckConfig).threshold (fun _ => false) flag) ∧
    flagAfter { unhealthyThreshold := 2 } 2 (fun _ i => i == 1) 1 0 = some true ∧
    flagAfter { unhealthyThreshold := 2 } 2 (fun _ i => i == 1) 2 0 = some false :=
  ⟨(flag_hysteresis { unhealthyThreshold := 2 } (by decide) (by decide) 2 (fun _ i => i == 1) 0 (by decide)).1,
    by decide, by decide⟩

end G2way.Proxy
