import G2way.Lib.Text
import G2way.Proxy.Health
import Mathlib.Data.List.Rotate
import Mathlib.Data.Nat.ModEq
import Mathlib.Logic.Function.Basic

/-!
# The rotation over a target set

`TargetSet` and its `next_addr`, from `g2-proxy/src/forward.rs`: "round-robin via `cursor`,
skipping addresses evicted by health checking — the healthy subset keeps round-robining —
but eviction never empties the pool: with every address evicted, the plain rotation is used".

## The model

A caller of `next_addr` makes up to one draw for each address from a shared counter of 64
bits, and one more if all of them fell on evicted addresses. A draw is one atomic `fetch_add`;
between two draws of a caller any number of other callers may draw. `TargetSet.draw` is one
draw and what follows from it, `TargetSet.nextAddr` the call by itself, and `Rotation` the
counter with any number of calls under way, of which a schedule says who draws next. An index
out of range and a remainder by zero panic.

## What is proved

A call that draws alone meets every address once before it gives up. Among other callers it
need not: they can take every draw that would have fallen on a healthy address.
`evicted_while_healthy` is such a run with two addresses, and `load_balances_iff` says for
which sets the rotation is safe in every run: for those of which no address or every address
is evicted. In a run in which nobody draws between two draws of another call, and no call
meets the wrap of the counter, it is safe for every set.
-/

namespace G2way.Proxy

open G2way.Lib

/-! ### Target sets -/

/-- The schemes of an upstream. -/
inductive Scheme where
  | http
  | https
  deriving DecidableEq, Repr

/-- `UpstreamAddr`: "the precomputed parts of one upstream base URL". -/
structure UpstreamAddr where
  scheme : Scheme
  /-- `host[:port]`. -/
  authority : String
  basePath : String
  deriving DecidableEq, Repr

/-- The derived `==`; the URI crate compares authorities without regard to ASCII case. -/
def UpstreamAddr.same (a b : UpstreamAddr) : Bool :=
  a.scheme == b.scheme && Text.eqIgnoreAsciiCase a.authority b.authority && a.basePath == b.basePath

/-- `TargetSet`: "one coherent generation of an API's upstream addresses, with the health flags that belong
to exactly those addresses". -/
structure TargetSet where
  addrs : List UpstreamAddr
  health : Option HealthState
  deriving DecidableEq, Repr

namespace TargetSet

/-- `TargetSet::new`: all healthy. -/
def new (addrs : List UpstreamAddr) (healthChecked : Bool) : TargetSet :=
  ⟨addrs, if healthChecked then some (HealthState.new addrs.length) else none⟩

/-- Whether the address is in the rotation, as a draw sees it; without health checking every one is. -/
def isHealthy (set : TargetSet) (index : ℕ) : Option Bool :=
  match set.health with
  | none => some true
  | some health => health.isHealthy index

/-- What the rest of the gateway relies on: an address, and a flag for each address. -/
structure Wf (set : TargetSet) : Prop where
  addrs_ne_nil : set.addrs ≠ []
  flags : ∀ health ∈ set.health, health.flags.length = set.addrs.length

theorem wf_new {addrs : List UpstreamAddr} (h : addrs ≠ []) (healthChecked : Bool) : (new addrs healthChecked).Wf := by
  refine ⟨h, fun health hmem => ?_⟩
  cases healthChecked with
  | false => simp [new] at hmem
  | true =>
    obtain rfl : HealthState.new addrs.length = health := by simpa [new] using hmem
    simp [new, HealthState.new]

/-- In a well-formed set every address has a flag. -/
theorem Wf.exists_isHealthy {set : TargetSet} (h : set.Wf) {index : ℕ} (hi : index < set.addrs.length) :
    ∃ b, set.isHealthy index = some b := by
  unfold isHealthy
  cases hh : set.health with
  | none => exact ⟨true, rfl⟩
  | some health =>
    have hlt : index < health.flags.length := by rw [h.flags health hh]; exact hi
    exact ⟨health.flags[index], List.getElem?_eq_getElem hlt⟩

end TargetSet

/-! ### Draws -/

/-- Where a call of `next_addr` stands. -/
inductive Pick where
  /-- In the loop, or behind it when no iteration is left. -/
  | drawing (left : ℕ)
  /-- It has returned the address at this index. -/
  | returned (index : ℕ)
  /-- An index out of range, or a remainder by zero. -/
  | panicked
  deriving DecidableEq, Repr

/-- `fetch_add(1)` of an `AtomicUsize`, which wraps. -/
def fetchAdd (cursor : ℕ) : ℕ := (cursor + 1) % 2 ^ 64

namespace TargetSet

variable {set : TargetSet} {cursor : ℕ}

/-- `&self.addrs[index]`. -/
def addrAt (set : TargetSet) (index : ℕ) : Pick := if index < set.addrs.length then .returned index else .panicked

/-- One draw of a call with `left` iterations of its loop left, and the counter after it. A set of one address
skips the counter. -/
def draw (set : TargetSet) (left cursor : ℕ) : Pick × ℕ :=
  let count := set.addrs.length
  if count = 1 then (set.addrAt 0, cursor)
  else if count = 0 then (.panicked, fetchAdd cursor)
  else
    let index := cursor % count
    match left with
    | 0 => (set.addrAt index, fetchAdd cursor)
    | left + 1 =>
      match set.isHealthy index with
      | none => (.panicked, fetchAdd cursor)
      | some true => (set.addrAt index, fetchAdd cursor)
      | some false => (.drawing left, fetchAdd cursor)

/-- The draws of a call that nobody interrupts. -/
def draws (set : TargetSet) : ℕ → ℕ → Pick × ℕ
  | 0, cursor => set.draw 0 cursor
  | left + 1, cursor =>
    match set.draw (left + 1) cursor with
    | (.drawing _, cursor) => set.draws left cursor
    | done => done

/-- `next_addr`, by itself. -/
def nextAddr (set : TargetSet) (cursor : ℕ) : Pick × ℕ := set.draws set.addrs.length cursor

/-- The addresses of `n` calls, one after the other. -/
def nextAddrs (set : TargetSet) : ℕ → ℕ → List (Option UpstreamAddr)
  | 0, _ => []
  | n + 1, cursor =>
    (match (set.nextAddr cursor).1 with
      | .returned index => set.addrs[index]?
      | _ => none) :: set.nextAddrs n (set.nextAddr cursor).2

/-- The address at the index is evicted. -/
def Evicted (set : TargetSet) (index : ℕ) : Prop := set.isHealthy index = some false

instance (set : TargetSet) (index : ℕ) : Decidable (set.Evicted index) :=
  inferInstanceAs (Decidable (set.isHealthy index = some false))

/-- Every address is. -/
def AllEvicted (set : TargetSet) : Prop := ∀ index < set.addrs.length, set.Evicted index

instance (set : TargetSet) : Decidable set.AllEvicted :=
  inferInstanceAs (Decidable (∀ index < set.addrs.length, set.Evicted index))

/-- Only an address of the set is evicted. -/
theorem Wf.lt_of_evicted (h : set.Wf) {index : ℕ} (hev : set.Evicted index) : index < set.addrs.length := by
  unfold Evicted isHealthy at hev
  cases hh : set.health with
  | none => simp [hh] at hev
  | some health =>
    rw [hh] at hev
    rw [← h.flags health hh]
    exact (List.getElem?_eq_some_iff.mp hev).1

/-- **What a draw does** to a set of several addresses: it returns a healthy address, or the loop goes on behind
an evicted one, or the loop is over and it returns what it has drawn. -/
theorem draw_cases (h : set.Wf) (hcount : set.addrs.length ≠ 1) (left cursor : ℕ) :
    (set.draw left cursor).2 = fetchAdd cursor ∧
      ((left = 0 ∧ (set.draw left cursor).1 = .returned (cursor % set.addrs.length)) ∨
        (0 < left ∧ ¬ set.Evicted (cursor % set.addrs.length) ∧
          (set.draw left cursor).1 = .returned (cursor % set.addrs.length)) ∨
        (0 < left ∧ set.Evicted (cursor % set.addrs.length) ∧ (set.draw left cursor).1 = .drawing (left - 1))) := by
  have hpos : 0 < set.addrs.length := List.length_pos_iff.mpr h.addrs_ne_nil
  have hlt : cursor % set.addrs.length < set.addrs.length := Nat.mod_lt cursor hpos
  obtain ⟨b, hb⟩ := h.exists_isHealthy hlt
  cases left with
  | zero => simp [draw, addrAt, hcount, hlt, h.addrs_ne_nil]
  | succ left =>
    cases b <;> simp [draw, addrAt, Evicted, hb, hcount, hlt, h.addrs_ne_nil]

/-- A draw from a well-formed set does not panic. -/
theorem draw_ne_panicked (h : set.Wf) (left cursor : ℕ) : (set.draw left cursor).1 ≠ .panicked := by
  by_cases hcount : set.addrs.length = 1
  · simp [draw, addrAt, hcount]
  · obtain ⟨-, ⟨_, hret⟩ | ⟨_, _, hret⟩ | ⟨_, _, hret⟩⟩ := draw_cases h hcount left cursor
    all_goals simp [hret]

/-- The loop goes on with one iteration less. -/
theorem eq_succ_of_draw {left left' : ℕ} (h : (set.draw left cursor).1 = .drawing left') : left = left' + 1 := by
  unfold draw at h
  dsimp only at h
  have haddr : ∀ index, set.addrAt index ≠ .drawing left' := by
    intro index
    unfold addrAt
    split_ifs <;> simp
  split_ifs at h
  · exact absurd h (haddr 0)
  · cases left with
    | zero => exact absurd h (haddr _)
    | succ left =>
      dsimp only at h
      split at h
      · cases h
      · exact absurd h (haddr _)
      · cases h
        rfl

/-- A set of one address is returned at once. -/
theorem draw_of_single (hcount : set.addrs.length = 1) (left cursor : ℕ) :
    set.draw left cursor = (.returned 0, cursor) := by
  simp [draw, addrAt, hcount]

end TargetSet

/-! ### Calls under way -/

/-- The counter of a target and the calls that draw from it. -/
structure Rotation where
  cursor : ℕ
  /-- Where each call stands. -/
  calls : ℕ → Pick

namespace Rotation

variable {set : TargetSet} {s : Rotation}

/-- No call has drawn yet. -/
def start (set : TargetSet) (cursor : ℕ) : Rotation := ⟨cursor, fun _ => .drawing set.addrs.length⟩

/-- The next draw of a call; one that has returned makes none. -/
def step (set : TargetSet) (s : Rotation) (i : ℕ) : Rotation :=
  match s.calls i with
  | .drawing left => ⟨(set.draw left s.cursor).2, Function.update s.calls i (set.draw left s.cursor).1⟩
  | _ => s

/-- The run of a schedule: who draws next, draw by draw. -/
def run (set : TargetSet) (s : Rotation) (sched : List ℕ) : Rotation := sched.foldl (step set) s

/-- A call is given an evicted address only if every address is evicted. -/
def Respects (set : TargetSet) (s : Rotation) : Prop :=
  ∀ i index, s.calls i = .returned index → set.Evicted index → set.AllEvicted

theorem run_append (s : Rotation) (as bs : List ℕ) : run set s (as ++ bs) = run set (run set s as) bs :=
  List.foldl_append

/-- A draw of one call leaves the others where they are. -/
theorem step_calls_of_ne {i k : ℕ} (h : k ≠ i) : (step set s i).calls k = s.calls k := by
  unfold step
  split
  · exact Function.update_of_ne h _ _
  · rfl

/-- A call that draws is where its draw has led it. -/
theorem step_calls_self {i left : ℕ} (hi : s.calls i = .drawing left) :
    (step set s i).calls i = (set.draw left s.cursor).1 := by
  simp [step, hi]

/-- A call that draws until it returns does what `next_addr` does. -/
theorem run_replicate (s : Rotation) {i left : ℕ} (hi : s.calls i = .drawing left) :
    ∃ n, run set s (List.replicate n i) =
      ⟨(set.draws left s.cursor).2, Function.update s.calls i (set.draws left s.cursor).1⟩ := by
  induction left generalizing s with
  | zero => exact ⟨1, by simp [run, step, hi, TargetSet.draws]⟩
  | succ left ih =>
    have hone : step set s i =
        ⟨(set.draw (left + 1) s.cursor).2, Function.update s.calls i (set.draw (left + 1) s.cursor).1⟩ := by
      simp [step, hi]
    cases hdraw : set.draw (left + 1) s.cursor with
    | mk pick cursor =>
      cases pick with
      | drawing left' =>
        obtain rfl : left = left' := Nat.succ.inj (TargetSet.eq_succ_of_draw (congrArg Prod.fst hdraw))
        obtain ⟨n, hn⟩ := ih (step set s i) (by simp [hone, hdraw])
        refine ⟨n + 1, ?_⟩
        simp only [run, List.replicate_succ, List.foldl_cons] at hn ⊢
        rw [hn, hone]
        simp [TargetSet.draws, hdraw]
      | returned index => exact ⟨1, by simp [run, hone, TargetSet.draws, hdraw]⟩
      | panicked => exact ⟨1, by simp [run, hone, TargetSet.draws, hdraw]⟩

/-! ### Calls that do not overlap -/

/-- Nobody else is between two draws. -/
def Alone (set : TargetSet) (s : Rotation) (i : ℕ) : Prop :=
  ∀ k ≠ i, ∀ left, s.calls k = .drawing left → left = set.addrs.length

/-- The loop of the call does not meet the wrap of the counter, or the wrap falls together with the end of a turn. -/
def ClearOfWrap (set : TargetSet) (s : Rotation) (i : ℕ) : Prop :=
  ∀ left, s.calls i = .drawing left → s.cursor + left ≤ 2 ^ 64 ∨ set.addrs.length ∣ 2 ^ 64

/-- The steps of the run all meet the two conditions. -/
def Serial (set : TargetSet) : Rotation → List ℕ → Prop
  | _, [] => True
  | s, i :: rest => (Alone set s i ∧ ClearOfWrap set s i) ∧ Serial set (step set s i) rest

/-- The draws a call has made, counted from some start, have all fallen on evicted addresses, and its next one
takes the next place. -/
def Covered (set : TargetSet) (cursor left : ℕ) : Prop :=
  ∃ first, (∀ d < set.addrs.length - left, set.Evicted ((first + d) % set.addrs.length)) ∧
    (left = 0 ∨ cursor ≡ first + (set.addrs.length - left) [MOD set.addrs.length])

/-- The invariant of runs without overlap. -/
structure Inv (set : TargetSet) (s : Rotation) : Prop where
  drawing : ∀ i left, s.calls i = .drawing left →
    left ≤ set.addrs.length ∧ (left < set.addrs.length → Covered set s.cursor left)
  respects : Respects set s

theorem inv_start (set : TargetSet) (cursor : ℕ) : Inv set (start set cursor) := by
  refine ⟨fun i left h => ?_, fun i index h => ?_⟩
  · obtain rfl : set.addrs.length = left := by simpa [start] using h
    exact ⟨le_rfl, fun hlt => absurd hlt (lt_irrefl _)⟩
  · simp [start] at h

/-- A full turn of evicted addresses is all of them. -/
theorem allEvicted_of_covered (hpos : 0 < set.addrs.length) {cursor : ℕ} (h : Covered set cursor 0) :
    set.AllEvicted := by
  obtain ⟨first, hall, -⟩ := h
  intro index hindex
  -- the place of `index` in the turn that starts at `first`
  have hlt : (index + (set.addrs.length - first % set.addrs.length)) % set.addrs.length < set.addrs.length :=
    Nat.mod_lt _ hpos
  have hplace : (first + (index + (set.addrs.length - first % set.addrs.length)) % set.addrs.length) %
      set.addrs.length = index := by
    have hfirst := Nat.mod_lt first hpos
    rw [Nat.add_mod, Nat.mod_mod, ← Nat.add_mod, ← Nat.mod_add_mod,
      show first % set.addrs.length + (index + (set.addrs.length - first % set.addrs.length)) =
        index + set.addrs.length by omega, Nat.add_mod_right, Nat.mod_eq_of_lt hindex]
  have := hall _ (by simpa using hlt)
  rwa [hplace] at this

/-- A draw that nobody interrupted moves to the next place of the turn. -/
theorem covered_fetchAdd {cursor left : ℕ} (hleft : left + 1 ≤ set.addrs.length)
    (hclear : cursor + (left + 1) ≤ 2 ^ 64 ∨ set.addrs.length ∣ 2 ^ 64)
    (hcov : left + 1 < set.addrs.length → Covered set cursor (left + 1))
    (hev : set.Evicted (cursor % set.addrs.length)) : Covered set (fetchAdd cursor) left := by
  obtain ⟨first, hall, hnext⟩ : ∃ first,
      (∀ d < set.addrs.length - (left + 1), set.Evicted ((first + d) % set.addrs.length)) ∧
      cursor ≡ first + (set.addrs.length - (left + 1)) [MOD set.addrs.length] := by
    rcases Nat.lt_or_ge (left + 1) set.addrs.length with hlt | hge
    · obtain ⟨first, hall, h0 | hnext⟩ := hcov hlt
      · omega
      · exact ⟨first, hall, hnext⟩
    · have heq : set.addrs.length - (left + 1) = 0 := by omega
      rw [heq]
      exact ⟨cursor, fun d hd => absurd hd (Nat.not_lt_zero d), rfl⟩
  refine ⟨first, fun d hd => ?_, ?_⟩
  · rcases Nat.lt_or_ge d (set.addrs.length - (left + 1)) with hlt | hge
    · exact hall d hlt
    · have hd' : d = set.addrs.length - (left + 1) := by omega
      rw [hd', ← hnext]
      exact hev
  · cases left with
    | zero => exact .inl rfl
    | succ left =>
      right
      have hsucc : fetchAdd cursor ≡ cursor + 1 [MOD set.addrs.length] := by
        rcases hclear with hle | hdvd
        · rw [fetchAdd, Nat.mod_eq_of_lt (by omega)]
        · exact (Nat.mod_modEq _ _).of_dvd hdvd
      calc fetchAdd cursor ≡ cursor + 1 [MOD set.addrs.length] := hsucc
        _ ≡ first + (set.addrs.length - (left + 1 + 1)) + 1 [MOD set.addrs.length] := hnext.add_right 1
        _ = first + (set.addrs.length - (left + 1)) := by omega

/-- A set of one address respects eviction whatever it returns. -/
theorem allEvicted_of_single (hcount : set.addrs.length = 1) (h : set.Evicted 0) : set.AllEvicted := by
  intro index hindex
  obtain rfl : index = 0 := by omega
  exact h

/-- A step without overlap keeps the invariant. -/
theorem inv_step (hwf : set.Wf) {i : ℕ} (halone : Alone set s i) (hclear : ClearOfWrap set s i) (h : Inv set s) :
    Inv set (step set s i) := by
  have hpos : 0 < set.addrs.length := List.length_pos_iff.mpr hwf.addrs_ne_nil
  cases hi : s.calls i with
  | returned index => simpa [step, hi] using h
  | panicked => simpa [step, hi] using h
  | drawing left =>
    have hself : (step set s i).calls i = (set.draw left s.cursor).1 := step_calls_self hi
    have hcursor : (step set s i).cursor = (set.draw left s.cursor).2 := by simp [step, hi]
    refine ⟨fun k left' hk => ?_, fun k index hk hev => ?_⟩
    · by_cases hki : k = i
      · subst hki
        rw [hself] at hk
        have hleft : left = left' + 1 := TargetSet.eq_succ_of_draw hk
        obtain ⟨hle, hcov⟩ := h.drawing k left hi
        have hcount : set.addrs.length ≠ 1 := fun h1 => by
          rw [TargetSet.draw_of_single h1] at hk
          cases hk
        obtain ⟨hnext, ⟨_, hret⟩ | ⟨_, _, hret⟩ | ⟨_, hev, _⟩⟩ := TargetSet.draw_cases hwf hcount left s.cursor
        · rw [hret] at hk
          cases hk
        · rw [hret] at hk
          cases hk
        · refine ⟨by omega, fun _ => ?_⟩
          rw [hcursor, hnext]
          subst hleft
          exact covered_fetchAdd hle (hclear _ hi) hcov hev
      · -- nobody else is between two draws
        rw [step_calls_of_ne hki] at hk
        obtain rfl := halone k hki left' hk
        exact ⟨le_rfl, fun hlt => absurd hlt (lt_irrefl _)⟩
    · by_cases hki : k = i
      · subst hki
        rw [hself] at hk
        by_cases hcount : set.addrs.length = 1
        · rw [TargetSet.draw_of_single hcount] at hk
          cases hk
          exact allEvicted_of_single hcount hev
        · obtain ⟨-, ⟨hleft, hret⟩ | ⟨_, hhealthy, hret⟩ | ⟨_, _, hret⟩⟩ :=
            TargetSet.draw_cases hwf hcount left s.cursor
          · -- the loop is over: the turn it has made has met every address
            subst hleft
            exact allEvicted_of_covered hpos ((h.drawing k 0 hi).2 hpos)
          · rw [hret] at hk
            cases hk
            exact absurd hev hhealthy
          · rw [hret] at hk
            cases hk
      · rw [step_calls_of_ne hki] at hk
        exact h.respects k index hk hev

/-- In a run without overlap eviction is respected. -/
theorem respects_of_serial (hwf : set.Wf) {sched : List ℕ} (h : Inv set s) (hserial : Serial set s sched) :
    Respects set (run set s sched) := by
  induction sched generalizing s with
  | nil => exact h.respects
  | cons i rest ih =>
    obtain ⟨⟨halone, hclear⟩, hrest⟩ := hserial
    exact ih (inv_step hwf halone hclear h) hrest

/-! ### Calls that overlap -/

/-- Every call from `n` on has still to draw. -/
def FreshFrom (set : TargetSet) (n : ℕ) (s : Rotation) : Prop := ∀ k ≥ n, s.calls k = .drawing set.addrs.length

/-- A draw from a set of several addresses moves the counter by one. -/
theorem step_cursor (hwf : set.Wf) (hcount : set.addrs.length ≠ 1) {i left : ℕ} (hi : s.calls i = .drawing left) :
    (step set s i).cursor = fetchAdd s.cursor := by
  simp only [step, hi]
  exact (TargetSet.draw_cases hwf hcount left s.cursor).1

/-- Calls that have still to draw can move the counter anywhere, one draw each. -/
theorem exists_run_cursor (hwf : set.Wf) (hcount : set.addrs.length ≠ 1) {n : ℕ} (hfresh : FreshFrom set n s)
    (hcursor : s.cursor < 2 ^ 64) (m : ℕ) :
    ∃ sched, (run set s sched).cursor = (s.cursor + m) % 2 ^ 64 ∧ (∀ k < n, (run set s sched).calls k = s.calls k) ∧
      FreshFrom set (n + m) (run set s sched) := by
  induction m with
  | zero => exact ⟨[], (Nat.mod_eq_of_lt hcursor).symm, fun _ _ => rfl, hfresh⟩
  | succ m ih =>
    obtain ⟨sched, hc, hkept, hf⟩ := ih
    refine ⟨sched ++ [n + m], ?_, fun k hk => ?_, fun k hk => ?_⟩
    all_goals rw [run_append]
    · calc (step set (run set s sched) (n + m)).cursor = fetchAdd (run set s sched).cursor :=
            step_cursor hwf hcount (hf (n + m) le_rfl)
        _ = (s.cursor + (m + 1)) % 2 ^ 64 := by rw [hc, fetchAdd, Nat.mod_add_mod, Nat.add_assoc]
    · exact (step_calls_of_ne (by omega)).trans (hkept k hk)
    · exact (step_calls_of_ne (by omega)).trans (hf k (by omega))

/-- **Starvation**: the others can see to it that every draw of a call falls on one evicted address, and that
this is the address it is given. -/
theorem exists_run_returned (hwf : set.Wf) (hlen : set.addrs.length < 2 ^ 64) (hcount : set.addrs.length ≠ 1)
    {index : ℕ} (hindex : index < set.addrs.length) (hev : set.Evicted index) {n left : ℕ} (hn : 0 < n)
    (hfresh : FreshFrom set n s) (hcursor : s.cursor < 2 ^ 64) (h0 : s.calls 0 = .drawing left) :
    ∃ sched, (run set s sched).calls 0 = .returned index := by
  induction left generalizing s n with
  | zero =>
    obtain ⟨sched, hc, hkept, -⟩ := exists_run_cursor hwf hcount hfresh hcursor (2 ^ 64 - s.cursor + index)
    have hat : (run set s sched).cursor = index := by rw [hc]; omega
    have hself : (run set s sched).calls 0 = .drawing 0 := (hkept 0 hn).trans h0
    refine ⟨sched ++ [0], ?_⟩
    rw [run_append]
    obtain ⟨-, ⟨_, hret⟩ | ⟨hpos, _⟩ | ⟨hpos, _⟩⟩ := TargetSet.draw_cases hwf hcount 0 index
    · rw [Nat.mod_eq_of_lt hindex] at hret
      exact (step_calls_self hself).trans (by rw [hat, hret])
    · exact absurd hpos (lt_irrefl 0)
    · exact absurd hpos (lt_irrefl 0)
  | succ left ih =>
    obtain ⟨sched, hc, hkept, hf⟩ := exists_run_cursor hwf hcount hfresh hcursor (2 ^ 64 - s.cursor + index)
    have hat : (run set s sched).cursor = index := by rw [hc]; omega
    have hself : (run set s sched).calls 0 = .drawing (left + 1) := (hkept 0 hn).trans h0
    obtain ⟨hnext, ⟨h, _⟩ | ⟨_, hhealthy, _⟩ | ⟨_, _, hret⟩⟩ := TargetSet.draw_cases hwf hcount (left + 1) index
    · exact absurd h (Nat.succ_ne_zero left)
    · rw [Nat.mod_eq_of_lt hindex] at hhealthy
      exact absurd hev hhealthy
    · have hcursor' : (step set (run set s sched) 0).cursor < 2 ^ 64 := by
        rw [step_cursor hwf hcount hself]
        exact Nat.mod_lt _ (by decide)
      obtain ⟨sched', hdone⟩ := ih (s := step set (run set s sched) 0) (n := n + (2 ^ 64 - s.cursor + index))
        (by omega) (fun k hk => (step_calls_of_ne (by omega)).trans (hf k hk)) hcursor'
        ((step_calls_self hself).trans (by rw [hat, hret]; rfl))
      exact ⟨sched ++ 0 :: sched', by rw [run_append]; exact hdone⟩

end Rotation

/-! ### Calls one after the other -/

namespace TargetSet

variable {set : TargetSet}

/-- Without health checking the first draw is the answer. -/
theorem nextAddr_of_unchecked (hwf : set.Wf) (hhealth : set.health = none) (hcount : set.addrs.length ≠ 1)
    (cursor : ℕ) : set.nextAddr cursor = (.returned (cursor % set.addrs.length), fetchAdd cursor) := by
  have hpos : 0 < set.addrs.length := List.length_pos_iff.mpr hwf.addrs_ne_nil
  obtain ⟨left, hleft⟩ : ∃ left, set.addrs.length = left + 1 := ⟨set.addrs.length - 1, by omega⟩
  have hdraw : set.draw (left + 1) cursor = (.returned (cursor % set.addrs.length), fetchAdd cursor) := by
    simp [draw, addrAt, isHealthy, hhealth, hcount, hwf.addrs_ne_nil, Nat.mod_lt _ hpos]
  unfold nextAddr
  rw [hleft, draws, hdraw, hleft]

/-- Short of the wrap, calls one after the other go round. -/
theorem nextAddrs_of_unchecked (hwf : set.Wf) (hhealth : set.health = none) (hcount : set.addrs.length ≠ 1)
    {n cursor : ℕ} (h : cursor + n ≤ 2 ^ 64) :
    set.nextAddrs n cursor = (List.range n).map fun k => set.addrs[(cursor + k) % set.addrs.length]? := by
  induction n generalizing cursor with
  | zero => rfl
  | succ n ih =>
    simp only [nextAddrs, nextAddr_of_unchecked hwf hhealth hcount, List.range_succ_eq_map, List.map_cons,
      List.map_map, Nat.add_zero]
    congr 1
    cases n with
    | zero => rfl
    | succ n =>
      rw [fetchAdd, Nat.mod_eq_of_lt (by omega), ih (by omega)]
      refine List.map_congr_left fun k _ => ?_
      rw [Function.comp_apply, Nat.succ_eq_add_one, show cursor + (k + 1) = cursor + 1 + k by omega]

/-- As many calls as there are addresses use each address once, in a rotation of their order. -/
theorem nextAddrs_length (hwf : set.Wf) (hhealth : set.health = none) {cursor : ℕ}
    (h : cursor + set.addrs.length ≤ 2 ^ 64) :
    set.nextAddrs set.addrs.length cursor = (set.addrs.rotate cursor).map some := by
  by_cases hcount : set.addrs.length = 1
  · obtain ⟨addr, haddr⟩ := List.length_eq_one_iff.mp hcount
    simp [haddr, nextAddrs, nextAddr, draws, draw, addrAt, List.rotate_singleton]
  · rw [nextAddrs_of_unchecked hwf hhealth hcount h]
    refine List.ext_getElem (by simp) fun k hk hk' => ?_
    have hpos : 0 < set.addrs.length := List.length_pos_iff.mpr hwf.addrs_ne_nil
    simp only [List.getElem_map, List.getElem_range, List.getElem_rotate]
    rw [List.getElem?_eq_getElem (Nat.mod_lt _ hpos)]
    simp only [Nat.add_comm]

/-- No address of the set is evicted, or every one is. -/
def Unmixed (set : TargetSet) : Prop := (∀ index < set.addrs.length, ¬ set.Evicted index) ∨ set.AllEvicted

/-- What the rotation is for, on a set and a counter: in every run of calls that draw from it an evicted address is
given only if every address is evicted, and without health checking as many calls as there are addresses, one
after the other and short of the wrap, use each address once. -/
def LoadBalances (set : TargetSet) (cursor : ℕ) : Prop :=
  (∀ sched, Rotation.Respects set (Rotation.run set (Rotation.start set cursor) sched)) ∧
    (set.health = none → cursor + set.addrs.length ≤ 2 ^ 64 →
      (set.nextAddrs set.addrs.length cursor).Perm (set.addrs.map some))

/-- **The rotation under eviction**: the rotation does what it is for exactly on the sets of which no address or
every address is evicted. On any set, it respects eviction in the runs in which no call draws between two draws of
another and no loop meets the wrap of the counter. -/
theorem load_balances_iff (set : TargetSet) (hwf : set.Wf) (hlen : set.addrs.length < 2 ^ 64) (cursor : ℕ)
    (hcursor : cursor < 2 ^ 64) :
    (LoadBalances set cursor ↔ Unmixed set) ∧
      ∀ sched, Rotation.Serial set (Rotation.start set cursor) sched →
        Rotation.Respects set (Rotation.run set (Rotation.start set cursor) sched) := by
  refine ⟨⟨fun h => ?_, fun h => ⟨fun sched => ?_, fun hhealth hwrap => ?_⟩⟩, fun sched hserial => ?_⟩
  · by_contra hmixed
    simp only [Unmixed, not_or, not_forall, not_not] at hmixed
    obtain ⟨⟨index, hindex, hev⟩, hnot⟩ := hmixed
    have hcount : set.addrs.length ≠ 1 := by
      intro h1
      obtain rfl : index = 0 := by omega
      exact hnot (Rotation.allEvicted_of_single h1 hev)
    obtain ⟨sched, hret⟩ := Rotation.exists_run_returned (n := 1) hwf hlen hcount hindex hev Nat.one_pos
      (s := Rotation.start set cursor) (fun k _ => rfl) hcursor rfl
    exact hnot (h.1 sched 0 index hret hev)
  · intro i index hret hev
    rcases h with hnone | hall
    · exact absurd hev (hnone index (hwf.lt_of_evicted hev))
    · exact hall
  · rw [nextAddrs_length hwf hhealth hwrap]
    exact (List.rotate_perm _ _).map some
  · exact Rotation.respects_of_serial hwf (Rotation.inv_start set cursor) hserial

/-- Two addresses, the first of them evicted. -/
def halfEvicted : TargetSet := ⟨[⟨.http, "a.internal", ""⟩, ⟨.http, "b.internal", ""⟩], some ⟨[false, true]⟩⟩

theorem wf_halfEvicted : halfEvicted.Wf := by
  refine ⟨by decide, ?_⟩
  rintro health ⟨⟩
  rfl

/-- Two other calls take the draws that would have fallen on the healthy address, and the call that began first is
given the evicted one. -/
theorem evicted_while_healthy :
    halfEvicted.Wf ∧
      (Rotation.run halfEvicted (Rotation.start halfEvicted 0) [0, 1, 0, 2, 0]).calls 0 = .returned 0 ∧
      halfEvicted.Evicted 0 ∧ ¬ halfEvicted.Evicted 1 ∧ ¬ LoadBalances halfEvicted 0 := by
  have hret : (Rotation.run halfEvicted (Rotation.start halfEvicted 0) [0, 1, 0, 2, 0]).calls 0 = .returned 0 := by
    decide
  refine ⟨wf_halfEvicted, hret, by decide, by decide, fun h => ?_⟩
  exact absurd (h.1 _ 0 0 hret (by decide)) (by decide)

/-- On that set the rotation is not safe, and a call that draws by itself is. -/
theorem load_balances_iff_halfEvicted :
    ¬ LoadBalances halfEvicted 0 ∧
      Rotation.Respects halfEvicted (Rotation.run halfEvicted (Rotation.start halfEvicted 0) [0, 0]) := by
  obtain ⟨hiff, hserial⟩ := load_balances_iff halfEvicted wf_halfEvicted (by decide) 0 (by decide)
  refine ⟨fun h => ?_, hserial _ ?_⟩
  · rcases hiff.mp h with hnone | hall
    · exact hnone 0 (by decide) (by decide)
    · exact absurd hall (by decide)
  · have hdvd : halfEvicted.addrs.length ∣ 2 ^ 64 := by decide
    refine ⟨⟨fun k hk left h => ?_, fun _ _ => .inr hdvd⟩, ⟨fun k hk left h => ?_, fun _ _ => .inr hdvd⟩, trivial⟩
    · cases h
      rfl
    · rw [Rotation.step_calls_of_ne hk] at h
      cases h
      rfl

end TargetSet

end G2way.Proxy
