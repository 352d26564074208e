import G2way.Lib.Service
import G2way.Lib.TokenBucket
import Mathlib.Data.Nat.Bitwise
import Mathlib.Logic.Function.Basic

/-!
# The spike guard

`SpikeGuard` of `g2-middleware/src/spike.rs`, "a per-pod, in-process token bucket
consulted first: when an identity's bucket is empty the request is rejected locally and
Redis is never asked". "Identities are hashed into a fixed shard array: two identities
may share a bucket, which can only make the guard stricter, never looser."

## The model

A bucket is one word: the second of the last refill credit in its high half, the tokens in
its low half. `try_acquire_at` is one atomic step, so that its compare-and-exchange succeeds
the first time. The hash of an identity is a parameter of the guard.

## What is proved

A step of the guard is a step of the token bucket of `G2way.Lib.TokenBucket` on the shard of
its identity, and of no other (`bucket_tryAcquireAt`). So a shard grants what a token bucket
grants, and sharing one costs an identity calls but never gains it any
(`spike_guard_is_token_bucket`).
-/

namespace G2way.Middleware.Spike

open G2way.Lib

/-- `SHARDS`. -/
def shards : ℕ := 4096

/-- `pack`. -/
def pack (lastRefillSecs tokens : ℕ) : ℕ := lastRefillSecs <<< 32 ||| tokens

/-- `unpack`. -/
def unpack (packed : ℕ) : ℕ × ℕ := ((packed >>> 32) % 2 ^ 32, packed % 2 ^ 32)

theorem unpack_pack {last tokens : ℕ} (hlast : last < 2 ^ 32) (htokens : tokens < 2 ^ 32) :
    unpack (pack last tokens) = (last, tokens) := by
  have hword : pack last tokens = last * 2 ^ 32 + tokens := by
    rw [pack, ← Nat.shiftLeft_add_eq_or_of_lt htokens, Nat.shiftLeft_eq]
  rw [unpack, hword, Nat.shiftRight_eq_div_pow]
  congr 1 <;> omega

/-- `SpikeGuard`. -/
structure SpikeGuard where
  /-- The burst a bucket absorbs. -/
  capacity : ℕ
  /-- The tokens it is credited with each second. -/
  refillPerSec : ℕ
  /-- The hash of an identity. -/
  hash : String → ℕ
  /-- The packed buckets. -/
  buckets : ℕ → ℕ

namespace SpikeGuard

/-- `SpikeGuard::new`: every bucket full. -/
def new (capacity refillPerSec : ℕ) (hash : String → ℕ) : SpikeGuard :=
  ⟨capacity, refillPerSec, hash, fun _ => pack 0 capacity⟩

/-- `shard`. -/
def shard (g : SpikeGuard) (identity : String) : ℕ := g.hash identity % shards

/-- `refilled`: the tokens with the credit of the seconds since, as a `u64`. -/
def refilled (g : SpikeGuard) (tokens elapsed : ℕ) : ℕ := tokens + elapsed * g.refillPerSec

/-- `try_acquire_at`. -/
def tryAcquireAt (g : SpikeGuard) (identity : String) (nowSecs : ℕ) : Bool × SpikeGuard :=
  let (lastRefill, tokens) := unpack (g.buckets (g.shard identity))
  let elapsed := nowSecs - lastRefill
  let (newLast, available) :=
    if 0 < elapsed then (nowSecs, min (min (g.refilled tokens elapsed) (2 ^ 32 - 1)) g.capacity)
    else (lastRefill, tokens)
  if available = 0 then (false, g)
  else (true, { g with buckets := Function.update g.buckets (g.shard identity) (pack newLast (available - 1)) })

/-- The token bucket of a shard. -/
def bucket (g : SpikeGuard) (i : ℕ) : Bucket := ⟨(unpack (g.buckets i)).1, (unpack (g.buckets i)).2⟩

/-- The guard of the capacity, the refill and the hash it was built with. -/
structure Built (C R : ℕ) (hash : String → ℕ) (g : SpikeGuard) : Prop where
  capacity : g.capacity = C
  refill : g.refillPerSec = R
  hash : g.hash = hash

section

variable {C R : ℕ} {hash : String → ℕ} {g : SpikeGuard} {identity : String} {now : ℕ}

/-- What a step of the guard does, in terms of the bucket of its shard. -/
theorem tryAcquireAt_eq (hg : g.Built C R hash) (hC : C < 2 ^ 32) (identity : String) (now : ℕ) :
    g.tryAcquireAt identity now =
      if (g.bucket (g.shard identity)).avail C R now = 0 then (false, g)
      else (true, { g with
        buckets := Function.update g.buckets (g.shard identity)
          (pack (max (g.bucket (g.shard identity)).last now) ((g.bucket (g.shard identity)).avail C R now - 1)) }) := by
  unfold tryAcquireAt bucket Bucket.avail refilled
  rcases unpack (g.buckets (g.shard identity)) with ⟨last, tokens⟩
  by_cases hlt : last < now
  · have hpos : 0 < now - last := by omega
    have hcap : min (min (tokens + (now - last) * R) (2 ^ 32 - 1)) C = min (tokens + (now - last) * R) C := by omega
    simp only [hpos, hlt, if_true, hg.capacity, hg.refill, hcap, Nat.max_eq_right hlt.le]
  · have hzero : ¬ 0 < now - last := by omega
    simp only [hzero, hlt, if_false, Nat.max_eq_left (not_lt.mp hlt)]

/-- **A step of the guard is a step of the bucket of its shard**: it grants what the bucket
grants, -/
theorem tryAcquireAt_fst (hg : g.Built C R hash) (hC : C < 2 ^ 32) (identity : String) (now : ℕ) :
    (g.tryAcquireAt identity now).1 = ((g.bucket (g.shard identity)).take C R now).1 := by
  rw [tryAcquireAt_eq hg hC, Bucket.take]
  split_ifs <;> rfl

/-- leaves that bucket as taking a token does, -/
theorem bucket_tryAcquireAt (hg : g.Built C R hash) (hC : C < 2 ^ 32) (hnow : now < 2 ^ 32)
    (hok : (g.bucket (g.shard identity)).Ok C now) :
    (g.tryAcquireAt identity now).2.bucket (g.shard identity) =
      ((g.bucket (g.shard identity)).take C R now).2 := by
  have hle := Bucket.avail_le (R := R) hok
  have hlast := hok.last
  rw [tryAcquireAt_eq hg hC, Bucket.take]
  split_ifs
  · rfl
  · simp only [bucket, Function.update_self]
    rw [unpack_pack]
    · simp only [bucket] at hlast
      omega
    · simp only [bucket] at hle
      omega

/-- and the others alone. -/
theorem bucket_tryAcquireAt_of_ne (hg : g.Built C R hash) (hC : C < 2 ^ 32) {i : ℕ} (hi : i ≠ g.shard identity) :
    (g.tryAcquireAt identity now).2.bucket i = g.bucket i := by
  rw [tryAcquireAt_eq hg hC]
  split_ifs
  · rfl
  · simp only [bucket, Function.update_of_ne hi]

theorem Built.tryAcquireAt (hg : g.Built C R hash) (hC : C < 2 ^ 32) (identity : String) (now : ℕ) :
    (g.tryAcquireAt identity now).2.Built C R hash := by
  rw [tryAcquireAt_eq hg hC]
  split_ifs
  · exact hg
  · exact ⟨hg.capacity, hg.refill, hg.hash⟩

end

/-! ### Runs -/

/-- A call of `try_acquire_at`. -/
structure Acquire where
  /-- Who asks. -/
  identity : String
  /-- The second. -/
  now : ℕ
  deriving DecidableEq, Repr

/-- What a call does. -/
def serve (g : SpikeGuard) (c : Acquire) : Bool × SpikeGuard := g.tryAcquireAt c.identity c.now

/-- The seconds of a run never decrease and fit a `u32`. -/
structure Timely (calls : List Acquire) : Prop where
  /-- In order. -/
  order : calls.Pairwise fun c d => c.now ≤ d.now
  /-- Of a `u32`. -/
  fits : ∀ c ∈ calls, c.now < 2 ^ 32

theorem Timely.sublist {calls calls' : List Acquire} (h : Timely calls) (hsub : List.Sublist calls' calls) :
    Timely calls' := ⟨h.order.sublist hsub, fun c hc => h.fits c (hsub.subset hc)⟩

theorem Timely.append_left {as bs : List Acquire} (h : Timely (as ++ bs)) : Timely as :=
  h.sublist (List.sublist_append_left ..)

theorem Timely.le_last {past : List Acquire} {c : Acquire} (h : Timely (past ++ [c])) : ∀ d ∈ past, d.now ≤ c.now :=
  fun d hd => (List.pairwise_append.mp h.order).2.2 d hd c (List.mem_singleton_self c)

theorem Timely.fits_last {past : List Acquire} {c : Acquire} (h : Timely (past ++ [c])) : c.now < 2 ^ 32 :=
  h.fits c (List.mem_append_right _ (List.mem_singleton_self c))

/-- The guard after the calls. -/
def guardAfter (C R : ℕ) (hash : String → ℕ) (calls : List Acquire) : SpikeGuard := after serve (new C R hash) calls

/-- The calls on a shard that a run granted at seconds in `I`. -/
def granted (hash : String → ℕ) (i : ℕ) (I : ℕ → Prop) [DecidablePred I] (run : List (Acquire × Bool)) : ℕ :=
  run.countP fun e => hash e.1.identity % shards = i ∧ e.2 = true ∧ I e.1.now

section

variable {C R : ℕ} {hash : String → ℕ} {calls past : List Acquire} {c : Acquire}

theorem guardAfter_concat (past : List Acquire) (c : Acquire) :
    guardAfter C R hash (past ++ [c]) = ((guardAfter C R hash past).serve c).2 := after_concat ..

/-- The guard keeps what it was built with. -/
theorem built_guardAfter (hC : C < 2 ^ 32) (calls : List Acquire) : (guardAfter C R hash calls).Built C R hash := by
  induction calls using List.reverseRecOn with
  | nil => exact ⟨rfl, rfl, rfl⟩
  | append_singleton past c ih =>
    rw [guardAfter_concat]
    exact ih.tryAcquireAt hC ..

theorem shard_guardAfter (hC : C < 2 ^ 32) (calls : List Acquire) (identity : String) :
    (guardAfter C R hash calls).shard identity = hash identity % shards := by
  rw [shard, (built_guardAfter hC calls).hash]

/-- The bucket of a shard after a call: of the call's own shard with a token taken, -/
theorem bucket_concat_self (hC : C < 2 ^ 32) (h : Timely (past ++ [c])) {i : ℕ}
    (hi : hash c.identity % shards = i) (hok : ((guardAfter C R hash past).bucket i).Ok C c.now) :
    (guardAfter C R hash (past ++ [c])).bucket i = (((guardAfter C R hash past).bucket i).take C R c.now).2 := by
  have hshard : (guardAfter C R hash past).shard c.identity = i := (shard_guardAfter hC past c.identity).trans hi
  rw [guardAfter_concat, serve, ← hshard, bucket_tryAcquireAt (built_guardAfter hC past) hC h.fits_last]
  rwa [hshard]

/-- of any other as it was. -/
theorem bucket_concat_of_ne (hC : C < 2 ^ 32) {i : ℕ} (hi : hash c.identity % shards ≠ i) :
    (guardAfter C R hash (past ++ [c])).bucket i = (guardAfter C R hash past).bucket i := by
  rw [guardAfter_concat, serve, bucket_tryAcquireAt_of_ne (built_guardAfter hC past) hC]
  rw [shard_guardAfter hC]
  exact hi.symm

/-- Every bucket stays within its capacity and not ahead of the time. -/
theorem ok_guardAfter (hC : C < 2 ^ 32) (h : Timely calls) (i : ℕ) {now : ℕ} (hnow : ∀ c ∈ calls, c.now ≤ now) :
    ((guardAfter C R hash calls).bucket i).Ok C now := by
  induction calls using List.reverseRecOn generalizing now with
  | nil =>
    have hfull : (guardAfter C R hash []).bucket i = ⟨0, C⟩ := by
      simp only [guardAfter, after, new, bucket, unpack_pack (show 0 < 2 ^ 32 by decide) hC]
    rw [hfull]
    exact ⟨le_rfl, Nat.zero_le _⟩
  | append_singleton past c ih =>
    have hlast : c.now ≤ now := hnow c (List.mem_append_right _ (List.mem_singleton_self c))
    by_cases hi : hash c.identity % shards = i
    · have hok := ih h.append_left h.le_last
      rw [bucket_concat_self hC h hi hok]
      exact (hok.take R).mono hlast
    · rw [bucket_concat_of_ne hC hi]
      exact ih h.append_left fun d hd => (h.le_last d hd).trans hlast

/-- The run with its answers. -/
def guardRun (C R : ℕ) (hash : String → ℕ) (calls : List Acquire) : List (Acquire × Bool) :=
  answered serve (new C R hash) calls

theorem granted_concat (i : ℕ) (I : ℕ → Prop) [DecidablePred I] (run : List (Acquire × Bool)) (c : Acquire)
    (ok : Bool) :
    granted hash i I (run ++ [(c, ok)]) =
      granted hash i I run + if hash c.identity % shards = i ∧ ok = true ∧ I c.now then 1 else 0 := by
  rw [granted, List.countP_append, List.countP_singleton]
  simp [granted]

theorem guardRun_concat (past : List Acquire) (c : Acquire) :
    guardRun C R hash (past ++ [c]) = guardRun C R hash past ++ [(c, ((guardAfter C R hash past).serve c).1)] :=
  answered_concat ..

/-- Before the first call at `s` nothing is granted since `s`. -/
theorem granted_eq_zero {i s : ℕ} (h : ∀ c ∈ calls, c.now < s) :
    granted hash i (fun t => s ≤ t) (guardRun C R hash calls) = 0 := by
  rw [granted, List.countP_eq_zero]
  intro e he
  have := h e.1 (mem_of_mem_answered he)
  simp only [decide_eq_true_eq, not_and]
  omega

/-- What a shard granted since `s`, with what is available now, comes to no more than its capacity
and the refill of the time between. -/
theorem within_guardAfter (hC : C < 2 ^ 32) (h : Timely calls) (i : ℕ) {s now : ℕ} (hs : s ≤ now)
    (hnow : ∀ c ∈ calls, c.now ≤ now) :
    Bucket.Within C R s now (granted hash i (fun t => s ≤ t) (guardRun C R hash calls))
      ((guardAfter C R hash calls).bucket i) := by
  induction calls using List.reverseRecOn generalizing now with
  | nil => exact Bucket.Within.start (ok_guardAfter hC h i hnow)
  | append_singleton past c ih =>
    have hlast : c.now ≤ now := hnow c (List.mem_append_right _ (List.mem_singleton_self c))
    by_cases hc : s ≤ c.now
    · have hbefore := ih h.append_left hc h.le_last
      have hok : ((guardAfter C R hash past).bucket i).Ok C c.now := ok_guardAfter hC h.append_left i h.le_last
      rw [guardRun_concat, granted_concat]
      by_cases hi : hash c.identity % shards = i
      · have hgrant : ((guardAfter C R hash past).serve c).1 =
            (((guardAfter C R hash past).bucket i).take C R c.now).1 := by
          rw [serve, tryAcquireAt_fst (built_guardAfter hC past) hC, shard_guardAfter hC, hi]
        rw [bucket_concat_self hC h hi hok, hgrant]
        simp only [hi, hc, true_and, and_true]
        exact (hbefore.take hok).mono (hok.take R) hc hlast
      · rw [bucket_concat_of_ne hC hi, if_neg (fun h => hi h.1)]
        exact hbefore.mono hok hc hlast
    · -- nothing was granted since `s` yet
      have hall : ∀ d ∈ past ++ [c], d.now < s := by
        intro d hd
        rcases List.mem_append.mp hd with hd | hd
        · have := h.le_last d hd
          omega
        · rw [List.mem_singleton.mp hd]
          omega
      rw [granted_eq_zero hall]
      exact Bucket.Within.start (ok_guardAfter hC h i hnow)

/-- **The grants of a shard in an interval.** -/
theorem granted_le (hC : C < 2 ^ 32) (h : Timely calls) (i s t : ℕ) :
    granted hash i (fun u => s ≤ u ∧ u ≤ t) (guardRun C R hash calls) ≤ C + R * (t - s) := by
  induction calls using List.reverseRecOn with
  | nil => exact Nat.zero_le _
  | append_singleton past c ih =>
    by_cases hc : c.now ≤ t
    · by_cases hs : s ≤ t
      · have hle : ∀ d ∈ past ++ [c], d.now ≤ t := by
          intro d hd
          rcases List.mem_append.mp hd with hd | hd
          · exact (h.le_last d hd).trans hc
          · rw [List.mem_singleton.mp hd]
            exact hc
        have hwithin : Bucket.Within C R s t _ ((guardAfter C R hash (past ++ [c])).bucket i) :=
          within_guardAfter hC h i hs hle
        have hcount : granted hash i (fun u => s ≤ u ∧ u ≤ t) (guardRun C R hash (past ++ [c])) ≤
            granted hash i (fun u => s ≤ u) (guardRun C R hash (past ++ [c])) := by
          refine List.countP_mono_left fun e _ he => ?_
          simp only [decide_eq_true_eq] at he ⊢
          exact ⟨he.1, he.2.1, he.2.2.1⟩
        unfold Bucket.Within at hwithin
        rw [Nat.mul_comm R]
        omega
      · have hzero : granted hash i (fun u => s ≤ u ∧ u ≤ t) (guardRun C R hash (past ++ [c])) = 0 := by
          rw [granted, List.countP_eq_zero]
          intro e _
          simp only [decide_eq_true_eq, not_and]
          omega
        omega
    · rw [guardRun_concat, granted_concat, if_neg (fun h => hc h.2.2.2)]
      exact ih h.append_left

/-- A shard that two identities share is behind the shard that one of them has for itself. -/
theorem behind_guardAfter (hC : C < 2 ^ 32) (h : Timely calls) (i : ℕ) (other : String) {now : ℕ}
    (hnow : ∀ c ∈ calls, c.now ≤ now) :
    Bucket.Behind C R now ((guardAfter C R hash calls).bucket i)
      ((guardAfter C R hash (calls.filter fun c => c.identity ≠ other)).bucket i) := by
  induction calls using List.reverseRecOn generalizing now with
  | nil => exact le_rfl
  | append_singleton past c ih =>
    have hlast : c.now ≤ now := hnow c (List.mem_append_right _ (List.mem_singleton_self c))
    have hsub : List.Sublist ((past ++ [c]).filter fun d => d.identity ≠ other) (past ++ [c]) := List.filter_sublist
    have hbehind := ih h.append_left h.le_last
    have hok : ((guardAfter C R hash past).bucket i).Ok C c.now := ok_guardAfter hC h.append_left i h.le_last
    have hok' : ((guardAfter C R hash (past.filter fun d => d.identity ≠ other)).bucket i).Ok C c.now :=
      ok_guardAfter hC (h.append_left.sublist List.filter_sublist) i
        fun d hd => h.le_last d (List.mem_filter.mp hd).1
    by_cases hc : c.identity = other
    · have hdrop : (past ++ [c]).filter (fun d => d.identity ≠ other) = past.filter fun d => d.identity ≠ other := by
        simp [hc]
      rw [hdrop]
      by_cases hi : hash c.identity % shards = i
      · rw [bucket_concat_self hC h hi hok]
        exact (hbehind.take_left hok).mono (hok.take R) hok' hlast
      · rw [bucket_concat_of_ne hC hi]
        exact hbehind.mono hok hok' hlast
    · have hkeep : (past ++ [c]).filter (fun d => d.identity ≠ other) =
          (past.filter fun d => d.identity ≠ other) ++ [c] := by
        simp [hc]
      rw [hkeep] at hsub ⊢
      by_cases hi : hash c.identity % shards = i
      · rw [bucket_concat_self hC h hi hok, bucket_concat_self hC (h.sublist hsub) hi hok']
        exact (hbehind.take_both hok hok').mono (hok.take R) (hok'.take R) hlast
      · rw [bucket_concat_of_ne hC hi, bucket_concat_of_ne hC hi]
        exact hbehind.mono hok hok' hlast

/-- What the spike guard promises of a run. -/
structure Guards (C R : ℕ) (hash : String → ℕ) (calls : List Acquire) : Prop where
  /-- The tokens stored never exceed the capacity. -/
  capacity : ∀ i, (unpack ((guardAfter C R hash calls).buckets i)).2 ≤ C
  /-- The credit fits a `u64`, whenever it is computed. -/
  fits : ∀ i now, now < 2 ^ 32 →
    (guardAfter C R hash calls).refilled (unpack ((guardAfter C R hash calls).buckets i)).2
      (now - (unpack ((guardAfter C R hash calls).buckets i)).1) < 2 ^ 64
  /-- And the word a `u64`: it is made of two `u32`. -/
  word : ∀ i, ∃ last tokens, last < 2 ^ 32 ∧ tokens < 2 ^ 32 ∧ (guardAfter C R hash calls).buckets i = pack last tokens
  /-- The grants of a shard at seconds in `[s, t]`. -/
  bounded : ∀ i s t, granted hash i (fun u => s ≤ u ∧ u ≤ t) (guardRun C R hash calls) ≤ C + R * (t - s)
  /-- Who shares a shard with another is granted nothing that it is not granted alone. -/
  shared : ∀ first second, first ≠ second → hash first % shards = hash second % shards →
    ∀ past t rest, calls = past ++ ⟨first, t⟩ :: rest →
      ((guardAfter C R hash past).tryAcquireAt first t).1 = true →
      ((guardAfter C R hash (past.filter fun c => c.identity ≠ second)).tryAcquireAt first t).1 = true

/-- The word of a bucket is made of two `u32`. -/
theorem word_guardAfter (hC : C < 2 ^ 32) (h : Timely calls) (i : ℕ) :
    ∃ last tokens, last < 2 ^ 32 ∧ tokens < 2 ^ 32 ∧ (guardAfter C R hash calls).buckets i = pack last tokens := by
  induction calls using List.reverseRecOn with
  | nil => exact ⟨0, C, by decide, hC, rfl⟩
  | append_singleton past c ih =>
    have hok : ((guardAfter C R hash past).bucket ((guardAfter C R hash past).shard c.identity)).Ok C c.now :=
      ok_guardAfter hC h.append_left _ h.le_last
    have hcap := Bucket.avail_le (R := R) hok
    have hlast := hok.last
    have hnow := h.fits_last
    rw [guardAfter_concat, serve, tryAcquireAt_eq (built_guardAfter hC past) hC]
    split_ifs with hempty
    · exact ih h.append_left
    · by_cases hi : i = (guardAfter C R hash past).shard c.identity
      · subst hi
        exact ⟨_, _, by omega, by omega, Function.update_self ..⟩
      · simp only [Function.update_of_ne hi]
        exact ih h.append_left

/-- **The spike guard is a token bucket, and sharing only tightens it.** -/
theorem spike_guard_is_token_bucket (hC : 1 ≤ C ∧ C < 2 ^ 32) (hR : 1 ≤ R ∧ R < 2 ^ 32) (h : Timely calls) :
    Guards C R hash calls where
  capacity i := by
    have hok : ((guardAfter C R hash calls).bucket i).Ok C (2 ^ 32) :=
      ok_guardAfter hC.2 h i fun c hc => (h.fits c hc).le
    exact hok.tokens
  fits i now hnow := by
    have htokens : (unpack ((guardAfter C R hash calls).buckets i)).2 < 2 ^ 32 := Nat.mod_lt _ (by decide)
    have hmul : (now - (unpack ((guardAfter C R hash calls).buckets i)).1) * R ≤ (2 ^ 32 - 1) * (2 ^ 32 - 1) :=
      Nat.mul_le_mul (by omega) (by omega)
    rw [refilled, (built_guardAfter hC.2 calls).refill]
    omega
  word := word_guardAfter hC.2 h
  bounded := granted_le hC.2 h
  shared := by
    rintro first second - - past t rest rfl hgrant
    have hpast : Timely (past ++ [⟨first, t⟩]) :=
      h.sublist (List.Sublist.append (List.Sublist.refl _) (List.singleton_sublist.mpr (List.mem_cons_self ..)))
    rw [tryAcquireAt_fst (built_guardAfter hC.2 _) hC.2, shard_guardAfter hC.2] at hgrant ⊢
    exact Bucket.Behind.take_fst (behind_guardAfter hC.2 hpast.append_left _ second hpast.le_last) hgrant

end

/-- A bucket of one token that is credited one token a second. -/
theorem spike_guard_is_token_bucket_single :
    Guards 1 1 (fun _ => 0) [⟨"a", 0⟩, ⟨"b", 0⟩, ⟨"a", 1⟩] ∧
      (guardRun 1 1 (fun _ => 0) [⟨"a", 0⟩, ⟨"b", 0⟩, ⟨"a", 1⟩]).map Prod.snd = [true, false, true] :=
  ⟨spike_guard_is_token_bucket (by decide) (by decide) ⟨by decide, by decide⟩, by decide +kernel⟩

end SpikeGuard

end G2way.Middleware.Spike
