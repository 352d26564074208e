import Mathlib.Algebra.Order.Group.Nat
import Mathlib.Tactic.SplitIfs

/-!
# Token buckets

A bucket of capacity `C` holds some tokens, and is credited with `R` tokens for each
unit of time since it was last credited. A call takes a token if one is available. The
credit is only written down when a token is taken, so what matters of a bucket is what
is available at a time: `avail`.

Two facts about a run follow from how `avail` changes. What was taken since `s` and
what is available at `t` come to no more than `C + R * (t - s)`: time adds to the second
what it allows, and taking moves a token from the second to the first. And a bucket that
others take from is never ahead of one they do not take from (`Behind`).
-/

namespace G2way.Lib

/-- A token bucket. -/
structure Bucket where
  /-- When credit was last written down. -/
  last : ℕ
  /-- The tokens there were then. -/
  tokens : ℕ
  deriving DecidableEq, Repr

namespace Bucket

variable (C R : ℕ)

/-- The tokens available at a time. -/
def avail (b : Bucket) (now : ℕ) : ℕ := if b.last < now then min (b.tokens + (now - b.last) * R) C else b.tokens

/-- Take a token, if one is available. -/
def take (b : Bucket) (now : ℕ) : Bool × Bucket :=
  if b.avail C R now = 0 then (false, b) else (true, ⟨max b.last now, b.avail C R now - 1⟩)

/-- The bucket is not over its capacity, and not ahead of the time. -/
structure Ok (now : ℕ) (b : Bucket) : Prop where
  /-- Within capacity. -/
  tokens : b.tokens ≤ C
  /-- Not ahead. -/
  last : b.last ≤ now

variable {C R : ℕ} {b b' : Bucket} {now later : ℕ}

theorem Ok.mono (h : b.Ok C now) (hle : now ≤ later) : b.Ok C later := ⟨h.tokens, h.last.trans hle⟩

theorem avail_eq (h : b.Ok C now) : b.avail C R now = min (b.tokens + (now - b.last) * R) C := by
  unfold avail
  split_ifs with hlt
  · rfl
  · have := h.tokens
    rw [Nat.sub_eq_zero_of_le (not_lt.mp hlt), Nat.zero_mul, Nat.add_zero]
    omega

theorem avail_le (h : b.Ok C now) : b.avail C R now ≤ C := by
  rw [avail_eq h]
  exact Nat.min_le_right ..

/-- Time adds to what is available, up to the capacity. -/
theorem avail_later (h : b.Ok C now) (hle : now ≤ later) :
    b.avail C R later = min (b.avail C R now + (later - now) * R) C := by
  rw [avail_eq (h.mono hle), avail_eq h]
  have hlast := h.last
  have hsplit : (later - b.last) * R = (now - b.last) * R + (later - now) * R := by
    rw [← Nat.add_mul]
    congr 1
    omega
  rw [hsplit]
  omega

theorem take_of_empty (h : b.avail C R now = 0) : b.take C R now = (false, b) := if_pos h

theorem take_of_avail (h : b.avail C R now ≠ 0) (hok : b.Ok C now) :
    b.take C R now = (true, ⟨now, b.avail C R now - 1⟩) := by
  rw [take, if_neg h, Nat.max_eq_right hok.last]

/-- Taking keeps a bucket within its capacity. -/
theorem Ok.take (h : b.Ok C now) (R : ℕ) : (b.take C R now).2.Ok C now := by
  by_cases hempty : b.avail C R now = 0
  · rwa [take_of_empty hempty]
  · have := avail_le (R := R) h
    rw [take_of_avail hempty h]
    exact ⟨by simp only; omega, le_rfl⟩

/-- What is available after a token was taken. -/
theorem avail_take (h : b.Ok C now) (hne : b.avail C R now ≠ 0) (hle : now ≤ later) :
    (b.take C R now).2.avail C R later = min (b.avail C R now - 1 + (later - now) * R) C := by
  have hok := h.take R
  rw [avail_later hok hle, avail_eq hok, take_of_avail hne h]
  have := avail_le (R := R) h
  simp only [Nat.sub_self, Nat.zero_mul, Nat.add_zero]
  omega

/-! ### Sharing a bucket -/

/-- From `now` on, `b` never has more available than `b'`. -/
def Behind (C R now : ℕ) (b b' : Bucket) : Prop := b.avail C R now ≤ b'.avail C R now

/-- Time does not let the one that is behind catch up. -/
theorem Behind.mono (h : Behind C R now b b') (hb : b.Ok C now) (hb' : b'.Ok C now) (hle : now ≤ later) :
    Behind C R later b b' := by
  unfold Behind at h ⊢
  rw [avail_later hb hle, avail_later hb' hle]
  omega

/-- The one that is behind takes no token that the other does not. -/
theorem Behind.take_fst (h : Behind C R now b b') (hgrant : (b.take C R now).1 = true) :
    (b'.take C R now).1 = true := by
  unfold Behind at h
  by_cases hempty : b.avail C R now = 0
  · rw [take_of_empty hempty] at hgrant
    cases hgrant
  · rw [take, if_neg (by omega)]

/-- It stays behind when both take, -/
theorem Behind.take_both (h : Behind C R now b b') (hb : b.Ok C now) (hb' : b'.Ok C now) :
    Behind C R now (b.take C R now).2 (b'.take C R now).2 := by
  unfold Behind at h ⊢
  have hcap := avail_le (R := R) hb
  have hcap' := avail_le (R := R) hb'
  by_cases hempty : b.avail C R now = 0
  · rw [take_of_empty hempty, hempty]
    exact Nat.zero_le _
  · rw [avail_take hb hempty le_rfl, avail_take hb' (by omega) le_rfl]
    omega

/-- and when only it takes. -/
theorem Behind.take_left (h : Behind C R now b b') (hb : b.Ok C now) :
    Behind C R now (b.take C R now).2 b' := by
  unfold Behind at h ⊢
  have hcap := avail_le (R := R) hb
  by_cases hempty : b.avail C R now = 0
  · rwa [take_of_empty hempty]
  · rw [avail_take hb hempty le_rfl, Nat.sub_self, Nat.zero_mul]
    omega

/-! ### How many tokens are taken -/

/-- What was taken since `s` and what is available now. -/
def Within (C R s now taken : ℕ) (b : Bucket) : Prop := taken + b.avail C R now ≤ C + (now - s) * R

variable {s taken : ℕ}

theorem Within.start (h : b.Ok C now) : Within C R s now 0 b := by
  have := avail_le (R := R) h
  unfold Within
  omega

/-- Time adds to what is available no more than it allows. -/
theorem Within.mono (h : Within C R s now taken b) (hok : b.Ok C now) (hs : s ≤ now) (hle : now ≤ later) :
    Within C R s later taken b := by
  unfold Within at h ⊢
  have hsplit : (later - s) * R = (now - s) * R + (later - now) * R := by
    rw [← Nat.add_mul]
    congr 1
    omega
  rw [avail_later hok hle, hsplit]
  omega

/-- Taking moves a token from one to the other. -/
theorem Within.take (h : Within C R s now taken b) (hok : b.Ok C now) :
    Within C R s now (taken + if (b.take C R now).1 = true then 1 else 0) (b.take C R now).2 := by
  unfold Within at h ⊢
  by_cases hempty : b.avail C R now = 0
  · rw [take_of_empty hempty, if_neg Bool.false_ne_true]
    exact h
  · rw [avail_take hok hempty le_rfl, take_of_avail hempty hok, if_pos rfl, Nat.sub_self, Nat.zero_mul]
    omega

end Bucket

end G2way.Lib
