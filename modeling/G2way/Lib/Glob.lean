import G2way.Lib.Text
import Mathlib.Data.List.Infix

/-!
# Glob patterns

The patterns with which a key-value server selects keys: `*` is any string, `?` any
byte, `[a-c]` a byte of the class and `[^a-c]` one that is not in it, and a backslash
takes the byte behind it as it is. A pattern is read into tokens, and matching tries
every way to divide the string. Both work on bytes.

A literal is matched by itself only, so a pattern of literals with a `*` behind them
matches the strings they are a prefix of (`accepts_literals_star`).
-/

namespace G2way.Lib.Glob

/-- One piece of a pattern. -/
inductive Token where
  /-- Any string. -/
  | star
  /-- Any byte. -/
  | any
  /-- A byte of these ranges, or one of no range. -/
  | oneOf (negated : Bool) (ranges : List (UInt8 × UInt8))
  /-- This byte. -/
  | literal (b : UInt8)
  deriving DecidableEq, Repr

/-- The bytes with a meaning: `*`, `?`, `[`, `]` and the backslash. -/
def isSpecial (b : UInt8) : Bool := b = 42 || b = 63 || b = 91 || b = 93 || b = 92

/-- The tokens of a pattern; in a class, what was read of it. A class that is not closed ends with
the pattern. -/
def tokens : Option (Bool × List (UInt8 × UInt8)) → List UInt8 → List Token
  | none, [] => []
  | some (negated, ranges), [] => [.oneOf negated ranges]
  | none, [b] => if b = 42 then [.star] else if b = 63 then [.any] else if b = 91 then [.oneOf false []] else [.literal b]
  | none, b :: c :: rest =>
    if b = 42 then .star :: tokens none (c :: rest)
    else if b = 63 then .any :: tokens none (c :: rest)
    else if b = 92 then .literal c :: tokens none rest
    else if b = 91 then
      if c = 94 then tokens (some (true, [])) rest else tokens (some (false, [])) (c :: rest)
    else .literal b :: tokens none (c :: rest)
  | some (negated, ranges), [b] =>
    if b = 93 then [.oneOf negated ranges] else [.oneOf negated (ranges ++ [(b, b)])]
  | some (negated, ranges), [b, c] =>
    if b = 92 then tokens (some (negated, ranges ++ [(c, c)])) []
    else if b = 93 then .oneOf negated ranges :: tokens none [c]
    else tokens (some (negated, ranges ++ [(b, b)])) [c]
  | some (negated, ranges), b :: c :: d :: rest =>
    if b = 92 then tokens (some (negated, ranges ++ [(c, c)])) (d :: rest)
    else if b = 93 then .oneOf negated ranges :: tokens none (c :: d :: rest)
    else if c = 45 then tokens (some (negated, ranges ++ [(min b d, max b d)])) rest
    else tokens (some (negated, ranges ++ [(b, b)])) (c :: d :: rest)

/-- Whether a string matches. -/
def accepts : List Token → List UInt8 → Bool
  | [], s => s.isEmpty
  | .star :: ts, s => s.tails.any (accepts ts)
  | .any :: ts, _ :: s => accepts ts s
  | .oneOf negated ranges :: ts, b :: s =>
    ((ranges.any fun r => r.1 ≤ b && b ≤ r.2) != negated) && accepts ts s
  | .literal c :: ts, b :: s => c == b && accepts ts s
  | _ :: _, [] => false

/-- Whether a string matches a pattern. -/
def globMatch (pattern s : List UInt8) : Bool := accepts (tokens none pattern) s

example : globMatch (Text.utf8 "g2:[a-c]?\\*:*") (Text.utf8 "g2:bx*:1") = true := by decide
example : globMatch (Text.utf8 "g2:[^a-c]*") (Text.utf8 "g2:b") = false := by decide

/-- A byte without a meaning is a literal. -/
theorem tokens_cons {b : UInt8} (h : isSpecial b = false) (rest : List UInt8) :
    tokens none (b :: rest) = .literal b :: tokens none rest := by
  simp only [isSpecial, Bool.or_eq_false_iff, decide_eq_false_iff_not] at h
  obtain ⟨⟨⟨⟨h42, h63⟩, h91⟩, -⟩, h92⟩ := h
  cases rest with
  | nil => simp [tokens, h42, h63, h91]
  | cons c rest => simp [tokens, h42, h63, h91, h92]

/-- The byte behind a backslash is a literal. -/
theorem tokens_escaped (b : UInt8) (rest : List UInt8) :
    tokens none (92 :: b :: rest) = .literal b :: tokens none rest := by simp [tokens]

theorem tokens_append {bs : List UInt8} (h : ∀ b ∈ bs, isSpecial b = false) (rest : List UInt8) :
    tokens none (bs ++ rest) = bs.map .literal ++ tokens none rest := by
  induction bs with
  | nil => rfl
  | cons b bs ih =>
    rw [List.cons_append, tokens_cons (h b (List.mem_cons_self ..)), ih fun b hb => h b (List.mem_cons_of_mem _ hb)]
    rfl

/-- **Literals with a `*` behind them match what they are a prefix of.** -/
theorem accepts_literals_star (bs s : List UInt8) :
    accepts (bs.map .literal ++ [.star]) s = true ↔ bs <+: s := by
  induction bs generalizing s with
  | nil =>
    have hend : [] ∈ s.tails := (List.mem_tails _ _).mpr List.nil_suffix
    simp only [List.map_nil, List.nil_append, accepts, List.any_eq_true, List.nil_prefix, iff_true]
    exact ⟨[], hend, rfl⟩
  | cons b bs ih =>
    cases s with
    | nil => simp [accepts]
    | cons c s => simp [accepts, ih, List.cons_prefix_cons]

end G2way.Lib.Glob
