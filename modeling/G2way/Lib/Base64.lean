import Mathlib.Data.List.Basic
import Mathlib.Tactic.Common

/-!
# Base64

The standard alphabet with padding (RFC 4648 §4). Three bytes are four digits of
six bits; a last group of one or two bytes is padded with `=`. The decoder is
strict: the padding must be there, and the bits it stands for must be zero.

`decode_encode`: what was encoded is read back, whatever the bytes are.
-/

namespace G2way.Lib.Base64

/-! ### Digits -/

/-- The digit for six bits. -/
def digit (n : ℕ) : Char :=
  if n < 26 then Char.ofNat (65 + n)
  else if n < 52 then Char.ofNat (71 + n)
  else if n < 62 then Char.ofNat (n - 4)
  else if n = 62 then '+' else '/'

/-- The six bits of a digit. -/
def value (c : Char) : Option ℕ :=
  if 65 ≤ c.toNat ∧ c.toNat ≤ 90 then some (c.toNat - 65)
  else if 97 ≤ c.toNat ∧ c.toNat ≤ 122 then some (c.toNat - 71)
  else if 48 ≤ c.toNat ∧ c.toNat ≤ 57 then some (c.toNat + 4)
  else if c = '+' then some 62
  else if c = '/' then some 63
  else none

theorem value_digit : ∀ n < 64, value (digit n) = some n := by decide

theorem value_pad : value '=' = none := by decide

theorem digit_ne_pad {n : ℕ} (h : n < 64) : digit n ≠ '=' := by
  intro heq
  have hvalue := value_digit n h
  rw [heq, value_pad] at hvalue
  cases hvalue

/-! ### Groups -/

/-- The digits of bytes, four for each three. -/
def encodeBytes : List UInt8 → List Char
  | [] => []
  | [a] => [digit (a.toNat / 4), digit (a.toNat % 4 * 16), '=', '=']
  | [a, b] => [digit (a.toNat / 4), digit (a.toNat % 4 * 16 + b.toNat / 16), digit (b.toNat % 16 * 4), '=']
  | a :: b :: c :: rest =>
    digit (a.toNat / 4) :: digit (a.toNat % 4 * 16 + b.toNat / 16) ::
      digit (b.toNat % 16 * 4 + c.toNat / 64) :: digit (c.toNat % 64) :: encodeBytes rest

/-- The bytes of a group that ends in a pad. -/
def decodePadded (w x y : Char) : Option (List UInt8) := do
  let w ← value w
  let x ← value x
  if y = '=' then
    if x % 16 = 0 then some [UInt8.ofNat (w * 4 + x / 16)] else none
  else do
    let y ← value y
    if y % 4 = 0 then some [UInt8.ofNat (w * 4 + x / 16), UInt8.ofNat (x % 16 * 16 + y / 4)] else none

/-- The bytes of digits, three for each four. -/
def decodeChars : List Char → Option (List UInt8)
  | [] => some []
  | w :: x :: y :: z :: rest =>
    if z = '=' then
      if rest = [] then decodePadded w x y else none
    else do
      let w ← value w
      let x ← value x
      let y ← value y
      let z ← value z
      let bytes ← decodeChars rest
      return UInt8.ofNat (w * 4 + x / 16) :: UInt8.ofNat (x % 16 * 16 + y / 4) ::
        UInt8.ofNat (y % 4 * 64 + z) :: bytes
  | _ => none

/-- The text of bytes. -/
def encode (bytes : List UInt8) : String := String.ofList (encodeBytes bytes)

/-- The bytes of a text, if it is one. -/
def decode (text : String) : Option (List UInt8) := decodeChars text.toList

example : encode [77, 97, 110, 255] = "TWFu/w==" := by decide

/-! ### What is read -/

theorem value_eq_some {c : Char} {n : ℕ} (h : value c = some n) : 43 ≤ c.toNat ∧ c.toNat < 128 := by
  unfold value at h
  split_ifs at h with hupper hlower hdigit hplus hslash
  · omega
  · omega
  · omega
  · exact hplus ▸ by decide
  · exact hslash ▸ by decide

/-- A text that is read has only digits and pads in it. -/
theorem mem_of_decodeChars {l : List Char} {bytes : List UInt8} (h : decodeChars l = some bytes) :
    ∀ c ∈ l, 43 ≤ c.toNat ∧ c.toNat < 128 := by
  have hpad : 43 ≤ '='.toNat ∧ '='.toNat < 128 := by decide
  induction l using decodeChars.induct generalizing bytes with
  | case1 => simp
  | case2 w x y =>
    simp only [decodeChars, decodePadded, if_true, Option.bind_eq_bind, Option.bind_eq_some_iff] at h
    obtain ⟨w', hw, x', hx, h⟩ := h
    have hy : 43 ≤ y.toNat ∧ y.toNat < 128 := by
      split_ifs at h with hpad'
      · exact hpad' ▸ hpad
      · obtain ⟨y', hy, -⟩ := Option.bind_eq_some_iff.1 h
        exact value_eq_some hy
    simp only [List.forall_mem_cons, List.not_mem_nil, false_imp_iff, implies_true, and_true]
    exact ⟨value_eq_some hw, value_eq_some hx, hy, hpad⟩
  | case3 w x y rest hrest =>
    simp [decodeChars, hrest] at h
  | case4 w x y z rest hz ih =>
    simp only [decodeChars, if_neg hz, Option.bind_eq_bind, Option.bind_eq_some_iff] at h
    obtain ⟨w', hw, x', hx, y', hy, z', hz', bytes', hbytes, -⟩ := h
    simp only [List.forall_mem_cons]
    exact ⟨value_eq_some hw, value_eq_some hx, value_eq_some hy, value_eq_some hz', ih hbytes⟩
  | case5 l hnil hcons =>
    rw [decodeChars.eq_3 l hnil hcons] at h
    cases h

/-! ### Reading back -/

/-- A byte is what its number says. -/
theorem ofNat_eq {n : ℕ} {a : UInt8} (h : n = a.toNat) : UInt8.ofNat n = a := by
  rw [h, UInt8.ofNat_toNat]

theorem decodeChars_encodeBytes (bytes : List UInt8) : decodeChars (encodeBytes bytes) = some bytes := by
  induction bytes using encodeBytes.induct with
  | case1 => rfl
  | case2 a =>
    have ha := a.toNat_lt
    have hw := value_digit (a.toNat / 4) (by omega)
    have hx := value_digit (a.toNat % 4 * 16) (by omega)
    have hfirst := ofNat_eq (show a.toNat / 4 * 4 + a.toNat % 4 * 16 / 16 = a.toNat by omega)
    have hzero : a.toNat % 4 * 16 % 16 = 0 := by omega
    simp only [encodeBytes, decodeChars, decodePadded, hw, hx, hfirst, hzero, if_true, Option.bind_eq_bind,
      Option.bind_some]
  | case3 a b =>
    have ha := a.toNat_lt
    have hb := b.toNat_lt
    have hw := value_digit (a.toNat / 4) (by omega)
    have hx := value_digit (a.toNat % 4 * 16 + b.toNat / 16) (by omega)
    have hy := value_digit (b.toNat % 16 * 4) (by omega)
    have hpad := digit_ne_pad (n := b.toNat % 16 * 4) (by omega)
    have hfirst := ofNat_eq
      (show a.toNat / 4 * 4 + (a.toNat % 4 * 16 + b.toNat / 16) / 16 = a.toNat by omega)
    have hsecond := ofNat_eq
      (show (a.toNat % 4 * 16 + b.toNat / 16) % 16 * 16 + b.toNat % 16 * 4 / 4 = b.toNat by omega)
    have hzero : b.toNat % 16 * 4 % 4 = 0 := by omega
    simp only [encodeBytes, decodeChars, decodePadded, hw, hx, hy, hpad, hfirst, hsecond, hzero, if_true, if_false,
      Option.bind_eq_bind, Option.bind_some]
  | case4 a b c rest ih =>
    have ha := a.toNat_lt
    have hb := b.toNat_lt
    have hc := c.toNat_lt
    have hw := value_digit (a.toNat / 4) (by omega)
    have hx := value_digit (a.toNat % 4 * 16 + b.toNat / 16) (by omega)
    have hy := value_digit (b.toNat % 16 * 4 + c.toNat / 64) (by omega)
    have hz := value_digit (c.toNat % 64) (by omega)
    have hpad := digit_ne_pad (n := c.toNat % 64) (by omega)
    have hfirst := ofNat_eq
      (show a.toNat / 4 * 4 + (a.toNat % 4 * 16 + b.toNat / 16) / 16 = a.toNat by omega)
    have hsecond := ofNat_eq
      (show (a.toNat % 4 * 16 + b.toNat / 16) % 16 * 16 + (b.toNat % 16 * 4 + c.toNat / 64) / 4 = b.toNat by
        omega)
    have hthird := ofNat_eq
      (show (b.toNat % 16 * 4 + c.toNat / 64) % 4 * 64 + c.toNat % 64 = c.toNat by omega)
    simp only [encodeBytes, decodeChars, hw, hx, hy, hz, hpad, hfirst, hsecond, hthird, ih, if_false,
      Option.bind_eq_bind, Option.bind_some, Option.pure_def]

/-- What was encoded is read back. -/
theorem decode_encode (bytes : List UInt8) : decode (encode bytes) = some bytes := by
  unfold decode encode
  rw [String.toList_ofList]
  exact decodeChars_encodeBytes bytes

end G2way.Lib.Base64
