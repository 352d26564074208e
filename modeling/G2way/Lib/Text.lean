import Mathlib.Algebra.Group.Nat.Defs
import Mathlib.Data.List.Basic
import Mathlib.Data.List.DropRight
import Mathlib.Data.List.Infix
import Mathlib.Data.List.TakeWhile

/-!
# Text

Operations on strings as a systems language's standard library has them: trimming,
splitting at a character, stripping a prefix, comparing without ASCII case, and
decoding bytes as UTF-8. A string is taken apart as its list of characters, so
that each operation computes, and facts about it are facts about lists.

The second half is about texts joined with a separator: what an unescaped join
determines, and what it does not.
-/

namespace G2way.Lib.Text

/-! ### Trimming -/

/-- Unicode's `White_Space` property. -/
def isWhitespace (c : Char) : Bool :=
  let n := c.toNat
  (0x09 ≤ n && n ≤ 0x0D) || n == 0x20 || n == 0x85 || n == 0xA0 || n == 0x1680 ||
    (0x2000 ≤ n && n ≤ 0x200A) || n == 0x2028 || n == 0x2029 || n == 0x202F || n == 0x205F || n == 0x3000

/-- The text without its leading whitespace. -/
def trimStart (s : String) : String := String.ofList (s.toList.dropWhile isWhitespace)

/-- The text without its trailing whitespace. -/
def trimEnd (s : String) : String := String.ofList (s.toList.reverse.dropWhile isWhitespace).reverse

/-- The text without leading and trailing whitespace. -/
def trim (s : String) : String := trimEnd (trimStart s)

/-- The text without its trailing occurrences of `c`. -/
def trimEndMatches (c : Char) (s : String) : String := String.ofList (s.toList.reverse.dropWhile (· = c)).reverse

/-! ### Splitting -/

/-- The pieces of the text between occurrences of `c`; at least one. -/
def split (c : Char) (s : String) : List String := (s.toList.splitOn c).map String.ofList

/-- The text before the first `c`, and the text after it. -/
def splitOnce (c : Char) (s : String) : Option (String × String) :=
  match s.toList.dropWhile (· != c) with
  | [] => none
  | _ :: after => some (String.ofList (s.toList.takeWhile (· != c)), String.ofList after)

/-- The words of the text: its pieces between runs of whitespace. -/
def splitWhitespace (s : String) : List String :=
  ((s.toList.splitOnP isWhitespace).filter (· ≠ [])).map String.ofList

/-- The text begins with `p`. -/
def startsWith (p s : String) : Bool := p.toList.isPrefixOf s.toList

/-- The text after `p`, if it begins with `p`. -/
def stripPrefix (p s : String) : Option String :=
  if p.toList <+: s.toList then some (String.ofList (s.toList.drop p.toList.length)) else none

/-- The first `n` characters and the rest, if there are that many. On ASCII text this is a
split at a byte. -/
def splitAtChecked (n : ℕ) (s : String) : Option (String × String) :=
  if n ≤ s.toList.length then some (String.ofList (s.toList.take n), String.ofList (s.toList.drop n))
  else none

/-! ### ASCII case -/

/-- The text with its ASCII capitals lowered. -/
def toAsciiLowercase (s : String) : String := String.ofList (s.toList.map Char.toLower)

/-- The text with its ASCII small letters raised. -/
def toAsciiUppercase (s : String) : String := String.ofList (s.toList.map Char.toUpper)

/-- Equal but for the case of ASCII letters. -/
def eqIgnoreAsciiCase (s t : String) : Bool := s.toList.map Char.toLower == t.toList.map Char.toLower

/-- A number below the surrogates is the code of its character. -/
theorem toNat_ofNat {n : ℕ} (h : n < 0xD800) : (Char.ofNat n).toNat = n := by
  rw [Char.ofNat, dif_pos (Or.inl h)]
  rfl

/-- The code of a character in lower case. -/
theorem toNat_toLower (c : Char) :
    c.toLower.toNat = if 65 ≤ c.toNat ∧ c.toNat ≤ 90 then c.toNat + 32 else c.toNat := by
  by_cases hupper : c.val ≥ 'A'.val ∧ c.val ≤ 'Z'.val
  · have hrange : 65 ≤ c.toNat ∧ c.toNat ≤ 90 :=
      ⟨UInt32.le_iff_toNat_le.1 hupper.1, UInt32.le_iff_toNat_le.1 hupper.2⟩
    have hshift : ('a'.val - 'A'.val).toNat = 32 := by decide
    have hcode : c.val.toNat = c.toNat := rfl
    delta Char.toLower
    rw [dif_pos hupper, if_pos hrange, Char.toNat, UInt32.toNat_add, hshift, hcode]
    omega
  · have hrange : ¬ (65 ≤ c.toNat ∧ c.toNat ≤ 90) := fun h =>
      hupper ⟨UInt32.le_iff_toNat_le.2 h.1, UInt32.le_iff_toNat_le.2 h.2⟩
    delta Char.toLower
    rw [dif_neg hupper, if_neg hrange]

/-- And in upper case. -/
theorem toNat_toUpper (c : Char) :
    c.toUpper.toNat = if 97 ≤ c.toNat ∧ c.toNat ≤ 122 then c.toNat - 32 else c.toNat := by
  by_cases hlower : 'a'.val ≤ c.val ∧ c.val ≤ 'z'.val
  · have hrange : 97 ≤ c.toNat ∧ c.toNat ≤ 122 :=
      ⟨UInt32.le_iff_toNat_le.1 hlower.1, UInt32.le_iff_toNat_le.1 hlower.2⟩
    have hshift : ('A'.val - 'a'.val).toNat = 4294967264 := by decide
    have hcode : c.val.toNat = c.toNat := rfl
    delta Char.toUpper
    rw [dif_pos hlower, if_pos hrange, Char.toNat, UInt32.toNat_add, hshift, hcode]
    omega
  · have hrange : ¬ (97 ≤ c.toNat ∧ c.toNat ≤ 122) := fun h =>
      hlower ⟨UInt32.le_iff_toNat_le.2 h.1, UInt32.le_iff_toNat_le.2 h.2⟩
    delta Char.toUpper
    rw [dif_neg hlower, if_neg hrange]

/-- The codes of letters and digits. -/
theorem toNat_of_isAlphanum {c : Char} (h : c.isAlphanum = true) :
    65 ≤ c.toNat ∧ c.toNat ≤ 90 ∨ 97 ≤ c.toNat ∧ c.toNat ≤ 122 ∨ 48 ≤ c.toNat ∧ c.toNat ≤ 57 := by
  have hunfold : c.isAlphanum = ((decide ('A'.val ≤ c.val ∧ c.val ≤ 'Z'.val) ||
      decide ('a'.val ≤ c.val) && decide (c.val ≤ 'z'.val)) || decide ('0'.val ≤ c.val) && decide (c.val ≤ '9'.val)) := rfl
  rw [hunfold] at h
  simp only [Bool.or_eq_true, Bool.and_eq_true, decide_eq_true_eq, UInt32.le_iff_toNat_le] at h
  rcases h with (h | h) | h
  · exact .inl h
  · exact .inr (.inl h)
  · exact .inr (.inr h)

theorem toLower_toLower (c : Char) : c.toLower.toLower = c.toLower := by
  apply Char.toNat_inj.mp
  simp only [toNat_toLower]
  split_ifs <;> omega

theorem toUpper_toLower (c : Char) : c.toLower.toUpper = c.toUpper := by
  apply Char.toNat_inj.mp
  simp only [toNat_toLower, toNat_toUpper]
  split_ifs <;> omega

/-- Lowering makes only small letters. -/
theorem eq_of_toLower_eq {c x : Char} (hx : x.toNat < 97 ∨ 122 < x.toNat) (h : c.toLower = x) : c = x := by
  apply Char.toNat_inj.mp
  have hcode := toNat_toLower c
  rw [h] at hcode
  split_ifs at hcode <;> omega

/-! ### Bytes -/

/-- The UTF-8 encoding of a text. -/
def utf8 (s : String) : List UInt8 := s.toList.flatMap String.utf8EncodeChar

/-- What is so of the characters it is made of is so of every character of a text. -/
theorem forall_mem_ofList {p : Char → Prop} [DecidablePred p] {l : List Char} (h : l.all (fun ch => p ch) = true) :
    ∀ ch ∈ (String.ofList l).toList, p ch := by
  rw [String.toList_ofList]
  exact fun ch hch => of_decide_eq_true (List.all_eq_true.1 h ch hch)

theorem utf8_ofList (l : List Char) : utf8 (String.ofList l) = l.flatMap String.utf8EncodeChar := by
  rw [utf8, String.toList_ofList]

/-- The text of bytes that are well-formed UTF-8. -/
def fromUtf8 (bytes : List UInt8) : Option String := String.fromUTF8? ⟨bytes.toArray⟩

/-- The value of a hexadecimal digit. -/
def hexDigit (b : UInt8) : Option ℕ :=
  if 48 ≤ b ∧ b ≤ 57 then some (b.toNat - 48)
  else if 97 ≤ b ∧ b ≤ 102 then some (b.toNat - 87)
  else if 65 ≤ b ∧ b ≤ 70 then some (b.toNat - 55)
  else none

/-- What may follow the first byte of a sequence of several: how many bytes, and the range
of the first of them. -/
def continuation (b : UInt8) : Option (ℕ × UInt8 × UInt8) :=
  if 0xC2 ≤ b ∧ b ≤ 0xDF then some (1, 0x80, 0xBF)
  else if b = 0xE0 then some (2, 0xA0, 0xBF)
  else if b = 0xED then some (2, 0x80, 0x9F)
  else if 0xE1 ≤ b ∧ b ≤ 0xEF then some (2, 0x80, 0xBF)
  else if b = 0xF0 then some (3, 0x90, 0xBF)
  else if b = 0xF4 then some (3, 0x80, 0x8F)
  else if 0xF1 ≤ b ∧ b ≤ 0xF3 then some (3, 0x80, 0xBF)
  else none

/-- Takes up to `n` continuation bytes off the front, the first of them between `lo` and
`hi`, adding their payload to `acc`. The flag says whether there were `n`. -/
def takeContinuation : ℕ → UInt8 → UInt8 → ℕ → List UInt8 → Bool × ℕ × List UInt8
  | 0, _, _, acc, bytes => (true, acc, bytes)
  | _ + 1, _, _, acc, [] => (false, acc, [])
  | n + 1, lo, hi, acc, b :: bytes =>
    if lo ≤ b ∧ b ≤ hi then takeContinuation n 0x80 0xBF (acc * 64 + (b &&& 0x3F).toNat) bytes
    else (false, acc, b :: bytes)

/-- Lossy decoding, `fuel` characters of it: each maximal part of an ill-formed sequence
becomes `U+FFFD`. -/
def lossyAux : ℕ → List UInt8 → List Char
  | 0, _ => []
  | _ + 1, [] => []
  | fuel + 1, b :: bytes =>
    if b < 0x80 then Char.ofNat b.toNat :: lossyAux fuel bytes
    else match continuation b with
      | none => Char.ofNat 0xFFFD :: lossyAux fuel bytes
      | some (n, lo, hi) =>
        match takeContinuation n lo hi ((b &&& (0x3F >>> UInt8.ofNat n)).toNat) bytes with
        | (true, code, rest) => Char.ofNat code :: lossyAux fuel rest
        | (false, _, rest) => Char.ofNat 0xFFFD :: lossyAux fuel rest

/-- The text of bytes, with `U+FFFD` where they are not UTF-8. A character takes a byte at
least, so the fuel is enough. -/
def fromUtf8Lossy (bytes : List UInt8) : String := String.ofList (lossyAux bytes.length bytes)

example : fromUtf8Lossy [0x68, 0xC3, 0xA9, 0xE2, 0x82, 0xFF] = "hé\uFFFD\uFFFD" := by decide

/-- The encoding is the bytes the string is kept as. -/
theorem utf8_toByteArray (s : String) : (⟨(utf8 s).toArray⟩ : ByteArray) = s.toByteArray := by
  rw [← String.utf8Encode_toList, List.utf8Encode, utf8]
  apply ByteArray.ext
  simp

/-- A text is read back from its bytes. -/
theorem fromUtf8_utf8 (s : String) : fromUtf8 (utf8 s) = some s := by
  rw [fromUtf8, utf8_toByteArray, String.fromUTF8?, dif_pos s.isValidUTF8]
  rfl

/-- A text is determined by its bytes. -/
theorem utf8_injective : Function.Injective utf8 := by
  intro s t h
  have hread := congrArg fromUtf8 h
  rwa [fromUtf8_utf8, fromUtf8_utf8, Option.some.injEq] at hread

/-- A continuation byte adds its six bits. -/
theorem takeContinuation_cons {n acc x : ℕ} {lo hi : UInt8} (bytes : List UInt8) (hlo : lo.toNat ≤ x)
    (hhi : x ≤ hi.toNat) (hx : x < 256) : takeContinuation (n + 1) lo hi acc (UInt8.ofNat x :: bytes) =
      takeContinuation n 0x80 0xBF (acc * 64 + x % 64) bytes := by
  have hnat : (UInt8.ofNat x).toNat = x := by rw [UInt8.toNat_ofNat']; omega
  have hpayload : (UInt8.ofNat x &&& 0x3F).toNat = x % 64 := by
    rw [UInt8.toNat_and, hnat]
    exact Nat.and_two_pow_sub_one_eq_mod x 6
  rw [takeContinuation, if_pos, hpayload]
  rw [UInt8.le_iff_toNat_le, UInt8.le_iff_toNat_le, hnat]
  exact ⟨hlo, hhi⟩

/-- The first byte of a sequence says how many follow, and has the first bits. -/
theorem lossyAux_lead {fuel x n code : ℕ} {lo hi : UInt8} {bytes rest : List UInt8} (hx : x < 256) (hlead : 128 ≤ x)
    (hn : n ≤ 3) (hcont : continuation (UInt8.ofNat x) = some (n, lo, hi))
    (htake : takeContinuation n lo hi (x % 2 ^ (6 - n)) bytes = (true, code, rest)) :
    lossyAux (fuel + 1) (UInt8.ofNat x :: bytes) = Char.ofNat code :: lossyAux fuel rest := by
  have hnat : (UInt8.ofNat x).toNat = x := by rw [UInt8.toNat_ofNat']; omega
  have hmask : ∀ n ≤ 3, (0x3F >>> UInt8.ofNat n : UInt8).toNat = 2 ^ (6 - n) - 1 := by decide
  have hpayload : (UInt8.ofNat x &&& (0x3F >>> UInt8.ofNat n)).toNat = x % 2 ^ (6 - n) := by
    rw [UInt8.toNat_and, hnat, hmask n hn]
    exact Nat.and_two_pow_sub_one_eq_mod x (6 - n)
  have hlt : ¬ UInt8.ofNat x < 0x80 := by
    rw [UInt8.lt_iff_toNat_lt, hnat]
    exact not_lt.2 hlead
  rw [lossyAux, if_neg hlt, hcont]
  simp only [hpayload, htake]

/-- A character of ASCII is one byte. -/
theorem utf8EncodeChar_ascii {c : Char} (h : c.toNat < 128) : String.utf8EncodeChar c = [UInt8.ofNat c.toNat] := by
  have hcode : c.val.toNat ≤ 0x7f := Nat.le_of_lt_succ h
  rw [String.utf8EncodeChar, if_pos hcode]
  rfl

/-- The encoding of a character is read as the character. -/
theorem lossyAux_encode (c : Char) (fuel : ℕ) (rest : List UInt8) :
    lossyAux (fuel + 1) (String.utf8EncodeChar c ++ rest) = c :: lossyAux fuel rest := by
  have hvalid : c.toNat < 0xD800 ∨ 0xDFFF < c.toNat ∧ c.toNat < 0x110000 := c.valid
  have hchar : Char.ofNat c.toNat = c := Char.ofNat_toNat c
  have hc : c.val.toNat = c.toNat := rfl
  have hcont {x : ℕ} (hx : x < 256) : continuation (UInt8.ofNat x) =
      if 194 ≤ x ∧ x ≤ 223 then some (1, 0x80, 0xBF) else if x = 224 then some (2, 0xA0, 0xBF)
      else if x = 237 then some (2, 0x80, 0x9F) else if 225 ≤ x ∧ x ≤ 239 then some (2, 0x80, 0xBF)
      else if x = 240 then some (3, 0x90, 0xBF) else if x = 244 then some (3, 0x80, 0x8F)
      else if 241 ≤ x ∧ x ≤ 243 then some (3, 0x80, 0xBF) else none := by
    have hnat : (UInt8.ofNat x).toNat = x := by rw [UInt8.toNat_ofNat']; omega
    simp only [continuation, UInt8.le_iff_toNat_le, ← UInt8.toNat_inj, hnat]
    rfl
  rw [String.utf8EncodeChar, hc]
  generalize c.toNat = v at *
  split_ifs with h₁ h₂ h₃
  · have hlt : UInt8.ofNat v < 0x80 := by
      rw [UInt8.lt_iff_toNat_lt, UInt8.toNat_ofNat']
      change v % 256 < 128
      omega
    rw [List.cons_append, lossyAux, if_pos hlt, UInt8.toNat_ofNat', Nat.mod_eq_of_lt (by omega), hchar]
    rfl
  · have htake : takeContinuation 1 0x80 0xBF ((v / 64 % 0x20 + 0xc0) % 2 ^ (6 - 1))
        (UInt8.ofNat (v % 0x40 + 0x80) :: rest) = (true, v, rest) := by
      rw [takeContinuation_cons rest (by change 128 ≤ _; omega) (by change _ ≤ 191; omega) (by omega), takeContinuation]
      exact congrArg (fun code => (true, code, rest)) (by omega)
    have hlead := hcont (x := v / 64 % 0x20 + 0xc0) (by omega)
    rw [if_pos ⟨by omega, by omega⟩] at hlead
    exact (lossyAux_lead (by omega) (by omega) (by omega) hlead htake).trans (by rw [hchar])
  · obtain ⟨lo, hi, hlead, hlo, hhi⟩ : ∃ lo hi : UInt8,
        continuation (UInt8.ofNat (v / 4096 % 0x10 + 0xe0)) = some (2, lo, hi) ∧
          lo.toNat ≤ v / 64 % 0x40 + 0x80 ∧ v / 64 % 0x40 + 0x80 ≤ hi.toNat := by
      rw [hcont (by omega), if_neg (by omega)]
      split_ifs
      · exact ⟨_, _, rfl, by change 160 ≤ _; omega, by change _ ≤ 191; omega⟩
      · exact ⟨_, _, rfl, by change 128 ≤ _; omega, by change _ ≤ 159; omega⟩
      · exact ⟨_, _, rfl, by change 128 ≤ _; omega, by change _ ≤ 191; omega⟩
      all_goals omega
    have htake : takeContinuation 2 lo hi ((v / 4096 % 0x10 + 0xe0) % 2 ^ (6 - 2))
        (UInt8.ofNat (v / 64 % 0x40 + 0x80) :: UInt8.ofNat (v % 0x40 + 0x80) :: rest) = (true, v, rest) := by
      rw [takeContinuation_cons _ hlo hhi (by omega),
        takeContinuation_cons rest (by change 128 ≤ _; omega) (by change _ ≤ 191; omega) (by omega), takeContinuation]
      exact congrArg (fun code => (true, code, rest)) (by omega)
    exact (lossyAux_lead (by omega) (by omega) (by omega) hlead htake).trans (by rw [hchar])
  · obtain ⟨lo, hi, hlead, hlo, hhi⟩ : ∃ lo hi : UInt8,
        continuation (UInt8.ofNat (v / 262144 % 0x08 + 0xf0)) = some (3, lo, hi) ∧
          lo.toNat ≤ v / 4096 % 0x40 + 0x80 ∧ v / 4096 % 0x40 + 0x80 ≤ hi.toNat := by
      rw [hcont (by omega), if_neg (by omega), if_neg (by omega), if_neg (by omega), if_neg (by omega)]
      split_ifs
      · exact ⟨_, _, rfl, by change 144 ≤ _; omega, by change _ ≤ 191; omega⟩
      · exact ⟨_, _, rfl, by change 128 ≤ _; omega, by change _ ≤ 143; omega⟩
      · exact ⟨_, _, rfl, by change 128 ≤ _; omega, by change _ ≤ 191; omega⟩
      · omega
    have htake : takeContinuation 3 lo hi ((v / 262144 % 0x08 + 0xf0) % 2 ^ (6 - 3))
        (UInt8.ofNat (v / 4096 % 0x40 + 0x80) :: UInt8.ofNat (v / 64 % 0x40 + 0x80) ::
          UInt8.ofNat (v % 0x40 + 0x80) :: rest) = (true, v, rest) := by
      rw [takeContinuation_cons _ hlo hhi (by omega),
        takeContinuation_cons _ (by change 128 ≤ _; omega) (by change _ ≤ 191; omega) (by omega),
        takeContinuation_cons rest (by change 128 ≤ _; omega) (by change _ ≤ 191; omega) (by omega), takeContinuation]
      exact congrArg (fun code => (true, code, rest)) (by omega)
    exact (lossyAux_lead (by omega) (by omega) (by omega) hlead htake).trans (by rw [hchar])

/-- The encodings at the front are read as the characters they encode. -/
theorem lossyAux_append (l : List Char) (fuel : ℕ) (rest : List UInt8) :
    lossyAux (l.length + fuel) (l.flatMap String.utf8EncodeChar ++ rest) = l ++ lossyAux fuel rest := by
  induction l with
  | nil => rw [List.length_nil, Nat.zero_add]; rfl
  | cons c l ih =>
    rw [List.length_cons, Nat.succ_add, List.flatMap_cons, List.append_assoc, lossyAux_encode, ih]
    rfl

theorem length_le_length_utf8 (l : List Char) : l.length ≤ (l.flatMap String.utf8EncodeChar).length := by
  induction l with
  | nil => simp
  | cons c l ih =>
    have hpos : 0 < (String.utf8EncodeChar c).length := by
      rw [String.length_utf8EncodeChar]
      exact Char.utf8Size_pos c
    simp only [List.length_cons, List.flatMap_cons, List.length_append]
    omega

/-- A text is read back from its bytes, lossily too. -/
theorem fromUtf8Lossy_utf8 (s : String) : fromUtf8Lossy (utf8 s) = s := by
  obtain ⟨fuel, hfuel⟩ := Nat.exists_eq_add_of_le (length_le_length_utf8 s.toList)
  have hread := lossyAux_append s.toList fuel []
  have hend : lossyAux fuel [] = [] := by cases fuel <;> rfl
  rw [List.append_nil, hend, List.append_nil, ← hfuel] at hread
  rw [fromUtf8Lossy, utf8, hread, String.ofList_toList]

/-- A text starts with another exactly if its bytes do. -/
theorem utf8_prefix_iff {p s : String} : utf8 p <+: utf8 s ↔ p.toList <+: s.toList := by
  constructor
  · rintro ⟨rest, hrest⟩
    -- reading the bytes of both gives the characters of the one and then those of the other
    have hwhole := lossyAux_append s.toList p.toList.length []
    have hfront := lossyAux_append p.toList s.toList.length rest
    have hend : lossyAux p.toList.length [] = [] := by cases p.toList.length <;> rfl
    rw [List.append_nil, hend, List.append_nil] at hwhole
    change lossyAux _ (utf8 p ++ rest) = _ at hfront
    rw [hrest, Nat.add_comm] at hfront
    exact ⟨_, hfront.symm.trans hwhole⟩
  · rintro ⟨rest, hrest⟩
    refine ⟨rest.flatMap String.utf8EncodeChar, ?_⟩
    rw [utf8, utf8, ← hrest, List.flatMap_append]

/-- Bytes that read as a text are its encoding. -/
theorem utf8_of_fromUtf8 {bytes : List UInt8} {s : String} (h : fromUtf8 bytes = some s) : utf8 s = bytes := by
  rw [fromUtf8, String.fromUTF8?] at h
  split_ifs at h with hvalid
  have hbytes := utf8_toByteArray s
  rw [← Option.some.inj h] at hbytes ⊢
  exact List.toArray_inj (congrArg ByteArray.data hbytes)

/-- A byte below 128 in the encoding of a character is that character. -/
theorem toNat_of_mem_utf8EncodeChar {c : Char} {b : UInt8} (h : b ∈ String.utf8EncodeChar c) (hb : b.toNat < 128) :
    c.toNat = b.toNat := by
  have hc : c.val.toNat = c.toNat := rfl
  unfold String.utf8EncodeChar at h
  simp only [hc] at h
  split_ifs at h <;> simp only [List.mem_cons, List.not_mem_nil, or_false] at h
  · rw [h, UInt8.toNat_ofNat']
    omega
  all_goals
    exfalso
    rcases h with rfl | rfl | rfl | rfl <;> simp only [UInt8.toNat_ofNat'] at hb <;> omega

/-- What does not have the property is not dropped with the front that has it. -/
theorem mem_dropWhile_of_not {α : Type*} {p : α → Bool} {l : List α} {a : α} (ha : a ∈ l) (hp : p a = false) :
    a ∈ l.dropWhile p := by
  rw [← List.takeWhile_append_dropWhile (p := p) (l := l), List.mem_append] at ha
  rcases ha with ha | ha
  · exact absurd (List.mem_takeWhile_imp ha) (by simp [hp])
  · exact ha

/-- A text with a character that is no whitespace is not blank. -/
theorem trim_ne_empty {s : String} {c : Char} (hc : c ∈ s.toList) (hw : isWhitespace c = false) : trim s ≠ "" := by
  intro h
  have hstart : c ∈ (trimStart s).toList := by
    rw [trimStart, String.toList_ofList]
    exact mem_dropWhile_of_not hc hw
  have hend : c ∈ (trim s).toList := by
    rw [trim, trimEnd, String.toList_ofList, List.mem_reverse]
    exact mem_dropWhile_of_not (List.mem_reverse.mpr hstart) hw
  simp [h] at hend

/-! ### What a split says -/

/-- A text is split at the first of its separators. -/
theorem splitOnce_eq_some {c : Char} {s before after : String} :
    splitOnce c s = some (before, after) ↔
      c ∉ before.toList ∧ s.toList = before.toList ++ c :: after.toList := by
  unfold splitOnce
  constructor
  · intro h
    split at h
    · cases h
    · next x rest hrest =>
      obtain ⟨rfl, rfl⟩ := Prod.mk.inj (Option.some.inj h)
      rw [String.toList_ofList, String.toList_ofList]
      have hx : x = c := by
        have hhead := List.head?_dropWhile_not (· != c) s.toList
        rw [hrest] at hhead
        simpa using hhead
      refine ⟨fun hmem => ?_, ?_⟩
      · simpa using List.mem_takeWhile_imp hmem
      · rw [← hx, ← hrest, hx, List.takeWhile_append_dropWhile]
  · rintro ⟨hbefore, hs⟩
    have hall : ∀ x ∈ before.toList, (x != c) = true := by
      intro x hx
      exact bne_iff_ne.2 fun heq => hbefore (heq ▸ hx)
    rw [hs, List.dropWhile_append_of_pos hall, List.takeWhile_append_of_pos hall]
    simp

theorem stripPrefix_eq_some {p s rest : String} : stripPrefix p s = some rest ↔ s.toList = p.toList ++ rest.toList := by
  rw [stripPrefix]
  split_ifs with h
  · obtain ⟨t, ht⟩ := h
    rw [Option.some.injEq, ← ht, List.drop_left, List.append_cancel_left_eq]
    constructor
    · rintro rfl
      rw [String.toList_ofList]
    · intro h
      rw [h, String.ofList_toList]
  · simp only [false_iff]
    exact fun hs => h ⟨_, hs.symm⟩

/-- Dropping stops at what does not have the property. -/
theorem dropWhile_append_cons {α : Type*} {p : α → Bool} {a : α} (ha : p a = false) (l rest : List α) :
    (l ++ a :: rest).dropWhile p = l.dropWhile p ++ a :: rest := by
  rw [List.dropWhile_append]
  split_ifs with h
  · rw [List.isEmpty_iff.1 h, List.nil_append, List.dropWhile_cons_of_neg (by simp [ha])]
  · rfl

/-- A text that neither begins nor ends with whitespace is trimmed. -/
theorem trim_eq_self {s : String} (hhead : s.toList.head?.any isWhitespace = false)
    (hlast : s.toList.getLast?.any isWhitespace = false) : trim s = s := by
  have hdrop : ∀ l : List Char, l.head?.any isWhitespace = false → l.dropWhile isWhitespace = l := by
    intro l hl
    cases l with
    | nil => rfl
    | cons c l => exact List.dropWhile_cons_of_neg (by simpa using hl)
  rw [trim, trimStart, hdrop _ hhead, String.ofList_toList, trimEnd, hdrop _ (by rwa [List.head?_reverse]),
    List.reverse_reverse, String.ofList_toList]

/-- Trimming again changes nothing. -/
theorem trim_trimStart (s : String) : trim (trimStart s) = trim s := by
  rw [trim, trim, trimStart, trimStart, String.toList_ofList, List.dropWhile_idempotent]

/-! ### Joining with a separator -/

section Join

variable {α : Type*} {c : α} {a a' b b' : List α}

/-- A join is determined up to the first separator, if the parts before it have none. -/
theorem append_cons_inj_of_not_mem (ha : c ∉ a) (ha' : c ∉ a') (h : a ++ c :: b = a' ++ c :: b') :
    a = a' ∧ b = b' := by
  induction a generalizing a' with
  | nil =>
    cases a' with
    | nil => exact ⟨rfl, (List.cons.inj h).2⟩
    | cons x a' => exact absurd (by rw [(List.cons.inj h).1]; exact List.mem_cons_self ..) ha'
  | cons x a ih =>
    cases a' with
    | nil => exact absurd (by rw [← (List.cons.inj h).1]; exact List.mem_cons_self ..) ha
    | cons y a' =>
      simp only [List.cons_append, List.cons.injEq] at h
      obtain ⟨rfl, h⟩ := h
      obtain ⟨rfl, rfl⟩ := ih (List.not_mem_of_not_mem_cons ha) (List.not_mem_of_not_mem_cons ha') h
      exact ⟨rfl, rfl⟩

/-- A join is determined from the last separator, if the parts after it have none. -/
theorem append_cons_inj_of_not_mem_right (hb : c ∉ b) (hb' : c ∉ b') (h : a ++ c :: b = a' ++ c :: b') :
    a = a' ∧ b = b' := by
  have hrev : b.reverse ++ c :: a.reverse = b'.reverse ++ c :: a'.reverse := by
    simpa using congrArg List.reverse h
  obtain ⟨h₁, h₂⟩ := append_cons_inj_of_not_mem (by simpa using hb) (by simpa using hb') hrev
  exact ⟨List.reverse_injective h₂, List.reverse_injective h₁⟩

/-- Two equal joins are the same, or the first part of one goes on with the separator where the
second part of the other begins. -/
theorem append_cons_eq_append_cons (h : a ++ c :: b = a' ++ c :: b') :
    (a = a' ∧ b = b') ∨ (∃ s, a' = a ++ c :: s ∧ b = s ++ c :: b') ∨
      ∃ s, a = a' ++ c :: s ∧ b' = s ++ c :: b := by
  rcases List.append_eq_append_iff.1 h with ⟨s, ha, hb⟩ | ⟨s, ha, hb⟩
  · cases s with
    | nil => exact .inl ⟨by simpa using ha.symm, by simpa using hb⟩
    | cons x s =>
      simp only [List.cons_append, List.cons.injEq] at hb
      obtain ⟨rfl, hb⟩ := hb
      exact .inr (.inl ⟨s, ha, hb⟩)
  · cases s with
    | nil => exact .inl ⟨by simpa using ha, by simpa using hb.symm⟩
    | cons x s =>
      simp only [List.cons_append, List.cons.injEq] at hb
      obtain ⟨rfl, hb⟩ := hb
      exact .inr (.inr ⟨s, ha, hb⟩)

/-- Parts without the separator are read off their join, if no part is empty. -/
theorem intercalate_inj [DecidableEq α] {ls ls' : List (List α)} (h : ∀ l ∈ ls, c ∉ l ∧ l ≠ [])
    (h' : ∀ l ∈ ls', c ∉ l ∧ l ≠ []) (heq : [c].intercalate ls = [c].intercalate ls') : ls = ls' := by
  -- an empty join is the join of no parts, or of one empty part
  have hnil : ∀ {ks : List (List α)}, (∀ l ∈ ks, c ∉ l ∧ l ≠ []) → [c].intercalate ks = [] → ks = [] := by
    intro ks hks hempty
    by_contra hne
    have hsplit := List.splitOn_intercalate c (fun l hl => (hks l hl).1) hne
    rw [hempty, List.splitOn_nil] at hsplit
    exact (hks [] (hsplit ▸ List.mem_singleton_self _)).2 rfl
  by_cases hls : ls = []
  · rw [hls, hnil h' (by rw [← heq, hls]; rfl)]
  · by_cases hls' : ls' = []
    · exact absurd (hnil h (by rw [heq, hls']; rfl)) hls
    · rw [← List.splitOn_intercalate c (fun l hl => (h l hl).1) hls, heq,
        List.splitOn_intercalate c (fun l hl => (h' l hl).1) hls']

/-- What a join holds is of the separator or of a part. -/
theorem mem_intercalate {sep : List α} {ls : List (List α)} {x : α} (h : x ∈ sep.intercalate ls) :
    x ∈ sep ∨ ∃ l ∈ ls, x ∈ l := by
  induction ls with
  | nil => exact absurd h List.not_mem_nil
  | cons l ls ih =>
    by_cases hls : ls = []
    · subst hls
      exact .inr ⟨l, List.mem_singleton_self l, by simpa using h⟩
    · rw [List.intercalate_cons_of_ne_nil hls, List.mem_append, List.mem_append] at h
      rcases h with (h | h) | h
      · exact .inr ⟨l, List.mem_cons_self, h⟩
      · exact .inl h
      · refine (ih h).imp_right ?_
        rintro ⟨k, hk, hx⟩
        exact ⟨k, List.mem_cons_of_mem l hk, hx⟩

/-- What a part holds is in the join. -/
theorem mem_intercalate_of_mem {sep l : List α} {ls : List (List α)} {x : α} (hl : l ∈ ls) (hx : x ∈ l) :
    x ∈ sep.intercalate ls := by
  induction ls with
  | nil => cases hl
  | cons k ls ih =>
    by_cases hls : ls = []
    · subst hls
      obtain rfl := List.mem_singleton.1 hl
      simpa using hx
    · rw [List.intercalate_cons_of_ne_nil hls, List.mem_append]
      rcases List.mem_cons.1 hl with rfl | hl
      · exact .inl (List.mem_append_left _ hx)
      · exact .inr (ih hl)

/-- What a piece of a list holds is in the list. -/
theorem mem_of_mem_splitOn [DecidableEq α] {l piece : List α} {x : α} (hpiece : piece ∈ l.splitOn c) (hx : x ∈ piece) :
    x ∈ l := by
  have hjoin : [c].intercalate (l.splitOn c) = l := List.intercalate_splitOn c
  rw [← hjoin]
  exact mem_intercalate_of_mem hpiece hx

/-- A piece has no separator in it. -/
theorem not_mem_of_mem_splitOn [DecidableEq α] {l piece : List α} (h : piece ∈ l.splitOn c) : c ∉ piece := by
  induction l generalizing piece with
  | nil =>
    rw [List.splitOn_nil, List.mem_singleton] at h
    simp [h]
  | cons x l ih =>
    rw [List.splitOn_cons_eq_if_modifyHead] at h
    split_ifs at h with hx
    · rcases List.mem_cons.1 h with rfl | h
      · simp
      · exact ih h
    · cases hsplit : l.splitOn c with
      | nil => exact absurd hsplit (List.splitOn_ne_nil c l)
      | cons first rest =>
        rw [hsplit, List.modifyHead_cons, List.mem_cons] at h
        rcases h with rfl | h
        · have hfirst := ih (hsplit ▸ List.mem_cons_self : first ∈ l.splitOn c)
          have hne : c ≠ x := fun heq => hx (by simp [heq])
          simp [hne, hfirst]
        · exact ih (by rw [hsplit]; exact List.mem_cons_of_mem _ h)

end Join

/-- What is left of a text after trimming was in it. -/
theorem mem_of_mem_trim {s : String} {c : Char} (h : c ∈ (trim s).toList) : c ∈ s.toList := by
  rw [trim, trimEnd, String.toList_ofList, List.mem_reverse] at h
  have hstart := List.mem_reverse.1 ((List.dropWhile_sublist _).subset h)
  rw [trimStart, String.toList_ofList] at hstart
  exact (List.dropWhile_sublist _).subset hstart

end G2way.Lib.Text
